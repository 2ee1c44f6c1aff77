import Whiteboard.Text.Blank

namespace Whiteboard
namespace Text

/-!
A source as a list of lines.  Lines end at line feeds; carriage returns at the end of a line do
not belong to it.
-/

/-- The lines of a text; a text without a line feed is one line. -/
def splitLines (s : String) : List (List Char) :=
  splitWhere (· == '\n') s.toList

def dropReturns (line : List Char) : List Char :=
  dropTrailing (· == '\r') line

def sourceLines (s : String) : List (List Char) :=
  (splitLines s).map dropReturns

/-- The pieces of `parts` with `separator` between neighbours. -/
def joinWith (separator : String) (parts : List String) : String :=
  separator.intercalate parts

def repeated (n : Nat) (s : String) : String :=
  String.join (List.replicate n s)

def spaces (n : Nat) : String :=
  String.ofList (List.replicate n ' ')

/-- Does `needle` occur in `cs`? -/
def occursIn (needle : List Char) : List Char → Bool
  | [] => needle.isEmpty
  | c :: cs => needle.isPrefixOf (c :: cs) || occursIn needle cs

end Text
end Whiteboard
