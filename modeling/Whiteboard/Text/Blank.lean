import Whiteboard.Text.Span

namespace Whiteboard
namespace Text

/-!
White space, and the trimming and splitting operations that depend on it.
-/

def blankIntervals : List (Nat × Nat) :=
  [(0x9,4),(0x20,0),(0x85,0),(0xA0,0),(0x1680,0),(0x2000,10),(0x2028,1),(0x202F,0),(0x205F,0),(0x3000,0)]

/-- White space of any script. -/
def isBlank (c : Char) : Bool :=
  inIntervals blankIntervals c.toNat

def dropBlanks (cs : List Char) : List Char :=
  cs.dropWhile isBlank

/-- The characters without the longest suffix that satisfies `p`. -/
def dropTrailing (p : Char → Bool) : List Char → List Char
  | [] => []
  | c :: cs =>
    match dropTrailing p cs with
    | [] => if p c then [] else [c]
    | rest => c :: rest

def trimBlanks (cs : List Char) : List Char :=
  dropTrailing isBlank (dropBlanks cs)

def trim (s : String) : String :=
  String.ofList (trimBlanks s.toList)

/-- Only white space, or nothing. -/
def isBlankText (s : String) : Bool :=
  s.toList.all isBlank

def opensWith (c : Char) (s : String) : Bool :=
  s.toList.head? == some c

/-- Splits at every character that satisfies `p`; empty pieces are kept. -/
def splitWhere (p : Char → Bool) : List Char → List (List Char)
  | [] => [[]]
  | c :: cs =>
    if p c then [] :: splitWhere p cs
    else
      match splitWhere p cs with
      | [] => [[c]]
      | piece :: rest => (c :: piece) :: rest

/-- The nonempty pieces between characters that satisfy `p`. -/
def piecesBetween (p : Char → Bool) (cs : List Char) : List (List Char) :=
  (splitWhere p cs).filter (fun piece => !piece.isEmpty)

/-- The words of a text: its maximal runs without white space. -/
def words (s : String) : List String :=
  (piecesBetween isBlank s.toList).map String.ofList

end Text
end Whiteboard
