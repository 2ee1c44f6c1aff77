import Whiteboard.Data
import Whiteboard.Text.Lines
import Whiteboard.Text.Quoted

namespace Whiteboard
namespace Json

/-!
Plain data written as JSON, on one line or indented by two spaces.  Records keep the order of
their fields; `Data.sorted` puts the fields into the order of their names first.
-/

/-- Which characters are escaped beyond the quote, the backslash, the controls of ASCII and the
two separators that end lines in scripts.  `markup` escapes `<`, `>` and `&`; `shortBackspace`
writes backspace and form feed by their letters. -/
structure Escaping where
  markup : Bool
  shortBackspace : Bool
  deriving DecidableEq

/-- Safe inside markup. -/
def Escaping.embedded : Escaping := ⟨true, true⟩

/-- For log lines: markup stays readable. -/
def Escaping.logged : Escaping := ⟨false, false⟩

def codeEscape (c : Char) : List Char :=
  '\\' :: 'u' :: Text.hexDigits 4 c.toNat

def escapeChar (e : Escaping) (c : Char) : List Char :=
  match c with
  | '"' => ['\\', '"']
  | '\\' => ['\\', '\\']
  | '\n' => ['\\', 'n']
  | '\r' => ['\\', 'r']
  | '\t' => ['\\', 't']
  | c =>
    if e.shortBackspace && c.toNat == 8 then ['\\', 'b']
    else if e.shortBackspace && c.toNat == 12 then ['\\', 'f']
    else if c.toNat < 32 || c.toNat == 0x2028 || c.toNat == 0x2029 then codeEscape c
    else if e.markup && (c == '<' || c == '>' || c == '&') then codeEscape c
    else [c]

def quoted (e : Escaping) (s : String) : String :=
  String.ofList (('"' :: s.toList.flatMap (escapeChar e)) ++ ['"'])

/-- How the parts of lists and records are set: where a part begins, what follows the name of a
field. -/
structure Spacing where
  indent : Option Nat
  deriving DecidableEq

/-- A new line at a depth, or nothing if all is on one line. -/
def Spacing.newLine (sp : Spacing) (depth : Nat) : String :=
  match sp.indent with
  | some width => "\n" ++ Text.spaces (width * depth)
  | none => ""

def Spacing.afterName (sp : Spacing) : String :=
  if sp.indent.isSome then ": " else ":"

mutual

/-- The text of plain data that stands at a depth. -/
def write (e : Escaping) (sp : Spacing) (depth : Nat) : Data → String
  | .null => "null"
  | .bool b => if b then "true" else "false"
  | .int n => toString n
  | .number digits => digits
  | .text s => quoted e s
  | .list [] => "[]"
  | .list (x :: xs) =>
    "[" ++ Text.joinWith "," (writeList e sp (depth + 1) (x :: xs)) ++ sp.newLine depth ++ "]"
  | .record [] => "\x7b\x7d"
  | .record (f :: fs) =>
    "\x7b" ++ Text.joinWith "," (writeFields e sp (depth + 1) (f :: fs)) ++ sp.newLine depth ++
      "\x7d"

def writeList (e : Escaping) (sp : Spacing) (depth : Nat) : List Data → List String
  | [] => []
  | x :: xs => (sp.newLine depth ++ write e sp depth x) :: writeList e sp depth xs

def writeFields (e : Escaping) (sp : Spacing) (depth : Nat) : List (String × Data) → List String
  | [] => []
  | (name, x) :: fs =>
    (sp.newLine depth ++ quoted e name ++ sp.afterName ++ write e sp depth x) ::
      writeFields e sp depth fs

end

def compact (d : Data) : String :=
  write .embedded ⟨none⟩ 0 d

def indented (d : Data) : String :=
  write .embedded ⟨some 2⟩ 0 d

end Json

namespace Data

mutual

/-- The same data with the fields of every record in the order of their names. -/
def sorted : Data → Data
  | .list xs => .list (sortedList xs)
  | .record fs => .record ((sortedFields fs).mergeSort (fun a b => decide (a.1 ≤ b.1)))
  | d => d

def sortedList : List Data → List Data
  | [] => []
  | x :: xs => x.sorted :: sortedList xs

def sortedFields : List (String × Data) → List (String × Data)
  | [] => []
  | (name, x) :: fs => (name, x.sorted) :: sortedFields fs

end

mutual

/-- A plain reading form: lists in brackets, records as `map[name:value …]`, absent parts as
`<nil>`. -/
def plainText : Data → String
  | .null => "<nil>"
  | .bool b => if b then "true" else "false"
  | .int n => toString n
  | .number digits => digits
  | .text s => s
  | .list xs => "[" ++ Text.joinWith " " (plainTexts xs) ++ "]"
  | .record fs => "map[" ++ Text.joinWith " " (plainFields fs) ++ "]"

def plainTexts : List Data → List String
  | [] => []
  | x :: xs => x.plainText :: plainTexts xs

def plainFields : List (String × Data) → List String
  | [] => []
  | (name, x) :: fs => (name ++ ":" ++ x.plainText) :: plainFields fs

end

end Data
end Whiteboard
