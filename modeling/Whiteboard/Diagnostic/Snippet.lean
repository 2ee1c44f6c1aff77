import Whiteboard.Location
import Whiteboard.Text.Lines

namespace Whiteboard
namespace Snippet

/-!
Excerpts of a source for messages: the line of a location, with a caret under its column.
-/

/-- White space that reaches up to a column: tabs stay tabs, so that the caret lines up. -/
def caretPadding (line : List Char) (column : Int) : List Char :=
  let width := (column - 1).toNat
  (line.take width).map (fun c => if c == '\t' then '\t' else ' ') ++
    List.replicate (width - line.length) ' '

/-- The `n`-th line of a source, counted from one. -/
def lineAt (source : String) (n : Int) : Option (List Char) :=
  if n ≤ 0 then none else (Text.sourceLines source)[(n - 1).toNat]?

/-- The line of a location and a caret under its column; empty if there is no such line. -/
def render (source : String) (loc : Location) : String :=
  match lineAt source loc.line with
  | none => ""
  | some line =>
    let number := toString loc.line
    "  " ++ number ++ " | " ++ String.ofList line ++ "\n" ++
      "  " ++ Text.spaces number.length ++ " | " ++
        String.ofList (caretPadding line loc.column) ++ "^\n"

def contextLine (loc : Location) (width : Nat) (number : Nat) (line : List Char) : String :=
  let marked := decide ((number : Int) = loc.line)
  let digits := toString number
  (if marked then "->" else "  ") ++ " " ++ Text.spaces (width - digits.length) ++ digits ++
    " | " ++ String.ofList line ++ "\n" ++
    (if marked && decide (0 < loc.column) then
      "   " ++ Text.spaces width ++ " | " ++ String.ofList (caretPadding line loc.column) ++ "^\n"
    else "")

/-- The line of a location among up to `around` lines before and after it. -/
def context (source : String) (loc : Location) (around : Int) : String :=
  let lines := Text.sourceLines source
  if !loc.isValid || decide ((lines.length : Int) < loc.line) then ""
  else
    let first := max 1 (loc.line - around)
    let last := min (lines.length : Int) (loc.line + around)
    let width := (toString last).length
    let numbered := lines.mapIdx (fun i line => (i + 1, line))
    let shown := numbered.filter (fun p => decide (first ≤ (p.1 : Int)) && decide ((p.1 : Int) ≤ last))
    String.join (shown.map (fun p => contextLine loc width p.1 p.2))

end Snippet
end Whiteboard
