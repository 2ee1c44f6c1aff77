namespace Whiteboard

/-!
Positions in a source.  Lines and columns count from one; a column counts characters.
-/

/-- A place in a source; the file is empty for input without a name. -/
structure Location where
  file : String := ""
  line : Int := 0
  column : Int := 0
  deriving DecidableEq, Inhabited

namespace Location

/-- Does the location point at a line? -/
def isValid (l : Location) : Bool :=
  decide (0 < l.line)

/-- Written as `file:line:column`, without the file if there is none. -/
def text (l : Location) : String :=
  if l.isValid then
    let place := toString l.line ++ ":" ++ toString l.column
    if l.file.isEmpty then place else l.file ++ ":" ++ place
  else "<unknown>"

end Location
end Whiteboard
