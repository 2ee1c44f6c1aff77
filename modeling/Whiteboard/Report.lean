import Whiteboard.Data
import Whiteboard.Failure
import Whiteboard.Latex.Document

namespace Whiteboard

/-!
Failures and warnings as they are reported: as lines for a terminal, and as plain data for other
programs.
-/

def Text.firstLine (s : String) : String :=
  String.ofList (s.toList.takeWhile (· != '\n'))

namespace Report

def placeLine (loc : Location) : String :=
  if loc.isValid then "  --> " ++ loc.text ++ "\n" else ""

def excerpt (snippet : String) : String :=
  if snippet.isEmpty then ""
  else String.ofList (Text.dropTrailing (· == '\n') snippet.toList) ++ "\n"

/-- A failure: the stage and headline of its diagnostic, then place, excerpt and hint. -/
def failure (f : Failure) : String :=
  match f.diagnostic? with
  | none => "error: " ++ f.text ++ "\n"
  | some d =>
    "error[" ++ d.problem.stage ++ "]: " ++ Text.firstLine d.problem.message ++ "\n" ++
      placeLine d.loc ++ excerpt d.snippet ++
      (match d.problem.suggestion with
        | some hint => "  = suggestion: " ++ hint ++ "\n"
        | none => "")

def warning (w : Warning) : String :=
  "warning: " ++ w.message ++ "\n" ++ placeLine w.loc

end Report

/-- A failure for other programs.  A failure of a source has the stage as its type and names the
place; every other one is internal. -/
def Failure.toData (f : Failure) : Data :=
  match f.diagnostic? with
  | none => .record [("type", .text "internal"), ("message", .text f.text)]
  | some d => .record
      ([("type", .text d.problem.stage), ("message", .text (Text.firstLine f.text))] ++
        Data.intField "line" d.loc.line ++ Data.intField "column" d.loc.column ++
        Data.textField "snippet" d.snippet)

def Warning.toData (w : Warning) : Data :=
  .record [("line", .int w.loc.line), ("column", .int w.loc.column), ("message", .text w.message)]

end Whiteboard
