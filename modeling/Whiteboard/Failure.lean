import Whiteboard.Diagnostic

namespace Whiteboard

/-!
Everything that can go wrong in a command or a service, with the contexts it passed through on
its way out.
-/

/-- A setting whose value is not allowed. -/
structure Violation where
  field : String
  message : String
  deriving DecidableEq, Inhabited

namespace Violation

def text (v : Violation) : String :=
  v.field ++ ": " ++ v.message

/-- The text of a list of violations: one on the headline, several below it. -/
def listText : List Violation → String
  | [] => "configuration validation failed"
  | [v] => "configuration validation failed: " ++ v.text
  | vs =>
    "configuration validation failed with " ++ toString vs.length ++ " errors:\n" ++
      String.join (vs.map fun v => "  - " ++ v.text ++ "\n")

end Violation

/-- What went wrong, at the place where it was noticed (`within` adds a context). -/
inductive Failure where
  | diagnostic (d : Diagnostic)
  | settings (violations : List Violation)
  | flag (name value reason : String)
  | stated (text : String)
  | within (context : String) (cause : Failure)
  deriving DecidableEq, Inhabited

namespace Failure

def text : Failure → String
  | diagnostic d => d.text
  | settings vs => Violation.listText vs
  | flag name value reason => "invalid --" ++ name ++ " " ++ Text.quoted value ++ ": " ++ reason
  | stated text => text
  | within context cause => context ++ ": " ++ cause.text

def root : Failure → Failure
  | within _ cause => cause.root
  | f => f

def diagnostic? (f : Failure) : Option Diagnostic :=
  match f.root with
  | diagnostic d => some d
  | _ => none

def listText (fs : List Failure) : String :=
  if fs.isEmpty then ""
  else
    "Found " ++ toString fs.length ++ " error(s):\n\n" ++
      String.join (fs.mapIdx fun i f => "Error " ++ toString (i + 1) ++ ":\n" ++ f.text ++ "\n")

/-- The diagnostics of one stage that stand in a list without a context. -/
def ofStage (stage : String) (fs : List Failure) : List Diagnostic :=
  fs.filterMap fun f =>
    match f with
    | diagnostic d => if d.problem.stage == stage then some d else none
    | _ => none

/-- How a run over several sources ended in failure. -/
def batchText (failed total : Int) : String :=
  if total == 1 then "compilation failed"
  else toString failed ++ " of " ++ toString total ++ " files failed to compile"

end Failure
end Whiteboard
