import Whiteboard.Command.Desk
import Whiteboard.Report.Format
import Whiteboard.Report.Progress

namespace Whiteboard
namespace Command

/-!
Compiling files, one or many.  A single result is printed; each of many goes to a file of its own.
-/

def compileFlags : List Flag :=
  [{ name := "dialect", letter := some 'd' }, { name := "output", letter := some 'o' },
   { name := "standalone", kind := .switch }, { name := "format" },
   { name := "max-line-width", kind := .number }, { name := "progress", kind := .switch },
   { name := "rev" }]

/-- The path of the result of a file: its extension becomes `.tex`. -/
def texPath (input : String) : Except Failure String :=
  if Text.lowerText (Path.extension input) == ".tex" then
    .error (.stated (input ++ ": refusing to overwrite a .tex input"))
  else .ok (Path.stem input ++ ".tex")

/-- Where a result goes; none is the output stream.  `multi` tells that there are several. -/
def outputPath (input : String) (multi : Bool) (output : String) : Except Failure (Option String) :=
  if output == "-" then .ok none
  else if !multi then .ok (if output.isEmpty then none else some output)
  else if input == "-" then .ok none
  else do
    let tex ← texPath input
    return some (if output.isEmpty then tex else Path.join output (Path.base tex))

/-- The result for one input; there are no warnings if nothing was compiled. -/
structure CompileReport where
  file : String
  output : String := ""
  warnings : Option (List Warning) := none
  error : Option Failure := none
  cached : Bool := false

def CompileReport.toData (r : CompileReport) : Data :=
  .record
    ([("file", .text r.file), ("output", .text r.output),
      ("warnings", match r.warnings with
        | some ws => .list (ws.map Warning.toData)
        | none => .null),
      ("error", match r.error with
        | some f => f.toData
        | none => .null)] ++ Data.boolField "cached" r.cached)

/-- How the inputs of a run are compiled: `quiet` does not tell what was written. -/
structure CompileRun where
  host : Host
  logger : Log.Logger
  multi : Bool
  printed : Bool
  output : String
  quiet : Bool
  rev : String

namespace CompileRun

def source (c : CompileRun) (d : Desk) (input : String) : Except Failure String × String × Desk :=
  if c.rev.isEmpty then d.read input
  else
    let dir := Path.dir input
    match c.host.repository with
    | none =>
      (.error (.within ("failed to open git repository at " ++ dir)
        (.stated "repository does not exist")), input, d)
    | some r =>
      match r.openAt dir with
      | .error f => (.error f, input, d)
      | .ok r =>
        match r.read c.rev input with
        | .ok (text, commit) => (.ok text, input ++ "@" ++ Commit.shortName commit.name, d)
        | .error f => (.error f.toFailure, input, d)

def deliver (c : CompileRun) (d : Desk) (input text : String) : Except Failure Desk := do
  match ← outputPath input c.multi c.output with
  | none => return d.print text
  | some path =>
    let d ← d.write path text
    return if c.quiet then d else d.tell ("wrote " ++ path ++ "\n")

/-- Compiles one input.  Failures and warnings are told as they come, if results are printed. -/
def one (c : CompileRun) (d : Desk) (compiler : Compiler Cache.Store) (input : String) :
    CompileReport × Desk × Compiler Cache.Store :=
  let failed (r : CompileReport) (d : Desk) (f : Failure) : CompileReport × Desk :=
    ({ r with error := some f }, if c.printed then d.tell (Report.failure f) else d)
  let (source, name, d) := c.source d input
  let report : CompileReport := { file := name }
  match source with
  | .error f =>
    let (report, d) := failed report d f
    (report, d, compiler)
  | .ok source =>
    let request : Request :=
      { name := name, source := source, dialect := compiler.options.layout.dialect }
    let (result, compiler, telemetry) := compiler.compile request c.host.moment
    let d := d.log c.logger telemetry.notes
    match result with
    | .error e =>
      let (report, d) := failed report d (.diagnostic e)
      (report, d, compiler)
    | .ok r =>
      let report := { report with
        output := r.rendered.text, warnings := some r.rendered.warnings, cached := r.cached }
      if !c.printed then (report, d, compiler)
      else
        let d := d.tell (String.join (r.rendered.warnings.map Report.warning))
        match c.deliver d input r.rendered.text with
        | .ok d => (report, d, compiler)
        | .error f =>
          let (report, d) := failed report d f
          (report, d, compiler)

def all (c : CompileRun) (bar : Option Progress) (d : Desk) (compiler : Compiler Cache.Store) :
    List String → List CompileReport × Option Progress × Desk
  | [] => ([], bar, d)
  | input :: inputs =>
    let (report, d, compiler) := c.one d compiler input
    let bar := bar.map fun p => p.step report.file report.error.isNone
    let d := d.tell ((bar.map Progress.line).getD "")
    let (reports, bar, d) := all c bar d compiler inputs
    (report :: reports, bar, d)

end CompileRun

/-- How a run ended: the desk, and the failure that ended it.  A batch in which some inputs failed
has told about them already. -/
inductive Ending where
  | done
  | failed (f : Failure)
  | batch (failed total : Nat)

/-- The settings under the flags of the command. -/
def compileSettings (s : Settings) (a : Arguments) : Except Failure Settings := do
  let s ← withDialect s (a.text "dialect")
  let s := if a.switch "standalone" then { s with compiler.standalone := true } else s
  let width := a.number "max-line-width" (-1)
  return if 0 ≤ width then { s with compiler.maxLineWidth := width } else s

def compile (h : Host) (a : Arguments) (d : Desk) : Except Failure (Desk × Ending) := do
  let format ← OutputFormat.choose (a.text "format" "text") ["text", "json"]
  let output := a.text "output"
  if format == "json" && !output.isEmpty then
    throw (.flag "output" output "cannot be combined with --format json")
  let s ← settings h a
  let s ← compileSettings s a
  let t ← tools s
  let inputs := if a.rest.isEmpty then ["-"] else a.rest
  let rev := a.text "rev"
  if !rev.isEmpty && inputs.contains "-" then
    throw (.flag "rev" rev "cannot be combined with stdin")
  let multi := decide (1 < inputs.length)
  let run : CompileRun :=
    { host := h, logger := t.logger, multi := multi, printed := format == "text", output := output,
      quiet := a.switch "progress", rev := rev }
  let bar := if a.switch "progress" && multi then some (Progress.start inputs.length) else none
  let d := d.tell ((bar.map Progress.line).getD "")
  let (reports, bar, d) := run.all bar d t.compiler inputs
  let d := d.tell ((bar.map fun p => p.lastLine h.elapsed).getD "")
  let d :=
    if format == "json" then
      let data : List Data := reports.map CompileReport.toData
      d.print (OutputFormat.json.printLine (if multi then .list data else data.headD .null))
    else d
  let failed := reports.countP fun r => r.error.isSome
  return (d, if failed == 0 then .done else .batch failed inputs.length)

end Command
end Whiteboard
