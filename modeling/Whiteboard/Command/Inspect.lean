import Whiteboard.Command.Desk
import Whiteboard.Document.Outline
import Whiteboard.Report.Format
import Whiteboard.Text.Columns

namespace Whiteboard
namespace Command

/-!
Showing the tokens and the tree of a source.
-/

def inspectFlags : List Flag :=
  [{ name := "format" }]

def inspected (h : Host) (a : Arguments) (d : Desk) (input : String) :
    Except Failure (Tools × String × String × Desk) := do
  let s ← settings h a
  let (source, name, d) := d.read input
  let source ← source
  return (← tools s, source, name, d)

def tokenLine (t : Token) : String :=
  toString t.line ++ ":" ++ toString t.column ++ "\t" ++ t.kind.name ++ "\t" ++ t.value ++ "\t" ++
    (if t.literal.isEmpty then "" else Text.quoted t.literal) ++ "\n"

def tokenData (t : Token) : Data :=
  .record
    ([("line", .int t.line), ("column", .int t.column), ("kind", .text t.kind.name)] ++
      Data.textField "value" t.value ++ Data.textField "literal" t.literal)

def showTokens (h : Host) (a : Arguments) (d : Desk) (input : String) : Except Failure Desk := do
  let format ← OutputFormat.choose (a.text "format" "text") ["text", "json"]
  let (t, source, name, d) ← inspected h a d input
  let (result, _, telemetry) := t.compiler.tokens name source
  let d := d.log t.logger telemetry.notes
  let tokens ← result.mapError .diagnostic
  return d.print
    (if format == "json" then OutputFormat.json.printLine (.list (tokens.map tokenData))
     else Text.inColumns 2 (String.join (tokens.map tokenLine)))

def showTree (h : Host) (a : Arguments) (d : Desk) (input : String) :
    Except Failure Desk := do
  let _ ← OutputFormat.choose (a.text "format" "json") ["json", "yaml"]
  let (t, source, name, d) ← inspected h a d input
  let (result, _, telemetry) := t.compiler.document name source
  let d := d.log t.logger telemetry.notes
  let doc ← result.mapError .diagnostic
  return d.print (OutputFormat.json.printLine (Data.list doc.toData).sorted)

end Command
end Whiteboard
