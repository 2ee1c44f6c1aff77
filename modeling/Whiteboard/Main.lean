import Whiteboard.Command
import Whiteboard.Settings.Notations

/-!
The program itself: it gathers what a run may read, and carries out what the run decided.
-/

namespace Whiteboard
namespace Program

/-- Adds what is found at a path. -/
def gather (fs : Files) (path : String) : IO Files := do
  try
    return fs.addText path (← IO.FS.readFile path)
  catch e =>
    match e with
    | .inappropriateType .. => return fs.addDir path
    | _ => return fs

/-- Everything that is left of a stream. -/
partial def drain (stream : IO.FS.Stream) (read : String) : IO String := do
  let line ← stream.getLine
  if line.isEmpty then return read else drain stream (read ++ line)

/-- The environment, as far as settings look at it. -/
def environment : IO Settings.Environment := do
  let pairs ← Settings.schema.mapM fun e => do
    let name := e.variableName
    return (name, (← IO.getEnv name).getD "")
  return fun name => (pairs.lookup name).getD ""

/-- What a command line may read. -/
def host (words : List String) : IO Command.Host := do
  match Command.Invocation.read words with
  | .error _ => return { notations := .standard }
  | .ok i =>
    let files ← i.paths.foldlM gather {}
    let input ← if i.readsInput then drain (← IO.getStdin) "" else pure ""
    let now ← IO.monoNanosNow
    return {
      notations := .standard
      files := files
      input := input
      env := ← environment
      moment := ⟨toString now, now, "0s"⟩
      elapsed := "0s" }

end Program
end Whiteboard

open Whiteboard in
def main (words : List String) : IO UInt32 := do
  let outcome := Command.run (← Program.host words) words
  for (path, text) in outcome.written do
    IO.FS.createDirAll (Path.dir path)
    IO.FS.writeFile path text
  (← IO.getStdout).putStr outcome.out
  (← IO.getStderr).putStr outcome.err
  return UInt32.ofNat outcome.exit
