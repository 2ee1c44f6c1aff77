import Whiteboard.Cache.Store
import Whiteboard.Command.Flag
import Whiteboard.Compiler
import Whiteboard.Files
import Whiteboard.Report
import Whiteboard.Repository
import Whiteboard.Settings.Load

namespace Whiteboard
namespace Command

/-!
Where a command works: the files and the input it can read, what it has written so far, and the
compiler that its settings ask for.
-/

/-- What is given to a run of the program.  The moment and the time that a run takes are not
decided here. -/
structure Host where
  notations : Settings.Notations
  files : Files := {}
  input : String := ""
  env : Settings.Environment := fun _ => ""
  repository : Option Repository := none
  moment : Moment := ⟨"", 0, ""⟩
  elapsed : String := ""

/-- The files as they are by now, what is left of the input, and what was printed. -/
structure Desk where
  files : Files
  input : String
  out : String := ""
  err : String := ""

namespace Desk

def ofHost (h : Host) : Desk where
  files := h.files
  input := h.input

def print (d : Desk) (s : String) : Desk :=
  { d with out := d.out ++ s }

def tell (d : Desk) (s : String) : Desk :=
  { d with err := d.err ++ s }

def log (d : Desk) (l : Log.Logger) (notes : List Log.Note) : Desk :=
  d.tell (String.join ((l.lines notes).map (· ++ "\n")))

/-- Reads a file, or for `-` what is left of the input; the name comes with it. -/
def read (d : Desk) (source : String) : Except Failure String × String × Desk :=
  if source == "-" then (.ok d.input, "<stdin>", { d with input := "" })
  else ((d.files.read source).mapError .stated, source, d)

def write (d : Desk) (path text : String) : Except Failure Desk := do
  let dir := Path.dir path
  let files ←
    if dir == "." then .ok d.files
    else (d.files.makeDirs dir).mapError fun reason =>
      .within ("failed to create " ++ dir) (.stated reason)
  let files ← (files.write path text).mapError fun reason =>
    .within ("failed to write " ++ path) (.stated reason)
  return { d with files := files }

end Desk

def commonFlags : List Flag :=
  [{ name := "config", letter := some 'c' }, { name := "verbose", letter := some 'v', kind := .switch },
   { name := "no-color", kind := .switch }]

def settings (h : Host) (a : Arguments) : Except Failure Settings := do
  let path := a.text "config"
  let s ← (Settings.loadWith h.notations path (h.files.read path) h.env).mapError
    (.within "failed to load config")
  return if a.switch "verbose" then { s with telemetry.logging.level := "debug" } else s

/-- The version of the program; it is part of every key in the cache. -/
def version : String := "0.1.0"

def withDialect (s : Settings) (name : String) : Except Failure Settings :=
  if name.isEmpty then .ok s
  else
    match Dialect.ofName name with
    | .ok d => .ok { s with compiler.dialect := d.name }
    | .error _ => .error (.flag "dialect" name "must be fuzz or zed")

structure Tools where
  logger : Log.Logger
  compiler : Compiler Cache.Store

def tools (s : Settings) : Except Failure Tools := do
  let logger ← (Log.Logger.ofNames s.telemetry.logging.level s.telemetry.logging.format).mapError
    (.within "failed to create logger")
  let store ← (Cache.Store.ofSettings s.cache).mapError (.within "failed to open cache")
  return {
    logger := logger
    compiler :=
      { options := ← s.options, version := version, store := store,
        metrics := Metrics.ofSettings s.telemetry.metrics } }

end Command
end Whiteboard
