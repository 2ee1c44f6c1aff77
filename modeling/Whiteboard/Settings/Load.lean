import Whiteboard.Path
import Whiteboard.Compile
import Whiteboard.Settings.Check
import Whiteboard.Settings.Environment

namespace Whiteboard
namespace Settings

/-!
Settings from a file and the environment.  The defaults come first, then the file, then the
environment; the result must pass the check.  How the notations of files and schedules are read is
not settled here.
-/

/-- The notations that settings are written in: which texts are schedules, and what settings become
with the fields of a file laid over them, if the file can be read. -/
structure Notations where
  isSchedule : String → Bool
  yaml : String → Settings → Option Settings
  toml : String → Settings → Option Settings

/-- The formats of settings files. -/
inductive FileFormat where
  | yaml
  | toml
  deriving DecidableEq

def FileFormat.ofPath (path : String) : Except Failure FileFormat :=
  let ext := Text.lowerText (Path.extension path)
  match ext with
  | ".toml" => .ok toml
  | ".yaml" => .ok yaml
  | ".yml" => .ok yaml
  | "" => .ok yaml
  | other =>
    .error (.stated
      ("unsupported configuration format " ++ Text.quoted other ++ " (want .yaml, .yml or .toml)"))

/-- What a path was told about a file that cannot be used. -/
def unreadable (path : String) : String :=
  "failed to read configuration file " ++ Text.quoted path

def unparsable (path : String) : String :=
  "failed to parse configuration file " ++ Text.quoted path

/-- The settings with the fields of a file laid over them. -/
def decode (n : Notations) (path content : String) (s : Settings) : Except Failure Settings :=
  match FileFormat.ofPath path with
  | .error f => .error (.within (unparsable path) f)
  | .ok format =>
    let result :=
      match format with
      | .toml => n.toml content s
      | .yaml => if Text.isBlankText content then some s else n.yaml content s
    match result with
    | some s => .ok s
    | none => .error (.stated (unparsable path))

/-- Passes settings on if they are allowed. -/
def checkedIn (n : Notations) (context : String) (s : Settings) : Except Failure Settings :=
  (s.check n.isSchedule).mapError (.within context)

/-- The settings of a file; `content` is what reading it gave. -/
def load (n : Notations) (path : String) (content : Except String String) :
    Except Failure Settings := do
  let text ← content.mapError (fun reason => .within (unreadable path) (.stated reason))
  let s ← decode n path text default
  checkedIn n "configuration validation failed" s.withDefaults

/-- The settings of a file, or the defaults if there is no path, with the environment on top. -/
def loadWith (n : Notations) (path : String) (content : Except String String)
    (env : Environment) : Except Failure Settings := do
  let s ← if path.isEmpty then .ok default else load n path content
  checkedIn n "configuration validation failed after environment overrides" (s.withEnvironment env)

/-- The settings that are in force, and the path they were read from. -/
structure Current where
  settings : Option Settings := none
  path : String := ""

/-- Replaces the settings in force by those of a file; they stay if it cannot be used. -/
def Current.reload (c : Current) (n : Notations) (path : String)
    (content : Except String String) (env : Environment) : Current × Except Failure Settings :=
  match loadWith n path content env with
  | .ok s => (⟨some s, path⟩, .ok s)
  | .error f => (c, .error (.within ("failed to reload " ++ path) f))

/-- How sources are compiled under these settings. -/
def options (s : Settings) : Except Failure Options := do
  let d ← (Dialect.ofName s.compiler.dialect).mapError .stated
  return {
    rules := ProseRules.effective ⟨s.prose.starters, s.prose.indicators, s.prose.lookahead⟩
    layout := ⟨d, s.compiler.maxLineWidth, s.compiler.standalone⟩ }

end Settings
end Whiteboard
