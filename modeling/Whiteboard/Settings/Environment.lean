import Whiteboard.Settings.Schema

namespace Whiteboard
namespace Settings

/-!
Settings from the environment.  A variable is named after its field; one that is empty, or whose
value cannot be read, changes nothing.
-/

/-- The variables of the environment; an unset one is empty. -/
abbrev Environment := String → String

def Entry.variableName (e : Entry) : String :=
  "ZEDTEX_" ++ (Text.joinWith "_" e.path).map Char.toUpper

def commaList (value : String) : List String :=
  ((Text.splitWhere (· == ',') value.toList).map fun piece =>
    String.ofList (Text.trimBlanks piece)).filter (fun piece => !piece.isEmpty)

/-- The settings with one field set from a value; unchanged if it cannot be read. -/
def Slot.override (slot : Slot) (value : String) (s : Settings) : Settings :=
  match slot with
  | .text f => f.set value s
  | .int f => ((Text.readInt value).map (f.set · s)).getD s
  | .duration f => ((Duration.read value).map (f.set · s)).getD s
  | .bool f => ((Text.readBool value).map (f.set · s)).getD s
  | .real f => ((Text.readReal value).map (f.set · s)).getD s
  | .texts f => f.set (commaList value) s
  | .reals f => f.set ((commaList value).filterMap Text.readReal) s

def Entry.override (e : Entry) (env : Environment) (s : Settings) : Settings :=
  let value := env e.variableName
  if e.inEnvironment && !value.isEmpty then e.slot.override value s else s

/-- The settings with every field that the environment sets. -/
def withEnvironment (s : Settings) (env : Environment) : Settings :=
  schema.foldl (fun s e => e.override env s) s

end Settings
end Whiteboard
