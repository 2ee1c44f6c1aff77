import Mathlib.Data.List.Basic
import Whiteboard.Settings.Environment

namespace Whiteboard

open List
namespace Settings

/-!
# Settings by their fields

Settings are known from the values of the fields of the schema, and setting one field leaves the others alone.
So what the environment makes of settings can be said for each field by itself.
-/

/-- The values of a field. -/
def Slot.Value : Slot → Type
  | .text _ => String
  | .int _ | .duration _ => Int
  | .bool _ => Bool
  | .real _ => Float
  | .texts _ => List String
  | .reals _ => List Float

def Slot.access : (slot : Slot) → Access slot.Value
  | .text field | .int field | .duration field | .bool field | .real field | .texts field | .reals field => field

/-- The value of a field that a text stands for. -/
def Slot.read : (slot : Slot) → String → Option slot.Value
  | .text _, value => some value
  | .int _, value => Text.readInt value
  | .duration _, value => Duration.read value
  | .bool _, value => Text.readBool value
  | .real _, value => Text.readReal value
  | .texts _, value => some (commaList value)
  | .reals _, value => some ((commaList value).filterMap Text.readReal)

theorem Slot.override_eq (slot : Slot) (value : String) (s : Settings) :
    slot.override value s = ((slot.read value).map (slot.access.set · s)).getD s := by
  cases slot <;> rfl

namespace Entry

def value (e : Entry) (s : Settings) : e.slot.Value := e.slot.access.get s

def set (e : Entry) (v : e.slot.Value) (s : Settings) : Settings := e.slot.access.set v s

/-- Setting the first field leaves the second one alone. -/
def Spares (e f : Entry) : Prop := ∀ v s, f.value (e.set v s) = f.value s

/-- What the environment sets a field to. -/
def replacement (e : Entry) (env : Environment) : Option e.slot.Value :=
  if e.inEnvironment && !(env e.variableName).isEmpty then e.slot.read (env e.variableName) else none

theorem override_eq (e : Entry) (env : Environment) (s : Settings) :
    e.override env s = ((e.replacement env).map (e.set · s)).getD s := by
  rw [override, replacement]
  split
  · exact e.slot.override_eq _ s
  · rfl

theorem value_override {e : Entry} (lawful : ∀ v s, e.value (e.set v s) = v) (env : Environment) (s : Settings) :
    e.value (e.override env s) = (e.replacement env).getD (e.value s) := by
  rw [override_eq]
  cases e.replacement env with
  | none => rfl
  | some v => exact lawful v s

theorem Spares.override {e f : Entry} (spares : e.Spares f) (env : Environment) (s : Settings) :
    f.value (e.override env s) = f.value s := by
  rw [override_eq]
  cases e.replacement env with
  | none => rfl
  | some v => exact spares v s

end Entry

/-! ## The schema -/

theorem value_set : ∀ e ∈ schema, ∀ v s, e.value (e.set v s) = v := by
  unfold schema
  repeat refine forall_mem_cons.mpr ⟨fun _ _ => rfl, ?_⟩
  exact fun _ member => absurd member not_mem_nil

theorem pairwise_spares : schema.Pairwise fun e f => e.Spares f ∧ f.Spares e := by
  unfold schema
  repeat' first
    | exact List.Pairwise.nil
    | exact fun _ member => absurd member not_mem_nil
    | refine pairwise_cons.mpr ⟨?_, ?_⟩
    | refine forall_mem_cons.mpr ⟨⟨fun _ _ => rfl, fun _ _ => rfl⟩, ?_⟩

/-- The schema has every field. -/
theorem ext_value {s t : Settings} (same : ∀ e ∈ schema, e.value s = e.value t) : s = t := by
  rcases s with ⟨⟨_, _, _⟩, ⟨_, _, _⟩, ⟨_, _, _, _, _, _⟩, ⟨_, _, _, _, _, _⟩, ⟨_, _⟩,
    ⟨_, _, _⟩, ⟨_, _, _, _, _⟩, ⟨_, _, _, _, _, _⟩, ⟨_, _, _, _⟩⟩
  rcases t with ⟨⟨_, _, _⟩, ⟨_, _, _⟩, ⟨_, _, _, _, _, _⟩, ⟨_, _, _, _, _, _⟩, ⟨_, _⟩,
    ⟨_, _, _⟩, ⟨_, _, _, _, _⟩, ⟨_, _, _, _, _, _⟩, ⟨_, _, _, _⟩⟩
  simp only [schema, forall_mem_cons, Entry.value, Slot.access] at same
  simp only [same]

/-! ## The environment -/

/-- The name of a variable, from the names of its field one by one. -/
def Entry.capitals (e : Entry) : String :=
  "ZEDTEX_" ++ Text.joinWith "_" (e.path.map fun part => String.ofList (part.toList.map Char.toUpper))

theorem map_joinWith (parts : List String) : (Text.joinWith "_" parts).map Char.toUpper =
    Text.joinWith "_" (parts.map fun part => String.ofList (part.toList.map Char.toUpper)) := by
  induction parts with
  | nil => simp [Text.joinWith]
  | cons part rest ih =>
    rw [← String.toList_inj, String.toList_map]
    cases rest with
    | nil => simp [Text.joinWith]
    | cons next more =>
      rw [← String.toList_inj, String.toList_map] at ih
      simp only [Text.joinWith, map_cons, String.intercalate_cons_cons, String.toList_append, map_append] at ih ⊢
      rw [ih, String.toList_ofList]
      simp

/-- The settings with the environment on top, by names that are quick to compare. -/
def byCapitals (s : Settings) (env : Environment) : Settings :=
  schema.foldl (fun s e => if e.inEnvironment && !(env e.capitals).isEmpty then e.slot.override (env e.capitals) s
    else s) s

theorem withEnvironment_eq_byCapitals : withEnvironment = byCapitals := by
  have named (e : Entry) : e.variableName = e.capitals := congrArg ("ZEDTEX_" ++ ·) (map_joinWith e.path)
  funext s env
  simp only [withEnvironment, byCapitals, Entry.override, named]

/-- Fields that are not among the entries keep their values. -/
theorem value_foldl_override_of_spares {f : Entry} {entries : List Entry} (spare : ∀ e ∈ entries, e.Spares f)
    (env : Environment) (s : Settings) :
    f.value (entries.foldl (fun s e => e.override env s) s) = f.value s := by
  induction entries generalizing s with
  | nil => rfl
  | cons e rest ih =>
    rw [forall_mem_cons] at spare
    rw [foldl_cons, ih spare.2, spare.1.override]

theorem value_foldl_override {entries : List Entry} (lawful : ∀ e ∈ entries, ∀ v s, e.value (e.set v s) = v)
    (apart : entries.Pairwise fun e f => e.Spares f ∧ f.Spares e) (env : Environment) (s : Settings) :
    ∀ e ∈ entries, e.value (entries.foldl (fun s e => e.override env s) s) =
      (e.replacement env).getD (e.value s) := by
  induction entries generalizing s with
  | nil => exact fun _ member => absurd member not_mem_nil
  | cons first rest ih =>
    rw [forall_mem_cons] at lawful ⊢
    rw [pairwise_cons] at apart
    constructor
    · rw [foldl_cons, value_foldl_override_of_spares (fun e member => (apart.1 e member).2)]
      exact Entry.value_override lawful.1 env s
    · intro e member
      rw [foldl_cons, ih lawful.2 apart.2 _ e member, (apart.1 e member).1.override]

/-- The environment sets each field that has a variable with a value that can be read, and no other field. -/
def Overlaid (env : Environment) (base s : Settings) : Prop :=
  ∀ e ∈ schema, e.value s = (e.replacement env).getD (e.value base)

theorem overlaid_iff {env : Environment} {base s : Settings} : Overlaid env base s ↔ s = base.withEnvironment env := by
  have overlaid := value_foldl_override value_set pairwise_spares env base
  constructor
  · exact fun fields => ext_value fun e member => (fields e member).trans (overlaid e member).symm
  · rintro rfl
    exact overlaid

end Settings
end Whiteboard
