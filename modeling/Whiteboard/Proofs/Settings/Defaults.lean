import Whiteboard.Proofs.Settings.Field
import Whiteboard.Settings.Check

namespace Whiteboard

open List
namespace Settings

/-!
# Defaults

Filling in the defaults changes the fields that have a neutral value, and no others.  It brings no violation: each
default passes the checks of its field, whatever the other fields hold, if the timetable can read the default schedule.
-/

/-! ## Field by field -/

/-- The neutral values of a field, which stand for one that was not set; switches have none. -/
def Slot.isNeutral : (slot : Slot) → slot.Value → Bool
  | .text _, value => String.isEmpty value
  | .int _, (value : Int) | .duration _, (value : Int) => value == 0
  | .bool _, _ => false
  | .real _, (value : Float) => value == 0.0
  | .texts _, value | .reals _, value => List.isEmpty value

/-- The field was not set. -/
def Entry.isUnset (e : Entry) (s : Settings) : Bool := e.slot.isNeutral (e.value s)

theorem orText_empty (value : String) : orText value "" = value := by
  simp +contextual [orText, String.isEmpty_iff]

theorem orList_nil {α : Type} (value : List α) : orList value [] = value := by
  simp +contextual [orList, List.isEmpty_iff]

theorem value_withDefaults (s : Settings) :
    ∀ e ∈ schema, e.value s.withDefaults = if e.isUnset s then e.value default else e.value s := by
  unfold schema
  repeat' first
    | exact fun _ member => absurd member not_mem_nil
    | refine forall_mem_cons.mpr ⟨rfl, ?_⟩
    -- The standard words and the place of traces have neutral defaults.
    | refine forall_mem_cons.mpr ⟨(orList_nil _).symm, ?_⟩
    | refine forall_mem_cons.mpr ⟨(orText_empty _).symm, ?_⟩

/-! ## Rules -/

theorem breach_subset {broken : Bool} (allowed : broken = false) (field message : String) (others : List Violation) :
    breach broken field message ⊆ others := by
  simp [breach, allowed]

theorem append_subset_append {a a' b b' : List Violation} (first : a' ⊆ a) (second : b' ⊆ b) : a' ++ b' ⊆ a ++ b :=
  append_subset.mpr ⟨subset_append_of_subset_left _ first, subset_append_of_subset_right _ second⟩

theorem Compiler.violations_withDefaults (c : Compiler) : c.withDefaults.violations ⊆ c.violations := by
  simp only [violations, withDefaults, orText, orInt]
  refine append_subset_append ?_ ?_ <;> split
  all_goals first | exact List.Subset.refl _ | exact breach_subset (by decide) _ _ _

theorem Prose.violations_withDefaults (p : Prose) : p.withDefaults.violations ⊆ p.violations := by
  simp only [violations, withDefaults, orInt]
  split
  · exact breach_subset (by decide) _ _ _
  · exact List.Subset.refl _

theorem Cache.storeViolations_withDefaults (c : Cache) : c.withDefaults.storeViolations ⊆ c.storeViolations := by
  simp only [storeViolations, withDefaults, orText]
  by_cases none : c.backend.isEmpty
  · rw [if_pos none]
    exact nil_subset _
  rw [if_neg none]
  split
  · exact nil_subset _
  · refine append_subset_append ?_ ?_ <;> split
    all_goals first | exact List.Subset.refl _ | exact breach_subset (by decide) _ _ _
  · exact List.Subset.refl _

variable {isSchedule : String → Bool}

/-- The timetable can read the default schedule. -/
def ReadsDefault (isSchedule : String → Bool) : Prop := isSchedule "0 4 * * *" = true

theorem Cache.violations_withDefaults (daily : ReadsDefault isSchedule) (c : Cache) :
    c.withDefaults.violations isSchedule ⊆ c.violations isSchedule := by
  have store := c.storeViolations_withDefaults
  cases enabled : c.enabled with
  | false => simp [violations, withDefaults, enabled]
  | true =>
    simp only [violations, enabled, if_true]
    rw [if_pos (show c.withDefaults.enabled = true from enabled)]
    refine append_subset_append (append_subset_append store ?_) ?_
    all_goals
      simp only [withDefaults, orText, orInt]
      split
    · exact breach_subset (by decide) _ _ _
    · exact List.Subset.refl _
    · exact breach_subset (Bool.and_eq_false_imp.mpr fun _ => by rw [daily]; rfl) _ _ _
    · exact List.Subset.refl _

theorem Server.violations_withDefaults (s : Server) : s.withDefaults.violations ⊆ s.violations := by
  simp only [violations, withDefaults, orInt]
  repeat' refine append_subset_append ?_ ?_
  case refine_1.refine_1.refine_1.refine_1.refine_1 =>
    by_cases none : s.listenAddress.isEmpty
    · simp only [orText, if_pos none]
      exact breach_subset (by decide) _ _ _
    · simp only [orText, if_neg none]
      exact List.Subset.refl _
  all_goals split
  all_goals first | exact List.Subset.refl _ | exact breach_subset (by decide) _ _ _

theorem Watch.violations_withDefaults (w : Watch) : w.withDefaults.violations ⊆ w.violations := by
  simp only [violations, withDefaults, orInt, orList]
  refine append_subset_append ?_ ?_ <;> split
  · exact breach_subset (by decide) _ _ _
  · exact List.Subset.refl _
  · exact nil_subset _
  · exact List.Subset.refl _

theorem wordViolations_orText {field what allowed : String} {words : List String} {default value : String}
    (listed : wordViolations field what allowed words default = []) :
    wordViolations field what allowed words (orText value default) ⊆
      wordViolations field what allowed words value := by
  unfold orText
  split
  · simp [listed]
  · exact List.Subset.refl _

theorem Logging.violations_withDefaults (l : Logging) : l.withDefaults.violations ⊆ l.violations :=
  append_subset_append (wordViolations_orText rfl) (wordViolations_orText rfl)

theorem Metrics.violations_withDefaults (m : Metrics) : m.withDefaults.violations ⊆ m.violations := by
  simp only [violations, withDefaults, orText, orList]
  refine append_subset_append ?_ ?_ <;> split
  · exact breach_subset (Bool.and_eq_false_imp.mpr fun _ => by decide) _ _ _
  · exact List.Subset.refl _
  · exact breach_subset (by decide) _ _ _
  · exact List.Subset.refl _

theorem Tracing.violations_withDefaults (t : Tracing) : t.withDefaults.violations ⊆ t.violations := by
  simp only [violations, withDefaults, orText, orReal]
  refine append_subset_append (append_subset_append (List.Subset.refl _) ?_) ?_ <;> split
  all_goals first | exact List.Subset.refl _ | exact breach_subset (by decide) _ _ _

theorem Health.violations_withDefaults (h : Health) : h.withDefaults.violations ⊆ h.violations := by
  simp only [violations, withDefaults, orText]
  refine append_subset_append ?_ ?_ <;> split
  all_goals first | exact List.Subset.refl _ | exact breach_subset (by simp) _ _ _

theorem violations_withDefaults (daily : ReadsDefault isSchedule) (s : Settings) :
    s.withDefaults.violations isSchedule ⊆ s.violations isSchedule := by
  have telemetry : s.telemetry.withDefaults.violations ⊆ s.telemetry.violations :=
    append_subset_append (append_subset_append (append_subset_append
      s.telemetry.logging.violations_withDefaults s.telemetry.metrics.violations_withDefaults)
      s.telemetry.tracing.violations_withDefaults) s.telemetry.health.violations_withDefaults
  exact append_subset_append (append_subset_append (append_subset_append (append_subset_append
    (append_subset_append s.compiler.violations_withDefaults s.prose.violations_withDefaults)
    (s.cache.violations_withDefaults daily)) s.server.violations_withDefaults)
    s.watch.violations_withDefaults) telemetry

theorem violations_of_daily (daily : ReadsDefault isSchedule) {s : Settings}
    (scheduled : s.cache.pruneSchedule = "0 4 * * *") : s.violations isSchedule = s.violations fun _ => true := by
  have readable : isSchedule s.cache.pruneSchedule = true := scheduled ▸ daily
  simp [violations, Cache.violations, readable]

theorem violations_default (daily : ReadsDefault isSchedule) : default.violations isSchedule = [] := by
  rw [violations_of_daily daily rfl, ← List.isEmpty_iff]
  decide +kernel

theorem isUnset_congr {e : Entry} {s t : Settings} (same : e.value s = e.value t) : e.isUnset s = e.isUnset t := by
  rw [Entry.isUnset, same, Entry.isUnset]

theorem withDefaults_withDefaults (s : Settings) : s.withDefaults.withDefaults = s.withDefaults := by
  refine ext_value fun e member => ?_
  have once := value_withDefaults s e member
  rw [value_withDefaults s.withDefaults e member]
  split
  next still => grind [isUnset_congr]
  next => rfl

/-- Filling in the defaults twice is filling them in once; a field that was set, and every switch, keeps its value,
and what the checks find afterwards they found before.  They find nothing in the defaults, with or without the
switches that are on. -/
theorem defaults_settle (isSchedule : String → Bool) (daily : ReadsDefault isSchedule) (s : Settings) :
    s.withDefaults.withDefaults = s.withDefaults ∧
    (∀ e ∈ schema, e.isUnset s = false → e.value s.withDefaults = e.value s) ∧
    s.withDefaults.violations isSchedule ⊆ s.violations isSchedule ∧
    ({} : Settings).withDefaults.violations isSchedule = [] ∧ default.violations isSchedule = [] := by
  refine ⟨s.withDefaults_withDefaults, fun e member set => ?_, s.violations_withDefaults daily, ?_,
    violations_default daily⟩
  · rw [value_withDefaults s e member, if_neg (by simp [set])]
  · exact List.isEmpty_iff.mp (show (({} : Settings).withDefaults.violations fun _ => true).isEmpty = true by decide)

/-- Settings that only say how long changes settle, and wrongly. -/
def hasty : Settings := { watch.debounce := -1 }

theorem hasty_settles : ReadsDefault (· == "0 4 * * *") ∧
    hasty.withDefaults.watch.debounce = -1 ∧ hasty.withDefaults.withDefaults = hasty.withDefaults ∧
    hasty.withDefaults.violations (· == "0 4 * * *") ⊆ hasty.violations (· == "0 4 * * *") := by
  have settled := defaults_settle (· == "0 4 * * *") rfl hasty
  exact ⟨rfl, rfl, settled.1, settled.2.2.1⟩

end Settings
end Whiteboard
