import Whiteboard.Proofs.Settings.Defaults
import Whiteboard.Service

namespace Whiteboard

open List
namespace Service
namespace Routes

/-!
# Which routes the checks let through

The paths of the service can be registered if they differ and begin at the root.  The checks of the settings see to
the root of the path for counts only: probes may have any paths that are not empty, and two paths may be the same.
-/

/-- The paths can be registered together. -/
def Registers (r : Routes) : Prop := r.paths.Nodup ∧ ∀ path ∈ r.paths, Text.opensWith '/' path = true

/-- What the checks of the settings say about the paths. -/
structure Checked (r : Routes) : Prop where
  probes : r.liveness.isSome = r.readiness.isSome
  named : ∀ path ∈ r.liveness.toList ++ r.readiness.toList, path.isEmpty = false
  rooted : ∀ path ∈ r.metrics, Text.opensWith '/' path = true

theorem mem_paths_iff {r : Routes} {path : String} : path ∈ r.paths ↔
    path = compilePath ∨ path ∈ r.liveness.toList ++ r.readiness.toList ∨ path ∈ r.metrics := by
  simp [paths, table, or_assoc]

theorem isEmpty_of_opensWith {path : String} (opens : Text.opensWith '/' path = true) : path.isEmpty = false := by
  by_contra empty
  rw [Bool.not_eq_false, String.isEmpty_iff] at empty
  rw [empty] at opens
  cases opens

/-! ## Settings that pass -/

theorem breach_eq_nil_iff {broken : Bool} {field message : String} :
    Settings.breach broken field message = [] ↔ broken = false := by
  cases broken <;> simp [Settings.breach]

variable {isSchedule : String → Bool} {s : Settings}

theorem telemetry_of_accepted (accepted : s.violations isSchedule = []) :
    s.telemetry.metrics.violations = [] ∧ s.telemetry.health.violations = [] := by
  simp only [Settings.violations, Settings.Telemetry.violations, append_eq_nil_iff] at accepted
  exact ⟨accepted.2.1.1.2, accepted.2.2⟩

theorem checked_of_accepted (accepted : s.violations isSchedule = []) : (ofSettings s).Checked := by
  rcases telemetry_of_accepted accepted with ⟨metrics, health⟩
  simp only [Settings.Metrics.violations, Settings.Health.violations, append_eq_nil_iff, breach_eq_nil_iff,
    Bool.and_eq_false_imp, Bool.not_eq_false'] at metrics health
  refine ⟨?_, fun path member => ?_, fun path member => ?_⟩
  · cases enabled : s.telemetry.health.enabled <;> simp [ofSettings, enabled]
  · cases enabled : s.telemetry.health.enabled with
    | false => simp [ofSettings, enabled] at member
    | true =>
      simp only [ofSettings, enabled, if_true, Option.toList_some, singleton_append, mem_cons, not_mem_nil,
        or_false] at member
      rcases member with rfl | rfl
      · exact health.1 enabled
      · exact health.2 enabled
  · cases enabled : s.telemetry.metrics.enabled with
    | false => simp [ofSettings, enabled] at member
    | true =>
      rw [ofSettings, enabled, isEmpty_of_opensWith (metrics.1 enabled)] at member
      cases member
      exact metrics.1 enabled

/-- Settings that make a table of routes, and keep nothing. -/
def settings (r : Routes) : Settings :=
  { Settings.default with
    cache.enabled := false
    telemetry.metrics.enabled := r.metrics.isSome
    telemetry.metrics.path := r.metrics.getD ""
    telemetry.health.enabled := r.liveness.isSome
    telemetry.health.livenessPath := r.liveness.getD ""
    telemetry.health.readinessPath := r.readiness.getD "" }

theorem accepted_settings {r : Routes} (checked : r.Checked) : r.settings.violations isSchedule = [] := by
  have others := @Settings.violations_default (fun _ => true) rfl
  simp only [Settings.violations, Settings.Telemetry.violations, append_eq_nil_iff] at others ⊢
  refine ⟨⟨⟨⟨others.1.1.1.1, rfl⟩, others.1.1.2⟩, others.1.2⟩, ⟨⟨others.2.1.1.1, ?_⟩, others.2.1.2⟩, ?_⟩
  · refine append_eq_nil_iff.mpr ⟨breach_eq_nil_iff.mpr ?_, (append_eq_nil_iff.mp others.2.1.1.2).2⟩
    cases path : r.metrics with
    | none => simp [settings, path]
    | some path' => simp [settings, path, checked.rooted path' path]
  · have probes := checked.probes
    have named := checked.named
    refine append_eq_nil_iff.mpr ⟨breach_eq_nil_iff.mpr ?_, breach_eq_nil_iff.mpr ?_⟩
    all_goals
      cases live : r.liveness <;> cases ready : r.readiness <;> simp_all [settings]

theorem ofSettings_settings {r : Routes} (checked : r.Checked) : ofSettings r.settings = r := by
  rcases r with ⟨liveness, readiness, metrics⟩
  have probes := checked.probes
  have counts : (if metrics.isSome && !(metrics.getD "").isEmpty then some (metrics.getD "") else none) = metrics := by
    cases metrics with
    | none => rfl
    | some path => simp [isEmpty_of_opensWith (checked.rooted path rfl)]
  simp only [ofSettings, settings]
  cases liveness <;> cases readiness <;> simp_all

/-- Whichever schedules can be read, the tables of routes of settings that pass are just those whose probes have
paths, together or not at all, and whose path for counts begins at the root.  Such a table can be registered just if
its paths differ and those of the probes begin at the root too: nothing in the checks makes sure of that. -/
theorem accepted_routes_iff (isSchedule : String → Bool) (r : Routes) :
    ((∃ s : Settings, s.violations isSchedule = [] ∧ ofSettings s = r) ↔ r.Checked) ∧
    (r.Checked → (r.Registers ↔ r.paths.Nodup ∧
      ∀ path ∈ r.liveness.toList ++ r.readiness.toList, Text.opensWith '/' path = true)) := by
  refine ⟨⟨?_, fun checked => ⟨r.settings, accepted_settings checked, ofSettings_settings checked⟩⟩, fun checked => ?_⟩
  · rintro ⟨s, accepted, rfl⟩
    exact checked_of_accepted accepted
  · refine and_congr_right fun _ => ⟨fun rooted path member => rooted path ?_, fun rooted path member => ?_⟩
    · rw [mem_paths_iff]
      exact .inr (.inl member)
    · rcases mem_paths_iff.mp member with rfl | probe | counts
      · rfl
      · exact rooted path probe
      · exact checked.rooted path counts

/-- The settings pass where the default schedule can be read, and their table of routes cannot be registered. -/
def Misrouted (s : Settings) : Prop :=
  (∀ isSchedule, Settings.ReadsDefault isSchedule → s.violations isSchedule = []) ∧ ¬(ofSettings s).Registers

theorem Misrouted.of_refused {s : Settings} (scheduled : s.cache.pruneSchedule = "0 4 * * *")
    (passed : (s.violations fun _ => true).isEmpty = true)
    (refused : ¬((ofSettings s).paths.Nodup ∧ (ofSettings s).paths.all (Text.opensWith '/') = true)) : Misrouted s := by
  refine ⟨fun isSchedule daily => ?_, fun registers => refused ⟨registers.1, all_eq_true.mpr registers.2⟩⟩
  rw [Settings.violations_of_daily daily scheduled, isEmpty_iff.mp passed]

/-- The defaults with one path for both probes, or with the counts at the path for compilations, or with a probe that
does not begin at the root. -/
theorem misrouted_pass :
    Misrouted { Settings.default with telemetry.health.readinessPath := "/health" } ∧
    Misrouted { Settings.default with telemetry.metrics.path := "/v1/compile" } ∧
    Misrouted { Settings.default with telemetry.health.livenessPath := "health" } := by
  refine ⟨.of_refused rfl ?_ ?_, .of_refused rfl ?_ ?_, .of_refused rfl ?_ ?_⟩
  all_goals decide +kernel

end Routes
end Service
end Whiteboard
