import Whiteboard.Proofs.Settings.Defaults
import Whiteboard.Settings.Load

namespace Whiteboard
namespace Settings

/-!
# What loading makes of a file

The settings of a file are completed and checked before the environment is laid over them, so a file that breaks a
rule is refused even if the environment replaces the field that breaks it.  And they are completed although the file
was laid over the defaults: a neutral value that the file gives is taken for one that was not set.
-/

variable {n : Notations} {path text context : String} {file s t : Settings} {env : Environment}

theorem checkedIn_of_allowed (allowed : s.violations n.isSchedule = []) : checkedIn n context s = .ok s := by
  simp [checkedIn, check, allowed, Except.mapError]

theorem checkedIn_of_violations (broken : s.violations n.isSchedule ≠ []) :
    checkedIn n context s = .error (.within context (.settings (s.violations n.isSchedule))) := by
  simp [checkedIn, check, broken, Except.mapError]

theorem checkedIn_eq_ok_iff : checkedIn n context s = .ok t ↔ t = s ∧ s.violations n.isSchedule = [] := by
  by_cases allowed : s.violations n.isSchedule = []
  · simp [checkedIn_of_allowed allowed, allowed, eq_comm]
  · simp [checkedIn_of_violations allowed, allowed]

theorem load_of_decode (decoded : decode n path text default = .ok file) :
    load n path (.ok text) = checkedIn n "configuration validation failed" file.withDefaults := by
  simp only [load, Except.mapError, decoded, bind, Except.bind]

section
variable (named : path ≠ "") (decoded : decode n path text default = .ok file)
include named decoded

theorem loadWith_of_violations (broken : file.withDefaults.violations n.isSchedule ≠ []) :
    loadWith n path (.ok text) env = .error (.within "configuration validation failed"
      (.settings (file.withDefaults.violations n.isSchedule))) := by
  have named : ¬ path.isEmpty = true := by simpa using named
  rw [loadWith, if_neg named, load_of_decode decoded, checkedIn_of_violations broken]
  rfl

theorem loadWith_of_allowed (allowed : file.withDefaults.violations n.isSchedule = [])
    (overlaid : Overlaid env file.withDefaults s) : loadWith n path (.ok text) env =
      checkedIn n "configuration validation failed after environment overrides" s := by
  have named : ¬ path.isEmpty = true := by simpa using named
  rw [loadWith, if_neg named, load_of_decode decoded, checkedIn_of_allowed allowed, overlaid_iff.mp overlaid]
  simp only [bind, Except.bind]

theorem loadWith_eq_ok_iff : loadWith n path (.ok text) env = .ok s ↔
      file.withDefaults.violations n.isSchedule = [] ∧ Overlaid env file.withDefaults s ∧
        s.violations n.isSchedule = [] := by
  by_cases allowed : file.withDefaults.violations n.isSchedule = []
  · have overlaid := overlaid_iff.mpr (Eq.refl (file.withDefaults.withEnvironment env))
    rw [loadWith_of_allowed named decoded allowed overlaid, checkedIn_eq_ok_iff, overlaid_iff]
    constructor
    · rintro ⟨rfl, last⟩
      exact ⟨allowed, rfl, last⟩
    · rintro ⟨_, rfl, last⟩
      exact ⟨rfl, last⟩
  · grind [loadWith_of_violations]

end

/-- Notations in which every file that is not blank holds the given settings. -/
def Notations.holding (file : Settings) : Notations where
  isSchedule := (· == "0 4 * * *")
  yaml _ _ := some file
  toml _ _ := some file

theorem decode_holding (written : Text.isBlankText text = false) :
    decode (.holding file) "a.yaml" text default = .ok file := by
  have format : FileFormat.ofPath "a.yaml" = .ok .yaml := by decide
  simp [decode, format, written, Notations.holding]

/-- Settings are loaded if the completed settings of the file break no rule, and neither do the settings that the
environment makes of them.  The violations of a file are reported whatever the environment holds.  So loading does
the same as one check at the end, unless the file breaks rules and the environment mends that. -/
theorem file_checked_before_environment (n : Notations) (path text : String) (file : Settings) (env : Environment)
    (named : path ≠ "") (decoded : decode n path text default = .ok file) :
    (∀ s, loadWith n path (.ok text) env = .ok s ↔
      file.withDefaults.violations n.isSchedule = [] ∧ Overlaid env file.withDefaults s ∧
        s.violations n.isSchedule = []) ∧
    (file.withDefaults.violations n.isSchedule ≠ [] → loadWith n path (.ok text) env =
      .error (.within "configuration validation failed"
        (.settings (file.withDefaults.violations n.isSchedule)))) ∧
    (file.withDefaults.violations n.isSchedule = [] → ∀ s, Overlaid env file.withDefaults s →
      s.violations n.isSchedule ≠ [] → loadWith n path (.ok text) env =
        .error (.within "configuration validation failed after environment overrides"
          (.settings (s.violations n.isSchedule)))) ∧
    ((∀ s, loadWith n path (.ok text) env = .ok s ↔
        Overlaid env file.withDefaults s ∧ s.violations n.isSchedule = []) ↔
      (file.withDefaults.violations n.isSchedule ≠ [] →
        ∀ s, Overlaid env file.withDefaults s → s.violations n.isSchedule ≠ [])) := by
  have loads (s : Settings) := @loadWith_eq_ok_iff n path text file s env named decoded
  refine ⟨loads, loadWith_of_violations named decoded, ?_, ?_⟩
  · intro allowed s overlaid broken
    rw [loadWith_of_allowed named decoded allowed overlaid, checkedIn_of_violations broken]
  constructor
  · intro same broken s overlaid mended
    exact broken ((loads s).mp ((same s).mpr ⟨overlaid, mended⟩)).1
  · intro unmended s
    rw [loads s]
    refine ⟨And.right, fun mended => ⟨?_, mended⟩⟩
    by_contra broken
    exact unmended broken s mended.1 mended.2

/-- An environment that sets the dialect and nothing else. -/
def zedEnvironment : Environment := fun name => if name = "ZEDTEX_COMPILER_DIALECT" then "zed" else ""

/-- The defaults but for a dialect that there is not. -/
def bogusDialect : Settings := { default with compiler.dialect := "bogus" }

theorem violations_bogusDialect : bogusDialect.withDefaults.violations (· == "0 4 * * *") =
    [⟨"compiler.dialect", "invalid dialect \"bogus\": must be 'fuzz' or 'zed'"⟩] := by
  decide +kernel

/-- A file with an unknown dialect is refused under this environment. -/
theorem unknown_dialect_refused :
    loadWith (.holding bogusDialect) "a.yaml" (.ok "compiler:\n  dialect: bogus\n") zedEnvironment =
      .error (.within "configuration validation failed" (.settings
        [⟨"compiler.dialect", "invalid dialect \"bogus\": must be 'fuzz' or 'zed'"⟩])) := by
  have refused := (file_checked_before_environment (.holding bogusDialect) "a.yaml" "compiler:\n  dialect: bogus\n"
    bogusDialect zedEnvironment (by decide) (decode_holding (by decide))).2.1
  simp only [Notations.holding, violations_bogusDialect] at refused
  exact refused (List.cons_ne_nil _ _)

/-- The environment mends the file, which is refused all the same. -/
theorem replaced_dialect_refused :
    decode (.holding bogusDialect) "a.yaml" "compiler:\n  dialect: bogus\n" default = .ok bogusDialect ∧
    (bogusDialect.withDefaults.withEnvironment zedEnvironment).violations (· == "0 4 * * *") = [] ∧
    (loadWith (.holding bogusDialect) "a.yaml" (.ok "compiler:\n  dialect: bogus\n")
      zedEnvironment).toOption.isNone = true := by
  have decoded := @decode_holding "compiler:\n  dialect: bogus\n" bogusDialect (by decide)
  have broken : bogusDialect.withDefaults.violations (Notations.holding bogusDialect).isSchedule ≠ [] :=
    violations_bogusDialect.symm ▸ List.cons_ne_nil _ _
  refine ⟨decoded, ?_, ?_⟩
  · rw [withEnvironment_eq_byCapitals]
    decide +kernel
  · rw [loadWith_of_violations (by decide) decoded broken]
    rfl

/-- A file whose settings break no rule is loaded, but each field with a neutral value gets its default, be the value
written in the file or not.  So the settings are those of the file just where the defaults of all such fields are what
the file says. -/
theorem neutral_values_replaced (n : Notations) (daily : ReadsDefault n.isSchedule) (path text : String)
    (file : Settings) (decoded : decode n path text default = .ok file)
    (allowed : file.violations n.isSchedule = []) :
    load n path (.ok text) = .ok file.withDefaults ∧
    (∀ e ∈ schema, e.value file.withDefaults = if e.isUnset file then e.value default else e.value file) ∧
    (load n path (.ok text) = .ok file ↔ ∀ e ∈ schema, e.isUnset file = true → e.value file = e.value default) := by
  have fields := value_withDefaults file
  have still : file.withDefaults.violations n.isSchedule = [] := by
    rw [← List.subset_nil, ← allowed]
    exact file.violations_withDefaults daily
  have loaded : load n path (.ok text) = .ok file.withDefaults := by
    rw [load_of_decode decoded, checkedIn_of_allowed still]
  refine ⟨loaded, fields, ?_⟩
  rw [loaded, Except.ok.injEq]
  constructor
  · intro same e member unset
    have field := fields e member
    rwa [same, if_pos unset] at field
  · intro neutral
    refine ext_value fun e member => ?_
    rw [fields e member]
    split
    next unset => exact (neutral e member unset).symm
    next => rfl

/-- The defaults, with the limit on lines, the pruning and the traces switched off. -/
def switchedOff : Settings :=
  { default with compiler.maxLineWidth := 0, cache.pruneSchedule := "", telemetry.tracing.sampleRatio := 0.0 }

/-- A file that says so. -/
def neutralText : String :=
  "compiler:\n  max_line_width: 0\ncache:\n  prune_schedule: \"\"\ntelemetry:\n  tracing:\n    sample_ratio: 0\n"

theorem violations_switchedOff : switchedOff.violations (· == "0 4 * * *") = [] := by
  rw [← List.isEmpty_iff]
  decide +kernel

/-- The limit, the schedule and the ratio are loaded with their defaults. -/
theorem neutralText_loaded : ∃ s, load (.holding switchedOff) "a.yaml" (.ok neutralText) = .ok s ∧
      s.compiler.maxLineWidth = 80 ∧ s.cache.pruneSchedule = "0 4 * * *" ∧ s.telemetry.tracing.sampleRatio = 1.0 := by
  have loaded := (neutral_values_replaced (.holding switchedOff) rfl "a.yaml" neutralText switchedOff
    (decode_holding (by decide)) violations_switchedOff).1
  have ratio : orReal 0.0 1.0 = 1.0 := if_pos (by decide +kernel)
  exact ⟨switchedOff.withDefaults, loaded, rfl, rfl, ratio⟩

/-- The limit, the schedule and the ratio of a file that breaks no rule do not survive. -/
theorem written_zero_lost :
    decode (.holding switchedOff) "a.yaml" neutralText default = .ok switchedOff ∧
    switchedOff.violations (· == "0 4 * * *") = [] ∧
    load (.holding switchedOff) "a.yaml" (.ok neutralText) ≠ .ok switchedOff := by
  have decoded := @decode_holding neutralText switchedOff (by decide)
  refine ⟨decoded, violations_switchedOff, ?_⟩
  intro loaded
  rw [load_of_decode decoded, checkedIn_eq_ok_iff] at loaded
  have same : (0 : Int) = 80 := congrArg (·.compiler.maxLineWidth) loaded.1
  cases same

end Settings
end Whiteboard
