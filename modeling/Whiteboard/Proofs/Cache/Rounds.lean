import Mathlib.Data.List.Count
import Whiteboard.Cache.Pruning

namespace Whiteboard

open List
namespace Cache
namespace Pruning

/-!
# Rounds of a pruning schedule

A schedule that is stopped may be started again, and each start that finds it idle begins a round.  Nothing of a
round is taken back: its job stays in the timetable, which therefore names a next run for ever, and its start goes
on waiting for its context to be cancelled.  Whenever it hears of that, it stops the schedule, whatever round is
running by then.
-/

section
-- The texts that the timetable can read.
variable (reads : String → Bool)

/-- A schedule after some events, from its making on. -/
def run (schedule : String) (events : List Event) : Pruning := events.foldl (step reads) { schedule := schedule }

/-- The schedule names times at which to prune: the timetable can read it. -/
def IsTimed (schedule : String) : Prop := schedule.isEmpty = false ∧ reads schedule = true

/-- The context of the round that an event begins. -/
def beginning (p : Pruning) : Event → List Nat
  | .start context => if p.running then [] else [context]
  | _ => []

/-- The context of the start that an event makes hear of its cancellation. -/
def hearing (p : Pruning) : Event → List Nat
  | .hear context => if p.isDue context then [context] else []
  | _ => []

/-- What is noted of each event, in the order of the events. -/
def trail (note : Pruning → Event → List Nat) (p : Pruning) : List Event → List Nat
  | [] => []
  | e :: rest => note p e ++ trail note (p.step reads e) rest

/-- The contexts of the rounds that were begun. -/
def rounds (schedule : String) : List Event → List Nat := trail reads beginning { schedule := schedule }

/-- The contexts of the starts that have heard of their cancellation. -/
def heard (schedule : String) : List Event → List Nat := trail reads hearing { schedule := schedule }

/-- A context was cancelled, and not all of the starts in it have heard of that. -/
def Unheard (schedule : String) (events : List Event) (context : Nat) : Prop :=
  .cancel context ∈ events ∧
    (heard reads schedule events).count context < (rounds reads schedule events).count context

end

/-! ## What an event can do -/

variable {reads : String → Bool} {p : Pruning} {schedule : String} {context : Nat}

theorem run_append (events later : List Event) :
    run reads schedule (events ++ later) = later.foldl (step reads) (run reads schedule events) :=
  foldl_append

/-- A start begins a round unless one is running. -/
theorem step_start (timed : IsTimed reads p.schedule) (context : Nat) : p.step reads (.start context) =
      if p.running then p
      else { p with running := true, jobs := p.jobs ++ [context], waiting := p.waiting ++ [context] } := by
  cases running : p.running with
  | true => simp [step, start, running, Except.toOption]
  | false => simp [step, start, running, timed.1, timed.2, Except.toOption]

theorem step_hear (p : Pruning) (context : Nat) : p.step reads (.hear context) =
      if p.isDue context then { p with running := false, waiting := p.waiting.erase context } else p := rfl

theorem isDue_iff : p.isDue context = true ↔ context ∈ p.cancelled ∧ 0 < p.waiting.count context := by
  simp [isDue, count_pos_iff]

section
variable (timed : IsTimed reads p.schedule) (e : Event)
include timed e

theorem schedule_step : (p.step reads e).schedule = p.schedule := by
  cases e with
  | start context =>
    rw [step_start timed]
    split <;> rfl
  | stop | cancel => rfl
  | hear context =>
    rw [step_hear]
    split <;> rfl

/-- Jobs are only ever added: one for each round. -/
theorem jobs_step : (p.step reads e).jobs = p.jobs ++ p.beginning e := by
  cases e with
  | start context =>
    rw [step_start timed, beginning]
    split <;> simp
  | stop | cancel => simp [step, stop, cancel, beginning]
  | hear context =>
    simp only [step_hear, beginning, append_nil]
    split <;> rfl

/-- A start waits from the beginning of its round until it hears of its cancellation. -/
theorem count_waiting_step (c : Nat) :
    (p.step reads e).waiting.count c + (p.hearing e).count c = p.waiting.count c + (p.beginning e).count c := by
  cases e with
  | start context =>
    simp only [step_start timed, beginning, hearing]
    split <;> simp
  | stop | cancel => rfl
  | hear context =>
    simp only [step_hear, beginning, hearing]
    split
    next due =>
      have waits := (isDue_iff.mp due).2
      by_cases same : c = context
      · grind
      · simp [count_erase_of_ne same, Ne.symm same]
    next => rfl

theorem mem_cancelled_step (c : Nat) : c ∈ (p.step reads e).cancelled ↔ c ∈ p.cancelled ∨ e = .cancel c := by
  cases e with
  | start context =>
    rw [step_start timed]
    split <;> simp
  | stop => simp [step, stop]
  | cancel context => simp [step, cancel, or_comm, eq_comm]
  | hear context =>
    rw [step_hear]
    split <;> simp

end

/-! ## What a run keeps -/

/-- What the events of a run leave behind, from any schedule on. -/
theorem kept_foldl_step (timed : IsTimed reads p.schedule) (events : List Event) :
    (events.foldl (step reads) p).schedule = p.schedule ∧
    (events.foldl (step reads) p).jobs = p.jobs ++ trail reads beginning p events ∧
    (∀ c, (events.foldl (step reads) p).waiting.count c + (trail reads hearing p events).count c =
      p.waiting.count c + (trail reads beginning p events).count c) ∧
    ∀ c, c ∈ (events.foldl (step reads) p).cancelled ↔ c ∈ p.cancelled ∨ .cancel c ∈ events := by
  induction events generalizing p with
  | nil => simp [trail]
  | cons e rest ih =>
    have kept := schedule_step timed e
    rcases ih (kept.symm ▸ timed) with ⟨same, jobs, waiting, cancelled⟩
    refine ⟨same.trans kept, ?_, fun c => ?_, fun c => ?_⟩
    · rw [foldl_cons, jobs, jobs_step timed, trail, append_assoc]
    · have now := count_waiting_step timed e c
      have later := waiting c
      simp only [foldl_cons, trail, count_append]
      omega
    · rw [foldl_cons, cancelled, mem_cancelled_step timed, mem_cons, or_assoc, @eq_comm _ e]

section
variable (timed : IsTimed reads schedule) (events : List Event)
include timed

theorem jobs_run : (run reads schedule events).jobs = rounds reads schedule events := (kept_foldl_step timed events).2.1

theorem count_waiting_run (c : Nat) :
    (run reads schedule events).waiting.count c + (heard reads schedule events).count c =
      (rounds reads schedule events).count c :=
  ((kept_foldl_step timed events).2.2.1 c).trans (Nat.zero_add _)

theorem mem_cancelled_run (c : Nat) : c ∈ (run reads schedule events).cancelled ↔ .cancel c ∈ events :=
  ((kept_foldl_step timed events).2.2.2 c).trans (or_iff_right not_mem_nil)

theorem isDue_run (c : Nat) : (run reads schedule events).isDue c = true ↔ Unheard reads schedule events c := by
  have balance := count_waiting_run timed events c
  rw [isDue_iff, mem_cancelled_run timed]
  exact and_congr_right fun _ => by omega

/-- The first start begins a round, since a schedule is idle when it is made. -/
theorem rounds_ne_nil_iff : rounds reads schedule events ≠ [] ↔ ∃ c, .start c ∈ events := by
  have idle (p : Pruning) (timed : IsTimed reads p.schedule) (quiet : p.running = false) :
      trail reads beginning p events ≠ [] ↔ ∃ c, .start c ∈ events := by
    induction events generalizing p with
    | nil => simp [trail]
    | cons e rest ih =>
      have timed' : IsTimed reads (p.step reads e).schedule := (schedule_step timed e).symm ▸ timed
      cases e with
      | start c => simp [trail, beginning, quiet]
      | stop => simpa [trail, beginning] using ih (p.step reads .stop) timed' rfl
      | cancel c => simpa [trail, beginning] using ih (p.step reads (.cancel c)) timed' quiet
      | hear c =>
        have quiet' : (p.step reads (.hear c)).running = false := by
          rw [step_hear]
          split
          · rfl
          · exact quiet
        simpa [trail, beginning] using ih (p.step reads (.hear c)) timed' quiet'
  exact idle { schedule := schedule } timed rfl

end

/-- The timetable holds the job of every round that was ever begun, and it names a next run from the first start on,
whether or not the schedule is running.  A cancelled context stops the schedule once for each round that was begun
in it, whatever round is running at that time, and then no more. -/
theorem every_round_stays (reads : String → Bool) (timed : IsTimed reads schedule) (events : List Event) :
    (run reads schedule events).jobs = rounds reads schedule events ∧
    ((run reads schedule events).hasNextRun = true ↔ ∃ context, .start context ∈ events) ∧
    ∀ context,
      (Unheard reads schedule events context → (run reads schedule (events ++ [.hear context])).running = false) ∧
      (¬ Unheard reads schedule events context →
        run reads schedule (events ++ [.hear context]) = run reads schedule events) := by
  refine ⟨jobs_run timed events, ?_, fun context => ?_⟩
  · rw [← rounds_ne_nil_iff timed, ← jobs_run timed, hasNextRun]
    simp
  · rw [← isDue_run timed, run_append, foldl_cons, foldl_nil, step_hear]
    refine ⟨fun due => ?_, fun settled => if_neg settled⟩
    rw [if_pos due]

/-- A timetable that reads one schedule. -/
def daily : String → Bool := (· == "0 4 * * *")

/-- A schedule was stopped and started again in another context: both jobs are there, and cancelling the first
context stops the second round. -/
theorem second_round_keeps_first : IsTimed daily "0 4 * * *" ∧
    (run daily "0 4 * * *" [.start 0, .stop, .start 1, .cancel 0]).jobs = [0, 1] ∧
    (run daily "0 4 * * *" [.start 0, .stop, .start 1, .cancel 0]).running = true ∧
    (run daily "0 4 * * *" ([.start 0, .stop, .start 1, .cancel 0] ++ [.hear 0])).running = false := by
  have timed : IsTimed daily "0 4 * * *" := ⟨by decide, by decide⟩
  have outcome := every_round_stays daily timed [.start 0, .stop, .start 1, .cancel 0]
  refine ⟨timed, outcome.1.trans (by decide), by decide, ?_⟩
  exact (outcome.2.2 0).1 ⟨by decide, by decide⟩

/-- An idle schedule may name a next run, a job may be registered twice, and the cancellation of an earlier context
may stop a later round. -/
theorem idle_schedule_names_next_run : (run daily "0 4 * * *" [.start 0, .stop]).running = false ∧
    (run daily "0 4 * * *" [.start 0, .stop]).hasNextRun = true ∧
    (run daily "0 4 * * *" [.start 0, .stop, .start 1]).jobs.length = 2 ∧
    (run daily "0 4 * * *" [.start 0, .stop, .start 1]).running = true ∧
    (run daily "0 4 * * *" [.start 0, .stop, .start 1, .cancel 0, .hear 0]).running = false := by
  decide

end Pruning
end Cache
end Whiteboard
