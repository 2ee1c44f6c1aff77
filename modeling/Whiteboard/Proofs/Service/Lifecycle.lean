import Mathlib.Data.List.Nodup
import Whiteboard.Service.Lifecycle

namespace Whiteboard

open List
namespace Service
namespace Lifecycle

/-!
# What a shutdown stops

A server may be started and stopped any number of times, but only the first shutdown of its life has an effect,
be it asked for or made by a call whose context is cancelled.  Up to then there is at most one call, and the
call that is cancelled leaves the server stopped.  Afterwards a cancelled call returns and leaves its server
as it is: one that nobody has told to stop then runs for ever, and no call is served any more.
-/

/-- The server after some events, from its start on. -/
def run (events : List Event) : Lifecycle := events.foldl step {}

theorem run_append (events later : List Event) : run (events ++ later) = later.foldl step (run events) := foldl_append

theorem run_snoc (events : List Event) (e : Event) : run (events ++ [e]) = (run events).step e := run_append events [e]

/-- A call in a context gets its listener. -/
def listening (l : Lifecycle) (context : Nat) : Lifecycle :=
  { l with running := true, started := l.started + 1, active := l.active ++ [⟨l.started, context⟩] }

/-- The calls that return at an event because their context is cancelled.  A call whose context was cancelled
before it came returns at once. -/
def returning (l : Lifecycle) : Event → List Serving
  | .cancel context => l.active.filter (·.context == context)
  | .serve context =>
    if !l.running && l.cancelled.contains context then
      (l.listening context).active.filter (·.context == context)
    else []
  | _ => []

/-- The event makes a shutdown. -/
def Stops (l : Lifecycle) (e : Event) : Prop := e = .shutdown ∨ l.returning e ≠ []

/-- One of the events has made a shutdown. -/
def WasStopped (events : List Event) : Prop := ∃ before e after, events = before ++ e :: after ∧ (run before).Stops e

/-! ## What an event can do -/

variable {l : Lifecycle} {context : Nat} {e : Event} {s t : Serving}

theorem shutdown_of_used (used : l.shutdownUsed = true) : l.shutdown = l := by simp [shutdown, used]

theorem used_shutdown (l : Lifecycle) : l.shutdown.shutdownUsed = true := by
  unfold shutdown
  split
  · assumption
  · split <;> rfl

theorem serve_of_running (running : l.running = true) :
    l.serve context = .error (.stated "server is already running") := by
  simp [serve, running]

theorem step_serve_of_running (running : l.running = true) : l.step (.serve context) = l := by
  rw [step, serve_of_running running]
  rfl

/-- A call in a cancelled context is like one whose context is cancelled as soon as it listens. -/
theorem step_serve_of_idle (idle : l.running = false) : l.step (.serve context) =
      if l.cancelled.contains context then (l.listening context).step (.cancel context) else l.listening context := by
  simp only [step, serve, idle]
  rfl

theorem returning_serve (idle : l.running = false) (late : l.cancelled.contains context = true) :
    l.returning (.serve context) = (l.listening context).returning (.cancel context) := by
  simp only [returning, idle, late, Bool.not_false, Bool.and_self, if_true]

theorem returning_listening_ne_nil (l : Lifecycle) (context : Nat) :
    (l.listening context).returning (.cancel context) ≠ [] :=
  ne_nil_of_mem (mem_filter.mpr ⟨mem_append_right _ mem_cons_self, beq_self_eq_true context⟩)

/-- Cancelling a context makes a shutdown if a call belongs to it, and lets the calls of the context return. -/
theorem step_cancel (l : Lifecycle) (context : Nat) : l.step (.cancel context) =
      { if l.returning (.cancel context) = [] then l else l.shutdown with
        active := l.active.filter fun s => !(s.context == context)
        cancelled := context :: l.cancelled } := by
  have any : l.active.any (fun s => s.context == context) = true ↔ l.returning (.cancel context) ≠ [] := by
    simp [returning, filter_eq_nil_iff]
  simp only [step, cancel]
  split
  next some => rw [if_neg (any.mp some)]
  next none => rw [if_pos (not_not.mp (mt any.mpr none))]

theorem step_cancel_of_used (used : l.shutdownUsed = true) : l.step (.cancel context) = { l with
        active := l.active.filter fun s => !(s.context == context)
        cancelled := context :: l.cancelled } := by
  rw [step_cancel, shutdown_of_used used, ite_self]

theorem used_step_cancel : (l.step (.cancel context)).shutdownUsed = true ↔
      l.shutdownUsed = true ∨ l.returning (.cancel context) ≠ [] := by
  rw [step_cancel]
  dsimp only
  split
  next none => simp [none]
  next some => simp [some, used_shutdown]

theorem used_step (l : Lifecycle) (e : Event) : (l.step e).shutdownUsed = true ↔ l.shutdownUsed = true ∨ l.Stops e := by
  cases e with
  | serve context =>
    cases running : l.running with
    | true => simp [step_serve_of_running running, Stops, returning, running]
    | false =>
      rw [step_serve_of_idle running]
      split
      next late =>
        rw [used_step_cancel, Stops, returning_serve running late]
        simp [returning_listening_ne_nil]
      next timely =>
        have timely : context ∉ l.cancelled := by simpa using timely
        simp [Stops, returning, timely, listening]
  | cancel context => simp [used_step_cancel, Stops]
  | fail id =>
    have same : (l.fail id).shutdownUsed = l.shutdownUsed := by
      unfold fail
      split <;> rfl
    simp [step, same, Stops, returning]
  | shutdown => simp [step, used_shutdown, Stops]

theorem used_foldl_step (events : List Event) (l : Lifecycle) :
    (events.foldl step l).shutdownUsed = true ↔ l.shutdownUsed = true ∨
      ∃ before e after, events = before ++ e :: after ∧ (before.foldl step l).Stops e := by
  induction events generalizing l with
  | nil => simp
  | cons e rest ih =>
    rw [foldl_cons, ih, used_step, or_assoc]
    apply or_congr_right
    constructor
    · rintro (stops | ⟨before, f, after, rfl, stops⟩)
      · exact ⟨[], e, rest, rfl, stops⟩
      · exact ⟨e :: before, f, after, rfl, stops⟩
    · rintro ⟨before, f, after, split, stops⟩
      cases before with
      | nil =>
        cases split
        exact .inl stops
      | cons first before =>
        cases split
        exact .inr ⟨before, f, after, rfl, stops⟩

/-- The shutdown is used up exactly by the events that have made one. -/
theorem used_run (events : List Event) : (run events).shutdownUsed = true ↔ WasStopped events :=
  (used_foldl_step events {}).trans (or_iff_right Bool.false_ne_true)

/-! ## What every run keeps -/

/-- Calls are numbered as they come.  Only the last one can have a server that was not told to stop, and that
server runs. -/
structure Kept (l : Lifecycle) : Prop where
  numbered : ∀ s ∈ l.active, s.id < l.started
  distinct : (l.active.map (·.id)).Nodup
  last : ∀ s ∈ l.active, s.id ∉ l.toldToStop → l.running = true ∧ s.id + 1 = l.started
  fresh : l.shutdownUsed = false → l.toldToStop = []

namespace Kept

theorem unique (kept : l.Kept) (first : s ∈ l.active) (second : t ∈ l.active) (going : s.id ∉ l.toldToStop)
    (alsoGoing : t.id ∉ l.toldToStop) : s = t := by
  have here := (kept.last s first going).2
  have there := (kept.last t second alsoGoing).2
  exact inj_on_of_nodup_map kept.distinct first second (by omega)

/-- There is one call at most as long as no server was told to stop. -/
theorem length_le_one (kept : l.Kept) (unused : l.shutdownUsed = false) : l.active.length ≤ 1 := by
  have none := kept.fresh unused
  match found : l.active with
  | [] | [_] => simp
  | s :: t :: rest =>
    have same : s = t := kept.unique (by simp [found]) (by simp [found]) (by simp [none]) (by simp [none])
    have distinct := kept.distinct
    simp [found, same] at distinct

theorem initial : Kept {} where
  numbered _ member := absurd member not_mem_nil
  distinct := nodup_nil
  last _ member := absurd member not_mem_nil
  fresh _ := rfl

theorem leave (kept : l.Kept) (stays : Serving → Bool) (cancelled : List Nat) :
    Kept { l with active := l.active.filter stays, cancelled := cancelled } where
  numbered s member := kept.numbered s (mem_of_mem_filter member)
  distinct := kept.distinct.sublist (filter_sublist.map _)
  last s member := kept.last s (mem_of_mem_filter member)
  fresh := kept.fresh

theorem shutdown (kept : l.Kept) : l.shutdown.Kept := by
  unfold Lifecycle.shutdown
  split
  · exact kept
  split
  · refine ⟨kept.numbered, kept.distinct, ?_, fun unused => by cases unused⟩
    intro s member going
    have going : s.id ≠ l.started - 1 ∧ s.id ∉ l.toldToStop := by simpa using going
    have last := (kept.last s member going.2).2
    omega
  · exact ⟨kept.numbered, kept.distinct, kept.last, fun unused => by cases unused⟩

theorem listening (kept : l.Kept) (idle : l.running = false) (context : Nat) : (l.listening context).Kept where
  numbered := by
    refine forall_mem_append.mpr ⟨fun s member => ?_, by simp [Lifecycle.listening]⟩
    exact Nat.lt_succ_of_lt (kept.numbered s member)
  distinct := by
    simp only [Lifecycle.listening, map_append, map_cons, map_nil]
    refine nodup_append.mpr ⟨kept.distinct, nodup_singleton _, ?_⟩
    intro id member other new same
    rcases mem_map.mp member with ⟨s, inside, rfl⟩
    have before := kept.numbered s inside
    rw [mem_singleton.mp new] at same
    omega
  last := by
    refine forall_mem_append.mpr ⟨fun s member going => ?_, by simp [Lifecycle.listening]⟩
    rw [(kept.last s member going).1] at idle
    cases idle
  fresh := kept.fresh

theorem fail (kept : l.Kept) (id : Nat) : (l.fail id).Kept := by
  unfold Lifecycle.fail
  split
  next failed =>
    rw [Bool.and_eq_true, any_eq_true] at failed
    rcases failed with ⟨⟨s, member, same⟩, going⟩
    have left := kept.leave (fun t => t.id != id) l.cancelled
    refine ⟨left.numbered, left.distinct, ?_, left.fresh⟩
    -- The call that fails is the one whose server runs, so all others were told to stop.
    intro t stays alsoGoing
    have stays := mem_filter.mp stays
    have same := eq_of_beq same
    have one : s = t := kept.unique member stays.1 (by simpa [same] using going) alsoGoing
    simp [← one, same] at stays
  next => exact kept

theorem step (kept : l.Kept) (e : Event) : (l.step e).Kept := by
  have cancel {l : Lifecycle} (kept : l.Kept) (context : Nat) : (l.step (.cancel context)).Kept := by
    rw [step_cancel]
    split
    · exact kept.leave _ _
    · have same : l.shutdown.active = l.active := by
        unfold Lifecycle.shutdown
        split
        · rfl
        · split <;> rfl
      rw [← same]
      exact kept.shutdown.leave _ _
  cases e with
  | serve context =>
    cases running : l.running with
    | true => rwa [step_serve_of_running running]
    | false =>
      rw [step_serve_of_idle running]
      split
      · exact cancel (kept.listening running context) context
      · exact kept.listening running context
  | cancel context => exact cancel kept context
  | fail id => exact kept.fail id
  | shutdown => exact kept.shutdown

theorem foldl_step (kept : l.Kept) (events : List Event) : (events.foldl Lifecycle.step l).Kept := by
  induction events generalizing l with
  | nil => exact kept
  | cons e rest ih => exact ih (kept.step e)

end Kept

theorem kept_run (events : List Event) : (run events).Kept := Kept.initial.foldl_step events

/-! ## A server that nobody stops -/

/-- The server runs, the shutdown is used up, and all calls that are left wait for servers that were told to
stop. -/
structure Orphaned (l : Lifecycle) : Prop where
  running : l.running = true
  used : l.shutdownUsed = true
  others : ∀ s ∈ l.active, s.id ∈ l.toldToStop

theorem Orphaned.step (orphaned : l.Orphaned) (e : Event) :
    (l.step e).Orphaned ∧ (l.step e).toldToStop = l.toldToStop := by
  cases e with
  | serve context =>
    rw [step_serve_of_running orphaned.running]
    exact ⟨orphaned, rfl⟩
  | cancel context =>
    rw [step_cancel_of_used orphaned.used]
    refine ⟨⟨orphaned.running, orphaned.used, ?_⟩, rfl⟩
    exact fun s member => orphaned.others s (mem_of_mem_filter member)
  | fail id =>
    have unnoticed : l.fail id = l := by
      unfold fail
      split
      next failed =>
        rw [Bool.and_eq_true, any_eq_true] at failed
        rcases failed with ⟨⟨s, member, same⟩, going⟩
        have told := orphaned.others s member
        simp [← eq_of_beq same, told] at going
      next => rfl
    rw [Lifecycle.step, unnoticed]
    exact ⟨orphaned, rfl⟩
  | shutdown =>
    rw [Lifecycle.step, shutdown_of_used orphaned.used]
    exact ⟨orphaned, rfl⟩

theorem Orphaned.foldl_step (orphaned : l.Orphaned) (events : List Event) :
    (events.foldl Lifecycle.step l).Orphaned ∧ (events.foldl Lifecycle.step l).toldToStop = l.toldToStop := by
  induction events generalizing l with
  | nil => exact ⟨orphaned, rfl⟩
  | cons e rest ih =>
    rcases orphaned.step e with ⟨still, same⟩
    rw [← same]
    exact ih still

/-! ## Calls that return -/

/-- The first shutdown, made by a call of a cancelled context, stops the server of that call. -/
theorem Kept.stopped_by_cancel (kept : l.Kept) (unused : l.shutdownUsed = false)
    (returns : s ∈ l.returning (.cancel context)) :
    (l.step (.cancel context)).running = false ∧ s.id ∈ (l.step (.cancel context)).toldToStop := by
  have some : l.returning (.cancel context) ≠ [] := ne_nil_of_mem returns
  have none := kept.fresh unused
  rcases kept.last s (mem_of_mem_filter returns) (by simp [none]) with ⟨running, last⟩
  rw [step_cancel, if_neg some]
  simp [Lifecycle.shutdown, unused, running, ← last]

/-- A call that returns later leaves its server running if nobody has told it to stop. -/
theorem Kept.orphaned_by_cancel (kept : l.Kept) (used : l.shutdownUsed = true)
    (returns : s ∈ l.returning (.cancel context)) (going : s.id ∉ l.toldToStop) :
    (l.step (.cancel context)).Orphaned := by
  have member := mem_filter.mp returns
  rw [step_cancel_of_used used]
  refine ⟨(kept.last s member.1 going).1, used, ?_⟩
  intro t stays
  have stays := mem_filter.mp stays
  by_contra alsoGoing
  rw [← kept.unique member.1 stays.1 going alsoGoing, member.2] at stays
  cases stays.2

/-- A call returns when its context is cancelled, be it that it listened before or that it comes too late. -/
theorem Kept.of_returning (kept : l.Kept) (returns : s ∈ l.returning e) :
    ∃ (m : Lifecycle) (context : Nat), m.Kept ∧ s ∈ m.returning (.cancel context) ∧
      l.step e = m.step (.cancel context) ∧ m.shutdownUsed = l.shutdownUsed ∧ m.toldToStop = l.toldToStop ∧
      (m.running = false ↔ l.running = false ∧ ∃ context, e = .cancel context) := by
  cases e with
  | serve context =>
    cases running : l.running with
    | true => simp [returning, running] at returns
    | false =>
      cases late : l.cancelled.contains context with
      | false =>
        rw [returning, late, Bool.and_false] at returns
        cases returns
      | true =>
        refine ⟨l.listening context, context, kept.listening running context, ?_, ?_, rfl, rfl, ?_⟩
        · rwa [← returning_serve running late]
        · rw [step_serve_of_idle running, if_pos late]
        · simp [Lifecycle.listening]
  | cancel context => exact ⟨l, context, kept, returns, rfl, rfl, rfl, by simp⟩
  | fail id => cases returns
  | shutdown => cases returns

/-- At most one call has a server that was not told to stop, and before the first shutdown there is at most one
call.  Of the calls that return because their context is cancelled, one that makes the first shutdown leaves
the server stopped.  A later one stops nothing: the server runs on if it ran, or if the call started it, and if
it was the server of that call, then it runs for ever, is never told to stop, and no other call is served. -/
theorem only_first_shutdown_stops (events : List Event) : (∀ s ∈ (run events).active, ∀ t ∈ (run events).active,
      s.id ∉ (run events).toldToStop → t.id ∉ (run events).toldToStop → s = t) ∧
    (¬ WasStopped events → (run events).active.length ≤ 1) ∧
    ∀ e, ∀ s ∈ (run events).returning e, (¬ WasStopped events →
        (run (events ++ [e])).running = false ∧ s.id ∈ (run (events ++ [e])).toldToStop) ∧
      (WasStopped events → (run (events ++ [e])).toldToStop = (run events).toldToStop ∧
        ((run (events ++ [e])).running = false ↔ (run events).running = false ∧ ∃ context, e = .cancel context) ∧
        (s.id ∉ (run events).toldToStop → ∀ later,
          (run (events ++ e :: later)).running = true ∧ s.id ∉ (run (events ++ e :: later)).toldToStop ∧
          ∀ context, (run (events ++ e :: later)).serve context = .error (.stated "server is already running"))) := by
  have kept := kept_run events
  have unused (unstopped : ¬ WasStopped events) : (run events).shutdownUsed = false :=
    Bool.eq_false_iff.mpr (mt (used_run events).mp unstopped)
  refine ⟨fun s first t second => kept.unique first second, ?_, ?_⟩
  · exact fun unstopped => kept.length_le_one (unused unstopped)
  intro e s returns
  rcases kept.of_returning returns with ⟨m, context, kept, returns, same, sameUsed, told, running⟩
  rw [run_snoc, same, ← told, ← running]
  constructor
  · intro unstopped
    exact kept.stopped_by_cancel (sameUsed.trans (unused unstopped)) returns
  · intro stopped
    have used := sameUsed.trans ((used_run events).mpr stopped)
    have untold : (m.step (.cancel context)).toldToStop = m.toldToStop := by rw [step_cancel_of_used used]
    refine ⟨untold, by rw [step_cancel_of_used used], ?_⟩
    intro going later
    rcases (kept.orphaned_by_cancel used returns going).foldl_step later with ⟨orphaned, unchanged⟩
    rw [run_append, foldl_cons, same, unchanged, untold]
    exact ⟨orphaned.running, going, fun _ => serve_of_running orphaned.running⟩

/-- After one round of start and stop, the server of the second round is not stopped, and it is left to run. -/
theorem second_round_runs_on : (⟨1, 1⟩ : Serving) ∈ (run [.serve 0, .cancel 0, .serve 1]).returning (.cancel 1) ∧
    ∀ later, (run ([.serve 0, .cancel 0, .serve 1] ++ .cancel 1 :: later)).running = true := by
  have returns : (⟨1, 1⟩ : Serving) ∈ (run [.serve 0, .cancel 0, .serve 1]).returning (.cancel 1) := by decide
  have stopped : WasStopped [.serve 0, .cancel 0, .serve 1] :=
    ⟨[.serve 0], .cancel 0, [.serve 1], rfl, .inr (by decide)⟩
  have outcome := (only_first_shutdown_stops [.serve 0, .cancel 0, .serve 1]).2.2 (.cancel 1) ⟨1, 1⟩ returns
  exact ⟨returns, fun later => ((outcome.2 stopped).2.2 (by decide) later).1⟩

/-- A call may return because its context is cancelled while the server still runs and was never told to stop,
and two calls may be waiting at a time. -/
theorem cancelled_call_leaves_server_running :
    (⟨1, 1⟩ : Serving) ∈ (run [.serve 0, .cancel 0, .serve 1]).returning (.cancel 1) ∧
    (run [.serve 0, .cancel 0, .serve 1, .cancel 1]).running = true ∧
    1 ∉ (run [.serve 0, .cancel 0, .serve 1, .cancel 1]).toldToStop ∧
    (run [.serve 0, .shutdown, .serve 1]).active.length = 2 := by
  decide

end Lifecycle
end Service
end Whiteboard
