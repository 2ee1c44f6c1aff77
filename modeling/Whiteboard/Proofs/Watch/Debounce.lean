import Mathlib.Data.List.Nodup
import Mathlib.Data.List.Perm.Basic
import Mathlib.Data.Set.Card
import Whiteboard.Watch.Debounce

namespace Whiteboard

open List
namespace Debouncer

/-!
# Only the latest trigger of a key does its work

Timers fire in any order and as late as they like, also those that were replaced.  Whether the work of a timer is to be
done can be read off the events alone: the timer is that of the latest trigger of its key, it has not fired since, and
nothing was stopped.  Other keys do not come into this, and no work is done twice.
-/

/-- A debouncer after some events, from its making on. -/
def run (events : List Event) : Debouncer := events.foldl step {}

/-- Timers are numbered by the triggers that set them. -/
def timers (events : List Event) : Nat :=
  events.countP fun
    | .trigger _ => true
    | _ => false

/-- The latest trigger of a key has set the timer, which has not fired since, and nothing was stopped. -/
def Awaits (events : List Event) (key : String) (timer : Nat) : Prop :=
  .stop ∉ events ∧ ∃ before after, events = before ++ .trigger key :: after ∧ timers before = timer ∧
    .trigger key ∉ after ∧ .fire key timer ∉ after

/-- The event has to do with a key. -/
def Concerns (key : String) : Event → Prop
  | .trigger other | .fire other _ => other = key
  | .work _ => False
  | .stop => True

/-! ## Events and what they await -/

variable {events : List Event} {key other : String} {timer : Nat} {e : Event}

theorem run_snoc (events : List Event) (e : Event) : run (events ++ [e]) = (run events).step e := foldl_append

theorem timers_snoc_trigger (events : List Event) (key : String) :
    timers (events ++ [.trigger key]) = timers events + 1 := by
  simp [timers]

theorem timers_snoc (quiet : ∀ key, e ≠ .trigger key) : timers (events ++ [e]) = timers events := by
  cases e with
  | trigger key => exact absurd rfl (quiet key)
  | fire | work | stop => simp [timers]

/-- An event in a list with one more at its end stands there or before. -/
theorem snoc_eq_append_cons_iff {first : Event} {before after : List Event} :
    events ++ [e] = before ++ first :: after ↔ (after = [] ∧ before = events ∧ first = e) ∨
      ∃ front, after = front ++ [e] ∧ events = before ++ first :: front := by
  rcases eq_nil_or_concat after with rfl | ⟨front, last, rfl⟩
  · rw [append_singleton_inj, @eq_comm _ events, @eq_comm _ e]
    simp
  · grind [append_assoc, append_singleton_inj]

/-- An event that sets no timer of the key either ends its wait or leaves it. -/
theorem awaits_snoc (quiet : e ≠ .trigger key) :
    Awaits (events ++ [e]) key timer ↔ Awaits events key timer ∧ e ≠ .stop ∧ e ≠ .fire key timer := by
  unfold Awaits
  simp only [mem_append, mem_singleton, not_or, snoc_eq_append_cons_iff]
  constructor
  · grind
  · rintro ⟨⟨unstopped, before, front, rfl, number, latest, unfired⟩, going, still⟩
    refine ⟨⟨unstopped, Ne.symm going⟩, before, front ++ [e], .inr ⟨front, rfl, rfl⟩, number, ?_, ?_⟩
    · simp [latest, Ne.symm quiet]
    · simp [unfired, Ne.symm still]

theorem awaits_snoc_trigger : Awaits (events ++ [.trigger key]) key timer ↔ .stop ∉ events ∧ timer = timers events := by
  unfold Awaits
  simp only [mem_append, mem_singleton, not_or, snoc_eq_append_cons_iff]
  constructor
  · grind
  · rintro ⟨unstopped, rfl⟩
    exact ⟨⟨unstopped, by simp⟩, events, [], by simp, rfl, by simp, by simp⟩

/-- A wait ends by an event of its key only. -/
theorem awaits_append {later : List Event} (others : ∀ e ∈ later, ¬ Concerns key e) :
    Awaits (events ++ later) key timer ↔ Awaits events key timer := by
  induction later using List.reverseRecOn with
  | nil => simp
  | append_singleton later e ih =>
    have apart : ¬ Concerns key e := others e (by simp)
    have before := ih fun e member => others e (by simp [member])
    have quiet : e ≠ .trigger key := fun same => apart (same ▸ rfl)
    have going : e ≠ .stop := fun same => apart (same ▸ trivial)
    have still : e ≠ .fire key timer := fun same => apart (same ▸ rfl)
    rw [← append_assoc, awaits_snoc quiet, before]
    exact and_iff_left ⟨going, still⟩

theorem not_awaits_nil : ¬ Awaits [] key timer := by
  rintro ⟨_, before, after, split, _⟩
  simp at split

/-! ## What every run keeps -/

/-- The timers whose work is or was to be done. -/
def decided (d : Debouncer) : List Nat := d.due ++ d.ran

/-- The debouncer is what its events make of it.  No timer is in two places, and none that is to come is in any. -/
structure Kept (events : List Event) (d : Debouncer) : Prop where
  stopped : d.stopped = true ↔ .stop ∈ events
  issued : .stop ∉ events → d.issued = timers events
  keys : (d.waiting.map Prod.fst).Nodup
  awaits : ∀ key timer, (key, timer) ∈ d.waiting ↔ Awaits events key timer
  once : (d.waiting.map Prod.snd ++ d.decided).Nodup
  past : ∀ timer ∈ d.waiting.map Prod.snd ++ d.decided, timer < d.issued
  fired : ∀ timer ∈ d.decided, ∃ key before after, events = before ++ .fire key timer :: after ∧ Awaits before key timer

namespace Kept

theorem initial : Kept [] {} where
  stopped := by simp
  issued _ := rfl
  keys := nodup_nil
  awaits _ _ := by simp [not_awaits_nil]
  once := nodup_nil
  past := by simp [decided]
  fired := by simp [decided]

variable {d : Debouncer} (kept : Kept events d)
include kept

theorem lookup_eq_some_iff : d.waiting.lookup key = some timer ↔ (key, timer) ∈ d.waiting := by
  have keys := kept.keys
  generalize d.waiting = waiting at keys
  induction waiting with
  | nil => simp
  | cons first rest ih => grind

theorem isCurrent_iff : d.isCurrent key timer = true ↔ Awaits events key timer := by
  rw [← kept.awaits, ← kept.lookup_eq_some_iff]
  unfold isCurrent
  cases halted : d.stopped with
  | false => simp
  | true =>
    have none (timer : Nat) : d.waiting.lookup key ≠ some timer := by
      rw [ne_eq, kept.lookup_eq_some_iff, kept.awaits]
      exact fun awaits => awaits.1 (kept.stopped.mp halted)
    simp [none]

/-- Without the timer of a key, its other timers wait on. -/
theorem waiting_perm (waits : (key, timer) ∈ d.waiting) :
    d.waiting.Perm ((key, timer) :: d.waiting.filter fun t => t.1 != key) := by
  have distinct : d.waiting.Nodup := List.Nodup.of_map Prod.fst kept.keys
  have gone : (key, timer) ∉ d.waiting.filter fun t => t.1 != key := by simp
  refine (perm_ext_iff_of_nodup distinct (nodup_cons.mpr ⟨gone, distinct.filter _⟩)).mpr ?_
  rintro ⟨k, t⟩
  have unique : k = key → (k, t) ∈ d.waiting → t = timer := by
    rintro rfl member
    exact congrArg Prod.snd (inj_on_of_nodup_map kept.keys member waits rfl)
  simp only [mem_cons, mem_filter, bne_iff_ne, Prod.mk.injEq]
  by_cases same : k = key
  · simp only [same, ne_eq, not_true_eq_false, and_false, or_false, true_and]
    exact ⟨fun member => unique same (same ▸ member), fun last => last ▸ waits⟩
  · simp [same]

theorem fired_snoc (e : Event) : ∀ timer ∈ d.decided, ∃ key before after,
    events ++ [e] = before ++ .fire key timer :: after ∧ Awaits before key timer := by
  intro timer member
  rcases kept.fired timer member with ⟨key, before, after, rfl, awaits⟩
  exact ⟨key, before, after ++ [e], by simp, awaits⟩

/-- An event that changes nothing of what waits and of what was decided. -/
theorem unchanged (quiet : ∀ key, e ≠ .trigger key) (going : e ≠ .stop)
    (still : ∀ key timer, Awaits events key timer → e ≠ .fire key timer) : Kept (events ++ [e]) d where
  stopped := by simp [kept.stopped, Ne.symm going]
  issued unstopped := by
    rw [timers_snoc quiet]
    exact kept.issued fun stopped => unstopped (by simp [stopped])
  keys := kept.keys
  awaits key timer := by
    rw [kept.awaits, awaits_snoc (quiet key)]
    exact ⟨fun awaits => ⟨awaits, going, still key timer awaits⟩, And.left⟩
  once := kept.once
  past := kept.past
  fired := kept.fired_snoc e

theorem trigger (key : String) : Kept (events ++ [.trigger key]) (d.trigger key) := by
  unfold Debouncer.trigger
  split
  next halted =>
    -- Nothing waits any more, and a trigger does not change that.
    have stopped := kept.stopped.mp halted
    have none (events' : List Event) (within : events ⊆ events') {key timer} : ¬ Awaits events' key timer :=
      fun awaits => awaits.1 (within stopped)
    refine ⟨by simp [halted, stopped], fun unstopped => absurd (by simp [stopped]) unstopped, kept.keys, ?_, kept.once,
      kept.past, kept.fired_snoc _⟩
    intro k t
    rw [kept.awaits]
    exact iff_of_false (none _ (List.Subset.refl _)) (none _ (subset_append_left ..))
  next going =>
    have unstopped : .stop ∉ events := mt kept.stopped.mpr going
    have fewer : (d.waiting.filter fun t => t.1 != key).Sublist d.waiting := filter_sublist
    have rest : ((d.waiting.filter fun t => t.1 != key).map Prod.snd ++ d.decided).Sublist
        (d.waiting.map Prod.snd ++ d.decided) := (fewer.map _).append_right _
    refine ⟨by simp [kept.stopped], fun _ => ?_, ?_, fun k t => ?_, ?_, ?_, kept.fired_snoc _⟩
    · rw [timers_snoc_trigger, kept.issued unstopped]
    · rw [map_cons, nodup_cons]
      exact ⟨by simp, kept.keys.sublist (fewer.map _)⟩
    · by_cases same : k = key
      · subst same
        rw [awaits_snoc_trigger, ← kept.issued unstopped]
        simp [unstopped]
      · rw [awaits_snoc (by simpa using Ne.symm same), ← kept.awaits]
        simp [same]
    · exact nodup_cons.mpr ⟨fun member => (kept.past _ (rest.subset member)).ne rfl, kept.once.sublist rest⟩
    · refine forall_mem_cons.mpr ⟨Nat.lt_succ_self _, fun t member => ?_⟩
      exact Nat.lt_succ_of_lt (kept.past t (rest.subset member))

theorem fire (key : String) (timer : Nat) : Kept (events ++ [.fire key timer]) (d.fire key timer) := by
  unfold Debouncer.fire
  split
  next current =>
    have awaits := kept.isCurrent_iff.mp current
    have waits := (kept.awaits key timer).mpr awaits
    have moved : (d.waiting.map Prod.snd ++ d.decided).Perm
        ((d.waiting.filter fun t => t.1 != key).map Prod.snd ++ (timer :: d.decided)) :=
      (((kept.waiting_perm waits).map Prod.snd).append_right d.decided).trans perm_middle.symm
    refine ⟨by simp [kept.stopped], fun _ => ?_, kept.keys.sublist (filter_sublist.map _), fun k t => ?_,
      moved.nodup_iff.mp kept.once, fun t member => kept.past t (moved.mem_iff.mpr member), ?_⟩
    · rw [timers_snoc (by simp)]
      exact kept.issued awaits.1
    · rw [awaits_snoc (by simp), ← kept.awaits]
      simp only [mem_filter, bne_iff_ne, ne_eq, reduceCtorEq, not_false_eq_true, true_and, Event.fire.injEq]
      refine and_congr_right fun member => not_congr ⟨fun same => ?_, fun same => same.1.symm⟩
      subst same
      exact ⟨rfl, congrArg Prod.snd (inj_on_of_nodup_map kept.keys waits member rfl)⟩
    · exact forall_mem_cons.mpr ⟨⟨key, events, [], rfl, awaits⟩, kept.fired_snoc _⟩
  next stale =>
    refine kept.unchanged (by simp) (by simp) fun k t awaits same => stale ?_
    rcases Event.fire.inj same with ⟨rfl, rfl⟩
    exact kept.isCurrent_iff.mpr awaits

theorem work (timer : Nat) : Kept (events ++ [.work timer]) (d.work timer) := by
  have same := kept.unchanged (e := .work timer) (by simp) (by simp) (by simp)
  unfold Debouncer.work
  split
  next due =>
    have moved : d.decided.Perm (d.due.erase timer ++ timer :: d.ran) :=
      ((perm_cons_erase (contains_iff_mem.mp due)).append_right d.ran).trans perm_middle.symm
    have all := moved.append_left (d.waiting.map Prod.snd)
    exact ⟨same.stopped, same.issued, same.keys, same.awaits, all.nodup_iff.mp same.once,
      fun t member => same.past t (all.mem_iff.mpr member), fun t member => same.fired t (moved.mem_iff.mpr member)⟩
  next => exact same

theorem stop : Kept (events ++ [.stop]) d.stop where
  stopped := by simp [Debouncer.stop]
  issued unstopped := absurd (by simp) unstopped
  keys := nodup_nil
  awaits key timer := by simp [Debouncer.stop, Awaits]
  once := kept.once.sublist (sublist_append_right ..)
  past timer member := kept.past timer (mem_append_right _ member)
  fired := kept.fired_snoc _

theorem step (e : Event) : Kept (events ++ [e]) (d.step e) := by
  cases e with
  | trigger key => exact kept.trigger key
  | fire key timer => exact kept.fire key timer
  | work timer => exact kept.work timer
  | stop => exact kept.stop

theorem pending_eq : d.pending = {key | ∃ timer, Awaits events key timer}.ncard := by
  have waiting : {key | ∃ timer, Awaits events key timer} = ((d.waiting.map Prod.fst).toFinset : Set String) := by
    ext key
    simp [← kept.awaits]
  rw [waiting, Set.ncard_coe_finset, toFinset_card_of_nodup kept.keys, length_map]
  rfl

end Kept

theorem kept_run (events : List Event) : Kept events (run events) := by
  induction events using List.reverseRecOn with
  | nil => exact Kept.initial
  | append_singleton events e ih =>
    rw [run_snoc]
    exact ih.step e

/-- No work is done twice, and all of it was decided on by a timer that was then awaited.  A timer that fires decides
for its work if it is awaited and changes nothing if it is not.  No event of another key makes a difference to that,
and no trigger takes back what was decided.  The number of keys that wait is the number of keys that await a timer. -/
theorem latest_trigger_alone_works (events : List Event) : (run events).ran.Nodup ∧
    (∀ timer ∈ (run events).due ++ (run events).ran, ∃ key before after,
      events = before ++ .fire key timer :: after ∧ Awaits before key timer) ∧
    (∀ key timer, (Awaits events key timer → (run (events ++ [.fire key timer])).due = timer :: (run events).due) ∧
      (¬ Awaits events key timer → run (events ++ [.fire key timer]) = run events)) ∧
    (∀ key timer later, (∀ e ∈ later, ¬ Concerns key e) →
      (run (events ++ later)).isCurrent key timer = (run events).isCurrent key timer) ∧
    (∀ key, (run (events ++ [.trigger key])).due = (run events).due) ∧
    (run events).pending = {key | ∃ timer, Awaits events key timer}.ncard := by
  have kept := kept_run events
  have spent := (nodup_append.mp kept.once).2.1
  refine ⟨(nodup_append.mp spent).2.1, kept.fired, fun key timer => ?_, ?_, fun key => ?_, kept.pending_eq⟩
  · rw [run_snoc, ← kept.isCurrent_iff]
    refine ⟨fun current => ?_, fun stale => if_neg stale⟩
    simp [step, fire, current]
  · intro key timer later others
    rw [Bool.eq_iff_iff, (kept_run _).isCurrent_iff, kept.isCurrent_iff]
    exact awaits_append others
  · rw [run_snoc, step, trigger]
    split <;> rfl

/-- The first timer of a key fires late and is ignored; the second one is current, and events of another key leave it
so. -/
theorem replaced_timer_ignored :
    run ([.trigger "a", .trigger "b", .trigger "a"] ++ [.fire "a" 0]) = run [.trigger "a", .trigger "b", .trigger "a"] ∧
    (∀ e ∈ [Event.trigger "b", .fire "b" 1], ¬ Concerns "a" e) ∧
    (run ([.trigger "a", .trigger "b", .trigger "a"] ++ [.trigger "b", .fire "b" 1])).isCurrent "a" 2 = true := by
  have outcome := latest_trigger_alone_works [.trigger "a", .trigger "b", .trigger "a"]
  have others : ∀ e ∈ [Event.trigger "b", .fire "b" 1], ¬ Concerns "a" e := by simp [Concerns]
  have stale : ¬ Awaits [.trigger "a", .trigger "b", .trigger "a"] "a" 0 := by
    rw [← (kept_run _).isCurrent_iff]
    decide
  exact ⟨(outcome.2.2.1 "a" 0).2 stale, others, (outcome.2.2.2.1 "a" 2 _ others).trans (by decide)⟩

end Debouncer
end Whiteboard
