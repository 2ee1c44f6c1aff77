import Whiteboard.Cache
import Whiteboard.Metrics

namespace Whiteboard
namespace Cache

/-!
Pruning a store: at once, or again and again on a schedule until the context in which the schedule
was started is cancelled.  Each start waits for that on its own, so it may hear of it at any time
afterwards.
-/

/-- A pruning schedule.  `jobs` are the jobs handed to the timetable, each with the context of the
start that added it; `waiting` are the contexts of the starts that wait to hear of a cancellation. -/
structure Pruning where
  schedule : String
  running : Bool := false
  jobs : List Nat := []
  waiting : List Nat := []
  cancelled : List Nat := []
  deriving DecidableEq, Inhabited

namespace Pruning

/-- Starts the schedule in a context, if the timetable can read it.  An empty schedule, or one that
runs, is left alone. -/
def start (isSchedule : String → Bool) (p : Pruning) (context : Nat) : Except Failure Pruning :=
  if p.schedule.isEmpty || p.running then .ok p
  else if !isSchedule p.schedule then
    .error (.stated ("invalid cron schedule " ++ Text.quoted p.schedule))
  else .ok
    { p with running := true, jobs := p.jobs ++ [context], waiting := p.waiting ++ [context] }

def stop (p : Pruning) : Pruning :=
  { p with running := false }

/-- Cancels a context; the starts that wait for that hear of it later. -/
def cancel (p : Pruning) (context : Nat) : Pruning :=
  { p with cancelled := context :: p.cancelled }

def isDue (p : Pruning) (context : Nat) : Bool :=
  p.cancelled.contains context && p.waiting.contains context

/-- A start hears that its context was cancelled, and stops the schedule. -/
def hear (p : Pruning) (context : Nat) : Pruning :=
  if p.isDue context then { p with waiting := p.waiting.erase context }.stop else p

def hasNextRun (p : Pruning) : Bool :=
  !p.jobs.isEmpty

/-- What can happen to a schedule. -/
inductive Event where
  | start (context : Nat)
  | stop
  | cancel (context : Nat)
  | hear (context : Nat)
  deriving DecidableEq

/-- A start that fails changes nothing. -/
def step (isSchedule : String → Bool) (p : Pruning) : Event → Pruning
  | .start context => (p.start isSchedule context).toOption.getD p
  | .stop => p.stop
  | .cancel context => p.cancel context
  | .hear context => p.hear context

end Pruning

/-- Drops what is older than `ttl` at a time, and records how much that was. -/
def pruneOnce {σ : Type} [Storage σ] (store : σ) (now ttl : Int) (m : Metrics) :
    Except Fault (σ × Nat × Metrics) := do
  let (store, removed) ← Storage.prune store (now - ttl)
  let m := m.cachePruned (Storage.backend store) removed
  match Storage.stats store with
  | .ok s => return (store, removed, m.cacheSize s.backend s.entries)
  | .error _ => return (store, removed, m)

end Cache
end Whiteboard
