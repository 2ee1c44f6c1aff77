namespace Whiteboard

/-!
Waiting until a key has been quiet for a while.  Each trigger sets a timer of its own; a timer that
was replaced may still fire, and then it does nothing.  A timer that fires first decides whether its
work is to be done, and does it afterwards.
-/

/-- The newest timer of each key that waits, the timers whose work is to be done, and those whose
work was done. -/
structure Debouncer where
  waiting : List (String × Nat) := []
  issued : Nat := 0
  stopped : Bool := false
  due : List Nat := []
  ran : List Nat := []

namespace Debouncer

def trigger (d : Debouncer) (key : String) : Debouncer :=
  if d.stopped then d
  else
    { d with
      waiting := (key, d.issued) :: d.waiting.filter fun t => t.1 != key
      issued := d.issued + 1 }

/-- Is a timer the newest of its key, with nothing stopped? -/
def isCurrent (d : Debouncer) (key : String) (timer : Nat) : Bool :=
  !d.stopped && d.waiting.lookup key == some timer

/-- A timer fires: its work is to be done only if it is the newest of its key. -/
def fire (d : Debouncer) (key : String) (timer : Nat) : Debouncer :=
  if d.isCurrent key timer then
    { d with waiting := d.waiting.filter fun t => t.1 != key, due := timer :: d.due }
  else d

def work (d : Debouncer) (timer : Nat) : Debouncer :=
  if d.due.contains timer then { d with due := d.due.erase timer, ran := timer :: d.ran } else d

/-- Gives up everything that waits; later triggers do nothing. -/
def stop (d : Debouncer) : Debouncer :=
  { d with stopped := true, waiting := [] }

def pending (d : Debouncer) : Nat :=
  d.waiting.length

inductive Event where
  | trigger (key : String)
  | fire (key : String) (timer : Nat)
  | work (timer : Nat)
  | stop
  deriving DecidableEq

def step (d : Debouncer) : Event → Debouncer
  | .trigger key => d.trigger key
  | .fire key timer => d.fire key timer
  | .work timer => d.work timer
  | .stop => d.stop

end Debouncer
end Whiteboard
