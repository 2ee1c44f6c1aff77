import Whiteboard.Failure

namespace Whiteboard
namespace Service

/-!
Starting and stopping a server.  Each call to serve lasts until its context is cancelled or its
listener fails; the first shutdown stops the server that was started last.
-/

/-- A call to serve that has not returned. -/
structure Serving where
  id : Nat
  context : Nat
  deriving DecidableEq

/-- `started` counts the calls that got a listener; `toldToStop` are those whose server was told to
shut down; `shutdownUsed` is set by the first shutdown, which is the only one with an effect. -/
structure Lifecycle where
  running : Bool := false
  started : Nat := 0
  active : List Serving := []
  toldToStop : List Nat := []
  shutdownUsed : Bool := false
  cancelled : List Nat := []

namespace Lifecycle

def hasAddress (l : Lifecycle) : Bool :=
  0 < l.started

/-- Tells the server that was started last to stop. -/
def shutdown (l : Lifecycle) : Lifecycle :=
  if l.shutdownUsed then l
  else if l.running then
    { l with shutdownUsed := true, running := false, toldToStop := (l.started - 1) :: l.toldToStop }
  else { l with shutdownUsed := true }

/-- Cancels a context: the calls that it belongs to shut the server down and return. -/
def cancel (l : Lifecycle) (context : Nat) : Lifecycle :=
  let mine (s : Serving) : Bool := s.context == context
  let stopped := if l.active.any mine then l.shutdown else l
  { stopped with
    active := l.active.filter (fun s => !mine s), cancelled := context :: l.cancelled }

/-- Serves in a context; while a server runs there is no second one. -/
def serve (l : Lifecycle) (context : Nat) : Except Failure Lifecycle :=
  if l.running then .error (.stated "server is already running")
  else
    let begun := { l with
      running := true, started := l.started + 1, active := l.active ++ [⟨l.started, context⟩] }
    .ok (if l.cancelled.contains context then begun.cancel context else begun)

/-- The listener of a call fails, and the call returns.  One that was told to stop does not
notice. -/
def fail (l : Lifecycle) (id : Nat) : Lifecycle :=
  if l.active.any (fun s => s.id == id) && !l.toldToStop.contains id then
    { l with running := false, active := l.active.filter fun s => s.id != id }
  else l

inductive Event where
  | serve (context : Nat)
  | cancel (context : Nat)
  | fail (id : Nat)
  | shutdown

/-- A call to serve that is refused changes nothing. -/
def step (l : Lifecycle) : Event → Lifecycle
  | .serve context => (l.serve context).toOption.getD l
  | .cancel context => l.cancel context
  | .fail id => l.fail id
  | .shutdown => l.shutdown

end Lifecycle

def listenFailure (address : String) : Failure :=
  .stated ("failed to listen on " ++ address)

end Service
end Whiteboard
