import Whiteboard.Cache

namespace Whiteboard
namespace Cache

/-!
A store in memory: a map from keys to entries.
-/

/-- Entries with different keys, until the store is closed. -/
structure Memory where
  entries : List Entry := []
  closed : Bool := false
  deriving Inhabited

namespace Memory

def find (m : Memory) (key : String) : Option Entry :=
  m.entries.find? fun e => e.key == key

def get (m : Memory) (key : String) : Except Fault (Option Entry) :=
  if m.closed then .error .closed else .ok (m.find key)

def put (m : Memory) (e : Entry) : Except Fault Memory :=
  if m.closed then .error .closed
  else .ok { m with entries := e :: m.entries.filter fun other => other.key != e.key }

def prune (m : Memory) (cutoff : Int) : Except Fault (Memory × Nat) :=
  if m.closed then .error .closed
  else
    let kept := m.entries.filter fun e => decide (cutoff ≤ e.createdAt)
    .ok ({ m with entries := kept }, m.entries.length - kept.length)

def stats (m : Memory) : Except Fault Stats :=
  if m.closed then .error .closed
  else .ok
    { backend := "memory"
      entries := m.entries.length
      bytes := (m.entries.map fun e => e.text.utf8ByteSize).foldr (· + ·) 0
      oldest := least? (m.entries.map Entry.createdAt) }

/-- Drops everything; closing twice is the same as closing once. -/
def close (_ : Memory) : Memory where
  closed := true

end Memory

instance : Storage Memory where
  backend _ := "memory"
  get := Memory.get
  put := Memory.put
  prune := Memory.prune
  stats := Memory.stats
  close := Memory.close

end Cache
end Whiteboard
