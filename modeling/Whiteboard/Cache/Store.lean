import Whiteboard.Cache.Memory
import Whiteboard.Cache.Table
import Whiteboard.Settings

namespace Whiteboard
namespace Cache

/-!
The store that the settings ask for.
-/

inductive Store where
  | memory (m : Memory)
  | table (t : Table)
  deriving Inhabited

instance : Storage Store where
  backend
    | .memory m => Storage.backend m
    | .table t => Storage.backend t
  get
    | .memory m, key => m.get key
    | .table t, key => t.get key
  put
    | .memory m, e => (m.put e).map .memory
    | .table t, e => (t.put e).map .table
  prune
    | .memory m, cutoff => (m.prune cutoff).map fun (m, n) => (.memory m, n)
    | .table t, cutoff => (t.prune cutoff).map fun (t, n) => (.table t, n)
  stats
    | .memory m => m.stats
    | .table t => t.stats
  close
    | .memory m => .memory m.close
    | .table t => .table t.close

namespace Store

def openTable (path driver : String) : Except Failure Store :=
  if path.isEmpty then .error (.stated "db path cannot be empty")
  else if driver.isEmpty || driver == "modernc" || driver == "cgo" then .ok (.table {})
  else
    .error (.stated ("unknown sqlite driver " ++ Text.quoted driver ++
      " (want \"modernc\" or \"cgo\")"))

/-- The store of the settings; none if there is to be no cache. -/
def ofSettings (s : Settings.Cache) : Except Failure (Option Store) :=
  if !s.enabled then .ok none
  else if s.backend.isEmpty || s.backend == "memory" then .ok (some (.memory {}))
  else if s.backend == "sqlite" then (openTable s.path s.driver).map some
  else .error (.stated ("unknown cache backend " ++ Text.quoted s.backend))

end Store
end Cache
end Whiteboard
