import Whiteboard.Failure
import Whiteboard.Latex.Document

namespace Whiteboard
namespace Cache

/-!
Finished compilations kept for later, and what a store of them can do.  Times are nanoseconds
since 1970.
-/

/-- A finished compilation under its key. -/
structure Entry where
  key : String
  dialect : String
  text : String
  warnings : List Warning := []
  createdAt : Int
  deriving DecidableEq, Inhabited

def Entry.rendered (e : Entry) : Rendered :=
  ⟨e.text, e.warnings⟩

/-- What a store holds: `bytes` counts the texts in UTF-8, and an empty store has no oldest
entry. -/
structure Stats where
  backend : String
  entries : Nat
  bytes : Nat
  oldest : Option Int
  deriving DecidableEq, Inhabited

/-- Why a store cannot do what it is asked for. -/
inductive Fault where
  | closed
  | undecodable
  deriving DecidableEq, Inhabited

def Fault.message : Fault → String
  | closed => "cache: store is closed"
  | undecodable => "failed to decode cached warnings"

def Fault.toFailure (f : Fault) : Failure :=
  .stated f.message

/-- A store: `put` replaces what is under the key, and `prune` drops what is older than a time
and tells how much that was. -/
class Storage (σ : Type) where
  backend : σ → String
  get : σ → String → Except Fault (Option Entry)
  put : σ → Entry → Except Fault σ
  prune : σ → Int → Except Fault (σ × Nat)
  stats : σ → Except Fault Stats
  close : σ → σ

def least? : List Int → Option Int
  | [] => none
  | n :: ns => some (ns.foldl min n)

end Cache
end Whiteboard
