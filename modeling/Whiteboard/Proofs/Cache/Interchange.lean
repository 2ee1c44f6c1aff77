import Mathlib.Data.List.Find
import Mathlib.Data.List.Nodup
import Whiteboard.Proofs.Cache.Faithful

namespace Whiteboard

open List
namespace Cache

/-!
# Stores in memory and in a database are interchangeable

A caller sees of a store what it answers to a sequence of operations.  The rows of the table are those of
the entries in memory, in another order, and every answer is the same for all orders: a key stands in one
row only, and rows are counted, added up and compared.  A time survives as long as it fits a word of 64 bits.
-/

/-! ## What a caller sees -/

inductive Operation where
  | put (e : Entry)
  | get (key : String)
  | prune (cutoff : Int)
  | stats
  | close
  deriving DecidableEq

inductive Answer where
  | done
  | found (entry : Option Entry)
  | removed (count : Nat)
  | holding (entries bytes : Nat) (oldest : Option Int)
  deriving DecidableEq

section
variable {σ : Type} [Storage σ]

/-- The answer to an operation, and the store after it.  A store that refuses is left as it is. -/
def perform (store : σ) : Operation → Except Fault Answer × σ
  | .put e =>
    match Storage.put store e with
    | .ok next => (.ok .done, next)
    | .error fault => (.error fault, store)
  | .get key => ((Storage.get store key).map .found, store)
  | .prune cutoff =>
    match Storage.prune store cutoff with
    | .ok (next, count) => (.ok (.removed count), next)
    | .error fault => (.error fault, store)
  | .stats => ((Storage.stats store).map fun s => .holding s.entries s.bytes s.oldest, store)
  | .close => (.ok .done, Storage.close store)

/-- The answers to operations one after the other. -/
def answers (store : σ) : List Operation → List (Except Fault Answer)
  | [] => []
  | op :: rest => (perform store op).1 :: answers (perform store op).2 rest

end

/-- What a closed store answers: it can only be closed once more. -/
def Operation.whenClosed : Operation → Except Fault Answer
  | close => .ok .done
  | _ => .error .closed

/-! ## Times -/

/-- The time fits a word of 64 bits. -/
def FitsWord (n : Int) : Prop := -0x8000000000000000 ≤ n ∧ n < 0x8000000000000000

instance : DecidablePred FitsWord := fun _ => inferInstanceAs (Decidable (_ ∧ _))

theorem timeWord_of_fits {n : Int} (fits : FitsWord n) : timeWord n = n := by
  rcases fits with ⟨low, high⟩
  exact Int.bmod_eq_of_le_mul_two (by omega) (by omega)

/-- All times that the operation gives fit. -/
def Operation.Fits : Operation → Prop
  | put e => FitsWord e.createdAt
  | prune cutoff => FitsWord cutoff
  | _ => True

instance : DecidablePred Operation.Fits
  | .put e => inferInstanceAs (Decidable (FitsWord e.createdAt))
  | .prune cutoff => inferInstanceAs (Decidable (FitsWord cutoff))
  | .get _ | .stats | .close => inferInstanceAs (Decidable True)

/-! ## Rows in any order -/

/-- An update is as good as dropping the row of the key and inserting the new one. -/
theorem Table.upsert_perm (row : Row) {rows : List Row} (nodup : (rows.map Row.key).Nodup) :
    (upsert row rows).Perm (row :: rows.filter fun r => r.key != row.key) := by
  unfold upsert
  split
  next present =>
    induction rows with
    | nil => cases present
    | cons r rest ih =>
      rw [map_cons, nodup_cons] at nodup
      by_cases here : r.key = row.key
      · have others : ∀ other ∈ rest, other.key ≠ row.key := by
          intro other member same
          exact nodup.1 (mem_map.mpr ⟨other, member, same.trans here.symm⟩)
        have kept : rest.map (fun r => if r.key = row.key then row else r) = rest := by
          rw [map_congr_left fun other member => if_neg (others other member), map_id']
        have all : rest.filter (fun r => r.key != row.key) = rest := by simp_all
        simp [here, kept, all]
      · have later : (rest.any fun r => r.key == row.key) = true := by simpa [here] using present
        have moved := (ih nodup.2 later).cons r
        simpa [here] using moved.trans (List.Perm.swap row r _)
  next absent => grind [filter_eq_self, perm_append_singleton]

theorem least?_eq_min? (ns : List Int) : least? ns = ns.min? := by
  cases ns with
  | nil => rfl
  | cons n rest => rfl

theorem least?_perm {ns ms : List Int} (perm : ns.Perm ms) : least? ns = least? ms := by
  rw [least?_eq_min?, least?_eq_min?]
  ext n
  simp only [List.min?_eq_some_iff, perm.mem_iff]

/-! ## One operation -/

/-- The table has the entries in memory for its rows. -/
structure Mirrors (m : Memory) (t : Table) : Prop where
  closed : t.closed = m.closed
  rows : m.closed = false → t.rows.Perm (m.entries.map Row.ofEntry)
  keys : (m.entries.map Entry.key).Nodup
  times : ∀ e ∈ m.entries, FitsWord e.createdAt

namespace Mirrors

variable {m : Memory} {t : Table}

section
variable (mirrors : Mirrors m t) (isOpen : m.closed = false)
include mirrors isOpen

theorem rowKeys : (t.rows.map Row.key).Nodup := by
  have keys := (mirrors.rows isOpen).map Row.key
  rw [map_map] at keys
  exact keys.nodup_iff.mpr mirrors.keys

theorem find (key : String) : t.rows.find? (fun r => r.key == key) = (m.find key).map Row.ofEntry := by
  have unique : {r ∈ t.rows | r.key == key}.Subsingleton := by
    rintro r ⟨member, its⟩ other ⟨memberToo, itsToo⟩
    have same : r.key = other.key := (eq_of_beq its).trans (eq_of_beq itsToo).symm
    exact inj_on_of_nodup_map (mirrors.rowKeys isOpen) member memberToo same
  rw [List.find?_eq_find?_of_perm (mirrors.rows isOpen) unique, List.find?_map]
  rfl

theorem get (key : String) : t.get key = m.get key := by
  rw [Table.get, Memory.get, mirrors.closed, isOpen, mirrors.find isOpen]
  cases found : m.find key with
  | none => rfl
  | some e =>
    have fits := mirrors.times e (mem_of_find?_eq_some found)
    simp [Row.toEntry_ofEntry, timeWord_of_fits fits]

theorem stats : t.rows.length = m.entries.length ∧ (t.rows.map fun r => r.output.utf8ByteSize).foldr (· + ·) 0 =
      (m.entries.map fun e => e.text.utf8ByteSize).foldr (· + ·) 0 ∧
    least? (t.rows.map Row.createdAt) = least? (m.entries.map Entry.createdAt) := by
  have rows := mirrors.rows isOpen
  refine ⟨?_, ?_, ?_⟩
  · rw [rows.length_eq, length_map]
  · have sizes := (rows.map fun r => r.output.utf8ByteSize).sum_nat
    rw [map_map] at sizes
    exact sizes
  · have same : (m.entries.map Row.ofEntry).map Row.createdAt = m.entries.map Entry.createdAt := by
      rw [map_map]
      exact map_congr_left fun e member => timeWord_of_fits (mirrors.times e member)
    rw [least?_perm (rows.map Row.createdAt), same]

theorem put {e : Entry} (fits : FitsWord e.createdAt) :
    Mirrors { m with entries := e :: m.entries.filter fun other => other.key != e.key }
      { t with rows := Table.upsert (Row.ofEntry e) t.rows } where
  closed := mirrors.closed
  rows _ := by
    have others := (mirrors.rows isOpen).filter fun r => r.key != e.key
    rw [filter_map] at others
    exact (Table.upsert_perm _ (mirrors.rowKeys isOpen)).trans (others.cons _)
  keys := by
    have others := mirrors.keys.sublist ((filter_sublist (p := fun other => other.key != e.key)).map Entry.key)
    rw [map_cons, nodup_cons]
    exact ⟨by simp, others⟩
  times := by
    rw [forall_mem_cons]
    exact ⟨fits, fun other member => mirrors.times other (mem_of_mem_filter member)⟩

theorem kept {cutoff : Int} (fits : FitsWord cutoff) :
    (t.rows.filter fun r => !decide (r.createdAt < timeWord cutoff)).Perm
      ((m.entries.filter fun e => decide (cutoff ≤ e.createdAt)).map Row.ofEntry) := by
  have rows := (mirrors.rows isOpen).filter fun r => !decide (r.createdAt < timeWord cutoff)
  have same : m.entries.filter ((fun r => !decide (r.createdAt < timeWord cutoff)) ∘ Row.ofEntry) =
      m.entries.filter fun e => decide (cutoff ≤ e.createdAt) := by
    refine filter_congr fun e member => ?_
    have time : (Row.ofEntry e).createdAt = e.createdAt := timeWord_of_fits (mirrors.times e member)
    rw [Function.comp_apply, time, timeWord_of_fits fits, ← decide_not]
    exact decide_eq_decide.mpr Int.not_lt
  rw [filter_map, same] at rows
  exact rows

theorem prune {cutoff : Int} (fits : FitsWord cutoff) :
    Mirrors { m with entries := m.entries.filter fun e => decide (cutoff ≤ e.createdAt) }
      { t with rows := t.rows.filter fun r => !decide (r.createdAt < timeWord cutoff) } where
  closed := mirrors.closed
  rows _ := mirrors.kept isOpen fits
  keys := mirrors.keys.sublist (filter_sublist.map Entry.key)
  times e member := mirrors.times e (mem_of_mem_filter member)

/-- What the table drops is what memory does not keep. -/
theorem dropped {cutoff : Int} (fits : FitsWord cutoff) :
    (t.rows.filter fun r => decide (r.createdAt < timeWord cutoff)).length =
      m.entries.length - (m.entries.filter fun e => decide (cutoff ≤ e.createdAt)).length := by
  have parts := t.rows.length_eq_length_filter_add fun r => decide (r.createdAt < timeWord cutoff)
  have kept := (mirrors.kept isOpen fits).length_eq
  have all := (mirrors.rows isOpen).length_eq
  rw [length_map] at kept all
  omega

end

theorem close (m : Memory) (t : Table) : Mirrors m.close t.close where
  closed := rfl
  rows isOpen := by cases isOpen
  keys := nodup_nil
  times _ member := absurd member not_mem_nil

end Mirrors

theorem Memory.perform_of_closed {m : Memory} (shut : m.closed = true) (op : Operation) :
    perform m op = (op.whenClosed, if op = .close then m.close else m) := by
  cases op <;>
    simp [perform, Storage.put, Storage.get, Storage.prune, Storage.stats, Storage.close, Memory.put, Memory.get,
      Memory.prune, Memory.stats, shut, Except.map, Operation.whenClosed]

theorem Table.perform_of_closed {t : Table} (shut : t.closed = true) (op : Operation) :
    perform t op = (op.whenClosed, if op = .close then t.close else t) := by
  cases op <;>
    simp [perform, Storage.put, Storage.get, Storage.prune, Storage.stats, Storage.close, Table.put, Table.get,
      Table.prune, Table.stats, shut, Except.map, Operation.whenClosed]

/-- One step: the answers agree, and the stores still mirror each other. -/
theorem Mirrors.step {m : Memory} {t : Table} (mirrors : Mirrors m t) {op : Operation} (fits : op.Fits) :
    (perform m op).1 = (perform t op).1 ∧ Mirrors (perform m op).2 (perform t op).2 := by
  cases shut : m.closed with
  | true =>
    rw [Memory.perform_of_closed shut, Table.perform_of_closed (mirrors.closed.trans shut)]
    by_cases last : op = .close
    · rw [if_pos last, if_pos last]
      exact ⟨rfl, .close m t⟩
    · rw [if_neg last, if_neg last]
      exact ⟨rfl, mirrors⟩
  | false =>
    have shutToo : t.closed = false := mirrors.closed.trans shut
    cases op with
    | put e => simpa [perform, Storage.put, Memory.put, Table.put, shut, shutToo] using mirrors.put shut fits
    | get key => exact ⟨congrArg (Except.map Answer.found) (mirrors.get shut key).symm, mirrors⟩
    | prune cutoff =>
      simpa [perform, Storage.prune, Memory.prune, Table.prune, shut, shutToo, partition_eq_filter_filter,
        Function.comp_def]
        using And.intro (mirrors.dropped shut fits).symm (mirrors.prune shut fits)
    | stats =>
      rcases mirrors.stats shut with ⟨entries, bytes, oldest⟩
      refine ⟨?_, mirrors⟩
      simp [perform, Storage.stats, Memory.stats, Table.stats, shut, shutToo, Except.map, entries, bytes, oldest]
    | close => exact ⟨rfl, .close m t⟩

/-! ## Any number of operations -/

theorem Mirrors.run {m : Memory} {t : Table} (mirrors : Mirrors m t) {ops : List Operation}
    (fits : ∀ op ∈ ops, op.Fits) : answers m ops = answers t ops := by
  induction ops generalizing m t with
  | nil => rfl
  | cons op rest ih =>
    rcases forall_mem_cons.mp fits with ⟨here, later⟩
    rcases mirrors.step here with ⟨answer, after⟩
    rw [answers, answers, answer, ih after later]

theorem Memory.answers_of_closed {m : Memory} (shut : m.closed = true) (ops : List Operation) :
    answers m ops = ops.map Operation.whenClosed := by
  induction ops generalizing m with
  | nil => rfl
  | cons op rest ih =>
    have still : (perform m op).2.closed = true := by
      rw [Memory.perform_of_closed shut]
      split
      · rfl
      · exact shut
    rw [answers, ih still, Memory.perform_of_closed shut, map_cons]

theorem answers_append {σ : Type} [Storage σ] (store : σ) (before after : List Operation) :
    ∃ next : σ, answers store (before ++ after) = answers store before ++ answers next after := by
  induction before generalizing store with
  | nil => exact ⟨store, rfl⟩
  | cons op rest ih =>
    rcases ih (perform store op).2 with ⟨next, split⟩
    exact ⟨next, by rw [cons_append, answers, split, answers, cons_append]⟩

/-- From empty on, a store in memory and a store in a database give the same answers to all operations, and
after they are closed they refuse everything but to be closed again. -/
theorem stores_answer_alike {ops : List Operation} (fits : ∀ op ∈ ops, op.Fits) :
    answers ({} : Memory) ops = answers ({} : Table) ops ∧
    ∀ before after, ops = before ++ .close :: after →
      answers ({} : Memory) ops = answers ({} : Memory) before ++ .ok .done :: after.map Operation.whenClosed := by
  have empty : Mirrors {} {} :=
    { closed := rfl
      rows := fun _ => .nil
      keys := nodup_nil
      times := fun _ member => absurd member not_mem_nil }
  constructor
  · exact empty.run fits
  · intro before after whole
    rcases answers_append ({} : Memory) before (.close :: after) with ⟨next, split⟩
    have shut : (perform next .close).2.closed = true := rfl
    rw [whole, split, answers, Memory.answers_of_closed shut]
    rfl

/-- Overwrites the newest entry by the oldest, prunes at the very time of the other, and goes on after closing. -/
def busyOperations : List Operation :=
  [.put ⟨"a", "fuzz", "one", [], 5⟩, .put ⟨"b", "zed", "two", [⟨⟨"f", 1, 2⟩, "odd"⟩], 3⟩, .stats,
   .put ⟨"a", "zed", "three", [], -1⟩, .stats, .prune 3, .get "a", .get "b", .prune 4, .stats, .close, .get "b",
   .close]

theorem busyOperations_answered : (∀ op ∈ busyOperations, op.Fits) ∧ answers ({} : Table) busyOperations =
      [.ok .done, .ok .done, .ok (.holding 2 6 (some 3)), .ok .done, .ok (.holding 2 8 (some (-1))),
       .ok (.removed 1), .ok (.found none), .ok (.found (some ⟨"b", "zed", "two", [⟨⟨"f", 1, 2⟩, "odd"⟩], 3⟩)),
       .ok (.removed 1), .ok (.holding 0 0 none), .ok .done, .error .closed, .ok .done] := by
  have fits : ∀ op ∈ busyOperations, op.Fits := by decide
  refine ⟨fits, ?_⟩
  rw [← (stores_answer_alike fits).1]
  rfl

end Cache
end Whiteboard
