import Whiteboard.Cache.Store

namespace Whiteboard
namespace Cache

/-!
# Faithful stores

What a store holds is seen through `get`: under each key a rendering or nothing.  A store is faithful if
`put` changes this view at the key of the entry and nowhere else.  Both kinds of stores are faithful; the
one in a database changes times, but a time is no part of a rendering.
-/

/-- The store answers for every key, with the rendering that the view has there. -/
def Holds {σ : Type} [Storage σ] (store : σ) (view : String → Option Rendered) : Prop :=
  ∀ key, (Storage.get store key).map (Option.map Entry.rendered) = .ok (view key)

/-- The view after an entry was put. -/
def viewAfter (e : Entry) (view : String → Option Rendered) : String → Option Rendered :=
  fun key => if key = e.key then some e.rendered else view key

/-- A store that returns what was put last under a key. -/
class Faithful (σ : Type) [Storage σ] : Prop where
  holds_put : ∀ {store : σ} {view : String → Option Rendered} (e : Entry), Holds store view →
    ∃ next, Storage.put store e = .ok next ∧ Holds next (viewAfter e view)

/-! ## In memory -/

theorem Memory.find_put (entries : List Entry) (e : Entry) (key : String) :
    (e :: entries.filter fun other => other.key != e.key).find? (fun other => other.key == key) =
      if key = e.key then some e else entries.find? fun other => other.key == key := by
  by_cases here : key = e.key
  · rw [if_pos here, List.find?_cons_of_pos (by simp [here])]
  · grind

theorem Memory.closed_eq_false {m : Memory} {view : String → Option Rendered} (holds : Holds m view) :
    m.closed = false := by
  cases shut : m.closed with
  | false => rfl
  | true =>
    have answer := holds ""
    simp [Storage.get, Memory.get, shut, Except.map] at answer

instance : Faithful Memory where
  holds_put := by
    intro m view e holds
    have isOpen := Memory.closed_eq_false holds
    refine ⟨{ m with entries := e :: m.entries.filter fun other => other.key != e.key }, ?_, ?_⟩
    · simp [Storage.put, Memory.put, isOpen]
    · intro key
      have before := holds key
      simp only [Storage.get, Memory.get, Memory.find, isOpen, Bool.false_eq_true, if_false, Except.map,
        Except.ok.injEq] at before ⊢
      rw [Memory.find_put, viewAfter, ← before]
      split <;> rfl

/-! ## In a database -/

theorem decodeWarnings_encodeWarnings (ws : List Warning) : decodeWarnings (encodeWarnings ws) = some ws := by
  rw [encodeWarnings, decodeWarnings]
  induction ws with
  | nil => rfl
  | cons w rest ih =>
    rw [List.map_cons, List.mapM_cons, ih]
    rfl

/-- A row keeps the rendering of its entry. -/
theorem Row.toEntry_ofEntry (e : Entry) :
    Row.toEntry? (Row.ofEntry e) = some { e with createdAt := timeWord e.createdAt } := by
  unfold Row.toEntry? Row.ofEntry
  dsimp only
  rw [decodeWarnings_encodeWarnings]
  rfl

theorem Table.find_upsert (row : Row) (rows : List Row) (key : String) :
    (upsert row rows).find? (fun r => r.key == key) =
      if key = row.key then some row else rows.find? fun r => r.key == key := by
  unfold upsert
  split
  next present =>
    rw [List.find?_map]
    by_cases here : key = row.key
    · have matched : ((fun r : Row => r.key == key) ∘ fun r => if r.key == row.key then row else r) =
          fun r => r.key == row.key := by
        funext r
        by_cases replaced : r.key = row.key <;> simp [replaced, here]
      obtain ⟨r, found⟩ := Option.isSome_iff_exists.mp (List.find?_isSome.mpr (List.any_eq_true.mp present))
      rw [if_pos here, matched, found]
      exact congrArg some (if_pos (List.find?_some found))
    · have matched : ((fun r : Row => r.key == key) ∘ fun r => if r.key == row.key then row else r) =
          fun r => r.key == key := by
        funext r
        by_cases replaced : r.key = row.key
        · simp [replaced]
        · simp [replaced]
      rw [if_neg here, matched]
      cases found : rows.find? fun r => r.key == key with
      | none => rfl
      | some r => grind
  next absent => grind

theorem Table.closed_eq_false {t : Table} {view : String → Option Rendered} (holds : Holds t view) :
    t.closed = false := by
  cases shut : t.closed with
  | false => rfl
  | true =>
    have answer := holds ""
    simp [Storage.get, Table.get, shut, Except.map] at answer

instance : Faithful Table where
  holds_put := by
    intro t view e holds
    have isOpen := Table.closed_eq_false holds
    refine ⟨{ t with rows := Table.upsert (Row.ofEntry e) t.rows }, ?_, ?_⟩
    · simp [Storage.put, Table.put, isOpen]
    · intro key
      have before := holds key
      simp only [Storage.get, Table.get, isOpen, Bool.false_eq_true, if_false] at before ⊢
      rw [Table.find_upsert, viewAfter, show (Row.ofEntry e).key = e.key from rfl]
      by_cases here : key = e.key
      · rw [if_pos here, if_pos here]
        dsimp only
        rw [Row.toEntry_ofEntry]
        rfl
      · rw [if_neg here, if_neg here]
        exact before

/-! ## Of either kind -/

instance : Faithful Store where
  holds_put := by
    intro store view e holds
    cases store with
    | memory m =>
      have held : Holds m view := holds
      obtain ⟨next, put, after⟩ := Faithful.holds_put e held
      exact ⟨.memory next, congrArg (Except.map Store.memory) put, after⟩
    | table t =>
      have held : Holds t view := holds
      obtain ⟨next, put, after⟩ := Faithful.holds_put e held
      exact ⟨.table next, congrArg (Except.map Store.table) put, after⟩

end Cache
end Whiteboard
