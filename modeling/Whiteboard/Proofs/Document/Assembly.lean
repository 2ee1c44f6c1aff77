import Whiteboard.Proofs.Document.Nesting
import Whiteboard.Proofs.Document.Walk

namespace Whiteboard

open List

/-!
# Assembling texts and documents

A text is assembled from segments, and a document from headings and items, which it lists.  Nothing that is added is
lost or changed on the way, so what is true of every segment or item is true of the text or the document.
-/

/-! ## Text -/

namespace Parse

variable {P : Segment → Prop} (prose : ∀ text, P ⟨text, .hole⟩)
include prose

theorem all_addText {segments : List Segment} {text : String} (each : ∀ s ∈ segments, P s) :
    ∀ s ∈ addText segments text, P s := by
  fun_induction addText segments text with
  | case1 | case2 =>
    intro s member
    rw [mem_singleton.mp member]
    exact prose _
  | case3 => grind
  | case4 first rest _ _ ih => grind

theorem all_addSegment {segments : List Segment} {s : Segment} (each : ∀ s ∈ segments, P s) (added : P s) :
    ∀ other ∈ addSegment segments s, P other := by
  unfold addSegment
  split
  · grind
  · split
    · exact each
    · exact all_addText prose each

theorem all_addSegments {more segments : List Segment} (each : ∀ s ∈ segments, P s) (added : ∀ s ∈ more, P s) :
    ∀ s ∈ more.foldl addSegment segments, P s := by
  induction more generalizing segments with
  | nil => exact each
  | cons s rest ih =>
    apply ih (all_addSegment prose each (added s mem_cons_self))
    exact fun other member => added other (mem_cons_of_mem s member)

end Parse

/-! ## Headings -/

/-- An entry that is an item has the property. -/
def Entry.All (P : Item → Prop) : Entry → Prop
  | .heading .. => True
  | .item i => P i

section
variable {P : Item → Prop}

theorem Item.all_of_placed {items : List Item} {around : List Nat} {position : Nat}
    (each : ∀ i ∈ items, ∀ around position, (∀ p ∈ i.placed around position, p.entry.All P) → P i)
    (listed : ∀ p ∈ Item.allPlaced around position items, p.entry.All P) : ∀ i ∈ items, P i := by
  induction items generalizing position with
  | nil => exact forall_mem_nil _
  | cons i rest ih =>
    rcases forall_mem_append.mp listed with ⟨first, later⟩
    rcases forall_mem_cons.mp each with ⟨here, there⟩
    exact forall_mem_cons.mpr ⟨here around position first, ih there later⟩

variable (closed : ∀ {level title items loc}, (∀ i ∈ items, P i) → P (.heading level title items loc))
include closed

theorem Item.of_placed (i : Item) : ∀ around position, (∀ p ∈ i.placed around position, p.entry.All P) → P i := by
  induction i using Item.underInduction with
  | step i each =>
    intro around position listed
    cases i with
    | heading level title items loc =>
      rw [placed] at listed
      exact closed (all_of_placed each (forall_mem_cons.mp listed).2)
    | _ => simpa [placed, Entry.All] using listed

/-- What is true of the items of a sequence and handed on to headings is true of the document. -/
theorem all_ofEntries {entries : List Entry} (leaf : ∀ i, .item i ∈ entries → i.IsLeaf)
    (each : ∀ entry ∈ entries, entry.All P) : ∀ i ∈ Document.ofEntries entries, P i := by
  have listed : ∀ p ∈ (Document.ofEntries entries).placed, p.entry.All P := by
    rw [← (outlines_ofEntries leaf).listing] at each
    exact forall_mem_map.mp each
  exact Item.all_of_placed (fun i _ => Item.of_placed closed i) listed

end
end Whiteboard
