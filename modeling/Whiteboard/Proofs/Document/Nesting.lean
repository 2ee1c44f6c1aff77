import Whiteboard.Proofs.Document.Lines

namespace Whiteboard

open List

/-!
# A document keeps the order and the headings of its lines

A document is listed heading by heading and item by item, each with the headings around it, told by their
positions in the listing.  The listing gives back the sequence of headings and items that the document was
made of.  Around each of them are the headings before it that are still open there: those after which no
heading of the same level or of one further out has come.  Everything else about the nesting follows, since
of two headings one inside the other the inner one has the deeper level.
-/

/-- The level of a heading; an item has none. -/
def Entry.level? : Entry → Option Heading
  | .heading level _ _ => some level
  | .item _ => none

/-- The level of the heading at a position. -/
def levelAt (entries : List Entry) (j : Nat) : Option Heading := entries[j]?.bind Entry.level?

/-- The ranks of headings end below four, so an item closes none of them. -/
def Entry.rank : Entry → Nat
  | .heading level _ _ => level.rank
  | .item _ => 4

theorem Heading.rank_lt_four (level : Heading) : level.rank < 4 := by
  cases level <;> decide

/-- The entry as an item, a heading with nothing under it. -/
def Entry.alone : Entry → Item
  | .heading level title loc => .heading level title [] loc
  | .item i => i

/-- The heading at position `j` is open at position `k`: up to there, every heading behind it has a deeper
level. -/
def StillOpen (entries : List Entry) (j k : Nat) : Prop :=
  ∃ level, levelAt entries j = some level ∧
    ∀ i other, j < i → i ≤ k → levelAt entries i = some other → level.rank < other.rank

/-! ## Listing a document -/

/-- A heading or an item, with the positions of the headings around it, the innermost first. -/
structure Placed where
  entry : Entry
  around : List Nat

mutual

/-- Lists an item that begins at a position. -/
def Item.placed (around : List Nat) (position : Nat) : Item → List Placed
  | .heading level title items loc =>
    ⟨.heading level title loc, around⟩ :: Item.allPlaced (position :: around) (position + 1) items
  | i => [⟨.item i, around⟩]

/-- Lists items one after the other. -/
def Item.allPlaced (around : List Nat) (position : Nat) : List Item → List Placed
  | [] => []
  | i :: rest =>
    let first := i.placed around position
    first ++ Item.allPlaced around (position + first.length) rest

end

/-- The listing of a document. -/
def Document.placed (doc : Document) : List Placed := Item.allPlaced [] 0 doc

/-- The document has the sequence for its listing, and around each entry are the headings that are open
there. -/
structure Lists (entries : List Entry) (doc : Document) : Prop where
  listing : doc.placed.map Placed.entry = entries
  around : ∀ k p, doc.placed[k]? = some p →
    p.around.Pairwise (· > ·) ∧ ∀ j, j ∈ p.around ↔ j < k ∧ StillOpen entries j k

/-- The document lists the sequence.  In it a section is inside no heading, a solution stands directly under
the document or under a section, and no heading is inside a part. -/
structure Outlines (entries : List Entry) (doc : Document) : Prop extends Lists entries doc where
  sections : ∀ p ∈ doc.placed, p.entry.level? = some .section → p.around = []
  solutions : ∀ p ∈ doc.placed, p.entry.level? = some .solution →
    p.around = [] ∨ ∃ j, p.around = [j] ∧ levelAt entries j = some .section
  parts : ∀ p ∈ doc.placed, p.entry.level? ≠ none → ∀ j ∈ p.around, levelAt entries j ≠ some .part

theorem Item.allPlaced_append (around : List Nat) (position : Nat) (front back : List Item) :
    Item.allPlaced around position (front ++ back) = Item.allPlaced around position front ++
        Item.allPlaced around (position + (Item.allPlaced around position front).length) back := by
  induction front generalizing position with
  | nil => simp [Item.allPlaced]
  | cons i rest ih => simp [Item.allPlaced, ih, Nat.add_assoc]

theorem Item.IsLeaf.placed {i : Item} (leaf : i.IsLeaf) (around : List Nat) (position : Nat) :
    i.placed around position = [⟨.item i, around⟩] := by
  cases i with
  | heading => exact leaf.elim
  | _ => simp only [Item.placed]

/-! ## Documents in progress -/

namespace Headings

/-- The document that there is when every open heading is closed, the innermost with some more items. -/
def closing (done : List Item) : List OpenHeading → List Item → Document
  | [], carried => done ++ carried
  | h :: rest, carried => closing done rest [{ h with items := h.items ++ carried }.close]

/-- The positions of the open headings: each comes behind all that is closed or under a heading further
out. -/
def positions (done : List Item) : List OpenHeading → List Nat
  | [] => []
  | _ :: rest => (Document.placed (closing done rest [])).length :: positions done rest

/-- More items are listed at the end, inside all open headings. -/
theorem placed_closing (done : List Item) (stack : List OpenHeading) (carried : List Item) :
    (closing done stack carried).placed = (closing done stack []).placed ++
      Item.allPlaced (positions done stack) (closing done stack []).placed.length carried := by
  induction stack generalizing carried with
  | nil => simp [closing, positions, Document.placed, Item.allPlaced_append]
  | cons h rest ih =>
    rw [closing, closing, ih, ih [OpenHeading.close _]]
    simp [OpenHeading.close, positions, Item.allPlaced, Item.placed, Item.allPlaced_append, Nat.add_assoc,
      Nat.add_comm 1]

theorem lt_of_mem_positions {done : List Item} {stack : List OpenHeading} {j : Nat}
    (member : j ∈ positions done stack) : j < (closing done stack []).placed.length := by
  induction stack with
  | nil => exact absurd member not_mem_nil
  | cons h rest ih =>
    have grows : (closing done rest []).placed.length < (closing done (h :: rest) []).placed.length := by
      rw [closing, placed_closing done rest [_]]
      simp [OpenHeading.close, Item.allPlaced, Item.placed]
    rcases mem_cons.mp member with rfl | further
    · exact grows
    · exact Nat.lt_trans (ih further) grows

theorem pairwise_positions (done : List Item) (stack : List OpenHeading) : (positions done stack).Pairwise (· > ·) := by
  induction stack with
  | nil => exact List.Pairwise.nil
  | cons h rest ih => exact List.Pairwise.cons (fun _ further => lt_of_mem_positions further) ih

/-! ### Closing headings -/

theorem dropWhile_dropWhile {α : Type} {p q : α → Bool} (weaker : ∀ a, p a = true → q a = true) (as : List α) :
    (as.dropWhile p).dropWhile q = as.dropWhile q := by
  induction as with
  | nil => rfl
  | cons a rest ih =>
    rw [dropWhile_cons]
    split
    next dropped => rw [ih, dropWhile_cons_of_pos (weaker a dropped)]
    next => rfl

/-- Closing some headings now or all at the end is the same. -/
theorem closing_closeTo (rank : Nat) (done : List Item) (stack : List OpenHeading) (carried : List Item) :
    closing (closeTo rank done stack carried).done (closeTo rank done stack carried).stack [] =
      closing done stack carried := by
  induction stack generalizing carried with
  | nil => simp [closeTo, closing]
  | cons h rest ih =>
    rw [closeTo]
    dsimp only
    split
    · simp [closing]
    · exact ih _

/-- All headings are closed at the rank of sections. -/
theorem closeTo_one (done : List Item) (stack : List OpenHeading) (carried : List Item) :
    (closeTo 1 done stack carried).done = closing done stack carried := by
  have positive (level : Heading) : ¬ level.rank < 1 := by cases level <;> decide
  induction stack generalizing carried with
  | nil => rfl
  | cons h rest ih =>
    rw [closeTo, if_neg (positive _), closing]
    exact ih _

/-- The headings that stay open are those from the first one that is further out, and they keep their
positions.  The same is true of those among them that are left by a further condition on the level. -/
theorem positions_closeTo (rank : Nat) (done : List Item) (stack : List OpenHeading) (carried : List Item)
    (deep : Heading → Bool) :
    positions (closeTo rank done stack carried).done
        ((closeTo rank done stack carried).stack.dropWhile fun h => deep h.level) =
      positions done ((stack.dropWhile fun h => decide (rank ≤ h.level.rank)).dropWhile fun h => deep h.level) := by
  induction stack generalizing carried with
  | nil => simp [closeTo, positions]
  | cons h rest ih =>
    rw [closeTo]
    dsimp only
    split
    next outer =>
      have stays : ¬ decide (rank ≤ h.level.rank) = true := by simpa using outer
      have kept : (h :: rest).dropWhile (fun h => decide (rank ≤ h.level.rank)) = h :: rest :=
        dropWhile_cons_of_neg stays
      rw [kept, dropWhile_cons, dropWhile_cons]
      dsimp only
      split
      · rfl
      · rfl
    next inner => simp_all

/-! ### One more entry -/

/-- The document that there is when nothing more comes. -/
def document (o : Headings) : Document := closing o.done o.stack []

/-- The positions of the headings that a heading of a given rank leaves open. -/
def opened (o : Headings) (rank : Nat) : List Nat :=
  positions o.done (o.stack.dropWhile fun h => decide (rank ≤ h.level.rank))

theorem positions_left (o : Headings) (rank : Nat) :
    positions (closeTo rank o.done o.stack []).done (closeTo rank o.done o.stack []).stack = o.opened rank := by
  have all (stack : List OpenHeading) : stack.dropWhile (fun _ => false) = stack := by cases stack <;> rfl
  have left := positions_closeTo rank o.done o.stack [] fun _ => false
  rw [all, all] at left
  exact left

/-- An entry closes what it does not belong to and stands under what is left, with nothing under it. -/
theorem document_step (o : Headings) (e : Entry) : (o.step e).document =
      closing (closeTo e.rank o.done o.stack []).done (closeTo e.rank o.done o.stack []).stack [e.alone] := by
  cases e with
  | heading level title loc => simp [step, document, closing, OpenHeading.close, Entry.rank, Entry.alone]
  | item i =>
    show closing (o.add [i]).done (o.add [i]).stack [] = _
    unfold add
    split
    next empty => simp [empty, closing, closeTo, Entry.alone]
    next h rest opened =>
      simp [opened, closing, closeTo, Entry.alone, Entry.rank, Heading.rank_lt_four]

theorem placed_step (o : Headings) (e : Entry) : (o.step e).document.placed =
      o.document.placed ++ e.alone.placed (o.opened e.rank) o.document.placed.length := by
  have unchanged := closing_closeTo e.rank o.done o.stack []
  rw [document_step, placed_closing, unchanged, positions_left]
  simp [document, Item.allPlaced]

/-- The headings that are open after an entry: the entry itself if it is one, and those that it left open. -/
theorem mem_opened_step {o : Headings} {e : Entry} {rank j : Nat} : j ∈ (o.step e).opened rank ↔
      (j = o.document.placed.length ∧ ∃ level, e.level? = some level ∧ level.rank < rank) ∨
        j ∈ o.opened (min rank e.rank) := by
  cases e with
  | item i =>
    have narrowed : o.opened (min rank 4) = o.opened rank := by
      unfold opened
      congr 2
      funext h
      have := h.level.rank_lt_four
      simp only [decide_eq_decide]
      omega
    have same : (o.step (.item i)).opened rank = o.opened rank := by
      show (o.add [i]).opened rank = _
      unfold add opened
      split
      next empty => simp [empty, positions]
      next h rest opened =>
        rw [opened, dropWhile_cons, dropWhile_cons]
        dsimp only
        split
        · rfl
        · rfl
    rw [same, Entry.rank, narrowed]
    simp [Entry.level?]
  | heading level title loc =>
    rw [Entry.rank, step, opened]
    dsimp only
    by_cases deeper : rank ≤ level.rank
    · have left := positions_closeTo level.rank o.done o.stack [] fun l => decide (rank ≤ l.rank)
      rw [dropWhile_dropWhile fun h inner => by simp at inner ⊢; omega] at left
      rw [dropWhile_cons_of_pos (by simpa using deeper), left, Nat.min_eq_left deeper]
      simp [Entry.level?, opened, Nat.not_lt.mpr deeper]
    · have unchanged := closing_closeTo level.rank o.done o.stack []
      have outer : level.rank < rank := Nat.not_le.mp deeper
      rw [dropWhile_cons_of_neg (by simpa using deeper), positions, unchanged, positions_left,
        Nat.min_eq_right (Nat.le_of_lt outer)]
      simp [Entry.level?, document, outer]

end Headings

/-! ## Headings that are open at the end of a sequence -/

section
variable {entries more : List Entry} {e : Entry} {i j k : Nat} {level : Heading}

theorem levelAt_append_left (inside : i < entries.length) : levelAt (entries ++ more) i = levelAt entries i := by
  rw [levelAt, List.getElem?_append_left inside, levelAt]

theorem levelAt_length : levelAt (entries ++ e :: more) entries.length = e.level? := by
  simp [levelAt]

theorem lt_of_levelAt (found : levelAt entries i = some level) : i < entries.length := by
  apply Nat.lt_of_not_le
  intro outside
  rw [levelAt, List.getElem?_eq_none outside] at found
  cases found

/-- The heading at position `j` has less than the given rank, and every heading behind it a deeper level. -/
def OpenBelow (entries : List Entry) (rank j : Nat) : Prop :=
  ∃ level, levelAt entries j = some level ∧ level.rank < rank ∧
    ∀ i other, j < i → levelAt entries i = some other → level.rank < other.rank

theorem OpenBelow.lt_length {rank : Nat} (isOpen : OpenBelow entries rank j) : j < entries.length := by
  rcases isOpen with ⟨level, found, _⟩
  exact lt_of_levelAt found

/-- The headings that are open in front of an entry are those of less than its rank. -/
theorem openBelow_iff_stillOpen :
    OpenBelow entries e.rank j ↔ j < entries.length ∧ StillOpen (entries ++ e :: more) j entries.length := by
  constructor
  · rintro ⟨level, found, below, behind⟩
    have inside := lt_of_levelAt found
    refine ⟨inside, level, (levelAt_append_left inside).trans found, ?_⟩
    intro i other after upTo here
    rcases Nat.lt_or_eq_of_le upTo with earlier | rfl
    · rw [levelAt_append_left earlier] at here
      exact behind i other after here
    · rw [levelAt_length] at here
      cases e with
      | item => cases here
      | heading =>
        cases here
        exact below
  · rintro ⟨inside, level, found, behind⟩
    rw [levelAt_append_left inside] at found
    refine ⟨level, found, ?_, ?_⟩
    · cases e with
      | item => exact level.rank_lt_four
      | heading other title loc => exact behind _ other inside (Nat.le_refl _) levelAt_length
    · grind [lt_of_levelAt, Nat.le_of_lt, levelAt_append_left]

/-- What comes later does not matter for what is open at a position. -/
theorem stillOpen_append (inside : k < entries.length) (before : j < k) :
    StillOpen (entries ++ more) j k ↔ StillOpen entries j k := by
  have same {i : Nat} (upTo : i ≤ k) : levelAt (entries ++ more) i = levelAt entries i :=
    levelAt_append_left (Nat.lt_of_le_of_lt upTo inside)
  unfold StillOpen
  rw [same (Nat.le_of_lt before)]
  constructor
  · rintro ⟨level, found, behind⟩
    exact ⟨level, found, fun i other after upTo here => behind i other after upTo ((same upTo).trans here)⟩
  · rintro ⟨level, found, behind⟩
    exact ⟨level, found, fun i other after upTo here => behind i other after upTo ((same upTo).symm.trans here)⟩

theorem openBelow_concat {rank : Nat} : OpenBelow (entries ++ [e]) rank j ↔
      (j = entries.length ∧ ∃ level, e.level? = some level ∧ level.rank < rank) ∨
        OpenBelow entries (min rank e.rank) j := by
  constructor
  · rintro ⟨level, found, below, behind⟩
    have inside := lt_of_levelAt found
    rw [length_append, length_singleton] at inside
    rcases Nat.lt_or_eq_of_le (Nat.le_of_lt_succ inside) with earlier | rfl
    · have inFront : OpenBelow entries e.rank j := openBelow_iff_stillOpen.mpr
        ⟨earlier, level, found, fun i other after _ here => behind i other after here⟩
      rcases inFront with ⟨same, found', below', behind'⟩
      rw [levelAt_append_left earlier] at found
      cases found.symm.trans found'
      exact .inr ⟨level, found', Nat.lt_min.mpr ⟨below, below'⟩, behind'⟩
    · rw [levelAt_length] at found
      exact .inl ⟨rfl, level, found, below⟩
  · rintro (⟨rfl, level, found, below⟩ | ⟨level, found, below, behind⟩)
    · refine ⟨level, levelAt_length.trans found, below, ?_⟩
      intro i other after here
      have inside := lt_of_levelAt here
      rw [length_append, length_singleton] at inside
      omega
    · have inFront : OpenBelow entries e.rank j := ⟨level, found, (Nat.lt_min.mp below).2, behind⟩
      have atEnd : j < entries.length ∧ StillOpen (entries ++ [e]) j entries.length :=
        openBelow_iff_stillOpen.mp inFront
      rcases atEnd with ⟨earlier, same, found', behind'⟩
      rw [levelAt_append_left earlier] at found'
      cases found.symm.trans found'
      refine ⟨level, (levelAt_append_left earlier).trans found, (Nat.lt_min.mp below).1, ?_⟩
      intro i other after here
      have inside := lt_of_levelAt here
      rw [length_append, length_singleton] at inside
      exact behind' i other after (Nat.le_of_lt_succ inside) here

end

/-! ## The document of a sequence -/

namespace Headings

/-- What there is after a sequence of entries: its document lists them, and its open headings are those of
the sequence. -/
structure Follows (entries : List Entry) (o : Headings) : Prop where
  lists : Lists entries o.document
  opened : ∀ rank j, j ∈ o.opened rank ↔ OpenBelow entries rank j

theorem follows_nil : Follows [] {} where
  lists := ⟨rfl, fun _ _ found => nomatch found⟩
  opened := by
    intro rank j
    constructor
    · intro member
      cases member
    · intro isOpen
      exact absurd isOpen.lt_length (Nat.not_lt_zero j)

theorem Follows.step {entries : List Entry} {o : Headings} {e : Entry} (follows : Follows entries o)
    (leaf : ∀ i, e = .item i → i.IsLeaf) : Follows (entries ++ [e]) (o.step e) := by
  have length : o.document.placed.length = entries.length := by rw [← follows.lists.listing, length_map]
  have placed : (o.step e).document.placed = o.document.placed ++ [⟨e, o.opened e.rank⟩] := by
    rw [placed_step]
    cases e with
    | heading => simp [Entry.alone, Item.placed, Item.allPlaced]
    | item i => rw [Entry.alone, (leaf i rfl).placed]
  refine ⟨⟨?_, ?_⟩, ?_⟩
  · rw [placed, map_append, follows.lists.listing]
    rfl
  · intro k p found
    rw [placed] at found
    by_cases earlier : k < o.document.placed.length
    · rw [List.getElem?_append_left earlier] at found
      rcases follows.lists.around k p found with ⟨sorted, around⟩
      refine ⟨sorted, fun j => (around j).trans (and_congr_right fun before => ?_)⟩
      exact (stillOpen_append (length ▸ earlier) before).symm
    · rw [List.getElem?_append_right (Nat.not_lt.mp earlier)] at found
      rcases List.getElem?_eq_some_iff.mp found with ⟨inside, rfl⟩
      have last : k = entries.length := by
        rw [length_singleton] at inside
        omega
      simp only [getElem_singleton, last]
      exact ⟨pairwise_positions _ _, fun j => (follows.opened _ j).trans openBelow_iff_stillOpen⟩
  · intro rank j
    rw [mem_opened_step, openBelow_concat, length, follows.opened]

theorem Follows.run {seen entries : List Entry} {o : Headings} (follows : Follows seen o)
    (leaf : ∀ i, .item i ∈ entries → i.IsLeaf) : Follows (seen ++ entries) (entries.foldl Headings.step o) := by
  induction entries generalizing seen o with
  | nil => simpa using follows
  | cons e rest ih =>
    have first : Follows (seen ++ [e]) (o.step e) := follows.step fun i same => leaf i (same ▸ mem_cons_self)
    simpa using ih first fun i member => leaf i (mem_cons_of_mem e member)

end Headings

section
variable {entries : List Entry} {doc : Document} {p : Placed} {level : Heading}

section
variable (lists : Lists entries doc) (member : p ∈ doc.placed)
include lists member

theorem Lists.exists_position : ∃ k, doc.placed[k]? = some p ∧ levelAt entries k = p.entry.level? := by
  rcases mem_iff_getElem?.mp member with ⟨k, found⟩
  refine ⟨k, found, ?_⟩
  rw [levelAt, ← lists.listing, List.getElem?_map, found]
  rfl

/-- A heading around another one has a level further out. -/
theorem Lists.outer (heading : p.entry.level? = some level) {j : Nat} (inside : j ∈ p.around) :
    ∃ other, levelAt entries j = some other ∧ other.rank < level.rank := by
  rcases lists.exists_position member with ⟨k, found, here⟩
  rcases ((lists.around k p found).2 j).mp inside with ⟨before, other, found', behind⟩
  exact ⟨other, found', behind k level before (Nat.le_refl k) (here.trans heading)⟩

/-- Of two headings around an entry, the inner one has the deeper level. -/
theorem Lists.deepens {i j : Nat} {further : List Nat}
    (chain : p.around = i :: j :: further) {inner outer : Heading} (above : levelAt entries i = some inner)
    (beyond : levelAt entries j = some outer) : outer.rank < inner.rank := by
  rcases lists.exists_position member with ⟨k, found, _⟩
  rcases lists.around k p found with ⟨sorted, around⟩
  rw [chain] at sorted around
  have order : j < i := rel_of_pairwise_cons sorted mem_cons_self
  rcases (around i).mp mem_cons_self with ⟨before, _⟩
  rcases (around j).mp (mem_cons_of_mem i mem_cons_self) with ⟨_, other, found', behind⟩
  cases beyond.symm.trans found'
  exact behind i inner order (Nat.le_of_lt before) above

end

end

/-- The document of a sequence of headings and other items is the sequence, nested. -/
theorem outlines_ofEntries {entries : List Entry} (leaf : ∀ i, .item i ∈ entries → i.IsLeaf) :
    Outlines entries (Document.ofEntries entries) := by
  have finished : Document.ofEntries entries = (entries.foldl Headings.step {}).document := Headings.closeTo_one _ _ _
  have lists : Lists entries (Document.ofEntries entries) := by
    rw [finished]
    simpa using (Headings.follows_nil.run leaf).lists
  refine ⟨lists, ?_, ?_, ?_⟩
  · intro p member heading
    apply eq_nil_iff_forall_not_mem.mpr
    intro j inside
    rcases lists.outer member heading inside with ⟨other, _, outer⟩
    cases other <;> exact absurd outer (by decide)
  · intro p member heading
    have section_of {j : Nat} (inside : j ∈ p.around) : levelAt entries j = some .section := by
      rcases lists.outer member heading inside with ⟨other, found, outer⟩
      match other, found, outer with
      | .section, found, _ => exact found
      | .solution, _, outer => exact absurd outer (by decide)
      | .part, _, outer => exact absurd outer (by decide)
    match chain : p.around with
    | [] => exact .inl rfl
    | [j] => exact .inr ⟨j, rfl, section_of (by simp [chain])⟩
    | i :: j :: further =>
      have deeper := lists.deepens member chain (section_of (by simp [chain])) (section_of (by simp [chain]))
      exact absurd deeper (Nat.lt_irrefl _)
  · intro p member heading j inside part
    rcases Option.ne_none_iff_exists'.mp heading with ⟨level, heading⟩
    rcases lists.outer member heading inside with ⟨other, found, outer⟩
    cases part.symm.trans found
    cases level <;> exact absurd outer (by decide)

/-- Whatever tokens a document is read from, it is the sequence of headings and items that its lines are read
as: it lists them in order, each inside the headings that are open there, with sections outermost, solutions
directly under the document or a section, and no heading inside a part. -/
theorem ofTokens_outlines_lines {file : String} {toks : List Token} {doc : Document}
    (read : Document.ofTokens file toks = .ok doc) :
    ∃ entries, Parse.documentEntries (Parse.envOf file toks) (toks.length + 1) (Parse.body toks) = .ok entries ∧
      Outlines entries doc := by
  rcases bind_eq_ok.mp read with ⟨entries, lines, same⟩
  cases same
  exact ⟨entries, lines, outlines_ofEntries (Parse.leaf_of_documentEntries lines)⟩

/-! A part comes before any other heading, and a solution before the first section. -/

def disorderedLines : List Token :=
  [{ kind := .partLabel, value := "a" }, { kind := .newline },
   { kind := .keyword, value := "PAGEBREAK:" }, { kind := .newline },
   { kind := .solutionHeader, value := "1" }, { kind := .newline },
   { kind := .partLabel, value := "b" }, { kind := .keyword, value := "PAGEBREAK:" }, { kind := .newline },
   { kind := .sectionHeader, value := "Next" }, { kind := .newline },
   { kind := .solutionHeader, value := "2" }, { kind := .endOfInput }]

def disorderedDocument : Document :=
  [.heading .part "a" [.pageBreak {}] {}, .heading .solution "1" [.heading .part "b" [.pageBreak {}] {}] {},
   .heading .section "Next" [.heading .solution "2" [] {}] {}]

theorem disorderedLines_outlined : Document.ofTokens "" disorderedLines = .ok disorderedDocument ∧
      disorderedDocument.placed.map Placed.around = [[], [0], [], [2], [3, 2], [], [5]] ∧
      ∃ entries, Parse.documentEntries (Parse.envOf "" disorderedLines) (disorderedLines.length + 1)
          (Parse.body disorderedLines) = .ok entries ∧ Outlines entries disorderedDocument :=
  ⟨rfl, by decide, ofTokens_outlines_lines rfl⟩

end Whiteboard
