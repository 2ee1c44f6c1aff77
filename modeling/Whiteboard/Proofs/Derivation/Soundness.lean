import Mathlib.Data.List.Basic
import Whiteboard.Proofs.Derivation.Completeness

namespace Whiteboard

open List
namespace Derivation

open Indented (trees allLines trees_append allLines_append)

/-!
# The lines of a proof are its indentation

`Holds` relates the lines that were added to the open steps and the waiting siblings, frame by frame: the
premises of an open step that are closed already share a column, and the next frame stands at it.  Adding a
line keeps this, closing the last frame gives the proof, and with the other direction the builder accepts
exactly the proofs whose columns are in order.
-/

variable {column : Int} {l : Line} {lines : List Line} {s s' : State} {stack : List OpenStep} {waiting : List Waiting}
  {tree : ProofTree}

/-- Premises of one kind at one column, each with its own columns in order. -/
def Aligned (sibling : Bool) (column : Int) (ts : List Indented) : Prop :=
  ∀ t ∈ ts, t.isSibling = sibling ∧ t.column = column ∧ t.Fits

theorem Aligned.nil {sibling : Bool} : Aligned sibling column [] := by
  intro t member
  cases member

theorem Aligned.append {sibling : Bool} {ts more : List Indented} (left : Aligned sibling column ts)
    (right : Aligned sibling column more) : Aligned sibling column (ts ++ more) :=
  forall_mem_append.mpr ⟨left, right⟩

theorem Aligned.node {line : Line} {siblings premises : List Indented} (above : Aligned true line.column siblings)
    (single : line.step.isSibling = true → siblings = []) (below : Aligned false column premises)
    (right : line.column < column) :
    (Indented.node line (siblings ++ premises)).Fits ∧
      (Indented.node line (siblings ++ premises)).lines = allLines siblings ++ line :: allLines premises := by
  constructor
  · refine .node column (fun t member => ?_) single (fun t member => ?_) right ?_
    · exact ⟨(above t member).1, (above t member).2.1⟩
    · exact ⟨(below t member).1, (below t member).2.1⟩
    · exact forall_mem_append.mpr ⟨fun t member => (above t member).2.2, fun t member => (below t member).2.2⟩
  · exact Indented.lines_node line (fun t member => (above t member).1) (fun t member => (below t member).1)

/-- The lines are those of the open steps with their premises and of the siblings that wait; premises of
the innermost open step stand at the column. -/
inductive Holds : List Line → List OpenStep → List Waiting → Int → Prop
  | nil (column : Int) : Holds [] [] [] column
  | plain {before : List Line} {stack : List OpenStep} {waiting : List Waiting} {line : Line}
      {siblings premises : List Indented} {column : Int} :
      Holds before stack waiting line.column → line.step.isSibling = false →
      Aligned true line.column siblings → Aligned false column premises → line.column < column →
      Holds (before ++ (allLines siblings ++ line :: allLines premises))
        (⟨line.column, line.step, trees (siblings ++ premises)⟩ :: stack) waiting column
  | sibling {before : List Line} {stack : List OpenStep} {waiting : List Waiting} {line : Line}
      {siblings premises : List Indented} {column : Int} (number : Int) :
      Holds before stack waiting line.column → line.step.isSibling = true →
      Aligned true line.column siblings → Aligned false column premises → line.column < column →
      Holds (before ++ (allLines siblings ++ line :: allLines premises))
        (⟨line.column, line.step, trees premises⟩ :: stack)
        (⟨line.column, number, trees siblings⟩ :: waiting) column

/-- Frames and siblings stand to the left of the premises to come. -/
theorem Holds.columns (holds : Holds lines stack waiting column) :
    (∀ o ∈ stack, o.column < column) ∧ ∀ g ∈ waiting, g.column < column := by
  induction holds with
  | nil => simp
  | plain _ _ _ _ right ih => grind
  | sibling _ _ _ _ _ right ih => grind

theorem Holds.head_left (holds : Holds lines stack waiting column) : ∀ o ∈ stack.head?, o.column < column :=
  fun o first => holds.columns.1 o (mem_of_mem_head? first)

/-! ## Closing to a column -/

/-- The lines are those of the open steps, and of siblings at the column where the next line comes. -/
def Gap (lines : List Line) (stack : List OpenStep) (waiting : List Waiting) (column : Int) : Prop :=
  ∃ before w siblings, Holds before stack w column ∧ Aligned true column siblings ∧
    lines = before ++ allLines siblings ∧ Holding column waiting (trees siblings) w

theorem Holds.gap (holds : Holds lines stack waiting column) : Gap lines stack waiting column :=
  ⟨lines, waiting, [], holds, .nil, (append_nil lines).symm, .inr ⟨rfl, rfl, holds.columns.2⟩⟩

/-- What closing to a column leaves: room for a line there, or the finished proof. -/
def Leaves (lines : List Line) (column : Int) (s : State) : Prop :=
  (s.root = none ∧ Gap lines s.stack s.waiting column) ∨
    ∃ t : Indented, s = ⟨[], [], some t.tree⟩ ∧ t.Fits ∧ t.isSibling = false ∧ t.lines = lines

/-- A column to the right of a frame is that of the premises in it. -/
theorem Holds.reached {first : OpenStep} {inner : Int} (holds : Holds lines stack waiting first.column)
    (right : first.column < column) (returns : (∃ o ∈ first :: stack, o.column = column) ∨ inner = column) :
    inner = column := by
  rcases returns with ⟨o, member, same⟩ | same
  · rcases mem_cons.mp member with rfl | outer
    · exact absurd same (Int.ne_of_lt right)
    · have left := holds.columns.1 o outer
      omega
  · exact same

/-- The induction carries the premise that was closed last, which the next frame takes. -/
theorem Holds.closeTo {inner : Int} (holds : Holds lines stack waiting inner) (carried : Option Indented)
    (aligned : Aligned false inner carried.toList) (returns : (∃ o ∈ stack, o.column = column) ∨ inner = column)
    (used : ∀ g ∈ waiting, g.column ≤ column) :
    Leaves (lines ++ allLines carried.toList) column (closeTo column waiting none stack (trees carried.toList)) := by
  induction holds generalizing carried with
  | nil inner =>
    have same : inner = column := by simpa using returns
    cases carried with
    | none => exact .inl ⟨rfl, (Holds.nil column).gap⟩
    | some t =>
      rcases aligned t (by simp) with ⟨plain, _, fits⟩
      exact .inr ⟨t, by simp [Derivation.closeTo], fits, plain, by simp⟩
  | @plain before stack waiting line siblings premises inner holds plain above below right ih =>
    have premised := below.append aligned
    have collected : trees (siblings ++ premises) ++ trees carried.toList =
        trees (siblings ++ (premises ++ carried.toList)) := by
      rw [← trees_append, append_assoc]
    rw [append_assoc, append_assoc, cons_append, ← allLines_append]
    simp only [Derivation.closeTo, collected, plain, Bool.false_eq_true, if_false]
    by_cases reached : line.column < column
    · rw [if_pos reached]
      have same : inner = column := holds.reached reached returns
      subst same
      exact .inl ⟨rfl, (Holds.plain holds plain above premised right).gap⟩
    · rw [if_neg reached]
      have node := above.node (by simp [plain]) premised right
      have back : (∃ o ∈ stack, o.column = column) ∨ line.column = column := by grind
      have closed := ih (some (.node line (siblings ++ (premises ++ carried.toList))))
        (by simpa [Aligned] using ⟨plain, rfl, node.1⟩) back used
      simpa [node.2] using closed
  | @sibling before stack waiting line siblings premises inner number holds sibling above below right ih =>
    have premised := below.append aligned
    have collected : trees premises ++ trees carried.toList = trees (premises ++ carried.toList) :=
      (trees_append _ _).symm
    rw [append_assoc, append_assoc, cons_append, ← allLines_append]
    simp only [Derivation.closeTo, collected, sibling, if_true, wait, beq_self_eq_true]
    by_cases reached : line.column < column
    · rw [if_pos reached]
      have same : inner = column := holds.reached reached returns
      subst same
      exact .inl ⟨rfl, (Holds.sibling number holds sibling above premised right).gap⟩
    · -- the siblings may not wait to the right of the column, so they wait at it
      rw [if_neg reached]
      have same : line.column = column := by
        have bound := used _ mem_cons_self
        exact Int.le_antisymm bound (Int.not_lt.mp reached)
      subst same
      have node := Aligned.node Aligned.nil (fun _ => rfl) premised right
      rw [closeTo_of_below holds.head_left]
      refine .inl ⟨rfl, before, waiting, siblings ++ [.node line (premises ++ carried.toList)], holds, ?_, ?_,
        .inl ⟨number, by simp [trees_append]⟩⟩
      · refine above.append (by simpa [Aligned] using ⟨sibling, rfl, node.1⟩)
      · have lines := node.2
        rw [nil_append] at lines
        simp [allLines_append, lines, allLines]

/-! ## Adding a line -/

/-- Nothing is closed yet inside the step that was added last, so its premises may stand anywhere to the
right of it. -/
def Fresh (lines : List Line) (s : State) : Prop :=
  s.root = none ∧ ∀ column, (∀ o ∈ s.stack.head?, o.column < column) → Holds lines s.stack s.waiting column

/-- A second conclusion is in sight: siblings wait at the outermost column, and only a step there could
take them. -/
def Doomed (s : State) : Prop :=
  s.root.isSome = true ∧ ∃ column, (∀ o ∈ s.stack, column ≤ o.column) ∧
    (s.waiting.map (·.column)).getLast? = some column

/-- What a line needs in order to be added. -/
theorem fits_of_add {number : Int} {step : ProofStep} (added : add s column number step = .ok s') :
    isUnmatched column s.stack = false ∧ ∀ g ∈ s.waiting, g.column ≤ column := by
  by_cases matched : isUnmatched column s.stack = true
  · simp [add, matched] at added
  · refine ⟨by simpa using matched, ?_⟩
    cases found : s.waiting.reverse.find? (fun w => decide (column < w.column)) with
    | some w => simp [add, matched, found] at added
    | none => simpa using found

/-- A line opens a step on top of what is left after closing.  A sibling waits at its column, and another
step takes the siblings that wait there. -/
theorem opens_of_add {number : Int} {step : ProofStep} (added : add s column number step = .ok s') :
    let closed := closeTo column s.waiting s.root s.stack []
    ∃ premises waiting, s' = ⟨⟨column, step, premises⟩ :: closed.stack, waiting, closed.root⟩ ∧
      ((∃ g rest, waiting = g :: rest ∧ g.column = column ∧ (closed.waiting = waiting ∨ closed.waiting = rest)) ∨
        ((closed.root.isSome = true → closed.stack ≠ []) ∧
          (closed.waiting = waiting ∨ ∃ g, closed.waiting = g :: waiting ∧ g.column = column))) := by
  rcases fits_of_add added with ⟨matched, used⟩
  have unused : s.waiting.reverse.find? (fun w => decide (column < w.column)) = none := by
    simpa using used
  simp only [add, matched, unused, Bool.false_eq_true, if_false] at added
  generalize closeTo column s.waiting s.root s.stack [] = closed at added
  rcases closed with ⟨stack, waiting, root⟩
  cases kind : step.isSibling with
  | true => grind
  | false => grind

theorem returns_of_isUnmatched (matched : isUnmatched column stack = false) :
    (∀ o ∈ stack.head?, o.column < column) ∨ ∃ o ∈ stack, o.column = column := by
  cases stack with
  | nil => exact .inl (by simp)
  | cons top rest =>
    by_cases left : top.column < column
    · refine .inl ?_
      rintro _ ⟨⟩
      exact left
    · have reached : column ≤ top.column := Int.not_lt.mp left
      right
      by_cases same : top.column = column
      · exact ⟨top, mem_cons_self, same⟩
      · have deeper : column < top.column := by omega
        simp only [isUnmatched, takeWhile_cons, reached, decide_true, if_true, any_cons, deeper,
          Bool.true_or, Bool.true_and, Bool.not_eq_false', Bool.or_eq_true, beq_iff_eq, same, false_or,
          any_eq_true] at matched
        rcases matched with ⟨o, member, found⟩
        exact ⟨o, mem_cons_of_mem top ((takeWhile_sublist _).mem member), found⟩

/-- A line that can be added finds room, or the proof before it is finished. -/
theorem Fresh.leaves (fresh : Fresh lines s) (added : add s l.column l.number l.step = .ok s') :
    Leaves lines l.column (closeTo l.column s.waiting none s.stack []) := by
  rcases fits_of_add added with ⟨matched, used⟩
  rcases returns_of_isUnmatched matched with below | back
  · rw [closeTo_of_below below]
    exact .inl ⟨rfl, (fresh.2 l.column below).gap⟩
  · cases opened : s.stack with
    | nil =>
      rw [opened] at back
      simp at back
    | cons top rest =>
      have holds := fresh.2 (top.column + 1) (by
        rw [opened]
        rintro _ ⟨⟩
        omega)
      have closed := holds.closeTo none .nil (.inl back) used
      rw [opened] at closed
      simpa using closed

/-- The lines that closing a state leaves room for can be followed by another. -/
theorem Gap.add {closed : State} (close : Derivation.closeTo l.column s.waiting none s.stack [] = closed)
    (root : closed.root = none) (gap : Gap lines closed.stack closed.waiting l.column) (open_ : s.root = none)
    (added : Derivation.add s l.column l.number l.step = .ok s') : Fresh (lines ++ [l]) s' := by
  rcases s with ⟨stack, waiting, _⟩
  rcases closed with ⟨st, v, _⟩
  cases open_
  cases root
  rcases gap with ⟨before, w, siblings, holds, aligned, rfl, holding⟩
  rcases fits_of_add added with ⟨matched, used⟩
  have ready : Ready l.column stack waiting st v := ⟨matched, used, close, holds.head_left⟩
  have spelled : before ++ allLines siblings ++ [l] = before ++ (allLines siblings ++ l :: allLines []) := by
    simp [allLines]
  rw [spelled]
  cases kind : l.step.isSibling with
  | true =>
    rcases add_sibling ready holding kind with ⟨number, result⟩
    cases result.symm.trans added
    exact ⟨rfl, fun column right => .sibling number holds kind aligned .nil (right _ rfl)⟩
  | false =>
    cases (add_plain ready holding kind).symm.trans added
    refine ⟨rfl, fun column right => ?_⟩
    have none : Aligned false column [] := .nil
    have held := Holds.plain holds kind aligned none (right _ rfl)
    rw [append_nil] at held
    exact held

/-! ## After the conclusion -/

/-- Closing keeps the columns of what stays open and of what waits. -/
theorem closeTo_columns (column : Int) (waiting : List Waiting) (root : Option ProofTree)
    (stack : List OpenStep) (carried : List ProofTree) :
    let s := closeTo column waiting root stack carried
    s.waiting.map (·.column) = waiting.map (·.column) ∧
      (∀ o ∈ s.stack, o.column ∈ stack.map (·.column)) ∧ (∀ o ∈ s.stack.head?, o.column < column) ∧
      (root.isSome = true → s.root.isSome = true) := by
  have waited (c : Int) (tree : ProofTree) (w : List Waiting) : (wait c tree w).map (·.column) = w.map (·.column) := by
    induction w with
    | nil => rfl
    | cons g rest ih =>
      by_cases same : g.column == c
      · simp [wait, same]
      · simp [wait, same, ih]
  induction stack generalizing waiting carried with
  | nil => cases root <;> simp [closeTo]
  | cons top rest ih =>
    by_cases left : top.column < column
    · simp [closeTo, left]
      exact fun o member => .inr ⟨o, member, rfl⟩
    · simp only [closeTo, if_neg left]
      by_cases sibling : top.step.isSibling
      · grind
      · grind

/-- A sibling after the conclusion cannot be taken any more. -/
theorem doomed_of_conclusion (unfinished : s.root = none)
    (close : closeTo l.column s.waiting none s.stack [] = ⟨[], [], some tree⟩)
    (added : add s l.column l.number l.step = .ok s') : Doomed s' := by
  rcases opens_of_add added with ⟨premises, waiting, rfl, shape⟩
  rw [unfinished, close] at shape ⊢
  rcases shape with ⟨g, rest, rfl, same, kept | kept⟩ | ⟨room, _⟩
  · cases kept
  · cases kept
    exact ⟨rfl, l.column, by simp, by simp [same]⟩
  · exact absurd rfl (room rfl)

theorem Doomed.add (doomed : Doomed s) (added : Derivation.add s l.column l.number l.step = .ok s') : Doomed s' := by
  rcases doomed with ⟨known, outer, right, last⟩
  have reached : outer ≤ l.column := by
    rcases mem_map.mp (mem_of_getLast? last) with ⟨g, member, rfl⟩
    exact (fits_of_add added).2 g member
  rcases closeTo_columns l.column s.waiting s.root s.stack [] with ⟨waited, kept, below, stays⟩
  rcases opens_of_add added with ⟨premises, waiting, rfl, shape⟩
  rw [← waited] at last
  generalize Derivation.closeTo l.column s.waiting s.root s.stack [] = closed at *
  have inside : ∀ o ∈ closed.stack, outer ≤ o.column := by grind
  refine ⟨stays known, outer, forall_mem_cons.mpr ⟨reached, inside⟩, ?_⟩
  rcases shape with ⟨g, rest, rfl, _, same | same⟩ | ⟨room, same | ⟨g, same, at_⟩⟩
  · rw [← same]
    exact last
  · rw [same] at last
    simp [List.getLast?_cons, last]
  · rw [← same]
    exact last
  · -- a step that takes the siblings needs a frame to its left, so it is not at the outermost column
    have apart : l.column ≠ outer := by
      intro equal
      cases opened : closed.stack with
      | nil => exact room (stays known) opened
      | cons o frames =>
        have left := below o (by simp [opened])
        have bound := inside o (by simp [opened])
        omega
    rw [same] at last
    cases waiting with
    | nil =>
      have : g.column = outer := by simpa using last
      omega
    | cons g' rest => simpa [List.getLast?_cons_cons] using last

theorem Doomed.finish (doomed : Doomed s) (tree : ProofTree) : Derivation.finish s ≠ .ok tree := by
  rcases doomed with ⟨_, _, _, last⟩
  cases waits : s.waiting with
  | nil => simp [waits] at last
  | cons g rest => simp [Derivation.finish, waits]

/-! ## The whole proof -/

theorem run_fresh {before : List Line} (state : Fresh before s ∨ Doomed s) (added : run s lines = .ok s') :
    Fresh (before ++ lines) s' ∨ Doomed s' := by
  induction lines generalizing before s with
  | nil =>
    cases added
    rw [append_nil]
    exact state
  | cons l rest ih =>
    rw [run_cons] at added
    rcases bind_eq_ok.mp added with ⟨next, first, others⟩
    have step : Fresh (before ++ [l]) next ∨ Doomed next := by
      rcases state with fresh | doomed
      · rcases fresh.leaves first with ⟨root, gap⟩ | ⟨t, close, _⟩
        · exact .inl (gap.add rfl root fresh.1 first)
        · exact .inr (doomed_of_conclusion fresh.1 close first)
      · exact .inr (doomed.add first)
    have whole := ih step others
    rw [append_assoc, singleton_append] at whole
    exact whole

/-- Finishing closes what is open, down to the outermost step. -/
theorem Fresh.finish (fresh : Fresh lines s) (finished : Derivation.finish s = .ok tree) :
    ∃ t : Indented, t.Fits ∧ t.isSibling = false ∧ t.lines = lines ∧ t.tree = tree := by
  rcases s with ⟨stack, waiting, root⟩
  rcases fresh with ⟨unfinished, holds⟩
  cases unfinished
  cases waiting with
  | cons g rest => simp [Derivation.finish] at finished
  | nil =>
    cases outermost : stack.getLast? with
    | none => simp [Derivation.finish, outermost] at finished
    | some o =>
      simp only [Derivation.finish, outermost] at finished
      have closed : Leaves lines o.column (closeTo o.column [] none stack []) := by
        cases stack with
        | nil => simp at outermost
        | cons top rest =>
          have held := holds (top.column + 1) (by
            rintro _ ⟨⟩
            exact Int.lt_succ _)
          simpa using held.closeTo none .nil (.inl ⟨o, mem_of_getLast? outermost, rfl⟩) (by simp)
      rcases closed with ⟨root, _⟩ | ⟨t, close, fits, plain, spelled⟩
      · simp [root] at finished
      · grind

theorem indented_of_build (built : build lines = .ok tree) :
    ∃ t : Indented, t.Fits ∧ t.isSibling = false ∧ t.lines = lines ∧ t.tree = tree := by
  rcases bind_eq_ok.mp built with ⟨s, added, finished⟩
  have start : Fresh [] ({} : State) := ⟨rfl, fun column _ => .nil column⟩
  rcases run_fresh (.inl start) added with fresh | doomed
  · exact fresh.finish finished
  · exact absurd finished (doomed.finish tree)

/-- The builder accepts exactly the lines of the proofs whose columns are in order, and gives these
proofs back. -/
theorem build_eq_ok_iff_indented (lines : List Line) (tree : ProofTree) : build lines = .ok tree ↔
      ∃ t : Indented, t.Fits ∧ t.isSibling = false ∧ t.lines = lines ∧ t.tree = tree := by
  constructor
  · exact indented_of_build
  · rintro ⟨t, fits, plain, rfl, rfl⟩
    exact build_lines fits plain

end Derivation
end Whiteboard
