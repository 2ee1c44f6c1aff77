import Whiteboard.Document.Derivation
import Whiteboard.Proofs.Diagnostic.Outcome

namespace Whiteboard

open List
namespace Derivation

/-!
# Proofs and their indentation

A proof is written line by line.  A sibling premise stands above the step it belongs to, at the column
of that step; every other premise stands below it and further to the right.  `Indented` is a proof in
which each step knows its line, `lines` writes it down, and `Fits` says which columns the lines of a
proof may have.
-/

/-- A line of a proof: its column, its number in the source, and the step it holds. -/
structure Line where
  column : Int
  number : Int
  step : ProofStep

/-- Adds lines to a proof in progress. -/
def run (s : State) (lines : List Line) : Except Misfit State :=
  lines.foldlM (fun s l => add s l.column l.number l.step) s

/-- The proof that the lines make. -/
def build (lines : List Line) : Except Misfit ProofTree := do
  let s ← run {} lines
  finish s

theorem run_append (s : State) (lines more : List Line) : run s (lines ++ more) = run s lines >>= fun s => run s more :=
  foldlM_append

theorem run_cons (s : State) (l : Line) (more : List Line) :
    run s (l :: more) = add s l.column l.number l.step >>= fun s => run s more :=
  foldlM_cons

/-- A proof whose steps know their lines. -/
inductive Indented where
  | node (line : Line) (premises : List Indented)

namespace Indented

def line : Indented → Line
  | node line _ => line

def column (t : Indented) : Int := t.line.column

def isSibling (t : Indented) : Bool := t.line.step.isSibling

mutual

/-- The proof without its lines. -/
def tree : Indented → ProofTree
  | node line premises => .node line.step (trees premises)

def trees : List Indented → List ProofTree
  | [] => []
  | t :: rest => t.tree :: trees rest

end

mutual

/-- The lines of a proof from top to bottom: the siblings that its premises begin with, the step
itself, and the other premises. -/
def lines : Indented → List Line
  | node line premises => leading premises ++ line :: trailing premises

def leading : List Indented → List Line
  | [] => []
  | t :: rest => if t.isSibling then t.lines ++ leading rest else []

def trailing : List Indented → List Line
  | [] => []
  | t :: rest => if t.isSibling then trailing rest else t.lines ++ allLines rest

def allLines : List Indented → List Line
  | [] => []
  | t :: rest => t.lines ++ allLines rest

end

/-- The columns of a proof are in order.  Siblings come first and share the column of their step, the
other premises share a column to the right of it, and a sibling has no siblings of its own. -/
inductive Fits : Indented → Prop
  | node {line : Line} {siblings premises : List Indented} (column : Int) :
      (∀ t ∈ siblings, t.isSibling = true ∧ t.column = line.column) →
      (line.step.isSibling = true → siblings = []) →
      (∀ t ∈ premises, t.isSibling = false ∧ t.column = column) →
      line.column < column →
      (∀ t ∈ siblings ++ premises, Fits t) →
      Fits (.node line (siblings ++ premises))

@[simp] theorem tree_node (line : Line) (premises : List Indented) :
    (node line premises).tree = .node line.step (trees premises) := by
  rw [tree]

@[simp] theorem trees_nil : trees [] = [] := rfl

@[simp] theorem allLines_nil : allLines [] = [] := rfl

theorem trees_eq_map (ts : List Indented) : trees ts = ts.map tree := by
  induction ts with
  | nil => rfl
  | cons t rest ih => rw [trees, ih, map_cons]

theorem allLines_eq_flatMap (ts : List Indented) : allLines ts = ts.flatMap lines := by
  induction ts with
  | nil => rfl
  | cons t rest ih => rw [allLines, ih, flatMap_cons]

theorem trees_append (ts more : List Indented) : trees (ts ++ more) = trees ts ++ trees more := by
  simp [trees_eq_map]

@[simp] theorem trees_singleton (t : Indented) : trees [t] = [t.tree] := rfl

theorem allLines_append (ts more : List Indented) : allLines (ts ++ more) = allLines ts ++ allLines more := by
  simp [allLines_eq_flatMap]

@[simp] theorem allLines_singleton (t : Indented) : allLines [t] = t.lines := by
  rw [allLines, allLines, append_nil]

/-- Where siblings come first, the step stands between them and the other premises. -/
theorem lines_node (line : Line) {siblings premises : List Indented}
    (sibling : ∀ t ∈ siblings, t.isSibling = true) (plain : ∀ t ∈ premises, t.isSibling = false) :
    (node line (siblings ++ premises)).lines = allLines siblings ++ line :: allLines premises := by
  have before : leading (siblings ++ premises) = allLines siblings := by
    induction siblings with
    | nil =>
      cases premises with
      | nil => rfl
      | cons t rest => simp [leading, allLines, plain t mem_cons_self]
    | cons t rest ih =>
      have others : ∀ u ∈ rest, u.isSibling = true := fun u member => sibling u (mem_cons_of_mem t member)
      rw [cons_append, leading, if_pos (sibling t mem_cons_self), ih others, allLines]
  have behind : trailing (siblings ++ premises) = allLines premises := by
    induction siblings with
    | nil =>
      cases premises with
      | nil => rfl
      | cons t rest => simp [trailing, allLines, plain t mem_cons_self]
    | cons t rest ih =>
      have others : ∀ u ∈ rest, u.isSibling = true := fun u member => sibling u (mem_cons_of_mem t member)
      rw [cons_append, trailing, if_pos (sibling t mem_cons_self)]
      refine ih others ?_
      rw [cons_append, leading, if_pos (sibling t mem_cons_self), allLines] at before
      exact append_cancel_left before
  rw [lines, before, behind]

end Indented
end Derivation
end Whiteboard
