import Whiteboard.Document

namespace Whiteboard
namespace Derivation

/-!
Proof trees from indented lines.  A deeper line is a premise of the nearest shallower one.
Sibling lines wait for the next line at their column that is no sibling, which takes them as its
first premises.
-/

/-- A step with its column and line, and the premises found so far. -/
structure OpenStep where
  column : Int
  step : ProofStep
  premises : List ProofTree := []
  deriving Inhabited

/-- Sibling premises that wait at a column, and the line of the first of them. -/
structure Waiting where
  column : Int
  line : Int
  trees : List ProofTree := []
  deriving Inhabited

/-- A proof in progress: the open steps and the waiting siblings, the innermost first, and the
tree of a conclusion that is complete. -/
structure State where
  stack : List OpenStep := []
  waiting : List Waiting := []
  root : Option ProofTree := none
  deriving Inhabited

/-- Why a line does not fit, or a proof is not finished. -/
inductive Misfit where
  | unmatchedIndent
  | unusedSiblings (line : Int)
  | secondConclusion
  | noStep
  deriving DecidableEq

namespace Misfit

def expected : Misfit → String
  | unmatchedIndent => "indentation matching an enclosing step"
  | unusedSiblings line => "a step after the sibling premises on line " ++ toString line
  | secondConclusion => "a single conclusion"
  | noStep => "proof step"

def found : Misfit → Option String
  | unmatchedIndent => some "inconsistent indentation"
  | secondConclusion => some "a second step at the outermost depth"
  | _ => none

end Misfit

/-- Hands a finished sibling to the group that waits at its column. -/
def wait (column : Int) (tree : ProofTree) : List Waiting → List Waiting
  | [] => []
  | w :: rest =>
    if w.column == column then { w with trees := w.trees ++ [tree] } :: rest
    else w :: wait column tree rest

/-- Closes the steps at a column or deeper: each becomes a premise of the step around it, a
sibling joins those that wait, and the outermost is the conclusion.  `carried` holds the premises
that the step closed last leaves to the one around it. -/
def closeTo (column : Int) (waiting : List Waiting) (root : Option ProofTree) :
    List OpenStep → List ProofTree → State
  | [], carried => ⟨[], waiting, root.or carried.head?⟩
  | top :: rest, carried =>
    let top := { top with premises := top.premises ++ carried }
    if top.column < column then ⟨top :: rest, waiting, root⟩
    else
      let tree := ProofTree.node top.step top.premises
      if top.step.isSibling then closeTo column (wait top.column tree waiting) root rest []
      else closeTo column waiting root rest [tree]

/-- Does a line at this column return to a column at which no step is open? -/
def isUnmatched (column : Int) (stack : List OpenStep) : Bool :=
  let closed := stack.takeWhile (fun o => decide (column ≤ o.column))
  closed.any (fun o => decide (column < o.column)) && !closed.any (fun o => o.column == column)

def add (s : State) (column line : Int) (step : ProofStep) : Except Misfit State :=
  if isUnmatched column s.stack then .error .unmatchedIndent
  else
    match s.waiting.reverse.find? (fun w => decide (column < w.column)) with
    | some w => .error (.unusedSiblings w.line)
    | none =>
      let s := closeTo column s.waiting s.root s.stack []
      if step.isSibling then
        let waiting :=
          match s.waiting with
          | w :: _ => if w.column == column then s.waiting else ⟨column, line, []⟩ :: s.waiting
          | [] => [⟨column, line, []⟩]
        .ok { s with stack := ⟨column, step, []⟩ :: s.stack, waiting := waiting }
      else
        let (premises, waiting) :=
          match s.waiting with
          | w :: rest => if w.column == column then (w.trees, rest) else ([], s.waiting)
          | [] => ([], [])
        if s.stack.isEmpty && s.root.isSome then .error .secondConclusion
        else .ok { s with stack := ⟨column, step, premises⟩ :: s.stack, waiting := waiting }

def finish (s : State) : Except Misfit ProofTree :=
  match s.waiting with
  | w :: _ => .error (.unusedSiblings w.line)
  | [] =>
    let root :=
      match s.stack.getLast? with
      | some outermost => (closeTo outermost.column [] s.root s.stack []).root
      | none => s.root
    match root with
    | some tree => .ok tree
    | none => .error .noStep

end Derivation
end Whiteboard
