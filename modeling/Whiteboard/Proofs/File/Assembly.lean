import Whiteboard.Proofs.Expr.Carried
import Whiteboard.Proofs.File.Renaming

namespace Whiteboard

open List

/-!
# A source under another name

The name of a source is seen in the places of its tokens only, so every expression of one file is read from the same
tokens of the other.  Proofs and headings are assembled from their lines without a look at the places.
-/

namespace Parse

namespace Env

def inFile (f : String) (env : Env) : Env := { env with file := f }

theorem loc_inFile (f : String) (env : Env) (t : Token) : (env.inFile f).loc t = (env.loc t).inFile f := by
  obtain ⟨file, final, origin, nested, product⟩ := env
  cases origin <;> rfl

/-- A source is read to its end under both names. -/
theorem carrying_inFile (f : String) {env : Env} (ends : env.Ends) :
    Carrying ⟨.kept, id, Location.inFile f, [], []⟩ env (env.inFile f) where
  unseen := unseen_id
  nested _ := rfl
  whole _ := ⟨rfl, rfl⟩
  product := rfl
  places := env.loc_inFile f
  here := .nil (.inr (.inl ends))
  there := .nil (.inr (.inl ends))
  unclosed := List.forall_mem_singleton.mpr (by simp [Token.isDelim, Token.is, show env.final.kind = _ from ends])
  unbroken := List.forall_mem_singleton.mpr (by
    simp [inFile, Token.isDelim, Token.is, show env.final.kind = _ from ends])

end Env

/-- The value of what was read, moved by a change; what is left of the tokens stays. -/
abbrev onValue {α : Type} (change : α → α) (p : Parsed α) : Parsed α := (change p.1, p.2)

theorem mirrors_expr (f : String) {env : Env} (ends : env.Ends) (toks : List Token) :
    Mirrors (onValue (Expr.inFile f)) (expr env toks) (expr (env.inFile f) toks) := by
  rintro ⟨e, rest⟩ read
  have ends' : (env.inFile f).Ends := ends
  rcases ((expr_eq_ok_iff ends).mp read).relocate (env.carrying_inFile f ends) (by simp)
    ⟨toks, fun _ _ _ => by simp, (List.append_nil _).symm, rfl⟩ with ⟨_, ⟨row, _, rfl, rfl⟩, landed⟩
  simp only [List.map_id, List.append_nil] at landed ⊢
  exact (expr_eq_ok_iff ends').mpr landed

end Parse
namespace Derivation

def OpenStep.inFile (f : String) (o : OpenStep) : OpenStep :=
  { o with step := o.step.inFile f, premises := o.premises.map (ProofTree.inFile f) }

def Waiting.inFile (f : String) (w : Waiting) : Waiting := { w with trees := w.trees.map (ProofTree.inFile f) }

@[simp] theorem OpenStep.column_inFile (f : String) (o : OpenStep) : (o.inFile f).column = o.column := rfl

@[simp] theorem OpenStep.isSibling_inFile (f : String) (o : OpenStep) :
    (o.inFile f).step.isSibling = o.step.isSibling := rfl

@[simp] theorem Waiting.column_inFile (f : String) (w : Waiting) : (w.inFile f).column = w.column := rfl

def State.inFile (f : String) (s : State) : State where
  stack := s.stack.map (OpenStep.inFile f)
  waiting := s.waiting.map (Waiting.inFile f)
  root := s.root.map (ProofTree.inFile f)

theorem wait_inFile (f : String) (column : Int) (tree : ProofTree) (groups : List Waiting) :
    wait column (tree.inFile f) (groups.map (Waiting.inFile f)) = (wait column tree groups).map (Waiting.inFile f) := by
  induction groups with
  | nil => rfl
  | cons w rest ih =>
    rw [map_cons, wait, wait, Waiting.column_inFile]
    by_cases here : (w.column == column) = true
    · rw [if_pos here, if_pos here]
      simp [Waiting.inFile]
    · rw [if_neg here, if_neg here, map_cons, ih]

theorem closeTo_inFile (f : String) (column : Int) (waiting : List Waiting) (root : Option ProofTree)
    (stack : List OpenStep) (carried : List ProofTree) :
    closeTo column (waiting.map (Waiting.inFile f)) (root.map (ProofTree.inFile f))
        (stack.map (OpenStep.inFile f)) (carried.map (ProofTree.inFile f)) =
      (closeTo column waiting root stack carried).inFile f := by
  induction stack generalizing waiting carried with
  | nil =>
    rw [map_nil, closeTo, closeTo, State.inFile]
    cases root <;> cases carried <;> rfl
  | cons top rest ih =>
    have grown : (top.inFile f).premises ++ carried.map (ProofTree.inFile f) =
        (top.premises ++ carried).map (ProofTree.inFile f) := by
      rw [OpenStep.inFile, map_append]
    have tree : ProofTree.node (top.inFile f).step ((top.premises ++ carried).map (ProofTree.inFile f)) =
        (ProofTree.node top.step (top.premises ++ carried)).inFile f := by
      rw [ProofTree.inFile, ProofTree.listInFile_eq, OpenStep.inFile]
    rw [map_cons, closeTo, closeTo]
    dsimp only
    rw [grown, tree, OpenStep.column_inFile, OpenStep.isSibling_inFile]
    by_cases inner : top.column < column
    · rw [if_pos inner, if_pos inner]
      rfl
    · rw [if_neg inner, if_neg inner]
      by_cases sibling : top.step.isSibling = true
      · grind [wait_inFile]
      · rw [if_neg sibling, if_neg sibling]
        exact ih waiting [.node top.step (top.premises ++ carried)]

theorem isUnmatched_inFile (f : String) (column : Int) (stack : List OpenStep) :
    isUnmatched column (stack.map (OpenStep.inFile f)) = isUnmatched column stack := by
  unfold isUnmatched
  dsimp only
  rw [takeWhile_map, any_map, any_map]
  rfl

/-- A line is added in the same way whatever the file is. -/
theorem mirrors_add (f : String) (s : State) (column line : Int) (step : ProofStep) :
    Mirrors (State.inFile f) (add s column line step) (add (s.inFile f) column line (step.inFile f)) := by
  have unmatched : isUnmatched column (s.inFile f).stack = isUnmatched column s.stack :=
    isUnmatched_inFile f column s.stack
  have waits : ((s.inFile f).waiting.reverse.find? fun w => decide (column < w.column)) =
      (s.waiting.reverse.find? fun w => decide (column < w.column)).map (Waiting.inFile f) := by
    rw [State.inFile, ← map_reverse, List.find?_map]
    rfl
  have closed : closeTo column (s.inFile f).waiting (s.inFile f).root (s.inFile f).stack [] =
      (closeTo column s.waiting s.root s.stack []).inFile f :=
    closeTo_inFile f column s.waiting s.root s.stack []
  unfold add
  rw [unmatched, waits, closed]
  apply Mirrors.ite
  · exact fun _ => .error
  · intro _
    cases s.waiting.reverse.find? fun w => decide (column < w.column) with
    | some w => exact .error
    | none =>
      obtain ⟨stack, waiting, root⟩ := closeTo column s.waiting s.root s.stack []
      apply Mirrors.ite
      · intro _
        apply Mirrors.ok
        cases waiting with
        | nil => rfl
        | cons w rest =>
          by_cases here : (w.column == column) = true
          · simp [State.inFile, OpenStep.inFile, Waiting.inFile, here]
          · simp [State.inFile, OpenStep.inFile, Waiting.inFile, here]
      · intro _
        have outermost : ((stack.map (OpenStep.inFile f)).isEmpty && (root.map (ProofTree.inFile f)).isSome) =
            (stack.isEmpty && root.isSome) := by simp
        have push (premises : List ProofTree) (others : List Waiting) : Mirrors (State.inFile f)
            (if stack.isEmpty && root.isSome then .error Misfit.secondConclusion
              else .ok ⟨⟨column, step, premises⟩ :: stack, others, root⟩)
            (if (stack.map (OpenStep.inFile f)).isEmpty && (root.map (ProofTree.inFile f)).isSome then
                .error Misfit.secondConclusion
              else .ok (State.inFile f ⟨⟨column, step, premises⟩ :: stack, others, root⟩)) := by
          rw [outermost]
          exact .ite (fun _ => .error) fun _ => .ok rfl
        cases waiting with
        | nil => exact push [] []
        | cons w rest =>
          by_cases here : (w.column == column) = true
          · simp only [State.inFile, map_cons, Waiting.column_inFile, if_pos here]
            exact push w.trees rest
          · simp only [State.inFile, map_cons, Waiting.column_inFile, if_neg here]
            exact push [] (w :: rest)

theorem mirrors_finish (f : String) (s : State) : Mirrors (ProofTree.inFile f) (finish s) (finish (s.inFile f)) := by
  obtain ⟨stack, waiting, root⟩ := s
  cases waiting with
  | cons w rest => exact .error
  | nil =>
    have last : (stack.map (OpenStep.inFile f)).getLast? = stack.getLast?.map (OpenStep.inFile f) := List.getLast?_map
    unfold finish
    dsimp only [State.inFile, map_nil]
    rw [last]
    cases stack.getLast? with
    | none =>
      cases root with
      | none => exact .error
      | some tree => exact .ok rfl
    | some outermost =>
      have closed := congrArg State.root (closeTo_inFile f outermost.column [] root stack [])
      dsimp only [Option.map_some, OpenStep.column_inFile]
      rw [map_nil, map_nil] at closed
      rw [closed]
      dsimp only [State.inFile]
      cases (closeTo outermost.column [] root stack []).root with
      | none => exact .error
      | some tree => exact .ok rfl

end Derivation

def OpenHeading.inFile (f : String) (h : OpenHeading) : OpenHeading :=
  { h with loc := h.loc.inFile f, items := h.items.map (Item.inFile f) }

def Headings.inFile (f : String) (o : Headings) : Headings where
  done := o.done.map (Item.inFile f)
  stack := o.stack.map (OpenHeading.inFile f)

theorem Headings.closeTo_inFile (f : String) (rank : Nat) (done : List Item) (stack : List OpenHeading)
    (carried : List Item) :
    closeTo rank (done.map (Item.inFile f)) (stack.map (OpenHeading.inFile f)) (carried.map (Item.inFile f)) =
      (closeTo rank done stack carried).inFile f := by
  induction stack generalizing carried with
  | nil =>
    rw [map_nil, closeTo, closeTo, Headings.inFile, map_append]
    rfl
  | cons h rest ih =>
    have grown : { h.inFile f with items := (h.inFile f).items ++ carried.map (Item.inFile f) } =
        OpenHeading.inFile f { h with items := h.items ++ carried } := by
      simp [OpenHeading.inFile]
    have shut (open_ : OpenHeading) : (open_.inFile f).close = open_.close.inFile f := by
      rw [OpenHeading.close, OpenHeading.close, Item.inFile, Item.listInFile_eq]
      rfl
    rw [map_cons, closeTo, closeTo]
    dsimp only
    by_cases outer : h.level.rank < rank
    · rw [if_pos outer]
      refine (if_pos outer).trans ?_
      rw [grown]
      rfl
    · rw [if_neg outer]
      refine (if_neg outer).trans ?_
      rw [grown, shut]
      exact ih [_]

theorem Headings.step_inFile (f : String) (o : Headings) (entry : Entry) :
    (o.inFile f).step (entry.inFile f) = (o.step entry).inFile f := by
  cases entry with
  | item i =>
    obtain ⟨done, stack⟩ := o
    cases stack <;> simp [step, add, Headings.inFile, Entry.inFile, OpenHeading.inFile]
  | heading level title loc =>
    have closed := closeTo_inFile f level.rank o.done o.stack []
    rw [map_nil] at closed
    rw [Entry.inFile, step, step]
    dsimp only [Headings.inFile]
    rw [closed]
    rfl

/-- Headings are opened and closed in the same way whatever the file is. -/
theorem Document.ofEntries_inFile (f : String) (entries : List Entry) :
    Document.ofEntries (entries.map (Entry.inFile f)) = (Document.ofEntries entries).map (Item.inFile f) := by
  have run (o : Headings) : (entries.map (Entry.inFile f)).foldl Headings.step (o.inFile f) =
      (entries.foldl Headings.step o).inFile f := by
    induction entries generalizing o with
    | nil => rfl
    | cons entry rest ih =>
      rw [map_cons, foldl_cons, foldl_cons, Headings.step_inFile]
      exact ih _
  have all := run {}
  have closed := Headings.closeTo_inFile f 1 (entries.foldl Headings.step {}).done
    (entries.foldl Headings.step {}).stack []
  unfold Document.ofEntries
  dsimp only
  rw [show ({} : Headings) = Headings.inFile f {} from rfl, all]
  exact congrArg Headings.done closed

end Whiteboard
