import Whiteboard.Latex.Document

namespace Whiteboard
namespace Latex

/-!
# Which trees cannot be set

Where a tree cannot be set does not depend on how it is set.  Two runs in different styles and layouts
choose other parentheses, commands, gaps and line breaks at every node, but they go through the nodes in
the same order and give up at the same one, for the same cause.  `FailsAlike` relates the two runs; of the
contexts in which an expression stands only the place of its parent may show in a fault.
-/

variable {α β γ δ : Type}

/-- Both runs give up on the same node, and there is nothing but its fault, or both go through. -/
inductive FailsAlike : Except Fault α → Except Fault β → Prop
  | error (node : String) (loc : Location) (cause : RenderCause) :
      FailsAlike (.error (fault node loc cause)) (.error (fault node loc cause))
  | ok (a : α) (b : β) : FailsAlike (.ok a) (.ok b)

namespace FailsAlike

theorem bind {first : Except Fault α} {second : Except Fault β} {next : α → Except Fault γ}
    {onward : β → Except Fault δ} (alike : FailsAlike first second)
    (continues : ∀ a b, FailsAlike (next a) (onward b)) : FailsAlike (first >>= next) (second >>= onward) := by
  cases alike with
  | error node loc cause => exact .error node loc cause
  | ok a b => exact continues a b

/-- The last step of a run only puts together what is there. -/
theorem build {first : Except Fault α} {second : Except Fault β} (alike : FailsAlike first second)
    (f : α → γ) (g : β → δ) :
    FailsAlike (first >>= fun a => pure (f a)) (second >>= fun b => pure (g b)) :=
  alike.bind fun a b => .ok (f a) (g b)

theorem map {first : Except Fault α} {second : Except Fault β} (alike : FailsAlike first second)
    (f : α → γ) (g : β → δ) : FailsAlike (first.map f) (second.map g) := by
  cases alike with
  | error node loc cause => exact .error node loc cause
  | ok a b => exact .ok (f a) (g b)

theorem ite {condition : Prop} [Decidable condition] {yes no : Except Fault α} {yes' no' : Except Fault β}
    (ifYes : FailsAlike yes yes') (ifNo : FailsAlike no no') :
    FailsAlike (if condition then yes else no) (if condition then yes' else no') := by
  split
  · exact ifYes
  · exact ifNo

theorem mapM {g : α → Except Fault β} {h : α → Except Fault γ} (each : ∀ a, FailsAlike (g a) (h a))
    (xs : List α) : FailsAlike (xs.mapM g) (xs.mapM h) := by
  induction xs with
  | nil => exact .ok [] []
  | cons a rest ih =>
    rw [List.mapM_cons, List.mapM_cons]
    apply (each a).bind
    intro b b'
    exact ih.build _ _

end FailsAlike

variable {st st' : Style}

/-! ## Expressions -/

theorem optional_failsAlike {first second : Except Fault String} (alike : FailsAlike first second)
    (lead lead' : String) (missing : Bool) :
    FailsAlike (optional lead first missing) (optional lead' second missing) :=
  .ite (.ok _ _) (alike.map _ _)

theorem scriptPart_failsAlike {first second : Except Fault String} (alike : FailsAlike first second)
    (mark : String) (missing : Bool) :
    FailsAlike (scriptPart mark first missing) (scriptPart mark second missing) :=
  .ite (.ok _ _) (alike.map _ _)

mutual

theorem expr_failsAlike {c c' : Context} :
    (e : Expr) → (same : c.parent = c'.parent := by rfl) → FailsAlike (expr st c e) (expr st' c' e)
  | .hole, same => by
    rw [expr, expr, same]
    exact .error _ _ _
  | .literal kind value loc, _ => by
    rw [expr, expr]
    exact .ok _ _
  | .unary op surface operand trailing loc, _ => by
    rw [expr, expr]
    cases Symbol.lookup op with
    | none => exact .error _ _ _
    | some s =>
      refine .bind (expr_failsAlike operand) fun inner inner' => ?_
      exact .ite (.ok _ _) (.ok _ _)
  | .binary op surface left right breakAfter true loc, _ => by
    cases right with
    | binary relation surface' middle last breakAfter' chained' relationLoc =>
      rw [expr, expr]
      cases (Symbol.lookup relation).filter (fun s => s.role == .relation) with
      | none => exact .error _ _ _
      | some s =>
        refine .bind (expr_failsAlike left) fun first first' => ?_
        exact (expr_failsAlike last).build _ _
    | _ => exact .error _ _ _
  | .binary op surface left right breakAfter false loc, _ => by
    rw [expr, expr]
    cases Symbol.lookup op with
    | none => exact .error _ _ _
    | some s =>
      cases Symbol.asInfix op with
      | none => exact .error _ _ _
      | some p =>
        refine .bind (expr_failsAlike left) fun first first' => ?_
        exact (expr_failsAlike right).build _ _
  | .quantifier quant surface bindings constraint body loc, _ => by
    rw [expr, expr]
    cases (Symbol.lookup quant).filter (fun s => s.role == .quantifier) with
    | none => exact .error _ _ _
    | some s =>
      refine .ite (.error _ _ _) (.ite (.error _ _ _) ?_)
      refine .bind (bindingGroups_failsAlike bindings) fun groups groups' => ?_
      refine .bind (optional_failsAlike (expr_failsAlike constraint) _ _ _) fun such such' => ?_
      exact (optional_failsAlike (expr_failsAlike body) _ _ _).build _ _
  | .comprehension bindings predicate result loc, _ => by
    rw [expr, expr]
    refine .ite (.error _ _ _) ?_
    refine .bind (bindingGroups_failsAlike bindings) fun groups groups' => ?_
    refine .bind (optional_failsAlike (expr_failsAlike predicate) _ _ _) fun such such' => ?_
    exact (optional_failsAlike (expr_failsAlike result) _ _ _).build _ _
  | .collection kind elements loc, _ => by
    rw [expr, expr]
    cases collectionBrackets kind with
    | none => exact .error _ _ _
    | some brackets => exact .ite (.ok _ _) ((exprs_failsAlike elements).build _ _)
  | .tuple elements loc, _ => by
    rw [expr, expr]
    exact (exprs_failsAlike elements).build _ _
  | .projection target field loc, _ => by
    rw [expr, expr]
    exact (expr_failsAlike target).build _ _
  | .range low high loc, _ => by
    rw [expr, expr]
    refine .bind (expr_failsAlike low) fun first first' => ?_
    exact (expr_failsAlike high).build _ _
  | .conditional condition yes no loc, _ => by
    rw [expr, expr]
    refine .bind (expr_failsAlike condition) fun first first' => ?_
    refine .bind (expr_failsAlike yes) fun second second' => ?_
    exact (expr_failsAlike no).build _ _
  | .application target args juxtaposed loc, _ => by
    rw [expr, expr]
    refine .bind (expr_failsAlike target) fun function function' => ?_
    split
    next arg => exact (expr_failsAlike arg).build _ _
    next => exact (exprs_failsAlike args).build _ _
  | .instantiation base params loc, _ => by
    rw [expr, expr]
    refine .bind (expr_failsAlike base) fun generic generic' => ?_
    exact (exprs_failsAlike params).build _ _
  | .image relation set loc, _ => by
    rw [expr, expr]
    refine .bind (expr_failsAlike relation) fun mapping mapping' => ?_
    exact (expr_failsAlike set).build _ _
  | .script base super sub loc, _ => by
    rw [expr, expr]
    refine .ite (.error _ _ _) ?_
    refine .bind (expr_failsAlike base) fun nucleus nucleus' => ?_
    refine .bind (scriptPart_failsAlike (expr_failsAlike sub) _ _) fun lower lower' => ?_
    exact (scriptPart_failsAlike (expr_failsAlike super) _ _).build _ _

theorem exprs_failsAlike {c c' : Context} :
    (es : List Expr) → (same : c.parent = c'.parent := by rfl) → FailsAlike (exprs st c es) (exprs st' c' es)
  | [], _ => .ok [] []
  | e :: rest, same => by
    rw [exprs, exprs]
    refine .bind (expr_failsAlike e same) fun first first' => ?_
    exact (exprs_failsAlike rest same).build _ _

theorem bindingGroups_failsAlike {c c' : Context} :
    (gs : List (Binding Expr)) → (same : c.parent = c'.parent := by rfl) →
      FailsAlike (bindingGroups st c gs) (bindingGroups st' c' gs)
  | [], _ => .ok [] []
  | ⟨ns, domain, loc⟩ :: rest, same => by
    rw [bindingGroups, bindingGroups]
    refine .bind (optional_failsAlike (expr_failsAlike domain same) _ _ _) fun type type' => ?_
    exact (bindingGroups_failsAlike rest same).build _ _

end

/-! ## Proofs -/

mutual

theorem proofTree_failsAlike : (t : ProofTree) → FailsAlike (proofTree st t) (proofTree st' t)
  | .hole => by
    rw [proofTree, proofTree]
    exact expr_failsAlike .hole
  | .node step premises => by
    rw [proofTree, proofTree]
    refine .bind (expr_failsAlike step.expr) fun formula formula' => ?_
    exact .ite (.ok _ _) ((proofPremises_failsAlike premises).build _ _)

theorem proofPremises_failsAlike : (ts : List ProofTree) → FailsAlike (proofPremises st ts) (proofPremises st' ts)
  | [] => .ok [] []
  | t :: rest => by
    rw [proofPremises, proofPremises]
    have onward (figure figure' : String) : FailsAlike (proofPremises st rest >>= fun others => pure (figure :: others))
          (proofPremises st' rest >>= fun others => pure (figure' :: others)) :=
      (proofPremises_failsAlike rest).build _ _
    exact .ite ((caseBranch_failsAlike t).bind onward) ((proofTree_failsAlike t).bind onward)

theorem caseBranch_failsAlike : (t : ProofTree) → FailsAlike (caseBranch st t) (caseBranch st' t)
  | .hole => by
    rw [caseBranch, caseBranch]
    exact expr_failsAlike .hole
  | .node step premises => by
    rw [caseBranch, caseBranch]
    refine .bind (expr_failsAlike step.expr) fun formula formula' => ?_
    exact .ite (.ok _ _) ((proofSteps_failsAlike premises).build _ _)

theorem proofSteps_failsAlike : (ts : List ProofTree) → FailsAlike (proofSteps st ts) (proofSteps st' ts)
  | [] => .ok [] []
  | t :: rest => by
    rw [proofSteps, proofSteps]
    refine .bind (proofTree_failsAlike t) fun first first' => ?_
    exact (proofSteps_failsAlike rest).build _ _

end

/-! ## Items -/

theorem declaration_failsAlike (d : Declaration) : FailsAlike (declaration st d) (declaration st' d) :=
  .ite (expr_failsAlike d.inclusion) (.ite (.error _ _ _) ((expr_failsAlike d.type).build _ _))

theorem branch_failsAlike (b : Branch) : FailsAlike (branch st b) (branch st' b) :=
  .ite (.ok _ _) ((expr_failsAlike b.param).build _ _)

theorem boxHeader_failsAlike (kind : BoxKind) (name : String) (loc : Location) :
    FailsAlike (boxHeader st kind name loc) (boxHeader st' kind name loc) := by
  cases kind with
  | schema => exact .ite (.error _ _ _) (.ok _ _)
  | axdef | gendef => exact .ok _ _
  | other name => exact .error _ _ _

theorem zedLine_failsAlike (loc : Location) (l : ZedLine) : FailsAlike (zedLine st loc l) (zedLine st' loc l) := by
  obtain ⟨decl, e, also⟩ := l
  cases decl with
  | some d => exact (declaration_failsAlike d).build _ _
  | none => exact FailsAlike.ite (.error _ _ _) ((expr_failsAlike e).build _ _)

theorem segment_failsAlike (kind : TextKind) (loc : Location) (s : Segment) :
    FailsAlike (segment st kind loc s) (segment st' kind loc s) :=
  .ite (.ite ((expr_failsAlike s.math).build _ _) (.error _ _ _)) (.ok _ _)

theorem equivStep_failsAlike (s : EquivStep) : FailsAlike (equivStep st s) (equivStep st' s) := by
  rw [equivStep, equivStep]
  refine .bind (expr_failsAlike s.expr) fun formula formula' => ?_
  refine .ite (.ok _ _) ?_
  cases Symbol.lookup s.connective with
  | none => exact .error _ _ _
  | some symbol => exact .ok _ _

/-- Rows are checked without regard to the style, so only what a check finds matters. -/
theorem tableRows_failsAlike (loc : Location) (columns number : Nat) (rows : List (List String)) :
    FailsAlike (tableRows loc columns number rows) (tableRows loc columns number rows) := by
  induction rows generalizing number with
  | nil => exact .ok [] []
  | cons row rest ih => exact .ite (.error _ _ _) ((ih (number + 1)).build _ _)

theorem truthTable_failsAlike (loc : Location) (header : List Expr) (rows : List (List String)) :
    FailsAlike (truthTable st loc header rows) (truthTable st' loc header rows) := by
  refine .ite (.error _ _ _) ?_
  refine .bind (FailsAlike.mapM expr_failsAlike header) fun columns columns' => ?_
  exact (tableRows_failsAlike loc header.length 1 rows).build _ _

variable {lay lay' : Layout}

mutual

theorem item_failsAlike : (i : Item) → FailsAlike (item lay i) (item lay' i)
  | .hole => .error _ _ _
  | .heading level title items loc => by
    rw [item, item]
    exact (itemList_failsAlike items).build _ _
  | .truthTable header rows loc => by
    rw [item, item]
    exact (truthTable_failsAlike loc header rows).build _ _
  | .equivChain steps loc => by
    rw [item, item]
    exact .ite (.error _ _ _) ((FailsAlike.mapM equivStep_failsAlike steps).build _ _)
  | .proof none loc => by
    rw [item, item]
    exact .error _ _ _
  | .proof (some root) loc => by
    rw [item, item]
    exact (proofTree_failsAlike root).build _ _
  | .givenType ns loc => by
    rw [item, item]
    exact .ite (.error _ _ _) (.ok _ _)
  | .freeType name branches loc => by
    rw [item, item]
    exact .ite (.error _ _ _) ((FailsAlike.mapM branch_failsAlike branches).build _ _)
  | .abbreviation name gs body loc => by
    rw [item, item]
    exact (expr_failsAlike body).build _ _
  | .box kind name gs declarations predicates loc => by
    rw [item, item]
    refine .bind (boxHeader_failsAlike kind name loc) fun ⟨header, what⟩ ⟨header', what'⟩ => ?_
    refine .bind (FailsAlike.mapM declaration_failsAlike declarations) fun decls decls' => ?_
    exact (FailsAlike.mapM (fun p => (expr_failsAlike p.expr).build _ _) predicates).build _ _
  | .zedBlock lines loc => by
    rw [item, item]
    exact (FailsAlike.mapM (zedLine_failsAlike loc) lines).build _ _
  | .text kind segments loc => by
    rw [item, item]
    exact (FailsAlike.mapM (segment_failsAlike kind loc) segments).build _ _
  | .formula e loc => by
    rw [item, item]
    exact .ite (.error _ _ _) ((expr_failsAlike e).build _ _)
  | .pageBreak loc => by
    rw [item, item]
    exact .ok _ _

theorem itemList_failsAlike : (items : List Item) → FailsAlike (itemList lay items) (itemList lay' items)
  | [] => .ok [] []
  | i :: rest => by
    rw [itemList, itemList]
    refine .bind (item_failsAlike i) fun first first' => ?_
    exact (itemList_failsAlike rest).build _ _

end

/-- Whatever the vocabularies, widths and frames of two layouts are, a document that cannot be set in one
cannot be set in the other, for the same cause at the same node, and an expression likewise. -/
theorem failures_independent_of_dialect (lay lay' : Layout) :
    (∀ doc : Document, FailsAlike (doc.render lay) (doc.render lay')) ∧
      ∀ e : Expr, FailsAlike (e.render lay.dialect) (e.render lay'.dialect) := by
  constructor
  · intro doc
    exact (itemList_failsAlike doc).build _ _
  · intro e
    exact expr_failsAlike e

end Latex
end Whiteboard
