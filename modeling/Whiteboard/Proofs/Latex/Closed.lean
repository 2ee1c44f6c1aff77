import Whiteboard.Proofs.Document.Formed
import Whiteboard.Proofs.File.Renaming
import Whiteboard.Proofs.Latex.Bracketing

namespace Whiteboard

open List hiding set
namespace Latex

open Whiteboard.Expr (IsName IsGroup)
open Mark (textOf)

/-!
# Formulas and figures are closed

The formula of an expression that was read is closed text: names and numbers have no sign in them that opens
or closes anything, and a script stands in its braces.  Neither the marks of a formula nor those of a proof
depend on the places in them, so the same is set of a source under every name.
-/

/-! ## Marks are closed -/

theorem holds_style {P : Style → Prop} (strict : P Style.strict) (typeset : P Style.typeset) (d : Dialect) :
    P d.style := by
  cases d with
  | zed => exact typeset
  | fuzz | other => exact strict

/-- The text of the mark is closed by itself: it is no brace of a script, and a name, a number and a gap are closed. -/
def Mark.Fits : Mark → Prop
  | name s | number s => s.toList.all isPlain = true
  | infixOp _ gap => Closed true gap
  | opening b | closing b => b ≠ .sub ∧ b ≠ .super
  | _ => True

theorem Closed.ite {inMath : Bool} {condition : Prop} [Decidable condition] {s t : String} (yes : Closed inMath s)
    (no : Closed inMath t) : Closed inMath (if condition then s else t) := by
  split
  · exact yes
  · exact no

theorem Closed.script {mark t u : String} (marks : Closed true mark) (inner : Closed true t) (others : Closed true u) :
    Closed true (mark ++ "\x7b" ++ (t ++ ("\x7d" ++ u))) := by
  have whole := (marks.append inner.braced).append others
  simpa only [Latex.braced, String.append_assoc] using whole

theorem Mark.Fits.closed {m : Mark} (fits : m.Fits) (d : Dialect) : Closed true (m.text d.style) := by
  have gap : Closed true d.style.keywordGap :=
    .fixed (@holds_style (fun st => closes 0 st.keywordGap.toList = true) (by cbv) (by cbv) d)
  cases m with
  | name s => exact .identifier fits d.style
  | number s => exact .plain fits
  | infixOp op between => exact .append (.append (.fixed (by cbv)) (.commandOf _ _)) fits
  | prefixOp op =>
    exact .append (.commandOf _ _) (.ite .empty (.ite (.fixed (by cbv)) (.fixed (by cbv))))
  | postfixOp op =>
    exact .ite (.commandOf _ _) (.append (.fixed (by cbv)) (.commandOf _ _))
  | binder => exact .append (.commandOf _ _) (.fixed (by cbv))
  | keyword word =>
    exact .append (.append (.ite .empty gap) (.commandOf _ _)) gap
  | opening b | closing b =>
    cases b with
    | sub => exact absurd rfl fits.1
    | super => exact absurd rfl fits.2
    | _ => exact .fixed (by cbv)
  | nothing b => cases b <;> exact .fixed (by cbv)
  | spot => exact .fixed (@holds_style (fun st => closes 0 (" " ++ st.spot ++ " ").toList = true) (by cbv) (by cbv) d)
  | comma | semicolon | colon | bar | point | juxtaposition => exact .fixed (by cbv)

/-- Marks that are closed by themselves, parts that are formed, and scripts in their braces. -/
inductive Framed : List Piece → Prop
  | nil : Framed []
  | mark {m rest} : m.Fits → Framed rest → Framed (.mark m :: rest)
  | part {wrap c e rest} : e.Whole → Framed rest → Framed (.part wrap c e :: rest)
  | script {b c e rest} : b = .sub ∨ b = .super → e.Whole → Framed rest →
      Framed (.mark (.opening b) :: .part false c e :: .mark (.closing b) :: rest)

namespace Framed
variable {bs : List (Binding Expr)}

theorem append {ps qs : List Piece} (first : Framed ps) (second : Framed qs) : Framed (ps ++ qs) := by
  induction first with
  | nil => exact second
  | mark fits _ ih => exact .mark fits ih
  | part formed _ ih => exact .part formed ih
  | script braces formed _ ih => exact .script braces formed ih

theorem enclosed {b : Bracket} {ps : List Piece} (framed : Framed ps) (round : b ≠ .sub ∧ b ≠ .super) :
    Framed (.mark (.opening b) :: ps ++ [.mark (.closing b)]) :=
  .mark round (framed.append (.mark round .nil))

theorem clause (lead : Mark) {c : Context} {e : Expr} (leads : lead.Fits)
    (formed : e.isHole = false → e.Whole) : Framed (clauseLayout lead c e) := by
  unfold clauseLayout
  split
  · exact .nil
  next present => exact .mark leads (.part (formed (eq_false_of_ne_true present)) .nil)

theorem scripted {b : Bracket} {c : Context} {e : Expr} (braces : b = .sub ∨ b = .super)
    (formed : e.isHole = false → e.Whole) :
    Framed (if e.isHole then [] else [.mark (.opening b), .part false c e, .mark (.closing b)]) := by
  split
  · exact .nil
  next present => exact .script braces (formed (eq_false_of_ne_true present)) .nil

theorem elements {es : List Expr} (each : ∀ e ∈ es, e.Whole) (c : Context) : Framed (listLayout c es) := by
  fun_induction listLayout c es with
  | case1 => exact .nil
  | case2 e => exact .part (each e mem_cons_self) .nil
  | case3 e rest _ ih =>
    exact .part (each e mem_cons_self) (.mark trivial (ih fun other member => each other (mem_cons_of_mem e member)))

theorem nameMarks {ns : List String} (named : ∀ n ∈ ns, IsName n) : Framed ((nameMarks ns).map .mark) := by
  fun_induction Latex.nameMarks ns with
  | case1 => exact .nil
  | case2 n => exact .mark (isPlain_of_isNameText (named n mem_cons_self)) .nil
  | case3 n rest _ ih =>
    exact .mark (isPlain_of_isNameText (named n mem_cons_self))
      (.mark trivial (ih fun other member => named other (mem_cons_of_mem n member)))

theorem groups (groups : ∀ b ∈ bs, IsGroup True b)
    (domains : ∀ b ∈ bs, b.domain.isHole = false → b.domain.Whole) (c : Context) : Framed (groupsLayout c bs) := by
  have inGroup {b : Binding Expr} (member : b ∈ bs) : Framed (groupLayout c b) :=
    append (nameMarks ((groups b member).2 trivial)) (clause .colon trivial (domains b member))
  fun_induction groupsLayout c bs with
  | case1 => exact .nil
  | case2 b => exact inGroup mem_cons_self
  | case3 b rest _ ih =>
    refine append (inGroup mem_cons_self) (.mark trivial ?_)
    exact ih (fun other member => groups other (mem_cons_of_mem b member))
      (fun other member => domains other (mem_cons_of_mem b member))
      fun member => inGroup (mem_cons_of_mem b member)

end Framed

theorem closed_breakGap (breaks : Bool) (indent : Nat) : Closed true (breakGap breaks indent) := by
  exact .ite (.append (.fixed (by cbv)) (.tab _)) (.fixed (by cbv))

/-- The marks and parts of a node that was read. -/
theorem framed_layout {e : Expr} (formed : e.Whole) (st : Style) (c : Context) : Framed (layout st c e) := by
  have space : Closed true " " := .fixed (by cbv)
  have bracketed {b : Bracket} {es : List Expr} (each : ∀ e ∈ es, e.Whole) (c : Context)
      (round : b ≠ .sub ∧ b ≠ .super) : Framed (.mark (.opening b) :: listLayout c es ++ [.mark (.closing b)]) :=
    (Framed.elements each c).enclosed round
  cases formed with
  | number numeral => exact .mark (isPlain_of_isNumberText (numeral trivial)) .nil
  | name named => exact .mark (isPlain_of_isNameText (named trivial)) .nil
  | prefixed _ operand => exact .mark trivial (.part operand .nil)
  | postfixed _ operand => exact .part operand (.mark trivial .nil)
  | binary known _ left right =>
    rcases Option.isSome_iff_exists.mp known with ⟨⟨prec, assoc⟩, binds⟩
    simp only [layout, binds]
    exact .part left (.mark (closed_breakGap _ _) (.part right .nil))
  | chain _ _ left right | range left right => exact .part left (.mark (m := .infixOp _ " ") space (.part right .nil))
  | conditional condition yes no =>
    exact .mark trivial (.part condition (.mark trivial (.part yes (.mark trivial (.part no .nil)))))
  | quantifier _ _ _ groups domains such body =>
    simp only [layout]
    split
    · exact Framed.enclosed (.append (.append (.mark trivial (.groups groups domains _)) (.clause .bar trivial such))
        (.clause .spot trivial body)) (by decide)
    · exact .append (.append (.mark trivial (.groups groups domains _)) (.clause .bar trivial such))
        (.clause .spot trivial body)
  | comprehension _ groups domains such result =>
    exact (((Framed.groups groups domains _).append (.clause .bar trivial such)).append
      (.clause .spot trivial result)).enclosed (by decide)
  | collection known each =>
    simp only [layout]
    split
    · exact .mark trivial .nil
    · refine bracketed each _ ?_
      simp only [mem_cons, not_mem_nil, or_false] at known
      rcases known with rfl | rfl | rfl <;> decide
  | tuple _ each => exact bracketed each _ (by decide)
  | projection field target =>
    refine .part target (.mark trivial (.mark ?_ .nil))
    rcases field trivial with named | numeral
    · exact isPlain_of_isNameText named
    · exact isPlain_of_isNumberText numeral
  | application target each => exact .part target (bracketed each _ (by decide))
  | juxtaposed target arg => exact .part target (.mark trivial (.part arg .nil))
  | instantiation base each => exact .part base (bracketed each _ (by decide))
  | image relation set =>
    exact .part relation (Framed.enclosed (.part set .nil) (by decide))
  | superscript _ base super =>
    exact .part base (.append (.scripted (.inl rfl) fun present => by cases present)
      (.scripted (.inr rfl) fun _ => super))
  | subscript named sub super =>
    exact .part (.name named) (.append (.scripted (.inl rfl) fun _ => sub) (.scripted (.inr rfl) super))

/-- The formula of an expression that was read is closed. -/
theorem closed_marks {e : Expr} (formed : e.Whole) (d : Dialect) (c : Context) :
    Closed true (Mark.textOf d.style (marks d.style c e)) := by
  have row {ps : List Piece} (framed : Framed ps) (smaller : ∀ wrap c e', .part wrap c e' ∈ ps → sizeOf e' < sizeOf e) :
      Closed true (Mark.textOf d.style (rowOf d.style ps)) := by
    induction framed with
    | nil => exact .empty
    | mark fits _ ih =>
      rw [rowOf_mark_cons, Mark.textOf_cons]
      exact (fits.closed d).append (ih fun wrap c e' member => smaller wrap c e' (mem_cons_of_mem _ member))
    | @part wrap c e' rest formed _ ih =>
      have := smaller wrap c e' mem_cons_self
      rw [rowOf_part_cons, Mark.textOf_append, textOf_wrapMarks]
      have inner := closed_marks formed d c
      exact .append (.ite (.append (.append (.fixed (by cbv)) inner) (.fixed (by cbv))) inner)
        (ih fun wrap c e' member => smaller wrap c e' (mem_cons_of_mem _ member))
    | @script b c e' rest braces formed _ ih =>
      have := smaller false c e' (by simp)
      have inner := closed_marks formed d c
      have others := ih fun wrap c e' member => smaller wrap c e' (by simp [member])
      simp only [rowOf_mark_cons, rowOf_part_cons, wrapMarks_false, Mark.textOf_cons, Mark.textOf_append]
      rcases braces with rfl | rfl
      · exact @Closed.script "_" _ _ (.fixed (by cbv)) inner others
      · exact @Closed.script "^" _ _ (.fixed (by cbv)) inner others
  rw [marks_eq_rowOf]
  exact row (framed_layout formed d.style c) fun wrap c e' member => sizeOf_lt_of_part_mem member
termination_by sizeOf e

/-! ## Marks have no places -/

section
variable (f : String)

def Context.inFile (c : Context) : Context := { c with parent := c.parent.map (Location.inFile f) }

theorem child_inFile (c : Context) (loc : Location) (tail : Bool) :
    (c.inFile f).child (loc.inFile f) tail = (c.child loc tail).inFile f := rfl

def Piece.inFile : Piece → Piece
  | mark m => mark m
  | part wrap c e => part wrap (c.inFile f) (e.inFile f)

theorem precedence_inFile (e : Expr) : precedence (e.inFile f) = precedence e := by
  cases e <;> rfl

theorem wrapsPrefixOperand_inFile (st : Style) (s : Symbol) (e : Expr) :
    wrapsPrefixOperand st s (e.inFile f) = wrapsPrefixOperand st s e := by
  have applies : appliesFunction (e.inFile f) = appliesFunction e := by cases e <;> rfl
  rw [wrapsPrefixOperand, precedence_inFile, applies]
  rfl

theorem wrapsQuantifier_inFile (st : Style) (c : Context) : wrapsQuantifier st (c.inFile f) = wrapsQuantifier st c := by
  rw [wrapsQuantifier, wrapsQuantifier, Context.inFile, Option.isSome_map]

theorem clauseLayout_inFile (lead : Mark) (c : Context) (e : Expr) :
    clauseLayout lead (c.inFile f) (e.inFile f) = (clauseLayout lead c e).map (Piece.inFile f) := by
  rw [clauseLayout, clauseLayout, Expr.isHole_inFile]
  split <;> rfl

theorem listLayout_inFile (c : Context) (es : List Expr) :
    listLayout (c.inFile f) (Expr.listInFile f es) = (listLayout c es).map (Piece.inFile f) := by
  fun_induction listLayout c es with
  | case1 => rfl
  | case2 e => rfl
  | case3 e rest nonempty ih =>
    cases rest with
    | nil => exact absurd rfl nonempty
    | cons next others => exact congrArg (Piece.part false _ _ :: .mark .comma :: ·) ih

theorem groupsLayout_inFile (c : Context) (bs : List (Binding Expr)) :
    groupsLayout (c.inFile f) (Expr.groupsInFile f bs) = (groupsLayout c bs).map (Piece.inFile f) := by
  have inGroup (b : Binding Expr) : groupLayout (c.inFile f) ⟨b.names, b.domain.inFile f, b.loc.inFile f⟩ =
      (groupLayout c b).map (Piece.inFile f) := by
    simp [groupLayout, clauseLayout_inFile, Function.comp_def, Piece.inFile]
  fun_induction groupsLayout c bs with
  | case1 => rfl
  | case2 b => exact inGroup b
  | case3 b rest nonempty ih =>
    cases rest with
    | nil => exact absurd rfl nonempty
    | cons next others =>
      rw [map_append, ← inGroup, map_cons, ← ih]
      rfl

/-- Another file changes nothing but the places of parts. -/
theorem layout_inFile (st : Style) (c : Context) (e : Expr) :
    layout st (c.inFile f) (e.inFile f) = (layout st c e).map (Piece.inFile f) := by
  cases e with
  | hole | literal => rfl
  | unary op surface operand trailing loc =>
    cases trailing with
    | true =>
      rw [Expr.inFile, Expr.relocate, layout, layout, precedence_inFile]
      rfl
    | false =>
      rw [Expr.inFile, Expr.relocate, layout, layout]
      simp only [wrapsPrefixOperand_inFile]
      rfl
  | binary op surface left right breakAfter chained loc =>
    cases chained with
    | true =>
      cases right with
      | binary =>
        rw [Expr.inFile, Expr.relocate, Expr.relocate, layout, layout, precedence_inFile]
        rfl
      | _ => rfl
    | false =>
      rw [Expr.inFile, Expr.relocate, layout, layout, precedence_inFile, precedence_inFile]
      rfl
  | quantifier quant surface bindings constraint body loc =>
    have bare : { (c.child loc true).inFile f with body := true } =
        ({ c.child loc true with body := true } : Context).inFile f := rfl
    simp only [Expr.inFile, Expr.relocate, layout, wrapsQuantifier_inFile, Expr.isHole_inFile, child_inFile, bare,
      groupsLayout_inFile, clauseLayout_inFile]
    split <;> simp [Piece.inFile]
  | comprehension bindings predicate result loc =>
    simp only [Expr.inFile, Expr.relocate, layout, Expr.isHole_inFile, child_inFile, groupsLayout_inFile,
      clauseLayout_inFile]
    simp [Piece.inFile]
  | collection kind elements loc =>
    simp only [Expr.inFile, Expr.relocate, layout, Expr.isEmpty_listInFile, child_inFile, listLayout_inFile]
    split <;> simp [Piece.inFile]
  | tuple elements loc =>
    simp only [Expr.inFile, Expr.relocate, layout, child_inFile, listLayout_inFile]
    simp [Piece.inFile]
  | projection | range | image | conditional =>
    simp only [Expr.inFile, Expr.relocate, layout, precedence_inFile]
    rfl
  | application target args juxtaposed loc =>
    have listed := listLayout_inFile f (c.child loc true) args
    -- Only a single argument can be set without parentheses.
    rcases juxtaposed, args with ⟨_ | _, _ | ⟨arg, _ | ⟨next, more⟩⟩⟩
    all_goals
      simp only [Expr.listInFile, Expr.listRelocate] at listed
      simp only [Expr.inFile, Expr.relocate, Expr.listRelocate, layout, precedence_inFile, child_inFile, listed,
        map_cons, map_append, map_nil, cons_append, Piece.inFile]
      rfl
  | instantiation base params loc =>
    simp only [Expr.inFile, Expr.relocate, layout, precedence_inFile, child_inFile, listLayout_inFile]
    simp only [map_cons, map_append, map_nil, cons_append, Piece.inFile]
    rfl
  | script base super sub loc =>
    rw [Expr.inFile, Expr.relocate, layout, layout, precedence_inFile, Expr.isHole_inFile, Expr.isHole_inFile]
    cases sub.isHole <;> cases super.isHole <;> rfl

theorem marks_inFile (st : Style) (c : Context) (e : Expr) : marks st (c.inFile f) (e.inFile f) = marks st c e := by
  have each {p : Piece} (member : p ∈ layout st c e) : (p.inFile f).marks st = p.marks st := by
    cases p with
    | mark m => rfl
    | part wrap c' e' =>
      have := sizeOf_lt_of_part_mem member
      exact congrArg (wrapMarks wrap) (marks_inFile st c' e')
  rw [marks_eq_rowOf, marks_eq_rowOf, layout_inFile, rowOf, rowOf, flatMap_map]
  exact flatMap_congr fun p member => each member
termination_by sizeOf e

theorem Complete.mem_listInFile {es : List Expr} (each : ∀ e ∈ es, Complete (e.inFile f)) :
    ∀ e ∈ Expr.listInFile f es, Complete e := by
  induction es with
  | nil => exact fun _ member => absurd member not_mem_nil
  | cons e rest ih =>
    have ⟨here, others⟩ := forall_mem_cons.mp each
    exact forall_mem_cons.mpr ⟨here, ih others⟩

theorem Complete.mem_groupsInFile (each : ∀ b ∈ bs, b.domain.isHole = false → Complete (b.domain.inFile f)) :
    ∀ b ∈ Expr.groupsInFile f bs, b.domain.isHole = false → Complete b.domain := by
  induction bs with
  | nil => exact fun _ member => absurd member not_mem_nil
  | cons b rest ih =>
    have ⟨here, others⟩ := forall_mem_cons.mp each
    refine forall_mem_cons.mpr ⟨fun present => here ?_, ih others⟩
    rwa [Expr.isHole_inFile] at present

theorem groupsInFile_ne_nil (some : bs ≠ []) : Expr.groupsInFile f bs ≠ [] := by
  cases bs with
  | nil => exact absurd rfl some
  | cons => exact cons_ne_nil _ _

theorem Complete.inFile {e : Expr} (complete : Complete e) : Complete (e.inFile f) := by
  induction complete with
  | literal => exact .literal
  | unary known _ ih => exact .unary known ih
  | chain known _ _ ihl ihr => exact .chain known ihl ihr
  | binary known _ _ ihl ihr => exact .binary known ihl ihr
  | quantifier known present some _ _ _ ihd ihc ihb =>
    refine .quantifier known ?_ (groupsInFile_ne_nil f some) (.mem_groupsInFile f ihd) ?_ ?_
    · rwa [Expr.isHole_inFile, Expr.isHole_inFile]
    · rwa [Expr.isHole_inFile]
    · rwa [Expr.isHole_inFile]
  | comprehension some _ _ _ ihd ihp ihr =>
    refine .comprehension (groupsInFile_ne_nil f some) (.mem_groupsInFile f ihd) ?_ ?_
    · rwa [Expr.isHole_inFile]
    · rwa [Expr.isHole_inFile]
  | collection known _ ih => exact .collection known (.mem_listInFile f ih)
  | tuple _ ih => exact .tuple (.mem_listInFile f ih)
  | projection _ ih => exact .projection ih
  | range _ _ ihl ihh => exact .range ihl ihh
  | conditional _ _ _ ihc ihy ihn => exact .conditional ihc ihy ihn
  | application _ _ iht iha => exact .application iht (.mem_listInFile f iha)
  | instantiation _ _ ihb ihp => exact .instantiation ihb (.mem_listInFile f ihp)
  | image _ _ ihr ihs => exact .image ihr ihs
  | script _ present _ _ ihb ihu ihl =>
    refine .script ihb ?_ ?_ ?_
    · rwa [Expr.isHole_inFile, Expr.isHole_inFile]
    · rwa [Expr.isHole_inFile]
    · rwa [Expr.isHole_inFile]

end

end Latex
end Whiteboard
