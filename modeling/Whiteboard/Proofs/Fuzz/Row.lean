import Mathlib.Data.List.Forall2
import Whiteboard.Proofs.Latex.Text

namespace Whiteboard
namespace Latex

/-!
# Rows of the strict vocabulary

In the strict vocabulary, and away from the boxes whose lines may break, the marks of a part depend
on its context in one respect: a quantifier stands in parentheses unless it is a whole formula or the
body of another quantifier.  `row` drops the rest of the context.  Its equations say what the formula
of an expression with arguments, parameters or an image behind it consists of.
-/

/-- The context of a part; the body of a quantifier is bare. -/
def slot (bare : Bool) : Context where
  parent := some {}
  body := bare

/-- The marks of an expression in the strict vocabulary. -/
def row (bare : Bool) (e : Expr) : List Mark := marks Style.strict (slot bare) e

namespace Context

/-- Contexts in which the strict vocabulary sets everything alike. -/
structure Alike (c c' : Context) : Prop where
  unboxed : c.box = false
  unboxed' : c'.box = false
  wraps : wrapsQuantifier Style.strict c = wrapsQuantifier Style.strict c'

theorem alike_slot {c : Context} (unboxed : c.box = false) : c.Alike (slot (!wrapsQuantifier Style.strict c)) :=
  ⟨unboxed, rfl, by simp [wrapsQuantifier, Style.strict, slot]⟩

end Context

/-- Pieces that differ in alike contexts only. -/
inductive Piece.Alike : Piece → Piece → Prop
  | mark (m : Mark) : Alike (.mark m) (.mark m)
  | part (wrap : Bool) {c c' : Context} (e : Expr) : c.Alike c' → Alike (.part wrap c e) (.part wrap c' e)

section Alike

open Piece List

variable {c c' : Context}

theorem alike_clauseLayout (lead : Mark) (e : Expr) (alike : c.Alike c') :
    Forall₂ Piece.Alike (clauseLayout lead c e) (clauseLayout lead c' e) := by
  unfold clauseLayout
  split
  · exact .nil
  · exact .cons (.mark lead) (.cons (.part false e alike) .nil)

theorem alike_listLayout (es : List Expr) (alike : c.Alike c') :
    Forall₂ Piece.Alike (listLayout c es) (listLayout c' es) := by
  have tailed (tail : Bool) : ({ c with tail := tail } : Context).Alike { c' with tail := tail } :=
    ⟨alike.unboxed, alike.unboxed', alike.wraps⟩
  induction es with
  | nil => exact .nil
  | cons e rest ih =>
    cases rest with
    | nil => exact .cons (.part false e (tailed true)) .nil
    | cons next others => exact .cons (.part false e (tailed false)) (.cons (.mark .comma) ih)

theorem alike_marks (ms : List Mark) : Forall₂ Piece.Alike (ms.map .mark) (ms.map .mark) := by
  induction ms with
  | nil => exact .nil
  | cons m rest ih => exact .cons (.mark m) ih

theorem alike_groupsLayout (bs : List (Binding Expr)) (alike : c.Alike c') :
    Forall₂ Piece.Alike (groupsLayout c bs) (groupsLayout c' bs) := by
  have inGroup (b : Binding Expr) : Forall₂ Piece.Alike (groupLayout c b) (groupLayout c' b) :=
    rel_append (alike_marks _) (alike_clauseLayout .colon b.domain alike)
  induction bs with
  | nil => exact .nil
  | cons b rest ih =>
    cases rest with
    | nil => exact inGroup b
    | cons next others => exact rel_append (inGroup b) (.cons (.mark .semicolon) ih)

/-- Only the wrapping of a quantifier looks at the context. -/
theorem alike_layout (e : Expr) (alike : c.Alike c') :
    Forall₂ Piece.Alike (layout Style.strict c e) (layout Style.strict c' e) := by
  have child (loc : Location) (tail tail' : Bool) : (c.child loc tail).Alike (c'.child loc tail') :=
    ⟨alike.unboxed, alike.unboxed', rfl⟩
  have inBody (loc : Location) : ({ c.child loc true with body := true } : Context).Alike
      { c'.child loc true with body := true } := ⟨alike.unboxed, alike.unboxed', rfl⟩
  have within (loc : Location) (tail tail' wrap : Bool) :
      ((c.child loc tail).within wrap).Alike ((c'.child loc tail').within wrap) :=
    ⟨alike.unboxed, alike.unboxed', rfl⟩
  cases e with
  | hole => exact .nil
  | literal => exact .cons (.mark _) .nil
  | unary op surface operand trailing loc =>
    cases trailing with
    | true => exact .cons (.part _ _ (within _ _ _ _)) (.cons (.mark _) .nil)
    | false => exact .cons (.mark _) (.cons (.part _ _ (within _ _ _ _)) .nil)
  | binary op surface left right breakAfter chained loc =>
    cases chained with
    | true =>
      cases right with
      | binary =>
        exact .cons (.part _ _ (child _ _ _)) (.cons (.mark _) (.cons (.part _ _ (within _ _ _ _)) .nil))
      | _ => exact .nil
    | false =>
      simp only [layout, alike.unboxed, alike.unboxed', Bool.and_false]
      exact .cons (.part _ _ (within _ _ _ _)) (.cons (.mark _)
        (.cons (.part _ _ ⟨alike.unboxed, alike.unboxed', rfl⟩) .nil))
  | quantifier quant surface bindings constraint body loc =>
    have inner : Forall₂ Piece.Alike _ _ := .cons (.mark (.binder quant))
      (rel_append (rel_append (alike_groupsLayout bindings (child loc false false))
        (alike_clauseLayout .bar constraint (child loc body.isHole body.isHole)))
        (alike_clauseLayout .spot body (inBody loc)))
    simp only [layout, ← alike.wraps]
    split
    · exact .cons (.mark _) (rel_append inner (.cons (.mark _) .nil))
    · exact inner
  | comprehension bindings predicate result loc =>
    exact .cons (.mark _) (rel_append (rel_append (rel_append (alike_groupsLayout bindings (child loc false false))
      (alike_clauseLayout .bar predicate (child loc _ _)))
      (alike_clauseLayout .spot result (child loc true true))) (.cons (.mark _) .nil))
  | collection kind elements loc =>
    simp only [layout]
    split
    · exact .cons (.mark _) .nil
    · exact .cons (.mark _) (rel_append (alike_listLayout elements (child loc true true)) (.cons (.mark _) .nil))
  | tuple elements loc =>
    exact .cons (.mark _) (rel_append (alike_listLayout elements (child loc true true)) (.cons (.mark _) .nil))
  | projection =>
    exact .cons (.part _ _ (within _ _ _ _)) (.cons (.mark _) (.cons (.mark _) .nil))
  | range =>
    exact .cons (.part _ _ (within _ _ _ _)) (.cons (.mark _) (.cons (.part _ _ (within _ _ _ _)) .nil))
  | conditional =>
    exact .cons (.mark _) (.cons (.part _ _ (child _ _ _)) (.cons (.mark _)
      (.cons (.part _ _ (child _ _ _)) (.cons (.mark _) (.cons (.part _ _ (child _ _ _)) .nil)))))
  | application target args juxtaposed loc =>
    refine .cons (.part _ _ (within _ _ _ _)) ?_
    have listed : Forall₂ Piece.Alike _ _ := .cons (.mark (.opening .round))
      (rel_append (alike_listLayout args (child loc true true)) (.cons (.mark (.closing .round)) .nil))
    split
    · exact .cons (.mark _) (.cons (.part _ _ (within _ _ _ _)) .nil)
    · exact listed
  | instantiation base params loc =>
    exact .cons (.part _ _ (within _ _ _ _)) (.cons (.mark _)
      (rel_append (alike_listLayout params (child loc true true)) (.cons (.mark _) .nil)))
  | image =>
    exact .cons (.part _ _ (within _ _ _ _)) (.cons (.mark _) (.cons (.part _ _ (child _ _ _)) (.cons (.mark _) .nil)))
  | script base super sub loc =>
    have part (b : Bracket) (e : Expr) : Forall₂ Piece.Alike
        (if e.isHole then [] else [.mark (.opening b), .part false (c.child loc true) e, .mark (.closing b)])
        (if e.isHole then [] else
          [.mark (.opening b), .part false (c'.child loc true) e, .mark (.closing b)]) := by
      split
      · exact .nil
      · exact .cons (.mark _) (.cons (.part _ _ (child _ _ _)) (.cons (.mark _) .nil))
    exact .cons (.part _ _ (within _ _ _ _)) (rel_append (part .sub sub) (part .super super))

theorem marks_alike (e : Expr) {c c' : Context} (alike : c.Alike c') :
    marks Style.strict c e = marks Style.strict c' e := by
  have inRow {ps qs : List Piece} (pieces : Forall₂ Piece.Alike ps qs)
      (smaller : ∀ wrap c e', .part wrap c e' ∈ ps → sizeOf e' < sizeOf e) :
      rowOf Style.strict ps = rowOf Style.strict qs := by
    induction pieces with
    | nil => rfl
    | cons first _ ih =>
      have others := ih (fun wrap c e' member => smaller wrap c e' (List.mem_cons_of_mem _ member))
      cases first with
      | mark m => rw [rowOf_mark_cons, rowOf_mark_cons, others]
      | part wrap e' alike =>
        have := smaller wrap _ e' List.mem_cons_self
        rw [rowOf_part_cons, rowOf_part_cons, others, marks_alike e' alike]
  rw [marks_eq_rowOf, marks_eq_rowOf]
  exact inRow (alike_layout e alike) (fun wrap c e' member => sizeOf_lt_of_part_mem member)
termination_by sizeOf e

end Alike

/-- What counts of a context that allows no line breaks is whether it bares quantifiers. -/
theorem marks_eq_row (e : Expr) {c : Context} (unboxed : c.box = false) :
    marks Style.strict c e = row (!wrapsQuantifier Style.strict c) e :=
  marks_alike e (Context.alike_slot unboxed)

/-! ## Rows of suffixes -/

/-- Elements with commas between them. -/
def listRow : List Expr → List Mark
  | [] => []
  | [e] => row false e
  | e :: rest => row false e ++ .comma :: listRow rest

section Parts

variable {c : Context} (unboxed : c.box = false) (loc : Location)

include unboxed in
theorem marks_child (tail : Bool) (e : Expr) : marks Style.strict (c.child loc tail) e = row false e :=
  marks_eq_row e unboxed

include unboxed in
theorem marks_within (tail wrap : Bool) (e : Expr) :
    marks Style.strict ((c.child loc tail).within wrap) e = row false e :=
  marks_eq_row e unboxed

include unboxed in
theorem rowOf_listLayout (tail : Bool) (es : List Expr) :
    rowOf Style.strict (listLayout (c.child loc tail) es) = listRow es := by
  have element (tail' : Bool) (e : Expr) : marks Style.strict { c.child loc tail with tail := tail' } e = row false e :=
    marks_eq_row e unboxed
  induction es with
  | nil => rfl
  | cons e rest ih =>
    cases rest with
    | nil => simp [listLayout, listRow, element]
    | cons next others =>
      rw [listLayout, listRow, ← ih]
      · simp [element]
      · simp
      · simp

end Parts

/-- The marks of an operand: in parentheses where they are wanted. -/
def operandRow (wrap : Bool) (e : Expr) : List Mark := wrapMarks wrap (row false e)

theorem operandRow_false (e : Expr) : operandRow false e = row false e := rfl

section Nodes

variable (bare : Bool) (loc : Location)

theorem row_juxtaposed (target arg : Expr) : row bare (.application target [arg] true loc) =
      operandRow (precedence target < Precedence.postfixed) target ++
        .juxtaposition :: operandRow (precedence arg < Precedence.atom) arg := by
  rw [row, marks_eq_rowOf, layout]
  simp [operandRow, marks_within (c := slot bare) rfl]

theorem row_application (target : Expr) (args : List Expr) : row bare (.application target args false loc) =
      operandRow (precedence target < Precedence.postfixed) target ++
        (.opening .round :: listRow args ++ [.closing .round]) := by
  rw [row, marks_eq_rowOf]
  simp only [layout]
  simp [operandRow, marks_within (c := slot bare) rfl, rowOf_listLayout (c := slot bare) rfl]

theorem row_instantiation (base : Expr) (params : List Expr) : row bare (.instantiation base params loc) =
      operandRow (precedence base < Precedence.postfixed) base ++
        (.opening .square :: listRow params ++ [.closing .square]) := by
  rw [row, marks_eq_rowOf, layout]
  simp [operandRow, marks_within (c := slot bare) rfl, rowOf_listLayout (c := slot bare) rfl]

theorem row_image (relation set : Expr) : row bare (.image relation set loc) =
      operandRow (precedence relation < Precedence.postfixed) relation ++
        (.opening .image :: row false set ++ [.closing .image]) := by
  rw [row, marks_eq_rowOf, layout]
  simp [operandRow, marks_within (c := slot bare) rfl, marks_child (c := slot bare) rfl]

end Nodes

/-- The text of a complete expression in the strict vocabulary is that of its row. -/
theorem Complete.render_fuzz {e : Expr} (complete : Complete e) :
    e.render .fuzz = .ok (Mark.textOf Style.strict (row true e)) := by
  have whole : marks Style.strict {} e = row true e := marks_eq_row e rfl
  rw [← whole]
  exact complete.written Style.strict {}

end Latex
end Whiteboard
