import Whiteboard.Proofs.Latex.Layout

namespace Whiteboard
namespace Latex

/-!
# Complete expressions and their text

An expression is complete if nothing that its formula needs is missing and all its operators are in
the symbol table for the role they play.  Completeness mentions neither the vocabulary nor the
context.  A complete expression has a formula in every vocabulary and context, and that formula is
the text of its marks.
-/

/-- Nothing is missing that the formula needs, and every operator has its role in the table. -/
inductive Complete : Expr → Prop
  | literal {kind value loc} : Complete (.literal kind value loc)
  | unary {op surface operand trailing loc} : (Symbol.lookup op).isSome = true → Complete operand →
      Complete (.unary op surface operand trailing loc)
  | chain {op surface left relation surface' middle right breakAfter' chained' loc' breakAfter loc} :
      Symbol.isRelation relation = true → Complete left → Complete right →
      Complete (.binary op surface left
        (.binary relation surface' middle right breakAfter' chained' loc') breakAfter true loc)
  | binary {op surface left right breakAfter loc} : (Symbol.asInfix op).isSome = true → Complete left → Complete right →
      Complete (.binary op surface left right breakAfter false loc)
  | quantifier {quant surface bindings constraint body loc} : ((Symbol.lookup quant).map (·.role)) = some .quantifier →
      (constraint.isHole && body.isHole) = false →
      bindings ≠ [] →
      (∀ b ∈ bindings, b.domain.isHole = false → Complete b.domain) →
      (constraint.isHole = false → Complete constraint) →
      (body.isHole = false → Complete body) →
      Complete (.quantifier quant surface bindings constraint body loc)
  | comprehension {bindings predicate result loc} : bindings ≠ [] →
      (∀ b ∈ bindings, b.domain.isHole = false → Complete b.domain) →
      (predicate.isHole = false → Complete predicate) →
      (result.isHole = false → Complete result) →
      Complete (.comprehension bindings predicate result loc)
  | collection {kind elements loc} : (collectionBrackets kind).isSome = true → (∀ e ∈ elements, Complete e) →
      Complete (.collection kind elements loc)
  | tuple {elements loc} : (∀ e ∈ elements, Complete e) → Complete (.tuple elements loc)
  | projection {target field loc} : Complete target → Complete (.projection target field loc)
  | range {low high loc} : Complete low → Complete high → Complete (.range low high loc)
  | conditional {condition yes no loc} : Complete condition → Complete yes → Complete no →
      Complete (.conditional condition yes no loc)
  | application {target args juxtaposed loc} : Complete target → (∀ e ∈ args, Complete e) →
      Complete (.application target args juxtaposed loc)
  | instantiation {base params loc} :
      Complete base → (∀ e ∈ params, Complete e) → Complete (.instantiation base params loc)
  | image {relation set loc} : Complete relation → Complete set → Complete (.image relation set loc)
  | script {base super sub loc} : Complete base → (super.isHole && sub.isHole) = false →
      (super.isHole = false → Complete super) →
      (sub.isHole = false → Complete sub) →
      Complete (.script base super sub loc)

/-! ## The text of rows -/

namespace Mark

@[simp] theorem textOf_nil (st : Style) : textOf st [] = "" := rfl

@[simp] theorem textOf_cons (st : Style) (m : Mark) (ms : List Mark) :
    textOf st (m :: ms) = m.text st ++ textOf st ms := by
  simp [textOf]

@[simp] theorem textOf_append (st : Style) (ms ns : List Mark) :
    textOf st (ms ++ ns) = textOf st ms ++ textOf st ns := by
  simp [textOf]

end Mark

open Mark

@[simp] theorem textOf_wrapMarks (st : Style) (wrap : Bool) (ms : List Mark) :
    textOf st (wrapMarks wrap ms) = wrapIf wrap (textOf st ms) := by
  cases wrap <;>
    simp [wrapMarks, wrapIf, parens, text, Bracket.openingText, Bracket.closingText, String.append_assoc]

theorem textOf_nameMarks (st : Style) (ns : List String) : textOf st (nameMarks ns) = names st ns := by
  unfold names
  fun_induction nameMarks ns with
  | case1 => rfl
  | case2 n => simp [text]
  | case3 n rest nonempty ih =>
    cases rest with
    | nil => exact absurd rfl nonempty
    | cons next others =>
      rw [textOf_cons, textOf_cons, ih]
      simp [text, String.append_assoc]

variable {st : Style} {op : String} {s : Symbol}

theorem commandOf_eq (found : Symbol.lookup op = some s) : st.commandOf op = st.command s := by
  rw [Style.commandOf, found]
  rfl

/-- The formula of an expression, in every context, is the text of its marks. -/
def Written (st : Style) (e : Expr) : Prop := ∀ c, expr st c e = .ok (textOf st (marks st c e))

theorem exprs_written {es : List Expr} (written : ∀ e ∈ es, Written st e) (c : Context) :
    ∃ inner, exprs st c es = .ok inner ∧ inner.length = es.length ∧
      ", ".intercalate inner = textOf st (rowOf st (listLayout c es)) := by
  induction es with
  | nil => exact ⟨[], rfl, rfl, rfl⟩
  | cons e rest ih =>
    obtain ⟨inner, others, length, joined⟩ := ih (fun other member => written other (List.mem_cons_of_mem e member))
    have first := written e List.mem_cons_self { c with tail := rest.isEmpty }
    refine ⟨textOf st (marks st { c with tail := rest.isEmpty } e) :: inner, ?_, by simp [length], ?_⟩
    · rw [exprs, first, others]
      rfl
    · cases rest with
      | nil =>
        cases inner with
        | nil => simp [listLayout]
        | cons _ _ => cases length
      | cons next more =>
        cases inner with
        | nil => cases length
        | cons second rest =>
          rw [String.intercalate_cons_cons, joined]
          simp [listLayout, text, String.append_assoc]

theorem optional_written {e : Expr} (c : Context) (lead : Mark) (written : e.isHole = false → Written st e) :
    optional (lead.text st) (expr st c e) e.isHole = .ok (textOf st (rowOf st (clauseLayout lead c e))) := by
  unfold optional clauseLayout
  cases missing : e.isHole with
  | true => rfl
  | false =>
    rw [written missing c]
    simp [Except.map]

theorem bindingGroups_written {bs : List (Binding Expr)}
    (written : ∀ b ∈ bs, b.domain.isHole = false → Written st b.domain) (c : Context) :
    ∃ groups, bindingGroups st c bs = .ok groups ∧ groups.length = bs.length ∧
      "; ".intercalate groups = textOf st (rowOf st (groupsLayout c bs)) := by
  induction bs with
  | nil => exact ⟨[], rfl, rfl, rfl⟩
  | cons b rest ih =>
    obtain ⟨groups, others, length, joined⟩ := ih (fun other member => written other (List.mem_cons_of_mem b member))
    rcases b with ⟨ns, domain, loc⟩
    have typed := optional_written c .colon (written ⟨ns, domain, loc⟩ List.mem_cons_self)
    have group : names st ns ++ textOf st (rowOf st (clauseLayout .colon c domain)) =
        textOf st (rowOf st (groupLayout c ⟨ns, domain, loc⟩)) := by
      simp [groupLayout, textOf_nameMarks]
    refine ⟨textOf st (rowOf st (groupLayout c ⟨ns, domain, loc⟩)) :: groups, ?_,
      by simp [length], ?_⟩
    · simp only [text] at typed
      rw [bindingGroups, typed, others, ← group]
      rfl
    · cases rest with
      | nil =>
        cases groups with
        | nil => simp [groupsLayout]
        | cons _ _ => cases length
      | cons next more =>
        cases groups with
        | nil => cases length
        | cons second rest =>
          rw [String.intercalate_cons_cons, joined]
          simp [groupsLayout, text, String.append_assoc]

theorem filter_lookup_eq {role : Role} (found : Symbol.lookup op = some s) (plays : s.role = role) :
    (Symbol.lookup op).filter (fun s => s.role == role) = some s := by
  rw [found, Option.filter_some, plays]
  simp

theorem lookup_of_isRelation (related : Symbol.isRelation op = true) :
    ∃ s, Symbol.lookup op = some s ∧ s.role = .relation := by
  unfold Symbol.isRelation at related
  split at related
  next s found => exact ⟨s, found, eq_of_beq related⟩
  next => cases related

theorem lookup_of_asInfix (known : (Symbol.asInfix op).isSome = true) : ∃ s, Symbol.lookup op = some s := by
  unfold Symbol.asInfix at known
  split at known
  next s found => exact ⟨s, found⟩
  next => cases known

theorem name_of_lookup (found : Symbol.lookup op = some s) : s.name = op :=
  eq_of_beq (List.find?_some found :)

theorem prefixed_eq (found : Symbol.lookup op = some s)
    (operand : String) : prefixed st s operand = (Mark.prefixOp op).text st ++ operand := by
  rw [prefixed, text, prefixGap, commandOf_eq found, found, name_of_lookup found]
  by_cases minus : op == "neg"
  · simp [minus]
  · by_cases applied : s.applied = true <;> simp [minus, applied, String.append_assoc]

theorem closure_eq (found : Symbol.lookup op = some s)
    (operand : String) : closure st s operand = operand ++ (Mark.postfixOp op).text st := by
  rw [closure, text, commandOf_eq found]
  split <;> simp [String.append_assoc]

theorem scriptPart_written {e : Expr} {b : Bracket} {mark : String} (c : Context)
    (opens : b.openingText = mark ++ "\x7b") (closes : b.closingText = "\x7d")
    (written : e.isHole = false → Written st e) :
    scriptPart mark (expr st c e) e.isHole = .ok (textOf st (rowOf st (if e.isHole then []
        else [.mark (.opening b), .part false c e, .mark (.closing b)]))) := by
  unfold scriptPart
  cases missing : e.isHole with
  | true => rfl
  | false =>
    rw [written missing c]
    simp [Except.map, text, braced, opens, closes, String.append_assoc]

theorem brackets_written {kind : CollectionKind} {opening closing : String}
    (known : collectionBrackets kind = some (opening, closing)) (st : Style) :
    (Mark.opening (.ofCollection kind)).text st = opening ++ " " ∧
      (Mark.closing (.ofCollection kind)).text st = " " ++ closing ∧
      (Mark.nothing (.ofCollection kind)).text st =
        if kind == .set then opening ++ closing else opening ++ " " ++ closing := by
  cases kind <;> cases known <;> exact ⟨rfl, rfl, rfl⟩

/-! ## The text of a complete expression -/

/-- A complete expression has a formula in every vocabulary and context: the text of its marks. -/
theorem Complete.written {e : Expr} (complete : Complete e) (st : Style) : Written st e := by
  induction complete with
  | @literal kind value loc =>
    intro c
    rw [marks_eq_rowOf, expr, layout]
    cases kind == .number <;> simp [text]
  | @unary op surface operand trailing loc known _ ih =>
    intro c
    obtain ⟨s, found⟩ := Option.isSome_iff_exists.mp known
    rw [marks_eq_rowOf, expr, found]
    cases trailing with
    | true =>
      simp only [ih _, closure_eq found, bind, Except.bind, pure, Except.pure, if_true]
      simp [layout]
    | false =>
      simp only [ih _, prefixed_eq found, bind, Except.bind, pure, Except.pure, Bool.false_eq_true, if_false]
      simp [layout, found]
  | @chain op surface left relation surface' middle right breakAfter' chained' loc' breakAfter loc
      related _ _ leftWritten rightWritten =>
      intro c
      obtain ⟨s, found, plays⟩ := lookup_of_isRelation related
      rw [marks_eq_rowOf, expr, filter_lookup_eq found plays]
      simp only [leftWritten _, rightWritten _, bind, Except.bind, pure, Except.pure]
      simp [layout, text, commandOf_eq found, String.append_assoc]
  | @binary op surface left right breakAfter loc known _ _ leftWritten rightWritten =>
    intro c
    obtain ⟨s, found⟩ := lookup_of_asInfix known
    obtain ⟨⟨prec, assoc⟩, binds⟩ := Option.isSome_iff_exists.mp known
    rw [marks_eq_rowOf, expr, found, binds]
    simp only [leftWritten _, rightWritten _, bind, Except.bind, pure, Except.pure]
    simp [layout, text, breakGap, commandOf_eq found, binds, String.append_assoc]
  | @quantifier quant surface bindings constraint body loc known present bound _ _ _ domains constrained bodied =>
      intro c
      obtain ⟨s, found, plays⟩ := Option.map_eq_some_iff.mp known
      obtain ⟨groups, inGroups, _, joined⟩ := bindingGroups_written domains (c.child loc false)
      have such := optional_written (c.child loc body.isHole) .bar constrained
      have result := optional_written { c.child loc true with body := true } .spot bodied
      simp only [text] at such result
      rw [marks_eq_rowOf, expr, filter_lookup_eq found plays]
      simp only [present, Bool.false_eq_true, if_false, List.isEmpty_eq_false_iff.mpr bound, inGroups,
        such, result, joined, bind, Except.bind, pure, Except.pure]
      cases wraps : wrapsQuantifier st c <;>
        simp [layout, wraps, wrapIf, parens, text, Bracket.openingText, Bracket.closingText,
          commandOf_eq found, String.append_assoc]
  | @comprehension bindings predicate result loc bound _ _ _ domains constrained described =>
    intro c
    obtain ⟨groups, inGroups, _, joined⟩ := bindingGroups_written domains (c.child loc false)
    have such := optional_written (c.child loc result.isHole) .bar constrained
    have term := optional_written (c.child loc true) .spot described
    simp only [text] at such term
    rw [marks_eq_rowOf, expr]
    simp only [Bool.false_eq_true, if_false, List.isEmpty_eq_false_iff.mpr bound, inGroups,
      such, term, joined, bind, Except.bind, pure, Except.pure]
    simp [layout, text, Bracket.openingText, Bracket.closingText, String.append_assoc]
  | @collection kind elements loc known _ ih =>
    intro c
    obtain ⟨inner, listed, _, joined⟩ := exprs_written ih (c.child loc true)
    obtain ⟨⟨opening, closing⟩, brackets⟩ := Option.isSome_iff_exists.mp known
    obtain ⟨opens, closes, empty⟩ := brackets_written brackets st
    rw [marks_eq_rowOf, expr, brackets]
    simp only [listed, joined, bind, Except.bind, pure, Except.pure, ← empty]
    cases none : elements.isEmpty with
    | true => simp [layout, none]
    | false => simp [layout, none, opens, closes, String.append_assoc]
  | @tuple elements loc _ ih =>
    intro c
    obtain ⟨inner, listed, _, joined⟩ := exprs_written ih (c.child loc true)
    rw [marks_eq_rowOf, expr]
    simp only [listed, joined, bind, Except.bind, pure, Except.pure]
    simp [layout, parens, text, Bracket.openingText, Bracket.closingText, String.append_assoc]
  | @projection target field loc _ ih =>
    intro c
    rw [marks_eq_rowOf, expr]
    simp only [ih _, bind, Except.bind, pure, Except.pure]
    simp [layout, text, String.append_assoc]
  | @range low high loc _ _ lowWritten highWritten =>
    intro c
    rw [marks_eq_rowOf, expr]
    simp only [lowWritten _, highWritten _, bind, Except.bind, pure, Except.pure]
    simp [layout, text, String.append_assoc]
  | @conditional condition yes no loc _ _ _ conditionWritten yesWritten noWritten =>
    intro c
    rw [marks_eq_rowOf, expr]
    simp only [conditionWritten _, yesWritten _, noWritten _, bind, Except.bind, pure, Except.pure]
    simp [layout, text, String.append_assoc]
  | @application target args juxtaposed loc _ _ targetWritten argsWritten =>
    intro c
    rw [marks_eq_rowOf, expr]
    simp only [targetWritten _, bind, Except.bind, pure, Except.pure]
    split
    next arg _ =>
      simp only [argsWritten arg List.mem_cons_self _]
      simp [layout, text, String.append_assoc]
    next =>
      obtain ⟨inner, listed, _, joined⟩ := exprs_written argsWritten (c.child loc true)
      simp only [listed, joined, layout]
      simp [parens, text, Bracket.openingText, Bracket.closingText, String.append_assoc]
  | @instantiation base params loc _ _ baseWritten paramsWritten =>
    intro c
    obtain ⟨inner, listed, _, joined⟩ := exprs_written paramsWritten (c.child loc true)
    rw [marks_eq_rowOf, expr]
    simp only [baseWritten _, listed, joined, bind, Except.bind, pure, Except.pure]
    simp [layout, text, Bracket.openingText, Bracket.closingText, String.append_assoc]
  | @image relation set loc _ _ relationWritten setWritten =>
    intro c
    rw [marks_eq_rowOf, expr]
    simp only [relationWritten _, setWritten _, bind, Except.bind, pure, Except.pure]
    simp [layout, text, Bracket.openingText, Bracket.closingText, String.append_assoc]
  | @script base super sub loc _ present _ _ baseWritten superWritten subWritten =>
    intro c
    have lower := @scriptPart_written st sub .sub "_" (c.child loc true) rfl rfl subWritten
    have upper := @scriptPart_written st super .super "^" (c.child loc true) rfl rfl superWritten
    rw [marks_eq_rowOf, expr]
    simp only [present, Bool.false_eq_true, if_false, baseWritten _, lower, upper, bind, Except.bind, pure, Except.pure]
    simp [layout, String.append_assoc]

end Latex
end Whiteboard
