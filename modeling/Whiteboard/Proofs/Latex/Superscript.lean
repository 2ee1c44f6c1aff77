import Mathlib.Data.List.Basic
import Whiteboard.Proofs.Latex.Capture
import Whiteboard.Proofs.RoundTrip.Operator

namespace Whiteboard

open List hiding set
namespace Latex

/-!
# Superscripts on one base

A superscript is set on the mark before it, so two of them may not stand side by side.  Every mark that
raises something comes from the layout of a script or of a postfix operator, and the mark before it ends
the base.  So the formulas with two superscripts on one base are told from their trees.
-/

namespace Mark

/-- The mark begins a superscript on what stands before it. -/
def raises (st : Style) : Mark → Bool
  | opening .super => true
  | postfixOp op => (text st (postfixOp op)).toList.head? == some '^'
  | _ => false

/-- The mark ends a superscript. -/
def endsRaised (st : Style) : Mark → Bool
  | closing .super => true
  | postfixOp op => raises st (postfixOp op)
  | _ => false

end Mark

/-- A superscript follows another one directly. -/
def RaisedTwice (st : Style) (ms : List Mark) : Prop :=
  ∃ before m n after, ms = before ++ m :: n :: after ∧ m.endsRaised st = true ∧ n.raises st = true

/-- The marks end with a superscript. -/
def EndsRaised (st : Style) (ms : List Mark) : Prop := ms.getLast?.any (·.endsRaised st) = true

/-- An expression that sets a superscript on what ends with one: a script on a script, or a postfix operator
that is set as a superscript on an operand without parentheses. -/
inductive Stacked (st : Style) (c : Context) : Expr → Prop
  | script {nucleus power sub super loc loc'} : power.isHole = false → super.isHole = false →
      Stacked st c (.script (.script nucleus power sub loc') super .hole loc)
  | postfixed {op surface operand loc} : (Mark.postfixOp op).raises st = true →
      Precedence.postfixed ≤ precedence operand → EndsRaised st (marks st (c.child loc c.tail) operand) →
      Stacked st c (.unary op surface operand true loc)

section
variable {st : Style} {c : Context} {e : Expr} {n : Mark}

/-! ## Where the marks come from -/

/-- A mark of a row is one of its pieces or is in the row of one. -/
theorem split_rowOf {pieces : List Piece} {before after : List Mark} (row : rowOf st pieces = before ++ n :: after) :
    ∃ ps p qs b a, pieces = ps ++ p :: qs ∧ p.marks st = b ++ n :: a ∧ before = rowOf st ps ++ b ∧
      after = a ++ rowOf st qs := by
  induction pieces generalizing before with
  | nil => simp at row
  | cons p rest ih =>
    have here : p.marks st ++ rowOf st rest = before ++ n :: after := row
    rcases append_eq_append_iff.mp here with ⟨b, rfl, later⟩ | ⟨a, inside, later⟩
    · rcases ih later with ⟨ps, p', qs, b', a, rfl, inside, rfl, rfl⟩
      exact ⟨p :: ps, p', qs, b', a, rfl, inside, by simp [rowOf], rfl⟩
    · rcases cons_eq_append_iff.mp later with ⟨rfl, later'⟩ | ⟨a', rfl, rfl⟩
      · rcases ih (show rowOf st rest = [] ++ n :: after from later') with ⟨ps, p', qs, b', a, rfl, inside', none, rfl⟩
        refine ⟨p :: ps, p', qs, b', a, rfl, inside', ?_, rfl⟩
        rw [append_nil] at inside
        rw [← inside, rowOf, flatMap_cons, append_assoc, ← rowOf, ← none, append_nil]
      · exact ⟨[], p, rest, before, a', rfl, inside, rfl, rfl⟩

variable {wrap : Bool} {ms : List Mark}

theorem split_wrapMarks {b a : List Mark} (raises : n.raises st = true)
    (row : wrapMarks wrap ms = b ++ n :: a) : ∃ b' a', ms = b' ++ n :: a' ∧ b = openingMarks wrap ++ b' := by
  cases wrap with
  | false => exact ⟨b, a, row, rfl⟩
  | true =>
    rcases cons_eq_append_iff.mp row with ⟨rfl, same⟩ | ⟨b', rfl, row'⟩
    · cases same
      cases raises
    · rcases append_eq_append_iff.mp row' with ⟨_, rfl, last⟩ | ⟨a', rfl, last⟩
      · rcases singleton_eq_append_iff.mp last with ⟨rfl, same⟩ | ⟨_, none⟩
        · cases same
          cases raises
        · cases none
      · rcases cons_eq_append_iff.mp last with ⟨rfl, same⟩ | ⟨a'', rfl, _⟩
        · cases same
          cases raises
        · exact ⟨b', a'', rfl, rfl⟩

theorem Complete.part {c' : Context} {e' : Expr} (complete : Complete e)
    (member : .part wrap c' e' ∈ layout st c e) (present : e'.isHole = false) : Complete e' := by
  have inClause {lead : Mark} {e : Expr} {c : Context} (member : .part wrap c' e' ∈ clauseLayout lead c e) : e' = e :=
    eq_of_part_mem_clauseLayout member
  have inList {es : List Expr} {c : Context} (member : .part wrap c' e' ∈ listLayout c es) : e' ∈ es :=
    mem_of_part_mem_listLayout member
  have inGroups {bs : List (Binding Expr)} {c : Context} (member : .part wrap c' e' ∈ groupsLayout c bs) :
      ∃ b ∈ bs, e' = b.domain := mem_of_part_mem_groupsLayout member
  cases complete <;> simp [layout] at member <;> grind

/-- Where the raising mark of a formula stands, there is an expression in whose layout it is. -/
theorem exists_occurs_of_raises {c : Context} {e : Expr} {before after : List Mark} (complete : Complete e)
    (raises : n.raises st = true) (row : marks st c e = before ++ n :: after) :
    ∃ b c' q a ps qs, Occurs st c e b c' q a ∧ Complete q ∧ layout st c' q = ps ++ .mark n :: qs ∧
      before = b ++ rowOf st ps := by
  rw [marks_eq_rowOf] at row
  rcases split_rowOf row with ⟨ps, p, qs, b, a, laid, inside, rfl, _⟩
  cases p with
  | mark m =>
    rcases cons_eq_append_iff.mp inside with ⟨rfl, same⟩ | ⟨_, rfl, none⟩
    · cases same
      exact ⟨[], c, e, [], ps, qs, .here, complete, laid, by simp⟩
    · simp at none
  | part wrap c₁ e₁ =>
    have member : .part wrap c₁ e₁ ∈ layout st c e := by simp [laid]
    have := sizeOf_lt_of_part_mem member
    rcases split_wrapMarks raises inside with ⟨b', a', found, rfl⟩
    have present : e₁.isHole = false := by
      cases e₁ with
      | hole => simp [marks_eq_rowOf, layout] at found
      | _ => rfl
    rcases exists_occurs_of_raises (complete.part member present) raises found with
      ⟨b₂, c', q, a₂, ps', qs', occurs, inner, laid', rfl⟩
    exact ⟨_, c', q, _, ps', qs', .inside laid occurs, inner, laid', by simp⟩
termination_by sizeOf e

/-! ## Which layouts raise -/

/-- None of the marks raises anything. -/
def calm (st : Style) : List Piece → Bool
  | [] => true
  | .mark m :: rest => !m.raises st && calm st rest
  | .part .. :: rest => calm st rest

@[simp] theorem calm_append (ps qs : List Piece) : calm st (ps ++ qs) = (calm st ps && calm st qs) := by
  fun_induction calm st ps <;> simp_all [calm, Bool.and_assoc]

@[simp] theorem calm_clauseLayout (lead : Mark) (c : Context) (e : Expr) :
    calm st (clauseLayout lead c e) = (e.isHole || !lead.raises st) := by
  unfold clauseLayout
  split <;> simp_all [calm]

@[simp] theorem calm_listLayout (c : Context) (es : List Expr) : calm st (listLayout c es) = true := by
  fun_induction listLayout c es with
  | case1 | case2 => rfl
  | case3 e rest _ ih => simpa [calm, Mark.raises] using ih

@[simp] theorem calm_groupsLayout (c : Context) (bs : List (Binding Expr)) : calm st (groupsLayout c bs) = true := by
  have inNames (ns : List String) : calm st ((nameMarks ns).map .mark) = true := by
    fun_induction nameMarks ns with
    | case1 | case2 => rfl
    | case3 n rest _ ih => simpa [calm, Mark.raises] using ih
  fun_induction groupsLayout c bs with
  | case1 => rfl
  | case2 b => simp [groupLayout, inNames, Mark.raises]
  | case3 b rest _ ih => simp [groupLayout, inNames, ih, calm, Mark.raises]

/-- Scripts and postfix operators alone raise something. -/
theorem calm_layout (complete : Complete e) (plain : ∀ base super sub loc, e ≠ .script base super sub loc)
    (other : ∀ op surface operand loc, e ≠ .unary op surface operand true loc) : calm st (layout st c e) = true := by
  cases complete with
  | script => exact absurd rfl (plain _ _ _ _)
  | @literal kind => cases kind <;> rfl
  | @unary _ _ _ trailing =>
    cases trailing with
    | true => exact absurd rfl (other _ _ _ _)
    | false => simp [layout, calm, Mark.raises]
  | quantifier =>
    simp only [layout]
    split <;> simp [calm, Mark.raises]
  | @collection kind =>
    simp only [layout]
    split
    · rfl
    · cases kind <;> simp [calm, Mark.raises, Bracket.ofCollection]
  | application =>
    simp only [layout]
    split <;> simp [calm, Mark.raises]
  | _ => simp [layout, calm, Mark.raises]

/-! ## What stands before a superscript -/

theorem Complete.marks_ne_nil (complete : Complete e) : marks st c e ≠ [] := by
  rw [marks_eq_rowOf]
  cases complete with
  | quantifier | collection =>
    simp only [layout]
    split <;> simp
  | @unary _ _ _ trailing => cases trailing <;> simp [layout]
  | application =>
    simp only [layout]
    split <;> simp
  | @script _ _ sub _ _ some =>
    cases missing : sub.isHole with
    | false => simp [layout, missing]
    | true =>
      rw [missing, Bool.and_true] at some
      simp [layout, some]
  | _ => simp [layout]

/-- An atom that ends with a superscript is a script. -/
theorem script_of_endsRaised {loc : Location} (complete : Complete e) (atom : Precedence.atom ≤ precedence e)
    (ends : EndsRaised st (marks st (c.child loc false) e)) :
    ∃ nucleus power sub loc', e = .script nucleus power sub loc' ∧ power.isHole = false := by
  rw [marks_eq_rowOf, EndsRaised] at ends
  cases complete with
  | @literal kind => cases kind <;> cases ends
  | @script _ super _ _ _ some =>
    cases missing : super.isHole with
    | false => exact ⟨_, _, _, _, rfl, missing⟩
    | true =>
      rw [missing, Bool.true_and] at some
      simp [layout, some, missing, Mark.endsRaised, getLast?_cons] at ends
  | unary =>
    simp only [precedence] at atom
    split at atom
    · exact absurd atom (by decide)
    · split at atom <;> exact absurd atom (by decide)
  | chain => exact absurd atom (show ¬ Precedence.atom ≤ Precedence.relation by decide)
  | binary known =>
    rcases Option.isSome_iff_exists.mp known with ⟨⟨prec, assoc⟩, binds⟩
    have below := (leveled_of_asInfix binds).below
    rw [precedence_binary binds] at atom
    exact absurd (Int.lt_of_le_of_lt atom below) (by decide)
  | range => exact absurd atom (show ¬ Precedence.atom ≤ Precedence.range by decide)
  | conditional => exact absurd atom (show ¬ Precedence.atom ≤ Precedence.conditional by decide)
  | @application _ _ juxtaposed =>
    cases juxtaposed with
    | true => exact absurd atom (show ¬ Precedence.atom ≤ Precedence.postfixed by decide)
    | false => simp [layout, Mark.endsRaised, getLast?_cons] at ends
  | quantifier =>
    -- as a base a quantifier is in parentheses
    have wrapped : wrapsQuantifier st (c.child loc false) = true := by simp [wrapsQuantifier, Context.child]
    simp [layout, wrapped, Mark.endsRaised, getLast?_cons] at ends
  | @collection kind =>
    simp only [layout] at ends
    split at ends
    · simp [Mark.endsRaised] at ends
    · cases kind <;> simp [Bracket.ofCollection, Mark.endsRaised, getLast?_cons] at ends
  | _ => simp [layout, Mark.endsRaised, getLast?_cons] at ends

/-- A part without parentheses, if its row ends with a superscript. -/
theorem bare_of_endsRaised (ends : EndsRaised st (wrapMarks wrap ms)) : wrap = false ∧ EndsRaised st ms := by
  cases wrap with
  | false => exact ⟨rfl, ends⟩
  | true => simp [EndsRaised, wrapMarks, Mark.endsRaised, getLast?_cons] at ends

variable {ps qs : List Piece}

/-- A mark that raises something is behind the pieces that do not. -/
theorem behind_part {rest : List Piece} (laid : .part wrap c e :: rest = ps ++ .mark n :: qs) :
    ∃ ps', ps = .part wrap c e :: ps' ∧ rest = ps' ++ .mark n :: qs := by
  cases ps with
  | nil => cases laid
  | cons p ps' =>
    cases laid
    exact ⟨ps', rfl, rfl⟩

theorem behind_mark {m : Mark} {rest : List Piece} (laid : .mark m :: rest = ps ++ .mark n :: qs)
    (calm : m.raises st = false) (raises : n.raises st = true) :
    ∃ ps', ps = .mark m :: ps' ∧ rest = ps' ++ .mark n :: qs := by
  cases ps with
  | nil =>
    cases laid
    rw [raises] at calm
    cases calm
  | cons p ps' =>
    cases laid
    exact ⟨ps', rfl, rfl⟩

/-- Before the mark that raises something stands the base, and then its subscript if there is one. -/
theorem layout_script {base super sub : Expr} {loc : Location} (raises : n.raises st = true)
    (laid : layout st c (.script base super sub loc) = ps ++ .mark n :: qs) :
    super.isHole = false ∧ (sub.isHole = true ∧ ps = [.part (decide (precedence base < Precedence.atom))
        ((c.child loc false).within (decide (precedence base < Precedence.atom))) base] ∨
      ∃ ps', ps = ps' ++ [.mark (.closing .sub)]) := by
  simp only [layout] at laid
  rcases behind_part laid with ⟨ps₁, rfl, scripts⟩
  have raised {ps : List Piece} (upper : (if super.isHole then [] else [.mark (.opening .super),
      .part false (c.child loc true) super, .mark (.closing .super)]) = ps ++ .mark n :: qs) :
      super.isHole = false ∧ ps = [] := by
    split at upper
    next => simp at upper
    next present =>
      refine ⟨by simpa using present, ?_⟩
      cases ps with
      | nil => rfl
      | cons p ps =>
        rcases behind_part (cons.inj upper).2 with ⟨ps₂, rfl, last⟩
        rcases behind_mark last rfl raises with ⟨ps₃, rfl, none⟩
        simp at none
  split at scripts
  next missing => grind
  next =>
    rcases behind_mark scripts rfl raises with ⟨ps₂, rfl, lower⟩
    rcases behind_part lower with ⟨ps₃, rfl, last⟩
    rcases behind_mark last rfl raises with ⟨ps₄, rfl, upper⟩
    rcases raised upper with ⟨present, rfl⟩
    exact ⟨present, .inr ⟨[_, _, _], rfl⟩⟩

theorem endsRaised_concat (front : List Mark) : EndsRaised st (front ++ [n]) ↔ n.endsRaised st = true := by
  simp [EndsRaised]

theorem endsRaised_append (front : List Mark) (nonempty : ms ≠ []) :
    EndsRaised st (front ++ ms) ↔ EndsRaised st ms := by
  rw [EndsRaised, getLast?_append_of_ne_nil front nonempty, EndsRaised]

/-- If a superscript ends where another one begins, the expression in whose layout that is stacks them. -/
theorem stacked_of_layout (front : List Mark) (complete : Complete e) (raises : n.raises st = true)
    (laid : layout st c e = ps ++ .mark n :: qs) (ends : EndsRaised st (front ++ rowOf st ps)) : Stacked st c e := by
  -- the marks of the base are not empty, so it is they that end with the superscript
  have bare {wrap : Bool} {c' : Context} {base : Expr} (inner : Complete base)
      (ends : EndsRaised st (front ++ rowOf st [.part wrap c' base])) :
      wrap = false ∧ EndsRaised st (marks st c' base) := by
    apply bare_of_endsRaised
    rw [rowOf_part_cons, rowOf_nil, append_nil, endsRaised_append] at ends
    · exact ends
    · cases wrap <;> simp [wrapMarks, inner.marks_ne_nil]
  by_cases script : ∃ base super sub loc, e = .script base super sub loc
  · rcases script with ⟨base, super, sub, loc, rfl⟩
    rcases layout_script raises laid with ⟨present, ⟨missing, rfl⟩ | ⟨ps', rfl⟩⟩
    · cases complete with
      | script inner =>
        rcases bare inner ends with ⟨unwrapped, ends⟩
        rw [unwrapped] at ends
        rcases script_of_endsRaised inner (by simpa using unwrapped) ends with ⟨_, _, _, _, rfl, power⟩
        cases sub with
        | hole => exact .script power present
        | _ => cases missing
    · rw [rowOf_append, ← append_assoc] at ends
      exact absurd ((endsRaised_concat _).mp ends) (by simp [Mark.endsRaised])
  · by_cases trailing : ∃ op surface operand loc, e = .unary op surface operand true loc
    · rcases trailing with ⟨op, surface, operand, loc, rfl⟩
      cases complete with
      | unary _ inner =>
        simp only [layout] at laid
        rcases behind_part laid with ⟨ps', rfl, last⟩
        rcases singleton_eq_append_iff.mp last with ⟨rfl, same⟩ | ⟨_, none⟩
        · cases same
          rcases bare inner ends with ⟨unwrapped, ends⟩
          rw [unwrapped] at ends
          exact .postfixed raises (by simpa using unwrapped) (by simpa [Context.within] using ends)
        · cases none
    · have calmly : calm st (layout st c e) = true := calm_layout complete (by grind) (by grind)
      rw [laid, calm_append, calm, raises] at calmly
      simp at calmly

theorem endsRaised_script {nucleus power sub : Expr} {loc : Location} (present : power.isHole = false) (c : Context) :
    EndsRaised st (marks st c (.script nucleus power sub loc)) := by
  rw [marks_eq_rowOf]
  simp [layout, present, EndsRaised, Mark.endsRaised, getLast?_cons]

theorem raisedTwice_append (ends : EndsRaised st ms) (raises : n.raises st = true) (rest : List Mark) :
    RaisedTwice st (ms ++ n :: rest) := by
  rcases eq_nil_or_concat ms with rfl | ⟨front, m, rfl⟩
  · cases ends
  · rw [concat_eq_append] at ends ⊢
    exact ⟨front, m, n, rest, by simp, (endsRaised_concat front).mp ends, raises⟩

theorem Stacked.raisedTwice (stacked : Stacked st c e) : RaisedTwice st (marks st c e) := by
  rw [marks_eq_rowOf]
  cases stacked with
  | @script _ _ _ super loc _ present raised =>
    simpa [layout, raised, show Expr.hole.isHole = true from rfl, precedence] using
      raisedTwice_append (endsRaised_script present _) (show (Mark.opening .super).raises st = true from rfl)
        (marks st (c.child loc true) super ++ [.closing .super])
  | postfixed raises bare ends =>
    have unwrapped := decide_eq_false (Int.not_lt.mpr bare)
    simpa [layout, unwrapped, Context.within] using raisedTwice_append ends raises []

end

/-- The formula of an expression that was read has two superscripts on one base exactly if a script stands on a
script in it, or a postfix operator that is set as a superscript on an operand that ends with one. -/
theorem superscripts_stacked_iff {file : String} {toks : List Token} {e : Expr}
    (read : Expr.ofTokens file toks = .ok e) (d : Dialect) :
    e.render d = .ok (Mark.textOf d.style (marks d.style {} e)) ∧ (RaisedTwice d.style (marks d.style {} e) ↔
        ∃ before c part after, Occurs d.style {} e before c part after ∧ Stacked d.style c part) := by
  have complete := (Parse.formed_of_ofTokens read).complete
  refine ⟨complete.written d.style {}, ?_⟩
  constructor
  · rintro ⟨front, m, n, after, row, ends, raises⟩
    rw [append_cons] at row
    rcases exists_occurs_of_raises complete raises row with ⟨before, c, part, after, ps, qs, occurs, inner, laid, whole⟩
    refine ⟨before, c, part, after, occurs, stacked_of_layout before inner raises laid ?_⟩
    rw [← whole]
    exact (endsRaised_concat front).mpr ends
  · rintro ⟨before, c, part, after, occurs, stacked⟩
    rcases stacked.raisedTwice with ⟨front, m, n, rest, row, ends, raises⟩
    exact ⟨before ++ front, m, n, rest ++ after, by simp [occurs.marks_eq, row], ends, raises⟩

/-- The square of `x`. -/
def square : Expr := .script (.literal .identifier "x" {}) (.literal .number "2" {}) .hole {}

/-- The tokens of `x^2~`. -/
def invertedSquareTokens : List Token :=
  written [(.identifier, "x"), (.operator, "sup"), (.number, "2"), (.operator, "inv")]

theorem invertedSquare_raisedTwice : Expr.ofTokens "" invertedSquareTokens = .ok (.unary "inv" "inv" square true {}) ∧
      RaisedTwice Style.typeset (marks Style.typeset {} (.unary "inv" "inv" square true {})) := by
  have read : Expr.ofTokens "" invertedSquareTokens = .ok (.unary "inv" "inv" square true {}) := rfl
  refine ⟨read, (superscripts_stacked_iff read .zed).2.mpr ⟨[], {}, _, [], .here, ?_⟩⟩
  exact .postfixed (by decide) (by decide) (endsRaised_script rfl _)

/-- `x^2^3` is set with two superscripts on one base in both dialects. -/
theorem power_of_power_not_grouped :
    (({} : Options).expression "x^2^3").toOption.map (fun e => ((e.render .fuzz).toOption, (e.render .zed).toOption)) =
      some (some "x^\x7b2\x7d^\x7b3\x7d", some "x^\x7b2\x7d^\x7b3\x7d") := by
  decide +kernel

end Latex
end Whiteboard
