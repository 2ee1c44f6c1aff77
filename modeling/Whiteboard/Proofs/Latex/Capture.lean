import Whiteboard.Proofs.Expr.Formed

namespace Whiteboard

open List hiding set
namespace Latex

/-!
# What follows a bare quantifier

In the conventional vocabulary a quantifier stands without parentheses where it is in tail
position.  `Occurs` finds the places of the parts of an expression in the row of its marks.  A
bare quantifier is followed by a closing bracket or by nothing, with one exception: a postfix
operator hands its own tail position on to its operand and is then set behind it.
-/

/-- The marks of parentheses around a part. -/
def openingMarks (wrap : Bool) : List Mark := if wrap then [.opening .round] else []

def closingMarks (wrap : Bool) : List Mark := if wrap then [.closing .round] else []

theorem wrapMarks_eq (wrap : Bool) (ms : List Mark) :
    wrapMarks wrap ms = openingMarks wrap ++ ms ++ closingMarks wrap := by
  cases wrap <;> simp [wrapMarks, openingMarks, closingMarks]

/-- `Occurs st c e before c' q after`: in the formula of `e` in context `c`, the expression `q` is
set in context `c'`, with the marks `before` and `after` around it. -/
inductive Occurs (st : Style) : Context → Expr → List Mark → Context → Expr → List Mark → Prop
  | here {c e} : Occurs st c e [] c e []
  | inside {c e ps wrap c' e' qs before c'' q after} : layout st c e = ps ++ .part wrap c' e' :: qs →
      Occurs st c' e' before c'' q after →
      Occurs st c e (rowOf st ps ++ openingMarks wrap ++ before) c'' q (after ++ closingMarks wrap ++ rowOf st qs)

variable {c' : Context}

theorem Occurs.marks_eq {st : Style} {c : Context} {e q : Expr} {before after : List Mark}
    (occurs : Occurs st c e before c' q after) :
    marks st c e = before ++ marks st c' q ++ after := by
  induction occurs with
  | here => simp
  | inside laid _ ih =>
    rw [marks_eq_rowOf, laid, rowOf_append, rowOf_part_cons, wrapMarks_eq, ih]
    simp

/-- Nothing goes on before the next closing bracket. -/
def Enclosed : List Mark → Prop
  | [] => True
  | .closing _ :: _ => True
  | _ => False

/-! ## Tail positions in a layout -/

/-- Every part without parentheses in tail position is followed by a closing bracket; at the end of
the pieces it may stand if `atEnd` holds. -/
def Tails (atEnd : Prop) : List Piece → Prop
  | [] => True
  | .mark _ :: rest => Tails atEnd rest
  | .part wrap c _ :: rest =>
    c.parent.isSome = true ∧
    (wrap = false → c.tail = true → match rest with
      | [] => atEnd
      | .mark (.closing _) :: _ => True
      | _ => False) ∧ Tails atEnd rest

/-- No part without parentheses is in tail position. -/
def NoTail (ps : List Piece) : Prop :=
  ∀ wrap c e, .part wrap c e ∈ ps → c.parent.isSome = true ∧ (wrap = false → c.tail = false)

variable {atEnd : Prop} {ps qs : List Piece}

theorem Tails.append (none : NoTail ps) (tails : Tails atEnd qs) : Tails atEnd (ps ++ qs) := by
  induction ps with
  | nil => exact tails
  | cons p rest ih =>
    have later := ih fun wrap c e member => none wrap c e (mem_cons_of_mem p member)
    cases p with
    | mark m => exact later
    | part wrap c e =>
      obtain ⟨parent, notTail⟩ := none wrap c e mem_cons_self
      refine ⟨parent, ?_, later⟩
      intro bare tail
      rw [notTail bare] at tail
      cases tail

section
variable {c : Context} (parent : c.parent.isSome = true)
include parent

theorem noTail_clauseLayout {lead : Mark} {e : Expr} (tail : c.tail = false) : NoTail (clauseLayout lead c e) := by
  intro wrap c' e' member
  unfold clauseLayout at member
  split at member
  · cases member
  · grind

theorem noTail_groupsLayout {bs : List (Binding Expr)} (tail : c.tail = false) : NoTail (groupsLayout c bs) := by
  have inGroup (b : Binding Expr) : NoTail (groupLayout c b) := by
    intro wrap c' e' member
    rcases mem_append.mp member with named | typed
    · simp at named
    · exact noTail_clauseLayout parent tail wrap c' e' typed
  fun_induction groupsLayout c bs with
  | case1 => exact fun _ _ _ member => absurd member not_mem_nil
  | case2 b => exact inGroup b
  | case3 b rest _ ih =>
    intro wrap c' e' member
    rcases mem_append.mp member with first | later
    · exact inGroup b wrap c' e' first
    · simp only [mem_cons, reduceCtorEq, false_or] at later
      exact ih wrap c' e' later

/-- Elements are followed by a closing bracket. -/
theorem tails_listLayout {es : List Expr} {b : Bracket} : Tails atEnd (listLayout c es ++ [.mark (.closing b)]) := by
  fun_induction listLayout c es with
  | case1 => trivial
  | case2 e => exact ⟨parent, fun _ _ => trivial, trivial⟩
  | case3 e rest _ ih => exact ⟨parent, fun _ tail => (by cases tail), ih⟩

end

theorem Tails.mark {m : Mark} {rest : List Piece} (tails : Tails atEnd rest) : Tails atEnd (.mark m :: rest) := tails

variable {wrap : Bool}

/-- A last part may be in tail position where its node is. -/
theorem tails_last {c : Context} {e : Expr} (parent : c'.parent.isSome = true)
    (handed : c'.tail = (c.tail || wrap)) : Tails (c.tail = true ∨ c.parent = none) [.part wrap c' e] := by
  refine ⟨parent, ?_, trivial⟩
  intro bare tail
  rw [handed, bare, Bool.or_false] at tail
  exact .inl tail

/-- Other parts are not. -/
theorem Tails.cons {c : Context} {e : Expr} {rest : List Piece}
    (parent : c.parent.isSome = true) (handed : c.tail = wrap) (tails : Tails atEnd rest) :
    Tails atEnd (.part wrap c e :: rest) := by
  refine ⟨parent, ?_, tails⟩
  intro bare tail
  rw [handed, bare] at tail
  cases tail

/-- Two clauses, of which the last one given is in tail position, before what any part may stand
before. -/
theorem tails_clauses {c : Context} {loc : Location} {such said : Expr}
    {rest : List Piece} (parent : c'.parent.isSome = true)
    (last : ∀ (c'' : Context) (e : Expr), c''.parent.isSome = true →
      Tails atEnd (.part false c'' e :: rest)) (tails : Tails atEnd rest) :
    Tails atEnd (clauseLayout .bar (c.child loc said.isHole) such ++ (clauseLayout .spot c' said ++ rest)) := by
  cases missing : said.isHole with
  | true =>
    simp only [clauseLayout, missing, if_true, nil_append]
    split
    · exact tails
    · exact .mark (last (c.child loc true) such rfl)
  | false =>
    refine .append (noTail_clauseLayout rfl rfl) ?_
    simp only [clauseLayout, missing, Bool.false_eq_true, if_false]
    exact .mark (last c' said parent)

/-- Tail position is handed down to the last part only, except by postfix operators. -/
theorem tails_layout (c : Context) {e : Expr}
    (other : ∀ op surface operand loc, e ≠ .unary op surface operand true loc) :
    Tails (c.tail = true ∨ c.parent = none) (layout Style.typeset c e) := by
  cases e with
  | hole => trivial
  | literal kind value loc => trivial
  | unary op surface operand trailing loc =>
    cases trailing with
    | true => exact absurd rfl (other op surface operand loc)
    | false =>
      simp only [layout]
      exact .mark (tails_last rfl rfl)
  | binary op surface left right breakAfter chained loc =>
    cases chained with
    | false =>
      simp only [layout]
      exact .cons rfl (Bool.false_or _) (.mark (tails_last rfl rfl))
    | true =>
      cases right with
      | binary =>
        simp only [layout]
        exact .cons rfl rfl (.mark (tails_last rfl rfl))
      | _ => trivial
  | quantifier quant surface bs constraint body loc =>
    have groups : NoTail (groupsLayout (c.child loc false) bs) := noTail_groupsLayout rfl rfl
    simp only [layout]
    split
    next =>
      simp only [cons_append, append_assoc]
      exact .mark (.mark (.append groups
        (tails_clauses rfl (fun _ _ parent => ⟨parent, fun _ _ => trivial, trivial⟩) trivial)))
    next bare =>
      have free : c.tail = true ∨ c.parent = none := by
        simp only [wrapsQuantifier, Style.typeset, if_true, Bool.and_eq_true, not_and] at bare
        cases orphan : c.parent with
        | none => exact .inr rfl
        | some loc => exact .inl (by simpa [orphan] using bare)
      rw [← append_nil (_ ++ clauseLayout .spot _ _)]
      simp only [cons_append, append_assoc]
      exact .mark (.append groups (tails_clauses rfl (fun _ _ parent => ⟨parent, fun _ _ => free, trivial⟩) trivial))
  | comprehension bs predicate result loc =>
    have groups : NoTail (groupsLayout (c.child loc false) bs) := noTail_groupsLayout rfl rfl
    simp only [layout, cons_append, append_assoc]
    exact .mark (.append groups (tails_clauses rfl (fun _ _ parent => ⟨parent, fun _ _ => trivial, trivial⟩) trivial))
  | collection kind elements loc =>
    simp only [layout]
    split
    · trivial
    · exact tails_listLayout rfl
  | tuple elements loc => exact tails_listLayout rfl
  | projection target field loc =>
    simp only [layout]
    exact .cons rfl (Bool.false_or _) trivial
  | range low high loc =>
    simp only [layout]
    exact .cons rfl (Bool.false_or _) (.mark (tails_last rfl rfl))
  | conditional condition yes no loc =>
    simp only [layout]
    exact .mark (.cons rfl rfl (.mark (.cons rfl rfl (.mark (tails_last rfl (Bool.or_false _).symm)))))
  | application target args juxtaposed loc =>
    simp only [layout]
    split
    · exact .cons rfl (Bool.false_or _) (.mark (tails_last rfl rfl))
    · exact .cons rfl (Bool.false_or _) (tails_listLayout rfl)
  | instantiation base params loc =>
    simp only [layout]
    exact .cons rfl (Bool.false_or _) (tails_listLayout rfl)
  | image relation set loc =>
    simp only [layout]
    exact .cons rfl (Bool.false_or _) ⟨rfl, fun _ _ => trivial, trivial⟩
  | script base super sub loc =>
    simp only [layout]
    refine .cons rfl (Bool.false_or _) ?_
    split <;> split <;> simp [Tails, Context.child]

/-- What may follow a part in tail position in the layout of a node. -/
theorem Tails.after {c : Context} {e : Expr} (tails : Tails atEnd (ps ++ .part wrap c e :: qs)) :
    c.parent.isSome = true ∧
      (wrap = false → c.tail = true → (qs = [] ∧ atEnd) ∨ ∃ b rest, qs = .mark (.closing b) :: rest) := by
  induction ps with
  | nil =>
    obtain ⟨parent, ends, _⟩ := tails
    refine ⟨parent, ?_⟩
    intro bare tail
    have follows := ends bare tail
    match qs, follows with
    | [], last => exact .inl ⟨rfl, last⟩
    | .mark (.closing b) :: rest, _ => exact .inr ⟨b, rest, rfl⟩
  | cons p rest ih =>
    cases p with
    | mark m => exact ih tails
    | part wrap' c' e' => exact ih tails.2.2

/-! ## Bare quantifiers -/

/-- A quantifier is bare if its formula begins with its symbol. -/
theorem bare_iff {st : Style} {c : Context} {quant surface : String} {bs : List (Binding Expr)}
    {constraint body : Expr} {loc : Location} :
    (marks st c (.quantifier quant surface bs constraint body loc)).head? = some (.binder quant) ↔
      wrapsQuantifier st c = false := by
  rw [marks_eq_rowOf]
  simp only [layout]
  cases wrapsQuantifier st c <;> simp

/-- A postfix operator in the formula of `e` whose operand ends in `q`. -/
def EndsOperand (c : Context) (e : Expr) (before : List Mark) (c' : Context) (q : Expr) (after : List Mark) : Prop :=
  ∃ c₀ op surface operand loc before₀ before₁ rest,
    Occurs Style.typeset c e before₀ c₀ (.unary op surface operand true loc) rest ∧
    Occurs Style.typeset c₀ (.unary op surface operand true loc) before₁ c' q [.postfixOp op] ∧
    before = before₀ ++ before₁ ∧ after = .postfixOp op :: rest

theorem EndsOperand.inside {c c₁ : Context} {e e₁ q : Expr} {before after : List Mark}
    (laid : layout Style.typeset c e = ps ++ .part wrap c₁ e₁ :: qs)
    (ends : EndsOperand c₁ e₁ before c' q after) :
    EndsOperand c e (rowOf Style.typeset ps ++ openingMarks wrap ++ before) c' q
      (after ++ closingMarks wrap ++ rowOf Style.typeset qs) := by
  obtain ⟨c₀, op, surface, operand, loc, before₀, before₁, rest, outer, inner, rfl, rfl⟩ := ends
  exact ⟨c₀, op, surface, operand, loc, _, before₁, _, .inside laid outer, inner, by simp, by simp⟩

theorem Enclosed.append {ms : List Mark} (enclosed : Enclosed ms) (nonempty : ms ≠ []) (ns : List Mark) :
    Enclosed (ms ++ ns) ∧ ms ++ ns ≠ [] := by
  refine ⟨?_, by simp [nonempty]⟩
  match ms, enclosed with
  | [], _ => exact absurd rfl nonempty
  | .closing _ :: _, _ => trivial

/-- The parts of a postfix operator: its operand, with the operator behind it. -/
theorem layout_postfix {st : Style} {c : Context} {op surface : String} {operand e : Expr} {loc : Location}
    (laid : layout st c (.unary op surface operand true loc) = ps ++ .part wrap c' e :: qs) :
    ps = [] ∧ c'.parent.isSome = true ∧ qs = [.mark (.postfixOp op)] := by
  simp only [layout] at laid
  cases ps with
  | nil =>
    obtain ⟨first, others⟩ := List.cons.inj laid
    cases first
    exact ⟨rfl, rfl, others.symm⟩
  | cons p rest =>
    cases rest with
    | nil => cases laid
    | cons p' rest' =>
      have length := congrArg List.length laid
      simp at length

/-- An expression in tail position is followed by nothing, by a closing bracket, or by a postfix
operator whose operand it ends. -/
theorem Occurs.followed {c : Context} {e q : Expr} {before after : List Mark}
    (occurs : Occurs Style.typeset c e before c' q after) (free : c'.tail = true ∨ c'.parent = none) :
    (after = [] ∧ (c.tail = true ∨ c.parent = none)) ∨ (Enclosed after ∧ after ≠ []) ∨
      EndsOperand c e before c' q after := by
  induction occurs with
  | here => exact .inl ⟨rfl, free⟩
  | @inside c e ps wrap c₁ e₁ qs before c' q after laid occurs ih =>
    rcases ih free with ⟨rfl, freed⟩ | ⟨enclosed, nonempty⟩ | ends
    · cases wrap with
      | true => exact .inr (.inl ⟨trivial, by simp [closingMarks]⟩)
      | false =>
        by_cases trailing : ∃ op surface operand loc, e = .unary op surface operand true loc
        · obtain ⟨op, surface, operand, loc, rfl⟩ := trailing
          obtain ⟨rfl, _, rfl⟩ := layout_postfix laid
          exact .inr (.inr ⟨c, op, surface, operand, loc, [], before, [], .here, .inside laid occurs,
            by simp [openingMarks], rfl⟩)
        · obtain ⟨parent, ends⟩ := (laid ▸ tails_layout c (by grind) : Tails _ (ps ++ _)).after
          have tail : c₁.tail = true := by grind
          rcases ends rfl tail with ⟨rfl, atEnd⟩ | ⟨b, rest, rfl⟩
          · exact .inl ⟨rfl, atEnd⟩
          · exact .inr (.inl ⟨trivial, by simp⟩)
    · rw [append_assoc]
      exact .inr (.inl (enclosed.append nonempty _))
    · exact .inr (.inr (ends.inside laid))

/-- In the formula of an expression that was read, in the conventional vocabulary, something of the
expression around it follows a bare quantifier before the next closing bracket exactly if the
quantifier ends the operand of a postfix operator, and then the first thing is that operator. -/
theorem bare_quantifier_captures_iff {file : String} {toks : List Token} {e : Expr} {c : Context}
    {quant surface : String} {bs : List (Binding Expr)} {constraint body : Expr} {loc : Location}
    {before after : List Mark} (read : Expr.ofTokens file toks = .ok e)
    (occurs : Occurs Style.typeset {} e before c (.quantifier quant surface bs constraint body loc) after)
    (bare : (marks Style.typeset c (.quantifier quant surface bs constraint body loc)).head? = some (.binder quant)) :
    e.render .zed = .ok (Mark.textOf Style.typeset before ++ Mark.textOf Style.typeset (marks Style.typeset c
          (.quantifier quant surface bs constraint body loc)) ++
        Mark.textOf Style.typeset after) ∧
      (¬ Enclosed after ↔ EndsOperand {} e before c (.quantifier quant surface bs constraint body loc) after) := by
  constructor
  · rw [← Mark.textOf_append, ← Mark.textOf_append, ← occurs.marks_eq]
    exact (Parse.formed_of_ofTokens read).complete.written Style.typeset {}
  · have free : c.tail = true ∨ c.parent = none := by
      have unwrapped := bare_iff.mp bare
      simp only [wrapsQuantifier, Style.typeset, if_true, Bool.and_eq_false_iff] at unwrapped
      cases orphan : c.parent with
      | none => exact .inr rfl
      | some loc => exact .inl (by simpa [orphan] using unwrapped)
    constructor
    · intro captured
      rcases occurs.followed free with ⟨rfl, _⟩ | ⟨enclosed, _⟩ | ends
      · exact absurd trivial captured
      · exact absurd enclosed captured
      · exact ends
    · rintro ⟨_, op, _, _, _, _, _, rest, _, _, _, rfl⟩ enclosed
      exact enclosed

/-- The tokens of `(lambda x : N . x)~`. -/
def invertedLambdaTokens : List Token :=
  written [(.delimiter, "("), (.keyword, "lambda"), (.identifier, "x"), (.delimiter, ":"),
    (.identifier, "N"), (.delimiter, "."), (.identifier, "x"), (.delimiter, ")"), (.operator, "inv")]

def identityLambda : Expr :=
  .quantifier "lambda" "lambda" [⟨["x"], .literal .identifier "N" {}, {}⟩] .hole (.literal .identifier "x" {}) {}

/-- The context in which the operand of a postfix operator is set at the top. -/
def operandContext : Context := { parent := some {} }

theorem identityLambda_occurs : Occurs Style.typeset {} (.unary "inv" "inv" identityLambda true {}) []
    operandContext identityLambda [.postfixOp "inv"] := by
  have laid : layout Style.typeset {} (.unary "inv" "inv" identityLambda true {}) =
      [] ++ .part false operandContext identityLambda :: [.mark (.postfixOp "inv")] := rfl
  exact .inside laid .here

theorem identityLambda_captures_inverse :
    Expr.ofTokens "" invertedLambdaTokens = .ok (.unary "inv" "inv" identityLambda true {}) ∧
      ¬ Enclosed [.postfixOp "inv"] ∧
      EndsOperand {} (.unary "inv" "inv" identityLambda true {}) [] operandContext identityLambda
        [.postfixOp "inv"] := by
  have read : Expr.ofTokens "" invertedLambdaTokens = .ok (.unary "inv" "inv" identityLambda true {}) := rfl
  have bare : (marks Style.typeset operandContext identityLambda).head? = some (.binder "lambda") := bare_iff.mpr rfl
  have captured : ¬ Enclosed [.postfixOp "inv"] := id
  exact ⟨read, captured, (bare_quantifier_captures_iff read identityLambda_occurs bare).2.mp captured⟩

/-- `(lambda x : N . x)~` is set as the function that maps `x` to its inverse. -/
theorem inverse_set_inside_lambda : (Expr.ofTokens "" invertedLambdaTokens).bind (Expr.render .zed) =
      .ok "\\lambda x : \\mathbb\x7bN\x7d \\spot x^\x7b\\sim\x7d" := by
  rfl

end Latex
end Whiteboard
