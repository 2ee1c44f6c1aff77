import Whiteboard.Proofs.RoundTrip.Operator

namespace Whiteboard

open List
namespace Latex

/-!
# Plain expressions read back

The tokens that write the formula of a plain expression are read as that expression, up to places,
spellings and line breaks, whatever may follow them.  The induction is on the expression; its
statement covers every vocabulary and every context in which nothing that follows is captured.
-/

open Parse

variable {env : Env} {st : Style} {c : Context} {e left right operand : Expr} {t : Token} {toks rest : List Token}
  {op : String} {prec limit : Precedence} {assoc : Assoc} {tail : Bool} {ms : List Mark}

/-! ## Runs of operators -/

/-- The tokens before `rest` are an operand or a run of operators that bind at least as tightly as
`level`: after them, reading goes on with `e` on the left. -/
def Run (env : Env) (toks rest : List Token) (level : Precedence) (e : Expr) (last : Option Expr) :
    Prop :=
  ∀ least ≤ level, ∀ v final, Reads env (.climb least e last) rest v final →
    Reads env (.binary least) (toks ++ rest) v final

theorem Run.of_operand (reads : Reads env (.operand true) (toks ++ rest) (.expr e) rest) (level : Precedence) :
    Run env toks rest level e none :=
  fun _ _ _ _ continued => .binary reads continued

/-- A run ends where a looser operator or none follows. -/
theorem Run.finish {level least : Precedence} {last : Option Expr} (run : Run env toks rest level e last)
    (follows : Follows env.final limit tail rest) (enough : limit ≤ least) (low : least ≤ level) :
    Reads env (.binary least) (toks ++ rest) (.expr e) rest :=
  run least low _ _ (.stop fun _ _ _ found => Int.lt_of_lt_of_le (follows.infixAt_lt found) enough)

theorem infixAt_operator (operator : t.kind = .operator) (value : t.value = op)
    (binds : Symbol.asInfix op = some (prec, assoc)) : env.infixAt t = some (op, prec, assoc) := by
  simp [Env.infixAt, operator, value, binds]

/-- No continuation mark is written before the first token of an operand. -/
theorem continuation_eq (visible : t.kind ≠ .newline) (other : t.isDelim "\\" = false) :
    env.continuation (t :: rest) = (false, t :: rest) := by
  simp [Env.continuation, Env.atDelim, Env.peek_cons visible, other]

/-- A run, an operator that binds at most as tightly, and an operand to its right are a run. -/
theorem Run.join {after : List Token} {u : Token} {level : Precedence} {last : Option Expr}
    (run : Run env toks (t :: u :: (after ++ rest)) level left last) (low : prec ≤ level)
    (operator : t.kind = .operator) (value : t.value = op) (binds : Symbol.asInfix op = some (prec, assoc))
    (visible : u.kind ≠ .newline) (other : u.isDelim "\\" = false)
    (reads : Reads env (.binary (rightLeast prec assoc)) (u :: (after ++ rest)) (.expr right) rest) :
    Run env (toks ++ t :: u :: after) rest prec (env.joined t op left last right false).1
      (env.joined t op left last right false).2 := by
  intro least atMost v final continued
  have opens : t.kind ≠ .newline := by simp [operator]
  have first : env.peek (t :: u :: (after ++ rest)) = t := Env.peek_cons opens _
  have next : env.continuation (env.rest (t :: u :: (after ++ rest))) = (false, u :: (after ++ rest)) := by
    rw [Env.rest_cons opens]
    exact continuation_eq visible other
  have shape : toks ++ t :: u :: after ++ rest = toks ++ (t :: u :: (after ++ rest)) := by simp
  rw [shape]
  refine run least (Int.le_trans atMost low) v final ?_
  refine @Reads.climb env least left last _ op prec assoc right rest v final ?_ atMost ?_ ?_
  · rw [first]
    exact infixAt_operator operator value binds
  · rw [next]
    exact reads
  · rw [first, next]
    exact continued

/-! ## Spelled tokens -/

theorem source_visible (m : Mark) : ∀ p ∈ m.source, p.1 ≠ .newline ∧ p.1 ≠ .endOfInput ∧ p ≠ (.delimiter, "\\") := by
  cases m with
  | opening b => cases b <;> decide
  | closing b => cases b <;> decide
  | nothing b => cases b <;> decide
  | _ => simp [Mark.source]

/-- No line end, end of input or continuation mark is among the tokens of a formula. -/
theorem Spells.visible (spelled : Spells toks ms) (member : t ∈ toks) :
    t.kind ≠ .newline ∧ t.kind ≠ .endOfInput ∧ t.isDelim "\\" = false := by
  have spelling : spellingOf t ∈ ms.flatMap Mark.source := by
    rw [← spelled]
    exact mem_map_of_mem member
  obtain ⟨m, _, inSource⟩ := mem_flatMap.mp spelling
  obtain ⟨notNewline, notEnd, other⟩ := source_visible m _ inSource
  refine ⟨notNewline, notEnd, ?_⟩
  rw [Token.isDelim, Token.is, Bool.and_eq_false_iff]
  by_cases delimiter : t.kind = .delimiter
  · apply Or.inr
    apply beq_eq_false_iff_ne.mpr
    intro value
    exact other (Prod.ext delimiter value)
  · exact Or.inl (beq_eq_false_iff_ne.mpr delimiter)

/-- The marks are written with at least one token, and the first one closes nothing. -/
def Leads (ms : List Mark) : Prop := ∃ p ps, ms.flatMap Mark.source = p :: ps ∧ (p.1 = .delimiter → p.2 ∉ closers)

theorem Leads.append (leads : Leads ms) (ns : List Mark) : Leads (ms ++ ns) := by
  obtain ⟨p, ps, first, opens⟩ := leads
  exact ⟨p, ps ++ ns.flatMap Mark.source, by simp [first], opens⟩

theorem Leads.of_mark {m : Mark} {p : Spelling} {ps : List Spelling} (first : m.source = p :: ps)
    (opens : p.1 = .delimiter → p.2 ∉ closers) (ms : List Mark) : Leads (m :: ms) :=
  ⟨p, ps ++ ms.flatMap Mark.source, by simp [first], opens⟩

theorem Leads.wrapMarks (leads : Leads ms) (wrap : Bool) : Leads (wrapMarks wrap ms) := by
  cases wrap with
  | true => exact .of_mark rfl (by decide) _
  | false => exact leads

/-- The formula of a plain expression begins with a token that closes nothing. -/
theorem Plain.leads (plain : Plain e) (st : Style) : ∀ c, Leads (marks st c e) := by
  induction plain with
  | name | number => exact fun c => by rw [marks_eq_rowOf]; exact .of_mark rfl (by simp) _
  | minus | not => exact fun c => by rw [marks_eq_rowOf]; exact .of_mark rfl (by simp) _
  | binary _ _ _ _ left _ | chain _ _ _ _ left _ | range _ _ left _ =>
    intro c
    rw [marks_eq_rowOf]
    simp only [layout, rowOf_part_cons]
    exact ((left _).wrapMarks _).append _
  | quantifier =>
    intro c
    rw [marks_eq_rowOf]
    simp only [layout]
    split
    · exact .of_mark rfl (by decide) _
    · exact .of_mark rfl (by simp) _
  | conditional => exact fun c => by rw [marks_eq_rowOf]; exact .of_mark rfl (by simp) _
  | tuple => exact fun c => by rw [marks_eq_rowOf]; exact .of_mark rfl (by decide) _
  | @collection kind elements loc known _ _ =>
    intro c
    rw [marks_eq_rowOf]
    simp only [mem_cons, not_mem_nil, or_false] at known
    simp only [layout]
    split <;> rcases known with rfl | rfl | rfl <;> exact .of_mark rfl (by decide) _

theorem Leads.spells_cons (leads : Leads ms) (spelled : Spells toks ms) :
    ∃ t rest, toks = t :: rest ∧ (t.kind = .delimiter → t.value ∉ closers) := by
  obtain ⟨p, ps, first, opens⟩ := leads
  rw [Spells, first] at spelled
  obtain ⟨t, rest, rfl, rfl, _⟩ := map_eq_cons_iff.mp spelled
  exact ⟨t, rest, rfl, opens⟩

/-! ## Expressions and their parts -/

/-- Where a quantifier may stand bare, nothing follows it. -/
def Context.Settled (c : Context) : Prop := c.parent = none ∨ c.body = true → c.tail = true

theorem Context.settled_within (settled : c.Settled) (wrap : Bool) : (c.within wrap).Settled := by
  intro bare
  have before : c.tail = true := settled bare
  simp [Context.within, before]

theorem Context.settled_child (c : Context) (loc : Location) (tail : Bool) : (c.child loc tail).Settled := by
  rintro (orphan | body)
  · cases orphan
  · cases body

/-- How tightly a part binds; parentheses make an operand of it. -/
def levelOf (wrap : Bool) (e : Expr) : Precedence := if wrap then Precedence.atom else precedence e

/-- Operators that bind more loosely than this may follow the part. -/
def limitOf (wrap : Bool) (e : Expr) : Precedence := if wrap then Precedence.atom else tightness e

/-- The operand that a relation after the part repeats. -/
def lastOf (wrap : Bool) (e : Expr) : Option Expr := if wrap then none else lastOperand e

/-- The tokens before `rest` are read as `e'`, which says the same as `e`. -/
structure Reread (env : Env) (toks rest : List Token) (wrap : Bool) (e e' : Expr) (last : Option Expr) : Prop where
  same : e'.content = e.content
  last_same : last.map Expr.content = (lastOf wrap e).map Expr.content
  run : Run env toks rest (levelOf wrap e) e' last
  operand : wrap = true ∨ joins e = false → Reads env (.operand true) (toks ++ rest) (.expr e') rest

/-- The tokens of the formula of `e` are read as what `e` says. -/
def Returns (st : Style) (e : Expr) : Prop :=
  ∀ (c : Context) (env : Env) (toks rest : List Token), c.Settled → Spells toks (marks st c e) →
    Apart toks.tail → Follows env.final (tightness e) c.tail rest →
    ∃ e' last, Reread env toks rest false e e' last

theorem Reread.of_operand {wrap : Bool} {e' : Expr} (single : wrap = true ∨ joins e = false)
    (same : e'.content = e.content) (reads : Reads env (.operand true) (toks ++ rest) (.expr e') rest) :
    Reread env toks rest wrap e e' none where
  same := same
  last_same := by
    rcases single with rfl | single
    · rfl
    · cases e <;> first | (cases wrap <;> rfl) | cases single
  run := .of_operand reads _
  operand := fun _ => reads

theorem Plain.one_le_precedence (plain : Plain e) : 1 ≤ precedence e := by
  cases plain with
  | @binary op surface left right breakAfter loc known _ _ _ =>
    obtain ⟨⟨prec, assoc⟩, binds⟩ := Option.isSome_iff_exists.mp known
    rw [precedence_binary binds]
    have above := (leveled_of_asInfix binds).above
    simp only [Precedence.conditional] at above
    lia
  | _ => simp only [precedence]; decide

/-- Tokens up to a closing bracket are read to their end. -/
theorem Returns.closed (returns : Returns st e) (plain : Plain e) (settled : c.Settled)
    (spelled : Spells toks (marks st c e)) (apart : Apart toks.tail) (follows : Follows env.final 1 c.tail rest) :
    ∃ e', e'.content = e.content ∧ Reads env (.binary 1) (toks ++ rest) (.expr e') rest := by
  have low := plain.one_le_precedence
  obtain ⟨e', last, reread⟩ := returns c env toks rest settled spelled apart
    (follows.mono (Int.le_trans low (precedence_le_tightness e)) id)
  exact ⟨e', reread.same, reread.run.finish follows (Int.le_refl 1) low⟩

/-- The elements up to a closing parenthesis are an operand. -/
theorem operand_of_elements {u : Token} {inner : List Token} {es : List Expr}
    (opens : t.kind = .delimiter ∧ t.value = "(") (closes : u.kind = .delimiter ∧ u.value = ")")
    (reads : Reads env.inside .elements (inner ++ u :: rest) (.list es) (u :: rest))
    (follows : Follows env.final limit tail rest) :
    Reads env (.operand true) (t :: (inner ++ [u]) ++ rest) (.expr (tupleOf (env.loc t) es)) rest := by
  have visible : t.kind ≠ .newline := by simp [opens.1]
  have visible' : u.kind ≠ .newline := by simp [closes.1]
  have shape : t :: (inner ++ [u]) ++ rest = t :: (inner ++ u :: rest) := by simp
  rw [shape]
  have form : env.formAt (t :: (inner ++ u :: rest)) = some .group := by
    simp [Env.formAt, Env.peek_cons visible, opens]
  have grouped := Reads.grouped form (by rw [Env.rest_cons visible]; exact reads) (atDelim_cons closes.1 closes.2)
  rw [Env.rest_cons visible', Env.peek_cons visible] at grouped
  have lead : env.leadAt (t :: (inner ++ u :: rest)) = .group := by
    simp [Env.leadAt, Env.peek_cons visible, opens, Token.isOp, Token.isDelim, Token.is]
  exact .group lead grouped (.groupAlone (follows.groupSuffixAt_eq_none true _))
    (.bare (follows.suffixAt_eq_none true _))

/-- What is read up to a closing parenthesis is an operand in parentheses. -/
theorem operand_of_group {u : Token} {inner : List Token} (opens : t.kind = .delimiter ∧ t.value = "(")
    (closes : u.kind = .delimiter ∧ u.value = ")")
    (reads : Reads env.inside (.binary 1) (inner ++ u :: rest) (.expr e) (u :: rest))
    (follows : Follows env.final limit tail rest) :
    Reads env (.operand true) (t :: (inner ++ [u]) ++ rest) (.expr e) rest :=
  operand_of_elements opens closes (.last reads (atDelim_cons_other closes.1 closes.2 (by decide))) follows

theorem Returns.grouped (returns : Returns st e) (plain : Plain e) (settled : c.Settled)
    (spelled : Spells toks (wrapMarks true (marks st c e))) (apart : Apart toks.tail)
    (follows : Follows env.final limit tail rest) :
    ∃ e', e'.content = e.content ∧ Reads env (.operand true) (toks ++ rest) (.expr e') rest := by
  obtain ⟨t, inner, u, rfl, opens, closes, spelledInner⟩ := spells_bracketed rfl spelled
  have apartInner : Apart inner := fun w member => apart w (by simp [member])
  have apartLast : Apart (u :: rest) := follows.apart.cons (apart u (by simp))
  have followsInner : Follows env.inside.final 1 c.tail (u :: rest) :=
    .of_closes apartLast (.inr ⟨closes.1, by simp [closers, closes.2]⟩) 1 c.tail
  obtain ⟨e', same, reads⟩ := returns.closed plain settled spelledInner apartInner.tail followsInner
  exact ⟨e', same, operand_of_group opens closes reads follows⟩

/-- A part is read, with or without parentheses. -/
theorem Returns.part (returns : Returns st e) (plain : Plain e) {wrap : Bool} (settled : c.Settled)
    (spelled : Spells toks (wrapMarks wrap (marks st c e))) (apart : Apart toks.tail)
    (follows : Follows env.final (limitOf wrap e) (!wrap && c.tail) rest) :
    ∃ e' last, Reread env toks rest wrap e e' last := by
  cases wrap with
  | true =>
    obtain ⟨e', same, reads⟩ := returns.grouped plain settled spelled apart follows
    exact ⟨e', none, .of_operand (.inl rfl) same reads⟩
  | false => exact returns c env toks rest settled spelled apart follows

/-- Two operands with an operator between them, each in parentheses if it needs them. -/
theorem returns_infix (returnsLeft : Returns st left) (returnsRight : Returns st right) (plainLeft : Plain left)
    (plainRight : Plain right) {gap : String} (binds : Symbol.asInfix op = some (prec, assoc))
    {leftC rightC : Context} {wrapLeft wrapRight : Bool}
    (spelled : Spells toks (wrapMarks wrapLeft (marks st leftC left) ++
      .infixOp op gap :: wrapMarks wrapRight (marks st rightC right)))
    (leftSettled : leftC.Settled) (rightSettled : rightC.Settled) (leftEnds : leftC.tail = wrapLeft)
    (rightEnds : rightC.tail = (tail || wrapRight))
    (leftFits : prec ≤ levelOf wrapLeft left ∧ prec < limitOf wrapLeft left)
    (rightFits : rightLeast prec assoc ≤ levelOf wrapRight right) (apart : Apart toks.tail)
    (follows : Follows env.final (rightLeast prec assoc) tail rest) :
    ∃ (t : Token) (left' right' : Expr) (last : Option Expr),
      left'.content = left.content ∧ right'.content = right.content ∧
      last.map Expr.content = (lastOf wrapLeft left).map Expr.content ∧
      Run env toks rest prec (env.joined t op left' last right' false).1
        (env.joined t op left' last right' false).2 := by
  obtain ⟨first, others, rfl, spelledLeft, spelledRest⟩ := spells_append spelled
  obtain ⟨t, second, rfl, operator, value, spelledRight⟩ := spells_cons rfl spelledRest
  obtain ⟨v, firstRest, nonempty, _⟩ := ((plainLeft.leads st _).wrapMarks _).spells_cons spelledLeft
  obtain ⟨u, after, rfl, _⟩ := ((plainRight.leads st _).wrapMarks _).spells_cons spelledRight
  obtain ⟨visible, _, other⟩ := spelledRight.visible mem_cons_self
  obtain ⟨apartLeft, apartRest⟩ := apart.of_tail_append (by simp [nonempty])
  have apartRight : Apart (u :: after) := apartRest.of_cons
  have limited : levelOf wrapRight right ≤ limitOf wrapRight right := by
    unfold levelOf limitOf
    split
    · exact Int.le_refl _
    · exact precedence_le_tightness right
  have followsRight : Follows env.final (limitOf wrapRight right) (!wrapRight && rightC.tail) rest := by
    refine follows.mono (Int.le_trans rightFits limited) ?_
    rw [rightEnds]
    cases tail <;> cases wrapRight <;> simp
  have followsLeft : Follows env.final (limitOf wrapLeft left) (!wrapLeft && leftC.tail)
      (t :: u :: (after ++ rest)) := by
    rw [leftEnds, Bool.not_and_self]
    refine Follows.of_operator ?_ operator (by rw [value, binds]) leftFits.2
    exact (apartRight.append follows.apart).cons (apartRest t mem_cons_self)
  obtain ⟨left', last, readLeft⟩ := returnsLeft.part plainLeft leftSettled spelledLeft apartLeft followsLeft
  obtain ⟨right', last', readRight⟩ :=
    returnsRight.part plainRight rightSettled spelledRight apartRight.tail followsRight
  refine ⟨t, left', right', last, readLeft.same, readRight.same, readLeft.last_same, ?_⟩
  exact readLeft.run.join leftFits.1 operator value binds visible other
    (readRight.run.finish follows (Int.le_refl _) rightFits)

/-! ## Names, numbers and negations -/

/-- A primary expression that is not in parentheses is an operand. -/
theorem operand_of_primary (follows : Follows env.final limit tail rest) (lead : env.leadAt (toks ++ rest) = .atom)
    (reads : Reads env .primary (toks ++ rest) (.expr e) rest) :
    Reads env (.operand true) (toks ++ rest) (.expr e) rest :=
  .atom lead reads (.bare (follows.suffixAt_eq_none true e))

theorem leadAt_atom (kind : t.kind = .identifier ∨ t.kind = .number ∨ t.kind = .keyword) :
    env.leadAt (t :: rest) = .atom := by
  have visible : t.kind ≠ .newline := by
    rcases kind with kind | kind | kind <;> simp [kind]
  rcases kind with kind | kind | kind <;>
    simp [Env.leadAt, Env.peek_cons visible, Token.isOp, Token.isDelim, Token.is, kind]

theorem splitSubscript_eq_none {value : String} (whole : value.toList.contains '_' = false) :
    splitSubscript value = none := by
  unfold splitSubscript
  split
  next c base reversed => simp_all
  next => rfl

theorem returns_name {value : String} (whole : value.toList.contains '_' = false) (st : Style)
    (loc : Location) : Returns st (.literal .identifier value loc) := by
  intro c env toks rest _ spelled _ follows
  rw [marks_eq_rowOf] at spelled
  obtain ⟨t, others, rfl, kind, named, empty⟩ := spells_cons rfl spelled
  cases spells_nil empty
  have visible : t.kind ≠ .newline := by simp [kind]
  have form : env.formAt (t :: rest) = some .name := by
    simp [Env.formAt, Env.peek_cons visible, kind]
  have read := Reads.name form
  rw [Env.peek_cons visible, Env.rest_cons visible, nameExpr, named, splitSubscript_eq_none whole] at read
  exact ⟨.literal .identifier value (env.loc t), none, .of_operand (.inr rfl) rfl
    (operand_of_primary follows (leadAt_atom (.inl kind)) read)⟩

theorem returns_number (st : Style) (value : String) (loc : Location) : Returns st (.literal .number value loc) := by
  intro c env toks rest _ spelled _ follows
  rw [marks_eq_rowOf] at spelled
  obtain ⟨t, others, rfl, kind, named, empty⟩ := spells_cons rfl spelled
  cases spells_nil empty
  have visible : t.kind ≠ .newline := by simp [kind]
  have form : env.formAt (t :: rest) = some .number := by
    simp [Env.formAt, Env.peek_cons visible, kind]
  have read := Reads.number form
  rw [Env.peek_cons visible, Env.rest_cons visible, named] at read
  exact ⟨.literal .number value (env.loc t), none, .of_operand (.inr rfl) rfl
    (operand_of_primary follows (leadAt_atom (.inr (.inl kind))) read)⟩

/-- An operand of a prefix operator without parentheses is not put together by infix operators. -/
theorem Plain.joins_eq_false (plain : Plain e) (tight : Precedence.prefixed ≤ precedence e) : joins e = false := by
  cases plain with
  | @binary op surface left right breakAfter loc known _ _ _ =>
    obtain ⟨⟨prec, assoc⟩, binds⟩ := Option.isSome_iff_exists.mp known
    rw [precedence_binary binds] at tight
    exact absurd (leveled_of_asInfix binds).below (Int.not_lt.mpr tight)
  | chain => exact absurd tight (by simp only [precedence]; decide)
  | range => exact absurd tight (by simp only [precedence]; decide)
  | _ => rfl

theorem Plain.appliesFunction_eq_false (plain : Plain e) : appliesFunction e = false := by
  cases plain <;> rfl

/-- A negation is set with its operand in parentheses if that binds more loosely. -/
theorem Plain.layout_negation (plain : Plain operand) (negation : op = "neg" ∨ op = "not") (st : Style) (c : Context)
    (surface : String) (loc : Location) :
    ∃ wrap, (wrap = false → precedence (.unary op surface operand false loc) ≤ precedence operand) ∧
      layout st c (.unary op surface operand false loc) =
        [.mark (.prefixOp op), .part wrap ((c.child loc c.tail).within wrap) operand] := by
  refine ⟨((Symbol.lookup op).map (wrapsPrefixOperand st · operand)).getD false, ?_, rfl⟩
  intro bare
  have function := plain.appliesFunction_eq_false
  rcases negation with rfl | rfl
  · have wraps : wrapsPrefixOperand st (Symbol.prefixOp "neg" [] "-") operand = false := bare
    simp only [wrapsPrefixOperand, function, Bool.or_eq_false_iff, decide_eq_false_iff_not] at wraps
    exact Int.not_lt.mp wraps.1
  · have wraps : wrapsPrefixOperand st
        (Symbol.prefixOp "not" ["not", "¬"] "\\lnot" Precedence.negation) operand = false := bare
    simp only [wrapsPrefixOperand, function, Bool.or_eq_false_iff, decide_eq_false_iff_not] at wraps
    exact Int.not_lt.mp wraps.1

/-- The operand of a negation is read as far as the negation reaches. -/
theorem Returns.negated (returns : Returns st operand) (plain : Plain operand) {surface : String} {loc : Location}
    (negation : op = "neg" ∨ op = "not") (spelled : Spells toks (marks st c (.unary op surface operand false loc)))
    (apart : Apart toks.tail)
    (follows : Follows env.final (precedence (.unary op surface operand false loc)) c.tail rest) :
    ∃ t others wrap e' last, toks = t :: others ∧ t.kind = .operator ∧ t.value = (if op == "neg" then "minus" else op) ∧
      precedence (.unary op surface operand false loc) ≤ levelOf wrap operand ∧
      Reread env others rest wrap operand e' last := by
  obtain ⟨wrap, tight, laid⟩ := plain.layout_negation negation st c surface loc
  rw [marks_eq_rowOf, laid, rowOf_mark_cons, rowOf_part_cons, rowOf_nil, append_nil] at spelled
  obtain ⟨t, others, rfl, kind, value, spelledOperand⟩ := spells_cons rfl spelled
  have below : precedence (.unary op surface operand false loc) ≤ Precedence.atom := by
    rcases negation with rfl | rfl <;> (simp only [precedence]; decide)
  have low : precedence (.unary op surface operand false loc) ≤ levelOf wrap operand := by
    cases wrap with
    | true => exact below
    | false => exact tight rfl
  have limited : precedence (.unary op surface operand false loc) ≤ limitOf wrap operand := by
    cases wrap with
    | true => exact below
    | false => exact Int.le_trans (tight rfl) (precedence_le_tightness operand)
  have followsOperand : Follows env.final (limitOf wrap operand)
      (!wrap && ((c.child loc c.tail).within wrap).tail) rest := by
    refine follows.mono limited ?_
    cases wrap <;> simp [Context.within, Context.child]
  have apartOthers : Apart others := apart
  obtain ⟨e', last, reread⟩ := returns.part plain
    (Context.settled_within (c.settled_child loc c.tail) wrap) spelledOperand apartOthers.tail
    followsOperand
  exact ⟨t, others, wrap, e', last, rfl, kind, value, low, reread⟩

theorem returns_minus (returns : Returns st operand) (plain : Plain operand) (surface : String) (loc : Location) :
    Returns st (.unary "neg" surface operand false loc) := by
  intro c env toks rest _ spelled apart follows
  obtain ⟨t, others, wrap, e', last, rfl, kind, value, low, reread⟩ :=
    returns.negated plain (.inl rfl) spelled apart follows
  have single : wrap = true ∨ joins operand = false := by
    cases wrap with
    | true => exact .inl rfl
    | false => exact .inr (plain.joins_eq_false low)
  have visible : t.kind ≠ .newline := by simp [kind]
  have lead : env.leadAt (t :: (others ++ rest)) = .minus := by
    simp [Env.leadAt, Env.peek_cons visible, Token.isOp, Token.is, kind, value]
  refine ⟨.unary "neg" t.literal e' false (env.loc t), none, .of_operand (.inr rfl) ?_ ?_⟩
  · simp [Expr.content, reread.same]
  · have read := Reads.prefixed (by rw [lead]; rfl) (by rw [Env.rest_cons visible]; exact reread.operand single)
    rw [Env.peek_cons visible] at read
    exact read

theorem returns_not (returns : Returns st operand) (plain : Plain operand) (surface : String) (loc : Location) :
    Returns st (.unary "not" surface operand false loc) := by
  intro c env toks rest _ spelled apart follows
  obtain ⟨t, others, wrap, e', last, rfl, kind, value, low, reread⟩ :=
    returns.negated plain (.inr rfl) spelled apart follows
  have visible : t.kind ≠ .newline := by simp [kind]
  have lead : env.leadAt (t :: (others ++ rest)) = .not := by
    simp [Env.leadAt, Env.peek_cons visible, Token.isOp, Token.is, kind, value]
  refine ⟨.unary "not" t.literal e' false (env.loc t), none, .of_operand (.inr rfl) ?_ ?_⟩
  · simp [Expr.content, reread.same]
  · have read := @Reads.prefixed env true _ _ _ e' rest (by rw [lead]; rfl)
      (by rw [Env.rest_cons visible]; exact reread.run.finish follows (Int.le_refl _) low)
    rw [Env.peek_cons visible] at read
    exact read

/-! ## Infix operators, chains and ranges -/

/-- A left operand ends before the operator. -/
theorem Plain.left_fits (plain : Plain e) (binds : Symbol.asInfix op = some (prec, assoc)) :
    prec ≤ levelOf (needsParens (precedence e) prec assoc false) e ∧
      prec < limitOf (needsParens (precedence e) prec assoc false) e := by
  cases bare : needsParens (precedence e) prec assoc false with
  | true =>
    have below : prec < Precedence.atom := Int.lt_trans (leveled_of_asInfix binds).below (by decide)
    exact ⟨Int.le_of_lt below, below⟩
  | false => exact plain.lt_tightness binds bare

theorem right_fits (e : Expr) (binds : Symbol.asInfix op = some (prec, assoc)) :
    rightLeast prec assoc ≤ levelOf (needsParens (precedence e) prec assoc true) e := by
  cases bare : needsParens (precedence e) prec assoc true with
  | true =>
    have below := (leveled_of_asInfix binds).below
    simp only [levelOf, Precedence.prefixed, Precedence.atom, rightLeast] at below ⊢
    split <;> lia
  | false => exact rightLeast_le_precedence bare

/-- A relation does not go on with the operand of a relation to its left. -/
theorem Plain.lastOf_eq_none (plain : Plain e) :
    lastOf (needsParens (precedence e) Precedence.relation .none false) e = none := by
  cases plain with
  | @binary op surface left right breakAfter loc known _ _ _ =>
    cases related : Symbol.isRelation op with
    | true =>
      rw [precedence_binary (asInfix_of_isRelation related)]
      rfl
    | false => simp [lastOf, lastOperand, related]
  | chain => rfl
  | _ => simp [lastOf, lastOperand]

theorem joined_binary {last : Option Expr} (notRange : op ≠ "upto")
    (alone : Symbol.isRelation op = true → last = none) :
    env.joined t op left last right false = (.binary op t.literal left right false false (env.loc t),
        if Symbol.isRelation op then some right else none) := by
  unfold Env.joined
  cases related : Symbol.isRelation op with
  | true => simp [notRange, alone related]
  | false => simp [notRange]

theorem returns_binary (returnsLeft : Returns st left) (returnsRight : Returns st right) (plainLeft : Plain left)
    (plainRight : Plain right) (binds : Symbol.asInfix op = some (prec, assoc)) (notRange : op ≠ "upto")
    (surface : String) (breakAfter : Bool) (loc : Location) :
    Returns st (.binary op surface left right breakAfter false loc) := by
  intro c env toks rest _ spelled apart follows
  rw [tightness_binary binds] at follows
  rw [marks_eq_rowOf] at spelled
  simp only [layout, binds, Option.getD_some, rowOf_part_cons, rowOf_mark_cons, rowOf_nil, append_nil] at spelled
  obtain ⟨t, left', right', last, sameLeft, sameRight, sameLast, run⟩ :=
    returns_infix returnsLeft returnsRight plainLeft plainRight binds spelled
      (Context.settled_within (c.settled_child loc false) _)
      (Context.settled_within (c.settled_child loc c.tail) _) (by simp [Context.within, Context.child])
      rfl (plainLeft.left_fits binds) (right_fits right binds) apart follows
  have alone : Symbol.isRelation op = true → last = none := by
    intro related
    rw [asInfix_of_isRelation related] at binds
    cases binds
    rw [plainLeft.lastOf_eq_none] at sameLast
    exact Option.map_eq_none_iff.mp sameLast
  rw [joined_binary notRange alone] at run
  rw [← @precedence_binary prec assoc op surface left right breakAfter loc binds] at run
  refine ⟨_, _, ?_, ?_, run, ?_⟩
  · simp [Expr.content, sameLeft, sameRight]
  · cases related : Symbol.isRelation op <;> simp [lastOf, lastOperand, related, sameRight]
  · rintro (impossible | impossible) <;> cases impossible

theorem returns_range {low high : Expr} (returnsLow : Returns st low) (returnsHigh : Returns st high)
    (plainLow : Plain low) (plainHigh : Plain high) (loc : Location) : Returns st (.range low high loc) := by
  intro c env toks rest _ spelled apart follows
  have binds : Symbol.asInfix "upto" = some (Precedence.range, .none) := rfl
  rw [marks_eq_rowOf] at spelled
  simp only [layout, rowOf_part_cons, rowOf_mark_cons, rowOf_nil, append_nil] at spelled
  obtain ⟨t, low', high', last, sameLow, sameHigh, sameLast, run⟩ :=
    returns_infix returnsLow returnsHigh plainLow plainHigh binds spelled
      (Context.settled_within (c.settled_child loc false) _)
      (Context.settled_within (c.settled_child loc c.tail) _) (by simp [Context.within, Context.child])
      rfl (plainLow.left_fits binds) (right_fits high binds) apart follows
  refine ⟨.range low' high' (env.loc t), none, ?_, rfl, run, ?_⟩
  · simp [Expr.content, sameLow, sameHigh]
  · rintro (impossible | impossible) <;> cases impossible

/-- What a relation may repeat is on the level of relations. -/
theorem Plain.level_of_lastOperand {middle : Expr} (plain : Plain e)
    (repeats : (lastOperand e).map Expr.content = some middle) :
    precedence e = Precedence.relation ∧ tightness e = rightLeast Precedence.relation .none := by
  cases plain with
  | @binary op surface left right breakAfter loc known _ _ _ =>
    cases related : Symbol.isRelation op with
    | true =>
      have binds := asInfix_of_isRelation related
      exact ⟨precedence_binary binds, tightness_binary binds⟩
    | false => simp [lastOperand, related] at repeats
  | chain => exact ⟨rfl, rfl⟩
  | _ => cases repeats

theorem returns_chain {middle : Expr} (returnsLeft : Returns st left) (returnsRight : Returns st right)
    (plainLeft : Plain left) (plainRight : Plain right) {relation : String}
    (related : Symbol.isRelation relation = true)
    (repeats : (lastOperand left).map Expr.content = some middle.content) (surface surface' : String)
    (breakAfter breakAfter' : Bool) (loc loc' : Location) :
    Returns st (.binary "and" surface left
      (.binary relation surface' middle right breakAfter' false loc') breakAfter true loc) := by
  intro c env toks rest _ spelled apart follows
  have binds := asInfix_of_isRelation related
  have notRange : relation ≠ "upto" := by
    rintro rfl
    cases related
  obtain ⟨level, tight⟩ := plainLeft.level_of_lastOperand repeats
  have fits : Precedence.relation ≤ levelOf false left ∧ Precedence.relation < limitOf false left := by
    simp only [levelOf, limitOf, Bool.false_eq_true, if_false, level, tight]
    decide
  rw [marks_eq_rowOf] at spelled
  simp only [layout, rowOf_part_cons, rowOf_mark_cons, rowOf_nil, append_nil] at spelled
  obtain ⟨t, left', right', last, sameLeft, sameRight, sameLast, run⟩ :=
    returns_infix returnsLeft returnsRight plainLeft plainRight binds spelled
      (c.settled_child loc false) (Context.settled_within (c.settled_child loc c.tail) _) rfl rfl fits
      (right_fits right binds) apart follows
  obtain ⟨middle', rfl, sameMiddle⟩ : ∃ middle', last = some middle' ∧ middle'.content = middle.content := by
    simp only [lastOf, Bool.false_eq_true, if_false, repeats] at sameLast
    exact Option.map_eq_some_iff.mp sameLast
  have joined : env.joined t relation left' (some middle') right' false =
      (.binary "and" "" left' (.binary relation t.literal middle' right' false false (env.loc t))
        false true left'.loc, some right') := by
    simp [Env.joined, notRange, related]
  rw [joined] at run
  refine ⟨_, _, ?_, ?_, run, ?_⟩
  · simp [Expr.content, sameLeft, sameMiddle, sameRight]
  · simp [lastOf, lastOperand, sameRight]
  · rintro (impossible | impossible) <;> cases impossible

end Latex
end Whiteboard
