import Whiteboard.Proofs.Expr.Adequacy
import Whiteboard.Proofs.Latex.Text
import Whiteboard.Proofs.RoundTrip.Form

namespace Whiteboard

open List
namespace Latex

/-!
# Quantifiers read back, and the round trip

A quantifier takes in all that follows it.  It is set bare only where nothing follows before the
next closing bracket, in either vocabulary, and in parentheses elsewhere, so its body ends where
the formula of the quantifier does.
-/

open Parse

/-! ## Bound variables -/

theorem reads_names {names : List String} {toks rest : List Token} {nested : Bool} {u : Token}
    (spelled : Spells toks (nameMarks names)) (nonempty : names ≠ []) (visible : u.kind ≠ .newline)
    (noComma : u.isDelim "," = false) :
    ∃ t others, toks = t :: others ∧ t.kind = .identifier ∧
      names = nameOf t :: (moreNames nested (others ++ u :: rest)).1 ∧
      (moreNames nested (others ++ u :: rest)).2 = u :: rest := by
  fun_induction nameMarks names generalizing toks with
  | case1 => exact absurd rfl nonempty
  | case2 n =>
    obtain ⟨t, others, rfl, kind, value, empty⟩ := spells_cons rfl spelled
    cases spells_nil empty
    refine ⟨t, [], rfl, kind, ?_, ?_⟩
    · cases rest <;> simp [moreNames, visible, noComma, nameOf, kind, value]
    · cases rest <;> simp [moreNames, visible, noComma]
  | case3 n others notEmpty ih =>
    obtain ⟨t, following, rfl, kind, value, spelledRest⟩ := spells_cons rfl spelled
    obtain ⟨comma, second, rfl, kind', value', spelledSecond⟩ := spells_cons rfl spelledRest
    obtain ⟨t', after, rfl, kind'', named, left⟩ := ih spelledSecond notEmpty
    have separates : comma.isDelim "," = true := by
      simp [Token.isDelim, Token.is, kind', value']
    have notNewline : (comma.kind == .newline) = false := by simp [kind']
    have more : moreNames nested (comma :: t' :: (after ++ u :: rest)) =
        (nameOf t' :: (moreNames nested (after ++ u :: rest)).1, (moreNames nested (after ++ u :: rest)).2) := by
      rw [moreNames]
      simp [notNewline, separates, isNameToken, kind'']
    refine ⟨t, comma :: t' :: after, rfl, kind, ?_, ?_⟩
    · rw [cons_append, cons_append, more, ← named]
      simp [nameOf, kind, value]
    · rw [cons_append, cons_append, more]
      exact left

theorem eq_hole_of_isHole {e : Expr} (missing : e.isHole = true) : e = .hole := by
  cases e <;> first | rfl | cases missing

/-- What may follow a group of variables: the next group, or what is said of the variables. -/
def AfterGroup (u : Token) : Prop := u.kind = .delimiter ∧ u.value ∈ [";", "|", "@"]

theorem AfterGroup.isDelim_eq_false {u : Token} (after : AfterGroup u) {value : String}
    (other : value ∉ [";", "|", "@"]) : u.isDelim value = false := by
  simp only [Token.isDelim, Token.is, after.1, beq_self_eq_true, Bool.true_and, beq_eq_false_iff_ne, ne_eq]
  rintro rfl
  exact other after.2

/-- A clause is read, and its tokens begin with its mark unless it is left out. -/
theorem reads_clause {st : Style} {c : Context} {e : Expr} {lead : Mark} {value : String}
    (marked : lead.source = [(.delimiter, value)]) (returns : e.isHole = false → Returns st e)
    (plain : e.isHole = false → Plain e) (settled : c.Settled) {env : Env} {toks rest : List Token}
    (spelled : Spells toks (rowOf st (clauseLayout lead c e))) (apart : Apart toks)
    (follows : Follows env.final 1 c.tail rest) :
    ∃ e', e'.content = e.content ∧
      (e.isHole = true ∧ toks = [] ∨
        e.isHole = false ∧ ∃ u inner, toks = u :: inner ∧ u.kind = .delimiter ∧ u.value = value) ∧
      Reads env (.clause (!e.isHole) .expr) (toks ++ rest) (.expr e') rest := by
  unfold clauseLayout at spelled
  cases missing : e.isHole with
  | true =>
    simp only [missing, if_true, rowOf_nil] at spelled
    cases spells_nil spelled
    exact ⟨.hole, by rw [eq_hole_of_isHole missing], .inl ⟨rfl, rfl⟩, .absent⟩
  | false =>
    simp only [missing, Bool.false_eq_true, if_false, rowOf_mark_cons, rowOf_part_cons, wrapMarks_false, rowOf_nil,
      append_nil] at spelled
    obtain ⟨u, inner, rfl, kind, same, spelledInner⟩ := spells_cons marked spelled
    obtain ⟨e', content, reads⟩ := (returns missing).closed (plain missing) settled spelledInner apart.of_cons.tail
      follows
    refine ⟨e', content, .inr ⟨rfl, u, inner, rfl, kind, same⟩, .present ?_⟩
    rw [cons_append, Env.rest_cons (by simp [kind])]
    exact reads

theorem reads_group {st : Style} {b : Binding Expr} (named : b.names ≠ [])
    (returns : b.domain.isHole = false → Returns st b.domain)
    (plain : b.domain.isHole = false → Plain b.domain) {c : Context} {loc : Location} (env : Env)
    {toks rest : List Token} {u : Token}
    (spelled : Spells toks (rowOf st (groupLayout (c.child loc false) b))) (apart : Apart toks)
    (apartRest : Apart (u :: rest)) (after : AfterGroup u) :
    ∃ b' : Binding Expr, b'.names = b.names ∧ b'.domain.content = b.domain.content ∧ ∀ gs rest',
      Reads env (.clause (u.isDelim ";") .groups) (u :: rest) (.groups gs) rest' →
      Reads env .bindings (toks ++ u :: rest) (.groups (b' :: gs)) rest' := by
  simp only [groupLayout, rowOf_append, rowOf_map_mark] at spelled
  obtain ⟨first, second, rfl, spelledNames, spelledDomain⟩ := spells_append spelled
  have visible : u.kind ≠ .newline := by simp [after.1]
  have follows : Follows (env.withProduct true).final 1 false (u :: rest) := by
    refine .of_separator apartRest after.1 ?_ 1
    have listed := after.2
    simp only [mem_cons, not_mem_nil, or_false] at listed
    rcases listed with same | same | same <;> simp [separators, same]
  obtain ⟨domain', same, shape, reads⟩ := reads_clause rfl returns plain (c.settled_child loc false) spelledDomain
    (fun w member => apart w (by simp [member])) follows
  -- the token behind the names
  obtain ⟨v, more, begins, visible', noComma, typed⟩ : ∃ v more, second ++ u :: rest = v :: more ∧
      v.kind ≠ .newline ∧ v.isDelim "," = false ∧ env.atDelim ":" (v :: more) = !b.domain.isHole := by
    rcases shape with ⟨missing, rfl⟩ | ⟨given, v, domain, rfl, kind, value⟩
    · refine ⟨u, rest, rfl, visible, after.isDelim_eq_false (by decide), ?_⟩
      rw [missing, Env.atDelim, Env.peek_cons visible]
      exact after.isDelim_eq_false (by decide)
    · refine ⟨v, _, rfl, by simp [kind], by simp [Token.isDelim, Token.is, value], ?_⟩
      rw [given]
      exact atDelim_cons kind value
  obtain ⟨t, others, rfl, kind, names, left⟩ :=
    @reads_names _ _ more env.nested v spelledNames named visible' noComma
  rw [← begins] at names left typed
  rw [← typed] at reads
  have identifies : isNameToken t = true := by simp [isNameToken, kind]
  have visible'' : t.kind ≠ .newline := by simp [kind]
  have shape' : t :: others ++ second ++ u :: rest = t :: (others ++ (second ++ u :: rest)) := by simp
  refine ⟨⟨b.names, domain', env.loc t⟩, rfl, same, fun gs rest' more => ?_⟩
  have read := @Reads.groups env (t :: (others ++ (second ++ u :: rest)))
    (moreNames env.nested (others ++ (second ++ u :: rest))).1 domain' gs (second ++ u :: rest) (u :: rest) rest'
    (by rw [Env.peek_cons visible'']; exact identifies) (by rw [Env.rest_cons visible'']; exact Prod.ext rfl left) reads
    (by simpa [Env.atDelim, Env.peek_cons visible, @AfterGroup.isDelim_eq_false u after "," (by decide)] using more)
  rw [Env.peek_cons visible'', ← names] at read
  rw [shape']
  exact read

theorem reads_groups {st : Style} {bs : List (Binding Expr)} (nonempty : bs ≠ [])
    (named : ∀ b ∈ bs, b.names ≠ []) (returns : ∀ b ∈ bs, b.domain.isHole = false → Returns st b.domain)
    (plain : ∀ b ∈ bs, b.domain.isHole = false → Plain b.domain) {c : Context} {loc : Location}
    {env : Env} {toks rest : List Token} {u : Token}
    (spelled : Spells toks (rowOf st (groupsLayout (c.child loc false) bs))) (apart : Apart toks)
    (apartRest : Apart (u :: rest)) (kind : u.kind = .delimiter) (value : u.value ∈ ["|", "@"]) :
    ∃ bs', Expr.groupContents bs' = Expr.groupContents bs ∧
      Reads env .bindings (toks ++ u :: rest) (.groups bs') (u :: rest) := by
  have after : AfterGroup u := ⟨kind, mem_cons_of_mem _ value⟩
  have notSemicolon : u.isDelim ";" = false := by
    simp only [Token.isDelim, Token.is, kind, beq_self_eq_true, Bool.true_and, beq_eq_false_iff_ne, ne_eq]
    intro same
    rw [same] at value
    exact absurd value (by decide)
  induction bs generalizing toks with
  | nil => exact absurd rfl nonempty
  | cons b others ih =>
    have namedFirst := named b mem_cons_self
    have returnsFirst := returns b mem_cons_self
    have plainFirst := plain b mem_cons_self
    cases others with
    | nil =>
      obtain ⟨b', names, same, reads⟩ :=
        reads_group namedFirst returnsFirst plainFirst env spelled apart apartRest after
      refine ⟨[b'], by simp [Expr.groupContents, names, same], reads _ _ ?_⟩
      rw [notSemicolon]
      exact .absent
    | cons next more =>
      simp only [groupsLayout, rowOf_append, rowOf_mark_cons] at spelled
      obtain ⟨first, others, rfl, spelledFirst, spelledRest⟩ := spells_append spelled
      obtain ⟨v, second, rfl, kind', value', spelledSecond⟩ := spells_cons rfl spelledRest
      have apartFirst : Apart first := fun w member => apart w (by simp [member])
      have apartSecond : Apart second := fun w member => apart w (by simp [member])
      have apartRest' : Apart (v :: (second ++ u :: rest)) := (apartSecond.append apartRest).cons (apart v (by simp))
      obtain ⟨b', names, same, reads⟩ := reads_group namedFirst returnsFirst plainFirst env spelledFirst apartFirst
        apartRest' ⟨kind', by simp [value']⟩
      obtain ⟨bs', sames, readsRest⟩ := ih (by simp) (fun b member => named b (mem_cons_of_mem _ member))
        (fun b member => returns b (mem_cons_of_mem _ member))
        (fun b member => plain b (mem_cons_of_mem _ member)) spelledSecond apartSecond
      have visible : v.kind ≠ .newline := by simp [kind']
      have semicolon : v.isDelim ";" = true := by simp [Token.isDelim, Token.is, kind', value']
      have shape : first ++ v :: second ++ u :: rest = first ++ v :: (second ++ u :: rest) := by simp
      refine ⟨b' :: bs', by simp [Expr.groupContents, names, same, sames], ?_⟩
      rw [shape]
      refine reads _ _ ?_
      rw [semicolon]
      refine .present ?_
      rw [Env.rest_cons visible]
      exact readsRest

/-! ## Quantifiers -/

theorem isSpot_cons {env : Env} {u : Token} {rest : List Token}
    (spot : u.kind = .delimiter ∧ u.value = "@") : isSpot (env.peek (u :: rest)) = true := by
  have visible : u.kind ≠ .newline := by simp [spot.1]
  simp [isSpot, Env.peek_cons visible, Token.isDelim, Token.is, spot]

section
variable {st : Style} {quant surface : String} {bs : List (Binding Expr)} {constraint body : Expr} {loc : Location}
  (returnsDomains : ∀ b ∈ bs, b.domain.isHole = false → Returns st b.domain)
  (returnsConstraint : constraint.isHole = false → Returns st constraint)
  (returnsBody : body.isHole = false → Returns st body)
include returnsDomains returnsConstraint returnsBody

/-- What is said of the bound variables is read up to the next closing bracket. -/
theorem reads_quantified {q : Token} (env : Env) (loc' : Location)
    (plain : Plain (.quantifier q.value surface bs constraint body loc)) {c : Context} {toks rest : List Token}
    (spelled : Spells toks (rowOf st (groupsLayout (c.child loc false) bs) ++
      (rowOf st (clauseLayout .bar (c.child loc body.isHole) constraint) ++
        rowOf st (clauseLayout .spot { c.child loc true with body := true } body))))
    (apart : Apart toks) (apartRest : Apart rest) (closes : Closes (rest.headD env.final)) :
    ∃ e', e'.content = (Expr.quantifier q.value surface bs constraint body loc).content ∧
      Reads env (.quantified q loc') (toks ++ rest) (.expr e') rest := by
  cases plain with
  | quantifier known nonempty named plainDomains plainConstraint plainBody described =>
  obtain ⟨groups, clauses, rfl, spelledGroups, spelledClauses⟩ := spells_append spelled
  obtain ⟨such, result, rfl, spelledSuch, spelledResult⟩ := spells_append spelledClauses
  have apartGroups : Apart groups := fun w member => apart w (by simp [member])
  have apartSuch : Apart such := fun w member => apart w (by simp [member])
  have apartResult : Apart result := fun w member => apart w (by simp [member])
  have apartBehind : Apart (result ++ rest) := apartResult.append apartRest
  have settled : ({ c.child loc true with body := true } : Context).Settled := fun _ => rfl
  have ended : Follows env.final 1 true rest := .of_closes apartRest closes 1 true
  obtain ⟨body', sameBody, bodyShape, readsBody⟩ := reads_clause rfl returnsBody plainBody settled spelledResult
    apartResult ended
  have spotted : isSpot (env.peek (result ++ rest)) = !body.isHole := by
    rcases bodyShape with ⟨missing, rfl⟩ | ⟨given, w, inner, rfl, spot⟩
    · have at' := closes.atDelim_eq_false apartRest "@" (by decide)
      have point := closes.atDelim_eq_false apartRest "." (by decide)
      simp only [Env.atDelim] at at' point
      simp [isSpot, at', point, missing]
    · rw [given]
      exact isSpot_cons spot
  have follows : Follows env.final 1 body.isHole (result ++ rest) := by
    rcases bodyShape with ⟨missing, rfl⟩ | ⟨given, w, inner, rfl, kind, value⟩
    · rwa [missing]
    · rw [given]
      exact .of_separator apartBehind kind (by simp [separators, value]) 1
  obtain ⟨constraint', same, shape, readsSuch⟩ := reads_clause rfl returnsConstraint plainConstraint
    (c.settled_child loc _) spelledSuch apartSuch follows
  -- the token behind the groups
  obtain ⟨u, more, begins, kind, value, barred⟩ : ∃ u more, such ++ (result ++ rest) = u :: more ∧
      u.kind = .delimiter ∧ u.value ∈ ["|", "@"] ∧ env.atDelim "|" (u :: more) = !constraint.isHole := by
    rcases shape with ⟨missing, rfl⟩ | ⟨given, u, inner, rfl, kind, value⟩
    · rcases bodyShape with ⟨nothing, rfl⟩ | ⟨_, w, inner, rfl, kind, value⟩
      · cases (described nothing).2.symm.trans missing
      · exact ⟨w, _, rfl, kind, by simp [value], by rw [missing]; exact atDelim_cons_other kind value (by decide)⟩
    · exact ⟨u, _, rfl, kind, by simp [value], by rw [given]; exact atDelim_cons kind value⟩
  obtain ⟨bs', sames, readsGroups⟩ := reads_groups nonempty named returnsDomains plainDomains spelledGroups
    apartGroups (begins ▸ apartSuch.append apartBehind) kind value
  have told : (!body.isHole || q.value == "mu") = true := by grind
  have marked : (!constraint.isHole || !body.isHole) = true := by grind
  rw [← begins] at readsGroups barred
  rw [← barred] at readsSuch marked
  rw [← spotted] at readsBody marked
  have read := @Reads.quantified _ q loc' _ _ _ _ _ _ _ readsGroups readsSuch readsBody marked
  rw [spotted, quantifierOf, if_pos told] at read
  refine ⟨_, ?_, by rwa [append_assoc, append_assoc]⟩
  simp [Expr.content, sames, same, sameBody]

/-- A quantifier with nothing after it is an operand. -/
theorem operand_of_quantifier (plain : Plain (.quantifier quant surface bs constraint body loc)) {c : Context}
    {env : Env} {toks rest : List Token}
    (spelled : Spells toks (.binder quant :: (rowOf st (groupsLayout (c.child loc false) bs) ++
      (rowOf st (clauseLayout .bar (c.child loc body.isHole) constraint) ++
        rowOf st (clauseLayout .spot { c.child loc true with body := true } body)))))
    (apart : Apart toks.tail) (apartRest : Apart rest) (closes : Closes (rest.headD env.final)) :
    ∃ e', e'.content = (Expr.quantifier quant surface bs constraint body loc).content ∧
      Reads env (.operand true) (toks ++ rest) (.expr e') rest := by
  obtain ⟨q, others, rfl, keyword, rfl, spelledRest⟩ := spells_cons rfl spelled
  have visible : q.kind ≠ .newline := by simp [keyword]
  have known : q.value ∈ ["forall", "exists", "exists1", "mu", "lambda"] := by
    cases plain with
    | quantifier known => exact known
  obtain ⟨e', same, reads⟩ := reads_quantified returnsDomains returnsConstraint returnsBody
    (env.withProduct false) (env.loc q) plain spelledRest apart apartRest closes
  have form : env.formAt (q :: (others ++ rest)) = some .binder := by
    simp only [Env.formAt, Env.peek_cons visible, keyword]
    simp only [contains_eq_mem, known, decide_true, if_true]
  have primary : Reads env .primary (q :: (others ++ rest)) (.expr e') rest := by
    refine .bound form ?_
    rw [Env.peek_cons visible, Env.rest_cons visible]
    exact reads
  exact ⟨e', same, operand_of_primary (Follows.of_closes apartRest closes 1 true)
    (leadAt_atom (.inr (.inr keyword))) primary⟩

omit returnsDomains returnsConstraint returnsBody in
/-- Where a quantifier is bare, nothing follows it. -/
theorem tail_of_bare {c : Context} (settled : c.Settled) (bare : wrapsQuantifier st c = false) : c.tail = true := by
  unfold wrapsQuantifier at bare
  rcases Bool.and_eq_false_iff.mp bare with orphan | inner
  · exact settled (.inl (Option.not_isSome_iff_eq_none.mp (by simp [orphan])))
  · cases tailed : st.bareInTail with
    | true => simpa [tailed] using inner
    | false => exact settled (.inr (by simpa [tailed] using inner))

theorem returns_quantifier (plain : Plain (.quantifier quant surface bs constraint body loc)) :
    Returns st (.quantifier quant surface bs constraint body loc) := by
  intro c env toks rest settled spelled apart follows
  rw [marks_eq_rowOf] at spelled
  cases wraps : wrapsQuantifier st c with
  | false =>
    simp only [layout, wraps, Bool.false_eq_true, if_false, cons_append, append_assoc,
      rowOf_mark_cons, rowOf_append] at spelled
    obtain ⟨e', same, reads⟩ := operand_of_quantifier returnsDomains returnsConstraint returnsBody plain
      spelled apart follows.apart (follows.closed (tail_of_bare settled wraps))
    exact ⟨e', none, .of_operand (.inr rfl) same reads⟩
  | true =>
    have bracketed : Spells toks (.opening .round ::
        ((.binder quant :: (rowOf st (groupsLayout (c.child loc false) bs) ++
          (rowOf st (clauseLayout .bar (c.child loc body.isHole) constraint) ++
            rowOf st (clauseLayout .spot { c.child loc true with body := true } body)))) ++
          [.closing .round])) := by
      simpa [layout, wraps] using spelled
    obtain ⟨t, inner, u, rfl, opens, closes, spelledInner⟩ := spells_bracketed rfl bracketed
    have apartInner : Apart inner := fun w member => apart w (by simp [member])
    have apartLast : Apart (u :: rest) := follows.apart.cons (apart u (by simp))
    have closed : Closes u := .inr ⟨closes.1, by simp [closers, closes.2]⟩
    obtain ⟨e', same, reads⟩ : ∃ e', e'.content = (Expr.quantifier quant surface bs constraint body loc).content ∧
        Reads env.inside (.operand true) (inner ++ u :: rest) (.expr e') (u :: rest) :=
      operand_of_quantifier returnsDomains returnsConstraint returnsBody plain spelledInner
        apartInner.tail apartLast closed
    have ended : Follows env.inside.final 1 true (u :: rest) := .of_closes apartLast closed 1 true
    have grouped := (Run.of_operand reads 1).finish ended (Int.le_refl 1) (Int.le_refl 1)
    exact ⟨e', none, .of_operand (.inr rfl) same (operand_of_group opens closes grouped follows)⟩

end

/-! ## The round trip -/

/-- The tokens of the formula of a plain expression are read as what the expression says. -/
theorem Plain.returns {e : Expr} (plain : Plain e) (st : Style) : Returns st e := by
  induction plain with
  | name whole _ => exact returns_name whole st _
  | number => exact returns_number st _ _
  | minus plain ih => exact returns_minus ih plain _ _
  | not plain ih => exact returns_not ih plain _ _
  | binary known notRange plainLeft plainRight left right =>
    obtain ⟨⟨prec, assoc⟩, binds⟩ := Option.isSome_iff_exists.mp known
    exact returns_binary left right plainLeft plainRight binds notRange _ _ _
  | chain related repeats plainLeft plainRight left right =>
    exact returns_chain left right plainLeft plainRight related repeats _ _ _ _ _ _
  | range plainLow plainHigh low high => exact returns_range low high plainLow plainHigh _
  | quantifier known nonempty named plainDomains plainConstraint plainBody described domains constraint body =>
    exact returns_quantifier domains constraint body
      (.quantifier known nonempty named plainDomains plainConstraint plainBody described)
  | conditional plainCondition plainYes plainNo condition yes no =>
    exact returns_conditional condition yes no plainCondition plainYes plainNo _
  | tuple several plain ih => exact returns_tuple several ih plain _
  | collection known plain ih => exact returns_collection known ih plain _

theorem Plain.complete {e : Expr} (plain : Plain e) : Complete e := by
  induction plain with
  | name | number => exact .literal
  | minus _ ih | not _ ih => exact .unary rfl ih
  | binary known _ _ _ left right => exact .binary known left right
  | chain related _ _ _ left right => exact .chain related left right
  | range _ _ low high => exact .range low high
  | @quantifier quant surface bindings constraint body loc known nonempty _ _ _ _ described domains
      constrained bodied =>
      refine .quantifier ?_ ?_ nonempty domains constrained bodied
      · simp only [mem_cons, not_mem_nil, or_false] at known
        rcases known with rfl | rfl | rfl | rfl | rfl <;> rfl
      · grind
  | conditional _ _ _ condition yes no => exact .conditional condition yes no
  | tuple _ _ ih => exact .tuple ih
  | collection known _ ih =>
    refine .collection ?_ ih
    simp only [mem_cons, not_mem_nil, or_false] at known
    rcases known with rfl | rfl | rfl <;> rfl

theorem body_append {toks ending : List Token} (inSource : ∀ t ∈ toks, t.kind ≠ .endOfInput)
    (ended : ∀ t ∈ ending.head?, t.kind = .endOfInput) : body (toks ++ ending) = toks := by
  unfold body
  rw [takeWhile_append_of_pos (by simpa using inSource)]
  cases ending with
  | nil => simp
  | cons t rest => simp [ended t rfl]

theorem skipNewlines_eq {toks : List Token} (visible : ∀ t ∈ toks, t.kind ≠ .newline) : skipNewlines toks = toks := by
  cases toks with
  | nil => rfl
  | cons t rest => simp [skipNewlines, visible t mem_cons_self]

/-- The parentheses of a formula suffice: written in the notation token by token, with spaces
between them, the formula of a plain expression in either vocabulary is read as an expression that
says the same. -/
theorem plain_formula_reads_back (d : Dialect) (file : String) {e : Expr} (plain : Plain e)
    {toks ending : List Token} (spelled : Spells toks (marks d.style {} e))
    (spaced : ∀ t ∈ toks.tail, t.spaceBefore = true)
    (ended : ∀ t ∈ ending.head?, t.kind = .endOfInput) :
    e.render d = .ok (Mark.textOf d.style (marks d.style {} e)) ∧
      ∃ e', Expr.ofTokens file (toks ++ ending) = .ok e' ∧ e'.content = e.content := by
  refine ⟨plain.complete.written d.style {}, ?_⟩
  have ends : (envOf file (toks ++ ending)).Ends := Env.ends_envOf file (toks ++ ending)
  have visible : ∀ t ∈ toks, t.kind ≠ .newline := fun t member => (spelled.visible member).1
  have inSource : ∀ t ∈ toks, t.kind ≠ .endOfInput := fun t member => (spelled.visible member).2.1
  have apart : Apart toks.tail := fun t member => ⟨spaced t member, visible t (mem_of_mem_tail member)⟩
  have atEnd : Follows (envOf file (toks ++ ending)).final 1 true [] := .of_closes .nil (.inl ends) 1 true
  obtain ⟨e', same, reads⟩ := (plain.returns d.style).closed plain (fun _ => rfl) spelled apart atEnd
  rw [append_nil] at reads
  refine ⟨e', ?_, same⟩
  have read := (expr_eq_ok_iff ends).mpr reads
  rw [Expr.ofTokens, body_append inSource ended, skipNewlines_eq visible, read]
  rfl

/-- An implication to the left of another one, and a bare quantifier with a chain of relations. -/
def nestedImplication : Expr :=
  .binary "implies" "=>"
    (.binary "implies" "=>" (.literal .identifier "p" {}) (.literal .identifier "q" {}) false false {})
    (.quantifier "forall" "forall" [⟨["m", "n"], .literal .identifier "N" {}, {}⟩] .hole (.binary "and" ""
        (.binary "lt" "<" (.literal .identifier "m" {}) (.literal .identifier "n" {}) false false {})
        (.binary "leq" "<=" (.literal .identifier "n" {}) (.literal .number "3" {}) false false {})
        false true {}) {}) false false {}

theorem nestedImplication_plain : Plain nestedImplication := by
  have name {s : String} (whole : s.toList.contains '_' = false) (other : s ≠ "x") :
      Plain (.literal .identifier s {}) := .name whole other
  refine .binary rfl (by decide) (.binary rfl (by decide) (name rfl (by decide)) (name rfl (by decide))) ?_
  refine .quantifier (by decide) (by simp) (by simp) ?_ (by simp [Expr.isHole]) ?_ (by simp [Expr.isHole])
  · grind
  · intro _
    exact .chain rfl rfl (.binary rfl (by decide) (name rfl (by decide)) (name rfl (by decide))) .number

/-- `( p => q ) => forall m , n : N @ m < n <= 3`. -/
def nestedImplicationTokens : List Token :=
  written [(.delimiter, "("), (.identifier, "p"), (.operator, "implies"), (.identifier, "q"),
    (.delimiter, ")"), (.operator, "implies"), (.keyword, "forall"), (.identifier, "m"),
    (.delimiter, ","), (.identifier, "n"), (.delimiter, ":"), (.identifier, "N"), (.delimiter, "@"),
    (.identifier, "m"), (.operator, "lt"), (.identifier, "n"), (.operator, "leq"), (.number, "3")]

theorem nestedImplication_spelled : Spells nestedImplicationTokens (marks Style.typeset {} nestedImplication) := by
  simp [nestedImplication, marks_eq_rowOf, layout, groupsLayout, groupLayout, clauseLayout, nameMarks,
    wrapsQuantifier, Context.child, Context.within, Style.typeset, Expr.isHole]
  rfl

theorem nestedImplication_reads_back : Plain nestedImplication ∧
      Spells nestedImplicationTokens (marks Style.typeset {} nestedImplication) ∧
      ∃ e', Expr.ofTokens "" (nestedImplicationTokens ++ [{ kind := .endOfInput }]) = .ok e' ∧
        e'.content = nestedImplication.content :=
  ⟨nestedImplication_plain, nestedImplication_spelled,
    (plain_formula_reads_back .zed "" nestedImplication_plain nestedImplication_spelled (by decide) (by simp)).2⟩

end Latex
end Whiteboard
