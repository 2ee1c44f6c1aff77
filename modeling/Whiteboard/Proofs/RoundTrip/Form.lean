import Whiteboard.Proofs.RoundTrip.Reading

namespace Whiteboard

open List
namespace Latex

/-!
# Bracketed forms and binders read back

Lists end at their closing bracket, and the parts of a conditional or a quantifier at the mark that
introduces the next one.  A brace opens a comprehension only if names and a colon follow it, which
is never so for the elements of a set: a colon in a plain expression stands behind a quantifier.
-/

open Parse

/-! ## Lists -/

variable {st : Style} {es : List Expr} {env : Env} {toks : List Token}

/-- The elements of a list are read up to its closing bracket. -/
theorem returns_elements (nonempty : es ≠ [])
    (returns : ∀ e ∈ es, Returns st e) (plain : ∀ e ∈ es, Plain e) {c : Context} {loc : Location} {rest : List Token}
    (spelled : Spells toks (rowOf st (listLayout (c.child loc true) es)))
    (apart : Apart toks) (apartRest : Apart rest) (closes : Closes (rest.headD env.final)) :
    ∃ es', es'.map Expr.content = es.map Expr.content ∧ Reads env .elements (toks ++ rest) (.list es') rest := by
  induction es generalizing toks with
  | nil => exact absurd rfl nonempty
  | cons e others ih =>
    have returnsFirst := returns e mem_cons_self
    have plainFirst := plain e mem_cons_self
    cases others with
    | nil =>
      simp only [listLayout, rowOf_part_cons, wrapMarks_false, rowOf_nil, append_nil] at spelled
      obtain ⟨e', same, reads⟩ := returnsFirst.closed plainFirst (c.settled_child loc true) spelled
        apart.tail (.of_closes apartRest closes 1 true)
      exact ⟨[e'], by simp [same], .last reads (closes.atDelim_eq_false apartRest "," (by decide))⟩
    | cons next more =>
      simp only [listLayout, rowOf_part_cons, wrapMarks_false, rowOf_mark_cons] at spelled
      obtain ⟨first, following, rfl, spelledFirst, spelledRest⟩ := spells_append spelled
      obtain ⟨t, second, rfl, kind, value, spelledSecond⟩ := spells_cons rfl spelledRest
      have apartSecond : Apart (t :: second) := fun u member => apart u (mem_append_right _ member)
      have apartFirst : Apart first := fun u member => apart u (mem_append_left _ member)
      have separated : Follows env.final 1 false (t :: (second ++ rest)) :=
        .of_separator (apartSecond.append apartRest) kind (by simp [separators, value]) 1
      obtain ⟨e', same, reads⟩ := returnsFirst.closed plainFirst (c.settled_child loc false)
        spelledFirst apartFirst.tail separated
      obtain ⟨es', sames, readsRest⟩ := ih (by simp) (fun e member => returns e (mem_cons_of_mem _ member))
        (fun e member => plain e (mem_cons_of_mem _ member)) spelledSecond apartSecond.of_cons
      have visible : t.kind ≠ .newline := by simp [kind]
      refine ⟨e' :: es', by simp [same, sames], ?_⟩
      have shape : first ++ t :: second ++ rest = first ++ t :: (second ++ rest) := by simp
      rw [shape]
      have comma : env.atDelim "," (t :: (second ++ rest)) = true := atDelim_cons kind value
      refine .element reads ?_
      rw [comma]
      refine .present ?_
      rw [Env.rest_cons visible]
      exact readsRest

theorem tupleOf_of_two_le (several : 2 ≤ es.length) (loc : Location) : tupleOf loc es = .tuple es loc := by
  match es, several with
  | _ :: _ :: _, _ => rfl

theorem returns_tuple (several : 2 ≤ es.length)
    (returns : ∀ e ∈ es, Returns st e) (plain : ∀ e ∈ es, Plain e) (loc : Location) :
    Returns st (.tuple es loc) := by
  intro c env toks rest _ spelled apart follows
  have nonempty : es ≠ [] := by
    rintro rfl
    cases several
  rw [marks_eq_rowOf] at spelled
  simp only [layout, cons_append, rowOf_mark_cons, rowOf_append, rowOf_nil] at spelled
  obtain ⟨t, inner, u, rfl, opens, closes, spelledInner⟩ := spells_bracketed rfl spelled
  have apartInner : Apart inner := fun w member => apart w (by simp [member])
  have apartLast : Apart (u :: rest) := follows.apart.cons (apart u (by simp))
  obtain ⟨es', same, reads⟩ : ∃ es', es'.map Expr.content = es.map Expr.content ∧
      Reads env.inside .elements (inner ++ u :: rest) (.list es') (u :: rest) :=
    returns_elements nonempty returns plain spelledInner apartInner apartLast
      (.inr ⟨closes.1, by simp [closers, closes.2]⟩)
  have length : es'.length = es.length := by simpa using congrArg List.length same
  have read := operand_of_elements opens closes reads follows
  rw [tupleOf_of_two_le (by omega)] at read
  refine ⟨.tuple es' (env.loc t), none, .of_operand (.inr rfl) ?_ read⟩
  simp [Expr.content, Expr.contents_eq_map, same]

/-! ## A brace before elements -/

/-- Does a colon come before any quantifier? -/
def colonLeads : List Mark → Bool
  | [] => false
  | .colon :: _ => true
  | .binder _ :: _ => false
  | _ :: rest => colonLeads rest

theorem colonLeads_append {ms ns : List Mark} (first : colonLeads ms = false)
    (second : colonLeads ns = false) : colonLeads (ms ++ ns) = false := by
  fun_induction colonLeads ms with
  | case1 => exact second
  | case2 => cases first
  | case3 => rfl
  | case4 m rest notColon notBinder ih =>
    rw [cons_append, colonLeads]
    · exact ih first
    · exact notColon
    · exact notBinder

theorem colonLeads_wrapMarks {ms : List Mark} (inside : colonLeads ms = false) (wrap : Bool) :
    colonLeads (wrapMarks wrap ms) = false := by
  cases wrap with
  | true => exact @colonLeads_append (.opening .round :: ms) _ inside rfl
  | false => exact inside

theorem colonLeads_list {c : Context} (each : ∀ e ∈ es, ∀ c, colonLeads (marks st c e) = false) :
    colonLeads (rowOf st (listLayout c es)) = false := by
  fun_induction listLayout c es with
  | case1 => rfl
  | case2 e => simpa using each e mem_cons_self _
  | case3 e rest _ ih =>
    simp only [rowOf_part_cons, rowOf_mark_cons, wrapMarks_false]
    refine colonLeads_append (each e mem_cons_self _) ?_
    exact ih fun other member => each other (mem_cons_of_mem e member)

/-- In a plain expression a colon stands behind a quantifier. -/
theorem Plain.colonLeads_marks {e : Expr} (plain : Plain e) (st : Style) : ∀ c, colonLeads (marks st c e) = false := by
  induction plain with
  | name | number => exact fun c => by rw [marks_eq_rowOf]; rfl
  | minus _ ih | not _ ih =>
    intro c
    rw [marks_eq_rowOf]
    simp only [layout, rowOf_mark_cons, rowOf_part_cons, rowOf_nil, append_nil]
    exact colonLeads_wrapMarks (ih _) _
  | binary _ _ _ _ left right | chain _ _ _ _ left right | range _ _ left right =>
    intro c
    rw [marks_eq_rowOf]
    simp only [layout, rowOf_mark_cons, rowOf_part_cons, rowOf_nil, append_nil]
    exact colonLeads_append (colonLeads_wrapMarks (left _) _) (colonLeads_wrapMarks (right _) _)
  | quantifier =>
    intro c
    rw [marks_eq_rowOf]
    simp only [layout]
    split <;> rfl
  | conditional _ _ _ condition yes no =>
    intro c
    rw [marks_eq_rowOf]
    simp only [layout, rowOf_mark_cons, rowOf_part_cons, rowOf_nil, append_nil, wrapMarks_false]
    exact colonLeads_append (condition _) (colonLeads_append (yes _) (no _))
  | tuple _ _ ih =>
    intro c
    rw [marks_eq_rowOf]
    simp only [layout, cons_append, rowOf_mark_cons, rowOf_append, rowOf_nil]
    exact colonLeads_append (colonLeads_list ih) rfl
  | collection _ _ ih =>
    intro c
    rw [marks_eq_rowOf]
    simp only [layout]
    split
    · rfl
    · simp only [cons_append, rowOf_mark_cons, rowOf_append, rowOf_nil]
      exact colonLeads_append (colonLeads_list ih) rfl

/-- The tokens do not read as names before a colon. -/
def Unnamed (toks : List Token) : Prop := ∀ wantName, namesAhead true wantName toks = false

variable {t : Token}

theorem Unnamed.cons {rest : List Token} (visible : t.kind ≠ .newline)
    (noColon : t.isDelim ":" = false) (unnamed : Unnamed rest) : Unnamed (t :: rest) := by
  intro wantName
  simp [namesAhead, visible, noColon, unnamed true, unnamed false]

theorem Unnamed.of_keyword {rest : List Token} (keyword : t.kind = .keyword) : Unnamed (t :: rest) := by
  intro wantName
  cases wantName <;> simp [namesAhead, keyword, isNameToken, Token.isDelim, Token.is]

theorem Unnamed.of_closer {rest : List Token}
    (closes : t.kind = .delimiter ∧ t.value ∈ closers) : Unnamed (t :: rest) := by
  have other {value : String} (outside : value ∉ closers) : t.isDelim value = false := by
    simp only [Token.isDelim, Token.is, closes.1, beq_self_eq_true, Bool.true_and, beq_eq_false_iff_ne, ne_eq]
    rintro rfl
    exact outside closes.2
  intro wantName
  have comma : t.isDelim "," = false := other (by decide)
  have colon : t.isDelim ":" = false := other (by decide)
  cases wantName <;> simp [namesAhead, isNameToken, closes.1, comma, colon]

theorem source_ne_colon {m : Mark} (other : m ≠ .colon) : ∀ p ∈ m.source, p ≠ (.delimiter, ":") := by
  cases m with
  | opening b => cases b <;> decide
  | closing b => cases b <;> decide
  | nothing b => cases b <;> decide
  | colon => exact absurd rfl other
  | _ => simp [Mark.source]

/-- Before the first colon stands something that is no name and no comma. -/
theorem Spells.unnamed {ms : List Mark} {rest : List Token} (spelled : Spells toks ms)
    (guarded : colonLeads ms = false) (unnamed : Unnamed rest) : Unnamed (toks ++ rest) := by
  fun_induction colonLeads ms generalizing toks with
  | case1 =>
    cases spells_nil spelled
    exact unnamed
  | case2 => cases guarded
  | case3 quant others =>
    obtain ⟨t, after, rfl, keyword, _⟩ := spells_cons rfl spelled
    exact .of_keyword keyword
  | case4 m others notColon _ ih =>
    obtain ⟨first, second, rfl, spelledFirst, spelledSecond⟩ := @spells_append toks [m] others spelled
    rw [append_assoc]
    have after := ih spelledSecond guarded
    have each : ∀ t ∈ first, t.kind ≠ .newline ∧ t.isDelim ":" = false := by
      intro t member
      refine ⟨(spelledFirst.visible member).1, ?_⟩
      have inSource : spellingOf t ∈ m.source := by
        have spelling := mem_map_of_mem (f := spellingOf) member
        rw [spelledFirst] at spelling
        simpa using spelling
      have different := source_ne_colon notColon _ inSource
      cases colon : t.isDelim ":" with
      | false => rfl
      | true =>
        have both : t.kind = .delimiter ∧ t.value = ":" := by
          simpa [Token.isDelim, Token.is] using colon
        exact absurd (Prod.ext both.1 both.2) different
    clear spelled spelledFirst
    induction first with
    | nil => exact after
    | cons t more ih' =>
      obtain ⟨visible, noColon⟩ := each t mem_cons_self
      exact .cons visible noColon (ih' fun u member => each u (mem_cons_of_mem t member))

/-! ## Collections and conditionals -/

/-- How a kind of collections is written and recognised. -/
structure Delimits (kind : CollectionKind) (form : Form) (opener closer : String) : Prop where
  source : (Bracket.ofCollection kind).source = ([(.delimiter, opener)], [(.delimiter, closer)])
  collects : collectionOf form = some (closer, kind)
  recognised : ∀ (env : Env) (t : Token) (rest : List Token), t.kind = .delimiter →
    t.value = opener → Unnamed rest → env.formAt (t :: rest) = some form
  opens : opener ≠ "("
  closes : closer ∈ closers

variable {kind : CollectionKind}

theorem delimits_of_mem (known : kind ∈ [CollectionKind.set, .sequence, .bag]) :
    ∃ form opener closer, Delimits kind form opener closer := by
  simp only [mem_cons, not_mem_nil, or_false] at known
  rcases known with rfl | rfl | rfl
  · refine ⟨.set, "\x7b", "\x7d", rfl, rfl, ?_, by decide, by decide⟩
    intro env t rest kind value unnamed
    have visible : t.kind ≠ .newline := by simp [kind]
    simp [Env.formAt, Env.peek_cons visible, Env.rest_cons visible, kind, value, unnamed true]
  · refine ⟨.sequence, "⟨", "⟩", rfl, rfl, ?_, by decide, by decide⟩
    intro env t rest kind value _
    have visible : t.kind ≠ .newline := by simp [kind]
    simp [Env.formAt, Env.peek_cons visible, kind, value]
  · refine ⟨.bag, "[[", "]]", rfl, rfl, ?_, by decide, by decide⟩
    intro env t rest kind value _
    have visible : t.kind ≠ .newline := by simp [kind]
    simp [Env.formAt, Env.peek_cons visible, kind, value]

/-- The elements up to the closing bracket are a collection. -/
theorem operand_of_listed {form : Form} {opener closer : String}
    (delimits : Delimits kind form opener closer) {u : Token} {inner rest : List Token} {limit : Precedence}
    {tail : Bool} (opens : t.kind = .delimiter ∧ t.value = opener)
    (unnamed : Unnamed (inner ++ u :: rest))
    (reads : Reads (env.withProduct false) (.listed closer) (t :: (inner ++ u :: rest)) (.list es) rest)
    (follows : Follows env.final limit tail rest) :
    Reads env (.operand true) (t :: (inner ++ [u]) ++ rest) (.expr (.collection kind es (env.loc t))) rest := by
  have visible : t.kind ≠ .newline := by simp [opens.1]
  have shape : t :: (inner ++ [u]) ++ rest = t :: (inner ++ u :: rest) := by simp
  have primary := Reads.collected (delimits.recognised env t _ opens.1 opens.2 unnamed) delimits.collects reads
  rw [Env.peek_cons visible] at primary
  refine operand_of_primary follows ?_ (by rw [shape]; exact primary)
  simp [Env.leadAt, Env.peek_cons visible, opens, delimits.opens, Token.isOp, Token.isDelim, Token.is]

/-- No list of elements begins with a closing bracket. -/
theorem atDelim_elements {c : Context} {e : Expr} {others : List Expr} (plain : Plain e) {rest : List Token}
    (spelled : Spells toks (rowOf st (listLayout c (e :: others))))
    {closer : String} (closes : closer ∈ closers) : env.atDelim closer (toks ++ rest) = false := by
  have leads : Leads (rowOf st (listLayout c (e :: others))) := by
    cases others with
    | nil => exact (plain.leads st _).append []
    | cons next more => exact (plain.leads st _).append _
  obtain ⟨t, after, rfl, opens⟩ := leads.spells_cons spelled
  have visible := (spelled.visible mem_cons_self).1
  rw [cons_append, Env.atDelim, Env.peek_cons visible, Token.isDelim, Token.is, Bool.and_eq_false_iff]
  by_cases kind : t.kind = .delimiter
  · grind
  · exact Or.inl (beq_eq_false_iff_ne.mpr kind)

theorem returns_collection (known : kind ∈ [CollectionKind.set, .sequence, .bag])
    (returns : ∀ e ∈ es, Returns st e) (plain : ∀ e ∈ es, Plain e) (loc : Location) :
    Returns st (.collection kind es loc) := by
  intro c env toks rest _ spelled apart follows
  obtain ⟨form, opener, closer, delimits⟩ := delimits_of_mem known
  rw [marks_eq_rowOf] at spelled
  cases es with
  | nil =>
    have spelled : Spells toks [.opening (.ofCollection kind), .closing (.ofCollection kind)] := by
      simpa [Spells, layout, Mark.source] using spelled
    obtain ⟨t, inner, u, rfl, opens, closes, empty⟩ := @spells_bracketed _ _ [] _ _ delimits.source spelled
    cases spells_nil empty
    have visible : t.kind ≠ .newline := by simp [opens.1]
    have visible' : u.kind ≠ .newline := by simp [closes.1]
    have listed : Reads (env.withProduct false) (.listed closer) (t :: ([] ++ u :: rest)) (.list [])
        rest := by
      have read := @Reads.listedNone (env.withProduct false) closer (t :: u :: rest)
      rw [Env.rest_cons visible, Env.rest_cons visible'] at read
      exact read (atDelim_cons closes.1 closes.2)
    exact ⟨.collection kind [] (env.loc t), none, .of_operand (.inr rfl) rfl (operand_of_listed delimits opens
        (.of_closer ⟨closes.1, closes.2 ▸ delimits.closes⟩) listed follows)⟩
  | cons e others =>
    simp only [layout, isEmpty_cons, Bool.false_eq_true, if_false, cons_append,
      rowOf_mark_cons, rowOf_append, rowOf_nil] at spelled
    obtain ⟨t, inner, u, rfl, opens, closes, spelledInner⟩ := spells_bracketed delimits.source spelled
    have visible : t.kind ≠ .newline := by simp [opens.1]
    have visible' : u.kind ≠ .newline := by simp [closes.1]
    have closer : u.kind = .delimiter ∧ u.value ∈ closers := ⟨closes.1, closes.2 ▸ delimits.closes⟩
    have apartInner : Apart inner := fun w member => apart w (by simp [member])
    have apartLast : Apart (u :: rest) := follows.apart.cons (apart u (by simp))
    obtain ⟨es', same, reads⟩ : ∃ es', es'.map Expr.content = (e :: others).map Expr.content ∧
        Reads (env.withProduct false).inside .elements (inner ++ u :: rest) (.list es') (u :: rest) :=
      returns_elements (by simp) returns plain spelledInner apartInner apartLast (.inr closer)
    have unnamed : Unnamed (inner ++ u :: rest) :=
      spelledInner.unnamed (colonLeads_list fun e member => (plain e member).colonLeads_marks st)
        (.of_closer closer)
    have started : (env.withProduct false).inside.atDelim _ (inner ++ u :: rest) = false :=
      atDelim_elements (plain e mem_cons_self) spelledInner delimits.closes
    have listed := Reads.listed (by rw [Env.rest_cons visible]; exact started)
      (by rw [Env.rest_cons visible]; exact reads) (atDelim_cons closes.1 closes.2)
    rw [Env.rest_cons visible'] at listed
    refine ⟨.collection kind es' (env.loc t), none, .of_operand (.inr rfl) ?_
      (operand_of_listed delimits opens unnamed listed follows)⟩
    simp [Expr.content, Expr.contents_eq_map, same]

/-- Every operator binds more tightly than a conditional, so none follows it. -/
theorem Follows.of_conditional {final : Token} {tail : Bool} {rest : List Token}
    (follows : Follows final Precedence.conditional tail rest) : Follows final 1 tail rest where
  apart := follows.apart
  next := follows.next
  stops := by
    intro prec assoc operator binds
    have lower := follows.stops prec assoc operator binds
    exact absurd (leveled_of_asInfix binds).above (Int.not_lt.mpr (Int.le_of_lt lower))
  closed := follows.closed

/-- The token is a keyword of a conditional. -/
theorem isKeyword_cons {rest : List Token} {word : String} (keyword : t.kind = .keyword) (value : t.value = word) :
    (env.peek (t :: rest)).isKeyword word = true := by
  have visible : t.kind ≠ .newline := by simp [keyword]
  simp [Env.peek_cons visible, Token.isKeyword, Token.is, keyword, value]

theorem returns_conditional {condition yes no : Expr}
    (returnsCondition : Returns st condition) (returnsYes : Returns st yes) (returnsNo : Returns st no)
    (plainCondition : Plain condition) (plainYes : Plain yes) (plainNo : Plain no) (loc : Location) :
    Returns st (.conditional condition yes no loc) := by
  intro c env toks rest _ spelled apart follows
  rw [marks_eq_rowOf] at spelled
  simp only [layout, rowOf_mark_cons, rowOf_part_cons, wrapMarks_false, rowOf_nil, append_nil] at spelled
  obtain ⟨t, others, rfl, keyword, value, spelledRest⟩ := spells_cons rfl spelled
  obtain ⟨first, others, rfl, spelledFirst, spelledRest⟩ := spells_append spelledRest
  obtain ⟨u, others, rfl, keyword', value', spelledRest⟩ := spells_cons rfl spelledRest
  obtain ⟨second, others, rfl, spelledSecond, spelledRest⟩ := spells_append spelledRest
  obtain ⟨w, third, rfl, keyword'', value'', spelledThird⟩ := spells_cons rfl spelledRest
  have apart : Apart (first ++ u :: (second ++ w :: third)) := apart
  have apartFirst : Apart first := fun x member => apart x (by simp [member])
  have apartSecond : Apart second := fun x member => apart x (by simp [member])
  have apartThird : Apart third := fun x member => apart x (by simp [member])
  have fromElse : Apart (w :: (third ++ rest)) := (apartThird.append follows.apart).cons (apart w (by simp))
  have fromThen : Apart (u :: (second ++ w :: (third ++ rest))) :=
    (apartSecond.append fromElse).cons (apart u (by simp))
  have beforeThen : Follows env.final 1 false (u :: (second ++ w :: (third ++ rest))) := .of_keyword fromThen keyword' 1
  have beforeElse : Follows env.final 1 false (w :: (third ++ rest)) := .of_keyword fromElse keyword'' 1
  obtain ⟨condition', sameCondition, readCondition⟩ := returnsCondition.closed plainCondition
    (c.settled_child loc false) spelledFirst apartFirst.tail beforeThen
  obtain ⟨yes', sameYes, readYes⟩ := returnsYes.closed plainYes (c.settled_child loc false)
    spelledSecond apartSecond.tail beforeElse
  obtain ⟨no', sameNo, readNo⟩ := returnsNo.closed plainNo (c.settled_child loc c.tail)
    spelledThird apartThird.tail (Follows.of_conditional follows)
  have visible : t.kind ≠ .newline := by simp [keyword]
  have visible' : u.kind ≠ .newline := by simp [keyword']
  have visible'' : w.kind ≠ .newline := by simp [keyword'']
  have shape : t :: (first ++ u :: (second ++ w :: third)) ++ rest =
      t :: (first ++ u :: (second ++ w :: (third ++ rest))) := by simp
  have form : env.formAt (t :: (first ++ u :: (second ++ w :: (third ++ rest)))) = some .choice := by
    simp [Env.formAt, Env.peek_cons visible, keyword, value]
  have read := Reads.choice form (by rw [Env.rest_cons visible]; exact readCondition)
    (isKeyword_cons keyword' value') (by rw [Env.rest_cons visible']; exact readYes)
    (isKeyword_cons keyword'' value'') (by rw [Env.rest_cons visible'']; exact readNo)
  rw [Env.peek_cons visible] at read
  refine ⟨.conditional condition' yes' no' (env.loc t), none, .of_operand (.inr rfl) ?_ ?_⟩
  · simp [Expr.content, sameCondition, sameYes, sameNo]
  · exact operand_of_primary follows (leadAt_atom (.inr (.inr keyword))) (by rw [shape]; exact read)

end Latex
end Whiteboard
