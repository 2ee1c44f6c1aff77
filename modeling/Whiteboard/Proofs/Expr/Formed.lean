import Whiteboard.Compile
import Whiteboard.Proofs.Expr.Image
import Whiteboard.Proofs.Latex.Source
import Whiteboard.Proofs.Latex.Text
import Whiteboard.Proofs.Token.Fault

namespace Whiteboard

open List hiding set
open Text

/-!
# The shape of what is read

An expression that is read has all the parts its formula needs, and every operator in it was looked up in the symbol
table.  There is more to it: a tuple has two elements or more, a chain repeats the operand its relations share, the
first variables of a comprehension have a domain, and a superscript has gone into the script it follows.  If the
tokens are those of a source, its names and numbers are names and numbers of the notation.
-/

namespace Expr

/-- A name as the notation writes it. -/
def IsName (s : String) : Prop := Token.isNameText s.toList = true

/-- A number as the notation writes it. -/
def IsNumeral (s : String) : Prop := Token.IsNumberText s.toList

/-- A script that a superscript after it would go into. -/
def takesSuper : Expr → Bool
  | script _ .hole _ _ => true
  | _ => false

/-- The variables of a group have names. -/
def IsGroup (shaped : Prop) (b : Binding Expr) : Prop := b.names ≠ [] ∧ (shaped → ∀ n ∈ b.names, IsName n)

/-- The shape of the expressions that are read, from tokens that are shaped or from any. -/
inductive Formed (shaped : Prop) : Expr → Prop
  | number {value loc} : (shaped → IsNumeral value) → Formed shaped (.literal .number value loc)
  | name {value loc} : (shaped → IsName value) → Formed shaped (.literal .identifier value loc)
  | prefixed {op surface operand loc} :
      Parse.isPrefix op = true → Formed shaped operand → Formed shaped (.unary op surface operand false loc)
  | postfixed {op surface operand loc} :
      op ∈ ["inv", "tcl", "rtcl"] → Formed shaped operand → Formed shaped (.unary op surface operand true loc)
  | binary {op surface left right breakAfter loc} :
      (Symbol.asInfix op).isSome = true → op ≠ "upto" → Formed shaped left → Formed shaped right →
      Formed shaped (.binary op surface left right breakAfter false loc)
  | chain {surface left relation surface' middle right breakAfter' loc' breakAfter loc} :
      Symbol.isRelation relation = true → Latex.lastOperand left = some middle →
      Formed shaped left → Formed shaped right →
      Formed shaped (.binary "and" surface left
        (.binary relation surface' middle right breakAfter' false loc') breakAfter true loc)
  | range {low high loc} : Formed shaped low → Formed shaped high → Formed shaped (.range low high loc)
  | conditional {condition yes no loc} :
      Formed shaped condition → Formed shaped yes → Formed shaped no → Formed shaped (.conditional condition yes no loc)
  | quantifier {quant surface bindings constraint body loc} : quant ∈ ["forall", "exists", "exists1", "mu", "lambda"] →
      bindings ≠ [] → (constraint.isHole && body.isHole) = false →
      (∀ b ∈ bindings, IsGroup shaped b) →
      (∀ b ∈ bindings, b.domain.isHole = false → Formed shaped b.domain) →
      (constraint.isHole = false → Formed shaped constraint) →
      (body.isHole = false → Formed shaped body) →
      Formed shaped (.quantifier quant surface bindings constraint body loc)
  | comprehension {first others predicate result loc} : first.domain.isHole = false →
      (∀ b ∈ first :: others, IsGroup shaped b) →
      (∀ b ∈ first :: others, b.domain.isHole = false → Formed shaped b.domain) →
      (predicate.isHole = false → Formed shaped predicate) →
      (result.isHole = false → Formed shaped result) →
      Formed shaped (.comprehension (first :: others) predicate result loc)
  | collection {kind elements loc} : kind ∈ [CollectionKind.set, .sequence, .bag] → (∀ e ∈ elements, Formed shaped e) →
      Formed shaped (.collection kind elements loc)
  | tuple {elements loc} : 2 ≤ elements.length → (∀ e ∈ elements, Formed shaped e) → Formed shaped (.tuple elements loc)
  | projection {target field loc} :
      (shaped → IsName field ∨ IsNumeral field) → Formed shaped target → Formed shaped (.projection target field loc)
  | application {target args loc} : Formed shaped target → (∀ e ∈ args, Formed shaped e) →
      Formed shaped (.application target args false loc)
  | juxtaposed {target arg loc} :
      Formed shaped target → Formed shaped arg → Formed shaped (.application target [arg] true loc)
  | instantiation {base params loc} : Formed shaped base → (∀ e ∈ params, Formed shaped e) →
      Formed shaped (.instantiation base params loc)
  | image {relation set loc} : Formed shaped relation → Formed shaped set → Formed shaped (.image relation set loc)
  | superscript {base super loc} :
      takesSuper base = false → Formed shaped base → Formed shaped super → Formed shaped (.script base super .hole loc)
  | subscript {value super sub loc loc'} :
      (shaped → IsName value) → Formed shaped sub → (super.isHole = false → Formed shaped super) →
      Formed shaped (.script (.literal .identifier value loc) super sub loc')

theorem Formed.isHole_eq_false {shaped : Prop} {e : Expr} (formed : Formed shaped e) : e.isHole = false := by
  cases formed <;> rfl

/-- An expression that is read from the tokens of a source. -/
abbrev Whole : Expr → Prop := Formed True

/-- An expression that is read has all that its formula needs. -/
theorem Formed.complete {shaped : Prop} {e : Expr} (formed : Formed shaped e) : Latex.Complete e := by
  induction formed with
  | number | name => exact .literal
  | prefixed known _ ih =>
    refine .unary ?_ ih
    cases found : Symbol.lookup _ with
    | none => simp [Parse.isPrefix, found] at known
    | some s => rfl
  | postfixed known _ ih =>
    refine .unary ?_ ih
    exact (by decide : ∀ op ∈ ["inv", "tcl", "rtcl"], (Symbol.lookup op).isSome = true) _ known
  | binary known _ _ _ left right => exact .binary known left right
  | chain related _ _ _ left right => exact .chain related left right
  | range _ _ low high => exact .range low high
  | conditional _ _ _ condition yes no => exact .conditional condition yes no
  | quantifier known nonempty present _ _ _ _ domains constraint body =>
    refine .quantifier ?_ present nonempty domains constraint body
    exact (by decide : ∀ q ∈ ["forall", "exists", "exists1", "mu", "lambda"],
      (Symbol.lookup q).map (·.role) = some .quantifier) _ known
  | comprehension _ _ _ _ _ domains predicate result => exact .comprehension (by simp) domains predicate result
  | collection known _ each => exact .collection (by simp at known; rcases known with rfl | rfl | rfl <;> rfl) each
  | tuple _ _ each => exact .tuple each
  | projection _ _ target => exact .projection target
  | application _ _ target args => exact .application target args
  | juxtaposed _ _ target arg => exact .application target (forall_mem_singleton.mpr arg)
  | instantiation _ _ base params => exact .instantiation base params
  | image _ _ relation set => exact .image relation set
  | superscript _ _ raised base super =>
    exact .script base (by simp [raised.isHole_eq_false]) (fun _ => super) (fun present => by cases present)
  | subscript _ lowered _ sub super =>
    exact .script .literal (by simp [lowered.isHole_eq_false]) super fun _ => sub

end Expr

namespace Parse

open Whiteboard.Expr (IsName IsNumeral IsGroup Formed takesSuper)

variable {shaped : Prop} {env : Env} {t : Token} {toks : List Token} {e : Expr} {name : String} {loc : Location}

/-- Every token has the shape of its kind, if the tokens are shaped. -/
def AreShaped (shaped : Prop) (toks : List Token) : Prop := shaped → ∀ t ∈ toks, t.Shaped

theorem AreShaped.suffix {rest : List Token} (sound : AreShaped shaped toks) (behind : rest <:+ toks) :
    AreShaped shaped rest :=
  fun known t member => sound known t (behind.subset member)

theorem AreShaped.rest (sound : AreShaped shaped toks) (env : Env) : AreShaped shaped (env.rest toks) :=
  sound.suffix (env.rest_suffix toks)

theorem Env.Ends.shaped_final (ends : env.Ends) : env.final.Shaped := by
  unfold Token.Shaped Token.ShapedAs
  rw [ends]
  trivial

theorem shaped_peek (ends : env.Ends) (sound : AreShaped shaped toks) (known : shaped) : (env.peek toks).Shaped := by
  rcases env.peek_mem toks with member | final
  · exact sound known _ member
  · rw [final]
    exact ends.shaped_final

theorem shaped_second (ends : env.Ends) (sound : AreShaped shaped toks) (known : shaped) :
    (env.second toks).Shaped := by
  unfold Env.second
  cases remaining : env.rest toks with
  | nil => exact ends.shaped_final
  | cons t after =>
    have member : t ∈ env.rest toks := by rw [remaining]; exact mem_cons_self
    exact sound known t ((env.rest_suffix toks).subset member)

/-! ## Names -/

/-- But for the spelling of `notin` in two words, the words of the table are names. -/
theorem isNameText_of_word : ∀ s ∈ Symbol.table, s.name ≠ "notin" → ∀ word ∈ s.aliases,
    (!Symbol.isBlockSpelling word && Symbol.isWordSpelling word) = true → Token.isNameText word.toList = true := by
  decide +kernel

/-- A prefix operator that was written as a word may serve as a name. -/
theorem isName_literal (shaped : t.Shaped) (operator : t.kind = .operator) (known : isPrefix t.value = true)
    (word : isWordSpelled t = true) : IsName t.literal := by
  have other : t.value ≠ "notin" := by
    intro notin
    rw [notin] at known
    exact absurd known (by decide)
  unfold Token.Shaped Token.ShapedAs at shaped
  rw [operator] at shaped
  rcases shaped word with notin | ⟨s, spelled, named⟩
  · exact absurd notin other
  · rcases Token.mem_table_of_lookup spelled with ⟨member, spelling, plain⟩
    exact isNameText_of_word s member (by rw [named]; exact other) t.literal spelling plain

theorem isName_nameOf (shaped : t.Shaped) (named : isNameToken t = true) : IsName (nameOf t) := by
  unfold isNameToken at named
  unfold nameOf
  split
  next identifier =>
    unfold Token.Shaped Token.ShapedAs at shaped
    rw [eq_of_beq identifier] at shaped
    exact shaped
  next other =>
    simp only [other, Bool.false_or, Bool.and_eq_true, beq_iff_eq] at named
    exact isName_literal shaped named.1.1 named.1.2 named.2

theorem isDigit_of_ascii {c : Char} (low : '0' ≤ c) (high : c ≤ '9') : isDigit c = true := by
  have least : 0x30 ≤ c.toNat := low
  have most : c.toNat ≤ 0x39 := high
  simp [isDigit, digitIntervals, inIntervals, least, most]

theorem formed_of_splitSubscript {base : String} {c : Char} (found : splitSubscript name = some (base, c)) :
    (IsName name → IsName base) ∧ (isLetter c = true ∨ '0' ≤ c ∧ c ≤ '9') := by
  unfold splitSubscript at found
  split at found
  next c' letters reversed =>
    split at found
    next fits =>
      cases found
      simp only [Bool.and_eq_true, Bool.not_eq_true', isEmpty_eq_false_iff, Bool.or_eq_true, decide_eq_true_eq] at fits
      rcases fits with ⟨⟨⟨nonempty, lettered⟩, _⟩, ending⟩
      refine ⟨fun named => ?_, ending⟩
      have whole : name.toList = letters.reverse ++ ['_', c] := by
        rw [← reverse_reverse name.toList, reversed]
        simp
      unfold IsName at named ⊢
      rw [whole] at named
      rw [String.toList_ofList]
      cases front : letters.reverse with
      | nil => exact absurd (reverse_eq_nil_iff.mp front) nonempty
      | cons first others =>
        rw [front] at named
        have inside : ∀ l ∈ others, l ∈ letters := by grind
        simp only [cons_append, Token.isNameText, Bool.and_eq_true] at named ⊢
        refine ⟨named.1, all_eq_true.mpr fun l member => ?_⟩
        simp [Token.isNameChar, Lexeme.isNamePart, all_eq_true.mp lettered l (inside l member)]
    next => cases found
  next => cases found

/-- A name is kept, or split into a name and one further character. -/
theorem formed_nameExpr (named : shaped → IsName name) (loc : Location) : (nameExpr name loc).Formed shaped := by
  unfold nameExpr
  split
  next => exact .name named
  next base c found =>
    rcases formed_of_splitSubscript found with ⟨based, ending⟩
    refine .subscript (fun known => based (named known)) ?_ (fun missing => by cases missing)
    by_cases digit : '0' ≤ c ∧ c ≤ '9'
    · have numeral : isDigit c = true := isDigit_of_ascii digit.1 digit.2
      simp only [digit, decide_true, Bool.and_true, if_true]
      exact .number fun _ => .whole (by simp) (by simp [numeral])
    · have letter : isLetter c = true := ending.resolve_right digit
      have other : ¬ (decide ('0' ≤ c) && decide (c ≤ '9')) = true := by simpa using digit
      rw [if_neg other]
      refine .name fun _ => ?_
      simp [IsName, Token.isNameText, letter, not_digit_of_isLetter letter]

theorem formed_superscript {base sup : Expr} (formed : base.Formed shaped) (raised : sup.Formed shaped) :
    (superscript base sup).Formed shaped := by
  unfold superscript
  split
  next nucleus sub loc =>
    cases formed with
    | superscript _ _ missing => cases missing
    | subscript named lowered => exact .subscript named lowered (fun _ => raised)
  next other =>
    refine .superscript ?_ formed raised
    unfold takesSuper
    split
    next => exact absurd rfl (other _ _ _)
    next => rfl

theorem formed_tupleOf {es : List Expr} (some : es ≠ []) (each : ∀ e ∈ es, e.Formed shaped) (loc : Location) :
    (tupleOf loc es).Formed shaped := by
  unfold tupleOf
  split
  next => exact each _ mem_cons_self
  next several =>
    refine .tuple ?_ each
    match es, some, several with
    | [e], _, several => exact absurd rfl (several e)
    | _ :: _ :: _, _, _ => simp

/-- What climbing starts from: an expression, and the operand it shares with a further relation. -/
def Climbable (shaped : Prop) (left : Expr) (last : Option Expr) : Prop :=
  left.Formed shaped ∧ ∀ middle ∈ last, Latex.lastOperand left = some middle

theorem climbable_joined {prec : Precedence} {assoc : Assoc} {left right : Expr} {last : Option Expr}
    (breakAfter : Bool) (found : env.infixAt t = some (name, prec, assoc)) (given : Climbable shaped left last)
    (formed : right.Formed shaped) :
    Climbable shaped (env.joined t name left last right breakAfter).1
      (env.joined t name left last right breakAfter).2 := by
  rcases given with ⟨leftFormed, ends⟩
  have known : (Symbol.asInfix name).isSome = true := by
    unfold Env.infixAt at found
    rcases Option.bind_eq_some_iff.mp found with ⟨op, _, mapped⟩
    rcases Option.map_eq_some_iff.mp mapped with ⟨p, binds, same⟩
    cases same
    simp [binds]
  unfold Env.joined
  split
  next => exact ⟨.range leftFormed formed, fun _ none => by cases none⟩
  next other =>
    have different : name ≠ "upto" := by simpa using other
    split
    next related =>
      cases last with
      | none =>
        refine ⟨.binary known different leftFormed formed, ?_⟩
        simp [Latex.lastOperand, related]
      | some middle =>
        refine ⟨.chain related (ends middle rfl) leftFormed formed, ?_⟩
        simp [Latex.lastOperand]
    next => exact ⟨.binary known different leftFormed formed, fun _ none => by cases none⟩

/-! ## Groups of bound variables -/

theorem isName_of_moreNames {nested : Bool} {after : List Token} {names : List String} (sound : AreShaped shaped toks)
    (known : shaped) (found : moreNames nested toks = (names, after)) : ∀ n ∈ names, IsName n := by
  induction toks using moreNames.induct nested generalizing names with
  | case1 t u rest newline ih =>
    rw [moreNames, if_pos newline] at found
    exact ih (sound.suffix (suffix_cons _ _)) found
  | case2 t u rest newline comma names' after' more ih =>
    rw [moreNames, if_neg newline, if_pos comma, more] at found
    cases found
    have later : AreShaped shaped rest := sound.suffix ((suffix_cons _ _).trans (suffix_cons _ _))
    have first : IsName (nameOf u) := isName_nameOf (sound known u (by simp)) (Bool.and_eq_true_iff.mp comma).2
    exact forall_mem_cons.mpr ⟨first, ih later more⟩
  | case3 t u rest newline comma =>
    rw [moreNames, if_neg newline, if_neg comma] at found
    cases found
    exact fun _ member => absurd member not_mem_nil
  | case4 toks short =>
    unfold moreNames at found
    split at found
    next t u rest => exact absurd rfl (short t u rest)
    next =>
      cases found
      exact fun _ member => absurd member not_mem_nil

/-- Where names and a colon lie ahead, the names that are taken end before that colon, or before a
comma that a line end separates from the next name. -/
theorem delim_of_namesAhead (nested : env.nested = true) {after : List Token} {names : List String}
    (ahead : namesAhead true false toks = true) (found : moreNames true toks = (names, after)) :
    env.atDelim ":" after = true ∨ env.atDelim "," after = true := by
  have front {t : Token} {rest : List Token} (other : t.kind ≠ .newline) (value : String) :
      env.atDelim value (t :: rest) = t.isDelim value := by
    simp [Env.atDelim, Env.peek, Env.view, nested, other]
  induction toks using moreNames.induct true generalizing names with
  | case1 t u rest newline ih =>
    rw [moreNames, if_pos newline] at found
    have line : t.kind = .newline := by simpa using newline
    rw [namesAhead, if_pos (by simp [line])] at ahead
    exact ih (by simpa using ahead) found
  | case2 t u rest newline comma names' after' more ih =>
    rw [moreNames, if_neg newline, if_pos comma, more] at found
    cases found
    rcases Bool.and_eq_true_iff.mp comma with ⟨separates, named⟩
    have other : u.kind ≠ .newline := by
      intro line
      simp [isNameToken, line] at named
    rw [namesAhead, if_neg (by simpa using newline), if_neg (by simp), if_pos separates, namesAhead,
      if_neg (by simpa using other), if_pos rfl] at ahead
    exact ih (Bool.and_eq_true_iff.mp ahead).2 more
  | case3 t u rest newline comma =>
    rw [moreNames, if_neg newline, if_neg comma] at found
    cases found
    have other : t.kind ≠ .newline := by simpa using newline
    rw [namesAhead, if_neg (by simpa using other), if_neg (by simp)] at ahead
    rw [front other, front other]
    split at ahead
    next separates => exact .inr separates
    next => exact .inl ahead
  | case4 toks short =>
    rcases toks with _ | ⟨t, _ | ⟨u, rest⟩⟩
    · cases ahead
    · cases found
      rw [namesAhead] at ahead
      split at ahead
      next => cases ahead
      next other => grind
    · exact absurd rfl (short t u rest)

theorem namesAhead_rest (nested : env.nested = true) (ahead : namesAhead true true toks = true) :
    namesAhead true false (env.rest toks) = true := by
  induction toks with
  | nil => cases ahead
  | cons t rest ih =>
    by_cases line : t.kind = .newline
    · rw [namesAhead, if_pos (by simp [line])] at ahead
      have skipped : env.rest (t :: rest) = env.rest rest := by
        simp [Env.rest, Env.view, nested, line]
      rw [skipped]
      exact ih (by simpa using ahead)
    · rw [namesAhead, if_neg (by simpa using line), if_pos rfl] at ahead
      have stepped : env.rest (t :: rest) = rest := by
        simp [Env.rest, Env.view, nested, line]
      rw [stepped]
      exact (Bool.and_eq_true_iff.mp ahead).2

theorem atDelim_unique {value other : String} (marked : env.atDelim value toks = true) (different : value ≠ other) :
    env.atDelim other toks = false := by
  simp only [Env.atDelim, Token.isDelim, Token.is, Bool.and_eq_true, beq_iff_eq] at marked ⊢
  rw [marked.2]
  simp [different]

/-! ## Every rule keeps the shape -/

/-- What the rules start from. -/
def Goal.Starts (shaped : Prop) (env : Env) (toks : List Token) : Goal → Prop
  | .climb _ left last => Climbable shaped left last
  | .appliedGroup _ group => group.Formed shaped
  | .suffixes _ base => base.Formed shaped
  | .quantified q _ => q.value ∈ ["forall", "exists", "exists1", "mu", "lambda"]
  | .comprehension _ _ => env.nested = true ∧ namesAhead true true toks = true
  | _ => True

def Value.Formed (shaped : Prop) : Value → Prop
  | .expr e => e.Formed shaped
  | .list es => ∀ e ∈ es, e.Formed shaped
  | .groups gs => (∀ b ∈ gs, IsGroup shaped b) ∧ ∀ b ∈ gs, b.domain.isHole = false → b.domain.Formed shaped

/-- What is found.  A clause may be missing.  Of the groups of a comprehension the first has a domain,
unless they end in a place where the comprehension cannot go on. -/
def Goal.Forms (shaped : Prop) (env : Env) (toks rest : List Token) (goal : Goal) (v : Value) : Prop :=
  match goal with
  | .clause present .expr =>
    (∀ e, v = .expr e → e.isHole = false → e.Formed shaped) ∧ if present then v.Formed shaped else rest = toks
  | .clause present _ => v.Formed shaped ∧ (present = false → rest = toks)
  | .elements => v.Formed shaped ∧ v ≠ .list []
  | .bindings =>
    v.Formed shaped ∧ v ≠ .groups [] ∧ (env.nested = true → namesAhead true true toks = true →
      (∀ b bs, v = .groups (b :: bs) → b.domain.isHole = false) ∨ env.atDelim "," rest = true)
  | _ => v.Formed shaped

theorem isPrefix_of_leadAt (lead : env.leadAt toks = .operator) : isPrefix (env.peek toks).value = true := by
  unfold Env.leadAt at lead
  simp only at lead
  split at lead
  · cases lead
  · grind

theorem isName_of_leadAt (ends : env.Ends) (sound : AreShaped shaped toks) (known : shaped)
    (lead : env.leadAt toks = .word) : IsName (env.peek toks).literal := by
  unfold Env.leadAt at lead
  simp only at lead
  split at lead
  · cases lead
  · split at lead
    · cases lead
    · split at lead
      next operator =>
        rcases Bool.and_eq_true_iff.mp operator with ⟨kind, role⟩
        split at lead
        next word =>
          exact isName_literal (shaped_peek ends sound known) (eq_of_beq kind) role (Bool.and_eq_true_iff.mp word).1
        next => cases lead
      next => split at lead <;> cases lead

theorem kind_of_formAt : (env.formAt toks = some .number → (env.peek toks).kind = .number) ∧
      (env.formAt toks = some .name → (env.peek toks).kind = .identifier) ∧
      (env.formAt toks = some .comprehension → namesAhead true true (env.rest toks) = true) := by
  unfold Env.formAt
  simp only
  split
  · simp [*]
  · simp [*]
  · grind
  · split
    · simp
    · split <;> simp
  · simp

theorem known_of_formAt (form : env.formAt toks = some .binder) :
    (env.peek toks).value ∈ ["forall", "exists", "exists1", "mu", "lambda"] := by
  unfold Env.formAt at form
  simp only at form
  split at form
  · cases form
  · cases form
  · repeat (split at form <;> try cases form)
  · grind
  · cases form

theorem field_of_suffixAt (ends : env.Ends) {juxtapose : Bool} {base : Expr} (sound : AreShaped shaped toks)
    (known : shaped) (suffix : env.suffixAt juxtapose base toks = some .field) :
    IsName (env.second toks).value ∨ IsNumeral (env.second toks).value := by
  have follows : isField (env.second toks) = true := by
    unfold Env.suffixAt at suffix
    simp only at suffix
    repeat' split at suffix
    all_goals cases suffix
    simp_all
  have shaped := shaped_second ends sound known
  unfold isField at follows
  simp only [Bool.and_eq_true, Bool.or_eq_true, beq_iff_eq] at follows
  unfold Token.Shaped Token.ShapedAs at shaped
  rcases follows.1 with identifier | number
  · rw [identifier] at shaped
    exact .inl shaped
  · rw [number] at shaped
    exact .inr shaped

theorem formed_quantifierOf {q : Token} {gs : List (Binding Expr)} {such body : Expr} {barred spotted : Bool}
    {toks afterBar rest : List Token} (known : q.value ∈ ["forall", "exists", "exists1", "mu", "lambda"])
    (some : gs ≠ []) (groups : (Value.groups gs).Formed shaped) (marked : (barred || spotted) = true)
    (suchForms : (Goal.clause barred .expr).Forms shaped env toks afterBar (.expr such))
    (bodyForms : (Goal.clause spotted .expr).Forms shaped env afterBar rest (.expr body)) :
    (quantifierOf q spotted gs such body loc).Formed shaped := by
  have said {present : Bool} {e : Expr} {toks rest : List Token}
      (forms : (Goal.clause present .expr).Forms shaped env toks rest (.expr e)) (there : present = true) :
      e.Formed shaped := by
    subst there
    exact forms.2
  unfold quantifierOf
  split
  next =>
    refine .quantifier known some ?_ groups.1 groups.2 (suchForms.1 such rfl) (bodyForms.1 body rfl)
    rcases Bool.or_eq_true_iff.mp marked with bar | spot
    · simp [(said suchForms bar).isHole_eq_false]
    · simp [(said bodyForms spot).isHole_eq_false]
  next other =>
    have formed := said suchForms (by simp_all)
    exact .quantifier known some (by simp [formed.isHole_eq_false]) groups.1 groups.2
      (fun missing => by cases missing) fun _ => formed

/-- The first group of a comprehension has a domain: a comma behind it would not close the set. -/
theorem formed_comprehension {gs : List (Binding Expr)} {predicate result : Expr}
    {afterGroups afterBar rest : List Token} (starts : env.nested = true ∧ namesAhead true true toks = true)
    (groups : Goal.bindings.Forms shaped env toks afterGroups (.groups gs))
    (such : (Goal.clause (env.atDelim "|" afterGroups) .expr).Forms shaped env afterGroups afterBar (.expr predicate))
    (said : (Goal.clause (isSpot (env.peek afterBar)) .expr).Forms shaped env afterBar rest (.expr result))
    (closed : env.atDelim "\x7d" rest = true) : (Expr.comprehension gs predicate result loc).Formed shaped := by
  rcases groups with ⟨⟨named, domains⟩, some, first⟩
  cases gs with
  | nil => exact absurd rfl some
  | cons b others =>
    refine .comprehension ?_ named domains (such.1 predicate rfl) (said.1 result rfl)
    rcases first starts.1 starts.2 with typed | comma
    · exact typed b others rfl
    · have noBar : env.atDelim "|" afterGroups = false := atDelim_unique comma (by decide)
      have same : afterBar = afterGroups := by simpa [noBar] using such.2
      subst same
      have noSpot : isSpot (env.peek afterBar) = false := by
        have ats : env.atDelim "@" afterBar = false := atDelim_unique comma (by decide)
        have points : env.atDelim "." afterBar = false := atDelim_unique comma (by decide)
        unfold Env.atDelim at ats points
        simp [isSpot, ats, points]
      have same : rest = afterBar := by simpa [noSpot] using said.2
      subst same
      rw [atDelim_unique comma (by decide)] at closed
      cases closed

/-- One group: names, and a domain that may be missing. -/
theorem isGroup_of_names (ends : env.Ends) {afterNames : List Token} {others : List String} {domain : Expr}
    (sound : AreShaped shaped toks) (named : isNameToken (env.peek toks) = true)
    (more : moreNames env.nested (env.rest toks) = (others, afterNames)) :
    IsGroup shaped ⟨nameOf (env.peek toks) :: others, domain, loc⟩ :=
  ⟨cons_ne_nil _ _, fun known => forall_mem_cons.mpr ⟨isName_nameOf (shaped_peek ends sound known) named,
    isName_of_moreNames (sound.rest env) known more⟩⟩

/-- Where a comprehension begins, the first names have a domain or a comma comes after them. -/
theorem typed_or_comma {afterNames rest : List Token} {others : List String} {domain : Expr}
    (nested : env.nested = true) (ahead : namesAhead true true toks = true)
    (more : moreNames env.nested (env.rest toks) = (others, afterNames))
    (clause : (Goal.clause (env.atDelim ":" afterNames) .expr).Forms shaped (env.withProduct true) afterNames rest
      (.expr domain)) :
    domain.isHole = false ∨
      (env.atDelim "," afterNames = true ∧ rest = afterNames ∧ env.atDelim ":" afterNames = false) := by
  rw [nested] at more
  cases typed : env.atDelim ":" afterNames with
  | true =>
    rw [typed] at clause
    exact .inl (Formed.isHole_eq_false clause.2)
  | false =>
    rw [typed] at clause
    rcases delim_of_namesAhead nested (namesAhead_rest nested ahead) more with colon | comma
    · rw [colon] at typed
      cases typed
    · exact .inr ⟨comma, clause.2, rfl⟩

/-- Everything that is read has the shape. -/
theorem Reads.formed {env goal toks v rest} (reads : Reads env goal toks v rest) (ends : env.Ends)
    (sound : AreShaped shaped toks) (starts : goal.Starts shaped env toks) : goal.Forms shaped env toks rest v := by
  induction reads with
  | binary first _ operand climb =>
    exact climb ends (sound.suffix first.suffix) ⟨operand ends sound trivial, fun _ none => by cases none⟩
  | stop _ => exact starts.1
  | @climb env least left last toks name prec assoc right mid v rest found _ first _ formed ih =>
    have after := (sound.rest env).suffix (env.continuation_suffix _)
    exact ih ends (after.suffix first.suffix) (climbable_joined _ found starts (formed ends after trivial))
  | prefixed found _ ih =>
    rcases Lead.cases_prefixed found with ⟨_, rfl, rfl⟩ | ⟨_, rfl, rfl⟩ | ⟨lead, rfl, rfl⟩
    · exact .prefixed (by decide) (ih ends (sound.rest _) trivial)
    · exact .prefixed (by decide) (ih ends (sound.rest _) trivial)
    · exact .prefixed (isPrefix_of_leadAt lead) (ih ends (sound.rest _) trivial)
  | word lead _ ih =>
    exact ih ends (sound.rest _) (.name fun known => isName_of_leadAt ends sound known lead)
  | group _ first second _ primary applied ih =>
    have afterGroup := sound.suffix first.suffix
    exact ih ends (afterGroup.suffix second.suffix) (applied ends afterGroup (primary ends sound trivial))
  | atom _ first _ primary ih => exact ih ends (sound.suffix first.suffix) (primary ends sound trivial)
  | groupCall _ _ ih => exact .application starts (ih ends sound trivial)
  | groupArgument _ _ ih => exact .juxtaposed starts (ih ends sound trivial)
  | groupAlone _ => exact starts
  | call _ first _ args ih =>
    exact ih ends (sound.suffix first.suffix) (.application starts (args ends sound trivial))
  | parameters _ first _ params ih =>
    exact ih ends (sound.suffix first.suffix) (.instantiation starts (params ends sound trivial))
  | field suffix _ ih =>
    exact ih ends (sound.suffix ((tail_suffix _).trans (Env.rest_suffix _ _)))
      (.projection (fun known => field_of_suffixAt ends sound known suffix) starts)
  | closure _ _ ih =>
    refine ih ends (sound.rest _) (.postfixed ?_ starts)
    unfold closureName
    split
    · simp
    · split <;> simp
  | super _ first _ sup ih =>
    exact ih ends ((sound.rest _).suffix first.suffix) (formed_superscript starts (sup ends (sound.rest _) trivial))
  | image _ first _ _ set ih =>
    exact ih ends (((sound.rest _).suffix first.suffix).rest _) (.image starts (set ends (sound.rest _) trivial))
  | argument _ first _ arg ih =>
    exact ih ends (sound.suffix first.suffix) (.juxtaposed starts (arg ends sound trivial))
  | bare _ => exact starts
  | listedNone _ => exact fun _ member => absurd member not_mem_nil
  | listed _ _ _ ih => exact (ih ends (sound.rest _) trivial).1
  | element first _ head others =>
    have later := others ends (sound.suffix first.suffix) trivial
    exact ⟨forall_mem_cons.mpr ⟨head ends sound trivial, later.1⟩, fun none => by cases none⟩
  | number form =>
    refine .number fun known => ?_
    have shaped := shaped_peek ends sound known
    unfold Token.Shaped Token.ShapedAs at shaped
    rw [kind_of_formAt.1 form] at shaped
    exact shaped
  | name form =>
    refine formed_nameExpr (fun known => ?_) _
    have shaped := shaped_peek ends sound known
    unfold Token.Shaped Token.ShapedAs at shaped
    rw [kind_of_formAt.2.1 form] at shaped
    exact shaped
  | grouped _ _ _ ih =>
    rcases ih ends (sound.rest _) trivial with ⟨each, some⟩
    exact formed_tupleOf (fun none => some (by rw [none])) each _
  | comprehended form _ ih =>
    exact ih ends (sound.rest _) ⟨rfl, kind_of_formAt.2.2 form⟩
  | @collected env toks form closing kind es rest _ collects _ ih =>
    refine .collection ?_ (ih ends sound trivial)
    cases form <;> cases collects <;> simp
  | bound form _ ih => exact ih ends (sound.rest _) (known_of_formAt form)
  | @choice env _ _ _ _ _ _ _ _ first _ second _ _ condition yes no =>
    have afterIf := sound.rest env
    have afterThen := (afterIf.suffix first.suffix).rest env
    have afterElse := (afterThen.suffix second.suffix).rest env
    exact .conditional (condition ends afterIf trivial) (yes ends afterThen trivial) (no ends afterElse trivial)
  | comprehension first second _ closed groups predicate result =>
    have afterGroups := sound.suffix first.suffix
    exact formed_comprehension starts (groups ends sound trivial) (predicate ends afterGroups trivial)
      (result ends (afterGroups.suffix second.suffix) trivial) closed
  | quantified first second _ marked groups such body =>
    have afterGroups := sound.suffix first.suffix
    rcases groups ends sound trivial with ⟨formed, some, _⟩
    exact formed_quantifierOf starts (fun none => some (by rw [none])) formed marked (such ends afterGroups trivial)
      (body ends (afterGroups.suffix second.suffix) trivial)
  | @groups env toks others domain gs afterNames afterDomain rest named more first _ ih later =>
    have afterNames := (sound.rest env).suffix (suffix_of_moreNames more)
    have clause := ih ends afterNames trivial
    rcases later ends (afterNames.suffix first.suffix) trivial with ⟨⟨groups, domains⟩, alone⟩
    refine ⟨⟨forall_mem_cons.mpr ⟨isGroup_of_names ends sound named more, groups⟩,
      forall_mem_cons.mpr ⟨clause.1 domain rfl, domains⟩⟩, by simp, fun nested ahead => ?_⟩
    rcases typed_or_comma nested ahead more clause with typed | ⟨comma, rfl, untyped⟩
    · exact .inl (by rintro b bs ⟨⟩; exact typed)
    · rw [alone (by rw [untyped, atDelim_unique comma (by decide)]; simp)]
      exact .inr comma
  | @absent env part toks =>
    cases part with
    | expr => exact ⟨(by rintro e ⟨⟩ present; cases present), rfl⟩
    | elements => exact ⟨forall_mem_nil _, fun _ => rfl⟩
    | groups => exact ⟨⟨forall_mem_nil _, forall_mem_nil _⟩, fun _ => rfl⟩
  | @present env part toks v rest _ ih =>
    have formed := ih ends (sound.rest _)
    cases part with
    | expr => exact ⟨by rintro e rfl _; exact formed trivial, formed trivial⟩
    | elements | groups => exact ⟨(formed trivial).1, fun impossible => by cases impossible⟩

theorem formed_of_ofTokens {file : String} (read : Expr.ofTokens file toks = .ok e) : e.Formed False := by
  rcases reads_of_ofTokens read with ⟨_, reads, _⟩
  exact reads.formed (Env.ends_envOf file toks) False.elim trivial

end Parse

theorem mapError_eq_ok {ε ε' α : Type} {f : ε → ε'} {outcome : Except ε α} {a : α}
    (succeeds : outcome.mapError f = .ok a) : outcome = .ok a := by
  cases outcome with
  | error e => cases succeeds
  | ok b =>
    cases succeeds
    rfl

end Whiteboard
