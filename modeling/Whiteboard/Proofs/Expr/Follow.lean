import Whiteboard.Proofs.Expr.Reads

namespace Whiteboard

open List
namespace Parse

/-!
# What may follow an expression

In a row of tokens that stand apart, an expression is followed by the end, by a delimiter that
closes or separates, by a keyword, or by an infix operator.  None of these is taken for an
argument, a closure or another suffix, so the expression ends where it should; whether an infix
operator goes on with it is a matter of binding powers alone.
-/

/-- The delimiters that may stand after an expression, those that close a bracket first. -/
def closers : List String := [")", "\x7d", "⟩", "]]"]

def separators : List String := [",", ";", "|", "@"]

/-- The token ends whatever stands before it. -/
def Closes (t : Token) : Prop := t.kind = .endOfInput ∨ (t.kind = .delimiter ∧ t.value ∈ closers)

/-- The token may stand after an expression. -/
def MayFollow (t : Token) : Prop :=
  Closes t ∨ (t.kind = .delimiter ∧ t.value ∈ separators) ∨ t.kind = .keyword ∨
    (t.kind = .operator ∧ (Symbol.asInfix t.value).isSome = true ∧ t.spaceBefore = true)

/-- Tokens with spaces between them and no line ends. -/
def Apart (toks : List Token) : Prop := ∀ t ∈ toks, t.spaceBefore = true ∧ t.kind ≠ .newline

variable {env : Env} {final t : Token} {toks rest : List Token} {prec limit : Precedence} {assoc : Assoc}

theorem Apart.nil : Apart [] := by
  intro t member
  cases member

theorem Apart.append (first : Apart toks) (second : Apart rest) : Apart (toks ++ rest) := by
  intro t member
  exact (mem_append.mp member).elim (first t) (second t)

theorem Apart.cons (apart : Apart rest) (first : t.spaceBefore = true ∧ t.kind ≠ .newline) : Apart (t :: rest) := by
  intro u member
  rcases mem_cons.mp member with rfl | later
  · exact first
  · exact apart u later

theorem Apart.of_tail_append {first second : List Token} (apart : Apart (first ++ second).tail)
    (nonempty : first ≠ []) : Apart first.tail ∧ Apart second := by
  rw [tail_append_of_ne_nil nonempty] at apart
  exact ⟨fun t member => apart t (mem_append_left _ member),
    fun t member => apart t (mem_append_right _ member)⟩

theorem Apart.tail (apart : Apart toks) : Apart toks.tail := fun t member => apart t (mem_of_mem_tail member)

theorem Apart.of_cons (apart : Apart (t :: rest)) : Apart rest := fun u member => apart u (mem_cons_of_mem t member)

/-- What follows an expression whose operators all bind at least as tightly as `limit`; in tail
position nothing goes on before the next closing bracket. -/
structure Follows (final : Token) (limit : Precedence) (tail : Bool) (rest : List Token) : Prop where
  apart : Apart rest
  next : MayFollow (rest.headD final)
  stops : ∀ prec assoc, (rest.headD final).kind = .operator →
    Symbol.asInfix (rest.headD final).value = some (prec, assoc) → prec < limit
  closed : tail = true → Closes (rest.headD final)

theorem Closes.kind_ne_operator (closes : Closes t) : t.kind ≠ .operator := by
  rcases closes with ended | ⟨delimiter, _⟩
  · simp [ended]
  · simp [delimiter]

/-- A closing token may follow any expression. -/
theorem Follows.of_closes (apart : Apart rest) (closes : Closes (rest.headD final)) (limit : Precedence) (tail : Bool) :
    Follows final limit tail rest where
  apart := apart
  next := .inl closes
  stops := fun _ _ operator => absurd operator closes.kind_ne_operator
  closed := fun _ => closes

/-- A separator may follow any expression that is not in tail position. -/
theorem Follows.of_separator (apart : Apart (t :: rest)) (delimiter : t.kind = .delimiter)
    (separates : t.value ∈ separators) (limit : Precedence) :
    Follows final limit false (t :: rest) where
  apart := apart
  next := .inr (.inl ⟨delimiter, separates⟩)
  stops := by grind
  closed := by simp

theorem Follows.of_keyword (apart : Apart (t :: rest)) (keyword : t.kind = .keyword) (limit : Precedence) :
    Follows final limit false (t :: rest) where
  apart := apart
  next := .inr (.inr (.inl keyword))
  stops := by grind
  closed := by simp

/-- An operator may follow an expression whose operators bind more tightly. -/
theorem Follows.of_operator (apart : Apart (t :: rest)) (operator : t.kind = .operator)
    (binds : Symbol.asInfix t.value = some (prec, assoc)) (looser : prec < limit) :
    Follows final limit false (t :: rest) where
  apart := apart
  next := .inr (.inr (.inr ⟨operator, by simp [binds], (apart t mem_cons_self).1⟩))
  stops := by grind
  closed := by simp

theorem Follows.mono {limit' : Precedence} {tail tail' : Bool} (follows : Follows final limit tail rest)
    (larger : limit ≤ limit') (lower : tail' = true → tail = true) : Follows final limit' tail' rest where
  apart := follows.apart
  next := follows.next
  stops := fun prec assoc operator binds =>
    Int.lt_of_lt_of_le (follows.stops prec assoc operator binds) larger
  closed := fun tailed => follows.closed (lower tailed)

/-! ## The cursor on tokens that stand apart -/

namespace Env

theorem view_cons (visible : t.kind ≠ .newline) (toks : List Token) : env.view (t :: toks) = t :: toks := by
  unfold view
  split
  · simp [visible]
  · rfl

theorem peek_cons (visible : t.kind ≠ .newline) (toks : List Token) : env.peek (t :: toks) = t := by
  rw [peek, view_cons visible]
  rfl

theorem rest_cons (visible : t.kind ≠ .newline) (toks : List Token) : env.rest (t :: toks) = toks := by
  rw [rest, view_cons visible]
  rfl

theorem peek_apart (apart : Apart rest) : env.peek rest = rest.headD env.final := by
  cases rest with
  | nil =>
    unfold peek view
    split <;> rfl
  | cons t others => exact peek_cons (apart t mem_cons_self).2 others

end Env

/-! ## An expression ends where it should -/

theorem Closes.atDelim_eq_false (apart : Apart rest) (closes : Closes (rest.headD env.final)) (value : String)
    (other : value ∉ closers) : env.atDelim value rest = false := by
  rw [Env.atDelim, Env.peek_apart apart, Token.isDelim, Token.is]
  rcases closes with ended | ⟨delimiter, member⟩
  · rw [ended]
    rfl
  · grind

theorem atDelim_cons {value : String} (kind : t.kind = .delimiter) (same : t.value = value) :
    env.atDelim value (t :: rest) = true := by
  have visible : t.kind ≠ .newline := by simp [kind]
  simp [Env.atDelim, Env.peek_cons visible, Token.isDelim, Token.is, kind, same]

theorem atDelim_cons_other {value value' : String} (kind : t.kind = .delimiter) (same : t.value = value)
    (other : value ≠ value') : env.atDelim value' (t :: rest) = false := by
  have visible : t.kind ≠ .newline := by simp [kind]
  simp [Env.atDelim, Env.peek_cons visible, Token.isDelim, Token.is, kind, same, other]

theorem not_startsOperand (env : Env) (follows : MayFollow t) : env.startsOperand t = false := by
  unfold Env.startsOperand
  rcases follows with (ended | ⟨delimiter, closes⟩) | ⟨delimiter, separates⟩ | keyword | ⟨operator, binds, _⟩
  · simp [ended]
  · simp only [closers, mem_cons, not_mem_nil, or_false] at closes
    rcases closes with value | value | value | value <;> simp [delimiter, value]
  · simp only [separators, mem_cons, not_mem_nil, or_false] at separates
    rcases separates with value | value | value | value <;> simp [delimiter, value]
  · simp [keyword]
  · simp only [operator, isPrefix]
    unfold Symbol.asInfix at binds
    cases found : Symbol.lookup t.value with
    | none => rfl
    | some s =>
      rw [found] at binds
      cases role : s.role <;> simp_all

/-- Nothing that may follow an expression is taken for a part of a suffix. -/
theorem MayFollow.no_suffix (follows : MayFollow t) :
    t.isDelim "(" = false ∧ t.isDelim "[" = false ∧ t.isDelim "." = false ∧ t.isDelim "(|" = false ∧
      t.isOp "inv" = false ∧ t.isOp "sup" = false ∧
      ((t.isOp "plus" || t.isOp "times") && !t.spaceBefore) = false := by
  have delimited {values : List String} {t : Token} (delimiter : t.kind = .delimiter) (member : t.value ∈ values)
      (others : "(" ∉ values ∧ "[" ∉ values ∧ "." ∉ values ∧ "(|" ∉ values) :
      t.isDelim "(" = false ∧ t.isDelim "[" = false ∧ t.isDelim "." = false ∧ t.isDelim "(|" = false := by
    obtain ⟨round, square, point, image⟩ := others
    simp only [Token.isDelim, Token.is, delimiter, beq_self_eq_true, Bool.true_and, beq_eq_false_iff_ne, ne_eq]
    refine ⟨?_, ?_, ?_, ?_⟩ <;> (intro value; rw [value] at member; contradiction)
  rcases follows with (ended | ⟨delimiter, closes⟩) | ⟨delimiter, separates⟩ | keyword | ⟨operator, binds, spaced⟩
  · simp [Token.isDelim, Token.isOp, Token.is, ended]
  · obtain ⟨round, square, point, image⟩ := delimited delimiter closes (by decide)
    simp [round, square, point, image, Token.isOp, Token.is, delimiter]
  · obtain ⟨round, square, point, image⟩ := delimited delimiter separates (by decide)
    simp [round, square, point, image, Token.isOp, Token.is, delimiter]
  · simp [Token.isDelim, Token.isOp, Token.is, keyword]
  · have other (name : String) (unknown : (Symbol.asInfix name).isSome = false) : t.value ≠ name := by
      intro same
      rw [same, unknown] at binds
      cases binds
    simp [Token.isDelim, Token.isOp, Token.is, operator, spaced, other "inv" (by decide), other "sup" (by decide)]

theorem MayFollow.suffixAt_eq_none (follows : MayFollow (env.peek rest)) (juxtapose : Bool) (base : Expr) :
    env.suffixAt juxtapose base rest = none := by
  obtain ⟨round, square, point, image, inverse, super, closure⟩ := follows.no_suffix
  simp [Env.suffixAt, round, square, point, image, inverse, super, closure, not_startsOperand env follows]

theorem Follows.suffixAt_eq_none {tail : Bool} (follows : Follows env.final limit tail rest) (juxtapose : Bool)
    (base : Expr) : env.suffixAt juxtapose base rest = none := by
  apply MayFollow.suffixAt_eq_none
  rw [Env.peek_apart follows.apart]
  exact follows.next

theorem Follows.groupSuffixAt_eq_none {tail : Bool} (follows : Follows env.final limit tail rest) (juxtapose : Bool)
    (group : Expr) : env.groupSuffixAt juxtapose group rest = none := by
  obtain ⟨round, _⟩ := follows.next.no_suffix
  have starts := not_startsOperand env follows.next
  rw [← Env.peek_apart follows.apart] at round starts
  simp [Env.groupSuffixAt, round, starts]

/-- No operator after the expression binds as tightly as `limit`. -/
theorem Follows.infixAt_lt {tail : Bool} (follows : Follows env.final limit tail rest) {name : String}
    (found : env.infixAt (env.peek rest) = some (name, prec, assoc)) : prec < limit := by
  rw [Env.peek_apart follows.apart] at found
  unfold Env.infixAt at found
  obtain ⟨op, named, mapped⟩ := Option.bind_eq_some_iff.mp found
  obtain ⟨⟨prec', assoc'⟩, binds, same⟩ := Option.map_eq_some_iff.mp mapped
  cases same
  split at named
  next operator =>
    cases named
    exact follows.stops _ _ (eq_of_beq operator) binds
  next =>
    split at named
    next product =>
      -- a name does not follow an expression
      have identifier : (rest.headD env.final).kind = .identifier := by simp_all
      rcases follows.next with (ended | ⟨delimiter, _⟩) | ⟨delimiter, _⟩ | keyword | ⟨operator, _⟩ <;> simp_all
    next => cases named

end Parse
end Whiteboard
