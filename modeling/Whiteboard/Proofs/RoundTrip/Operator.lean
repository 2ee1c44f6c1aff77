import Whiteboard.Proofs.Expr.Follow
import Whiteboard.Proofs.Latex.Source

namespace Whiteboard
namespace Latex

/-!
# Operators read back

The symbol table gives every level of infix operators one way of grouping.  With that, an operand
that the printed formula leaves without parentheses is an operand again when the formula is read:
the operators in it bind more tightly than the one around it, or equally and on the side towards
which it groups.
-/

open Parse

/-! ## Levels of the symbol table -/

/-- The side on which the operators of a level group. -/
def groupingAt (level : Precedence) : Assoc :=
  if level = Precedence.implication ∨ level = Precedence.arrow then .right
  else if level = Precedence.relation ∨ level = Precedence.range then .none
  else .left

/-- What the levels of the infix operators have in common. -/
structure Leveled (op : String) (prec : Precedence) (assoc : Assoc) : Prop where
  above : Precedence.conditional < prec
  below : prec < Precedence.prefixed
  not_negation : prec ≠ Precedence.negation
  grouping : assoc = groupingAt prec
  relation : Symbol.isRelation op = true ↔ prec = Precedence.relation
  range : op = "upto" ↔ prec = Precedence.range

theorem table_leveled : ∀ s ∈ Symbol.table, s.role = .infixOp ∨ s.role = .relation →
    (Precedence.conditional < s.prec ∧ s.prec < Precedence.prefixed ∧ s.prec ≠ Precedence.negation ∧
      s.assoc = groupingAt s.prec) ∧
    (s.role = .relation ↔ s.prec = Precedence.relation) ∧
    (s.name = "upto" ↔ s.prec = Precedence.range) := by
  decide

variable {prec : Precedence} {assoc : Assoc}

theorem leveled_of_asInfix {op : String}
    (binds : Symbol.asInfix op = some (prec, assoc)) : Leveled op prec assoc := by
  unfold Symbol.asInfix at binds
  split at binds
  next s found =>
    have member : s ∈ Symbol.table := List.mem_of_find?_eq_some found
    have named : s.name = op := eq_of_beq (List.find?_some found :)
    split at binds
    next plays =>
      cases binds
      obtain ⟨⟨above, below, different, grouping⟩, relation, range⟩ := table_leveled s member (by simpa using plays)
      refine ⟨above, below, different, grouping, ?_, ?_⟩
      · rw [← relation, Symbol.isRelation, found]
        simp
      · rw [← named, range]
    next => cases binds
  next => cases binds

/-- Relations bind alike and do not group. -/
theorem asInfix_of_isRelation {op : String} (related : Symbol.isRelation op = true) :
    Symbol.asInfix op = some (Precedence.relation, .none) := by
  unfold Symbol.isRelation at related
  split at related
  next s found =>
    have role : s.role = .relation := eq_of_beq related
    have member : s ∈ Symbol.table := List.mem_of_find?_eq_some found
    obtain ⟨⟨_, _, _, grouping⟩, relation, _⟩ := table_leveled s member (.inr role)
    have level := relation.mp role
    rw [level] at grouping
    simp [Symbol.asInfix, found, role, level, grouping, groupingAt, Precedence.implication,
      Precedence.arrow, Precedence.relation]
  next => cases related

/-! ## How tightly an expression holds together -/

/-- Operators that bind more loosely than this may follow the expression. -/
def tightness : Expr → Precedence
  | .binary op _ _ _ _ chained _ =>
    if chained then rightLeast Precedence.relation .none
    else ((Symbol.asInfix op).map fun p => rightLeast p.1 p.2).getD Precedence.lowest
  | .range .. => rightLeast Precedence.range .none
  | e => precedence e

theorem le_rightLeast (prec : Precedence) (assoc : Assoc) : prec ≤ rightLeast prec assoc := by
  unfold rightLeast
  split <;> lia

theorem precedence_le_tightness (e : Expr) : precedence e ≤ tightness e := by
  cases e with
  | binary op surface left right breakAfter chained loc =>
    cases chained with
    | true => exact le_rightLeast Precedence.relation .none
    | false =>
      cases binds : Symbol.asInfix op with
      | none => simp [precedence, tightness, binds]
      | some p =>
        simp only [precedence, tightness, binds]
        exact le_rightLeast p.1 p.2
  | range low high loc => exact le_rightLeast Precedence.range .none
  | _ => exact Int.le_refl _

/-- The expression is put together by infix operators. -/
def joins : Expr → Bool
  | .binary .. | .range .. => true
  | _ => false

theorem precedence_binary {op surface : String} {left right : Expr} {breakAfter : Bool} {loc : Location}
    (binds : Symbol.asInfix op = some (prec, assoc)) :
    precedence (.binary op surface left right breakAfter false loc) = prec := by
  simp [precedence, binds]

theorem tightness_binary {op surface : String} {left right : Expr} {breakAfter : Bool} {loc : Location}
    (binds : Symbol.asInfix op = some (prec, assoc)) :
    tightness (.binary op surface left right breakAfter false loc) = rightLeast prec assoc := by
  simp [tightness, binds]

section
variable {e : Expr} {op : String} (plain : Plain e) (binds : Symbol.asInfix op = some (prec, assoc))
include plain binds

/-- A plain expression on the level of an infix operator is put together by such an operator. -/
theorem Plain.tightness_of_level (level : precedence e = prec) : tightness e = rightLeast prec assoc := by
  obtain ⟨above, below, different, grouping, _, _⟩ := leveled_of_asInfix binds
  cases plain with
  | @binary op' surface left right breakAfter loc known _ _ _ =>
    obtain ⟨⟨prec', assoc'⟩, binds'⟩ := Option.isSome_iff_exists.mp known
    rw [precedence_binary binds'] at level
    rw [tightness_binary binds', grouping, (leveled_of_asInfix binds').grouping, level]
  | chain =>
    rw [grouping, ← level]
    rfl
  | range =>
    rw [grouping, ← level]
    rfl
  | not => exact absurd level.symm different
  | conditional =>
    rw [← level] at above
    exact absurd above (Int.lt_irrefl _)
  | minus =>
    rw [← level] at below
    exact absurd below (Int.lt_irrefl _)
  | _ =>
    have atom : Precedence.atom = prec := level
    rw [← atom] at below
    exact absurd below (by decide)

/-- An operand on the left without parentheses ends before the operator. -/
theorem Plain.lt_tightness (bare : needsParens (precedence e) prec assoc false = false) :
    prec ≤ precedence e ∧ prec < tightness e := by
  have larger := precedence_le_tightness e
  unfold needsParens at bare
  split at bare
  next => cases bare
  next notLooser =>
    split at bare
    next tighter => exact ⟨Int.le_of_lt tighter, Int.lt_of_lt_of_le tighter larger⟩
    next notTighter =>
      have level : precedence e = prec := Int.le_antisymm (Int.not_lt.mp notTighter) (Int.not_lt.mp notLooser)
      rw [plain.tightness_of_level binds level, level]
      cases assoc with
      | left => exact ⟨Int.le_refl _, Int.lt_succ prec⟩
      | right => cases bare
      | none => cases bare

end

/-- An operand on the right without parentheses is read to its end. -/
theorem rightLeast_le_precedence {e : Expr} (bare : needsParens (precedence e) prec assoc true = false) :
    rightLeast prec assoc ≤ precedence e := by
  unfold needsParens at bare
  unfold rightLeast
  split at bare
  next => cases bare
  next notLooser => grind

end Latex
end Whiteboard
