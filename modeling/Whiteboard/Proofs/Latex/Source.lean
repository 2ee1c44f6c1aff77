import Whiteboard.Proofs.Expr.Content
import Whiteboard.Proofs.Expr.Reads
import Whiteboard.Proofs.Latex.Layout

namespace Whiteboard
namespace Latex

/-!
# Formulas written in the notation

Every mark of a formula has a spelling in the notation: a name is written as itself, an operator
with its canonical name, a bracket with the delimiter of its family.  `Spells toks ms` says that
the tokens `toks` write the marks `ms`; literal texts and places of the tokens are left open.
-/

/-- The class and the value of a token. -/
abbrev Spelling := Token.Kind × String

def spellingOf (t : Token) : Spelling := (t.kind, t.value)

namespace Bracket

/-- The delimiters of a bracket in the notation; a superscript is written after its operator, and
subscripts are part of a name. -/
def source : Bracket → List Spelling × List Spelling
  | round => ([(.delimiter, "(")], [(.delimiter, ")")])
  | square => ([(.delimiter, "[")], [(.delimiter, "]")])
  | image => ([(.delimiter, "(|")], [(.delimiter, "|)")])
  | curly => ([(.delimiter, "\x7b")], [(.delimiter, "\x7d")])
  | angle => ([(.delimiter, "⟨")], [(.delimiter, "⟩")])
  | bag => ([(.delimiter, "[[")], [(.delimiter, "]]")])
  | sub => ([], [])
  | super => ([(.operator, "sup"), (.delimiter, "(")], [(.delimiter, ")")])

end Bracket

namespace Mark

/-- A mark in the notation.  Negation is written as a minus sign, the closures as the signs they
are read off, and juxtaposition is a space. -/
def source : Mark → List Spelling
  | name s => [(.identifier, s)]
  | number s => [(.number, s)]
  | infixOp op _ => [(.operator, op)]
  | prefixOp op => [(.operator, if op == "neg" then "minus" else op)]
  | postfixOp op =>
    [(.operator, if op == "tcl" then "plus" else if op == "rtcl" then "times" else op)]
  | binder quant => [(.keyword, quant)]
  | keyword word => [(.keyword, word)]
  | opening b => b.source.1
  | closing b => b.source.2
  | nothing b => b.source.1 ++ b.source.2
  | comma => [(.delimiter, ",")]
  | semicolon => [(.delimiter, ";")]
  | colon => [(.delimiter, ":")]
  | bar => [(.delimiter, "|")]
  | spot => [(.delimiter, "@")]
  | point => [(.delimiter, ".")]
  | juxtaposition => []

end Mark

/-- Tokens with spaces between them. -/
def written (spellings : List Spelling) : List Token :=
  spellings.map fun p => { kind := p.1, value := p.2, literal := p.2, spaceBefore := true }

/-- The tokens write the marks. -/
def Spells (toks : List Token) (ms : List Mark) : Prop := toks.map spellingOf = ms.flatMap Mark.source

variable {toks : List Token}

theorem spells_append {ms ns : List Mark} (spelled : Spells toks (ms ++ ns)) :
    ∃ first second, toks = first ++ second ∧ Spells first ms ∧ Spells second ns := by
  rw [Spells, List.flatMap_append] at spelled
  obtain ⟨first, second, rfl, firstSpelled, secondSpelled⟩ := List.map_eq_append_iff.mp spelled
  exact ⟨first, second, rfl, firstSpelled, secondSpelled⟩

theorem spells_nil (spelled : Spells toks []) : toks = [] := List.map_eq_nil_iff.mp spelled

/-- A mark that is written as one token. -/
theorem spells_cons {m : Mark} {ms : List Mark} {kind : Token.Kind}
    {value : String} (single : m.source = [(kind, value)]) (spelled : Spells toks (m :: ms)) :
    ∃ t rest, toks = t :: rest ∧ t.kind = kind ∧ t.value = value ∧ Spells rest ms := by
  rw [Spells, List.flatMap_cons, single, List.singleton_append] at spelled
  obtain ⟨t, rest, rfl, first, others⟩ := List.map_eq_cons_iff.mp spelled
  exact ⟨t, rest, rfl, congrArg Prod.fst first, congrArg Prod.snd first, others⟩

/-- Marks between two brackets that are delimiters. -/
theorem spells_bracketed {b : Bracket} {ms : List Mark} {opener closer : String}
    (delimits : b.source = ([(.delimiter, opener)], [(.delimiter, closer)]))
    (spelled : Spells toks (.opening b :: (ms ++ [.closing b]))) :
    ∃ t inner u, toks = t :: (inner ++ [u]) ∧ (t.kind = .delimiter ∧ t.value = opener) ∧
      (u.kind = .delimiter ∧ u.value = closer) ∧ Spells inner ms := by
  have opens : (Mark.opening b).source = [(.delimiter, opener)] := congrArg Prod.fst delimits
  have closes : (Mark.closing b).source = [(.delimiter, closer)] := congrArg Prod.snd delimits
  obtain ⟨t, others, rfl, kind, value, spelledRest⟩ := spells_cons opens spelled
  obtain ⟨inner, last, rfl, spelledInner, closing⟩ := spells_append spelledRest
  obtain ⟨u, none, rfl, kind', value', empty⟩ := spells_cons closes closing
  cases spells_nil empty
  exact ⟨t, inner, u, rfl, ⟨kind, value⟩, ⟨kind', value'⟩, spelledInner⟩

/-! ## Plain expressions -/

/-- The right operand of a relation, or of the last relation of a chain. -/
def lastOperand : Expr → Option Expr
  | .binary _ _ _ (.binary _ _ _ right _ _ _) _ true _ => some right
  | .binary op _ _ right _ false _ => if Symbol.isRelation op then some right else none
  | _ => none

/-- The expressions of the notation without applications, scripts, projections and comprehensions:
names and numbers, infix operators, relations and their chains, ranges, negations, quantifiers,
conditionals, tuples and collections.  A name has no underscore and is not `x`, which is the
product sign in a domain. -/
inductive Plain : Expr → Prop
  | name {value loc} : value.toList.contains '_' = false → value ≠ "x" → Plain (.literal .identifier value loc)
  | number {value loc} : Plain (.literal .number value loc)
  | minus {surface operand loc} : Plain operand → Plain (.unary "neg" surface operand false loc)
  | not {surface operand loc} : Plain operand → Plain (.unary "not" surface operand false loc)
  | binary {op surface left right breakAfter loc} :
      (Symbol.asInfix op).isSome = true → op ≠ "upto" → Plain left → Plain right →
      Plain (.binary op surface left right breakAfter false loc)
  | chain {surface left relation surface' middle right breakAfter' loc' breakAfter loc} :
      Symbol.isRelation relation = true →
      (lastOperand left).map Expr.content = some middle.content →
      Plain left → Plain right →
      Plain (.binary "and" surface left
        (.binary relation surface' middle right breakAfter' false loc') breakAfter true loc)
  | range {low high loc} : Plain low → Plain high → Plain (.range low high loc)
  | quantifier {quant surface bindings constraint body loc} : quant ∈ ["forall", "exists", "exists1", "mu", "lambda"] →
      bindings ≠ [] →
      (∀ b ∈ bindings, b.names ≠ []) →
      (∀ b ∈ bindings, b.domain.isHole = false → Plain b.domain) →
      (constraint.isHole = false → Plain constraint) →
      (body.isHole = false → Plain body) →
      (body.isHole = true → quant = "mu" ∧ constraint.isHole = false) →
      Plain (.quantifier quant surface bindings constraint body loc)
  | conditional {condition yes no loc} :
      Plain condition → Plain yes → Plain no → Plain (.conditional condition yes no loc)
  | tuple {elements loc} : 2 ≤ elements.length → (∀ e ∈ elements, Plain e) → Plain (.tuple elements loc)
  | collection {kind elements loc} : kind ∈ [CollectionKind.set, .sequence, .bag] → (∀ e ∈ elements, Plain e) →
      Plain (.collection kind elements loc)

end Latex
end Whiteboard
