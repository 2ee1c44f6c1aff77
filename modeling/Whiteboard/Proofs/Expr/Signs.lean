import Mathlib.Data.List.Forall2
import Whiteboard.Proofs.Expr.Reads

namespace Whiteboard

open List hiding set

/-!
# The signs of a tree and the tokens they show

A tree is listed in the order of its source, one sign for every name, number, field, operator and
keyword.  A token shows in a sign, or is a bracket, a mark of punctuation or a line end.
-/

/-- What a tree shows of one token; the spelling is there where the tree keeps it. -/
inductive Sign where
  | name (text : String)
  | number (text : String)
  | field (text : String)
  | operator (name : String) (spelling : Option String)
  | keyword (name : String) (spelling : Option String)
  deriving DecidableEq

namespace Expr

mutual

/-- The signs of an expression in source order.  The operand that two relations of a chain share
counts once, and so does a name with its subscript. -/
def signs : Expr → List Sign
  | hole => []
  | literal kind value _ => [if kind == .number then .number value else .name value]
  | unary op surface operand true _ => operand.signs ++ [.operator op (some surface)]
  | unary op surface operand false _ => .operator op (some surface) :: operand.signs
  | binary _ _ left (binary relation surface _ right _ _ _) _ true _ =>
    left.signs ++ .operator relation (some surface) :: right.signs
  | binary op surface left right _ _ _ => left.signs ++ .operator op (some surface) :: right.signs
  | quantifier quant surface bindings constraint body _ =>
    .keyword quant (some surface) :: (groupSigns bindings ++ (constraint.signs ++ body.signs))
  | comprehension bindings predicate result _ =>
    groupSigns bindings ++ (predicate.signs ++ result.signs)
  | collection _ elements _ => listSigns elements
  | tuple elements _ => listSigns elements
  | projection target field _ => target.signs ++ [.field field]
  | range low high _ => low.signs ++ .operator "upto" none :: high.signs
  | conditional condition yes no _ =>
    .keyword "if" none :: (condition.signs ++ .keyword "then" none :: (yes.signs ++ .keyword "else" none :: no.signs))
  | application target args _ _ => target.signs ++ listSigns args
  | instantiation base params _ => base.signs ++ listSigns params
  | image relation set _ => relation.signs ++ set.signs
  | script base super sub _ =>
    (match base, sub with
      | literal _ nucleus _, literal _ index _ => [.name (nucleus ++ "_" ++ index)]
      | _, _ => base.signs ++ sub.signs) ++
      (if super.isHole then [] else .operator "sup" none :: super.signs)

def listSigns : List Expr → List Sign
  | [] => []
  | e :: rest => e.signs ++ listSigns rest

def groupSigns : List (Binding Expr) → List Sign
  | [] => []
  | ⟨names, domain, _⟩ :: rest => names.map .name ++ (domain.signs ++ groupSigns rest)

end

end Expr

namespace Parse

/-- A name is its base, an underscore and its subscript. -/
theorem append_of_splitSubscript {name base : String} {c : Char} (split : splitSubscript name = some (base, c)) :
    base ++ "_" ++ String.singleton c = name := by
  unfold splitSubscript at split
  split at split
  next c' base' reversed =>
    split at split
    next =>
      cases split
      apply String.toList_injective
      rw [← reverse_reverse name.toList, reversed]
      simp
    next => cases split
  next => cases split

/-! ## Tokens and their signs -/

/-- The name in the source of an operator that the tree names for its place. -/
def sourceName (op : String) : String :=
  if op = "neg" then "minus" else if op = "tcl" then "plus" else if op = "rtcl" then "times" else op

/-- The sign shows the token.  A word for a prefix operator may serve as a name, and in the domain of
a variable the name `x` is the product sign. -/
inductive Shows : Sign → Token → Prop
  | name {t} : isNameToken t = true → Shows (.name (nameOf t)) t
  | number {t} : t.kind = .number → Shows (.number t.value) t
  | field {t} : t.kind = .identifier ∨ t.kind = .number → Shows (.field t.value) t
  | operator {t name spelling} : t.kind = .operator → t.value = name ∨ t.value = sourceName name →
      (∀ text ∈ spelling, text = t.literal) → Shows (.operator name spelling) t
  | product {t spelling} : t.kind = .identifier → t.value = "x" →
      (∀ text ∈ spelling, text = t.literal) → Shows (.operator "cross" spelling) t
  | keyword {t name spelling} : t.kind = .keyword → t.value = name →
      (∀ text ∈ spelling, text = t.literal) → Shows (.keyword name spelling) t

/-- Does the token have a sign? -/
def isSignificant (t : Token) : Bool :=
  match t.kind with
  | .identifier | .number | .operator | .keyword => true
  | _ => false

/-- Opening and closing brackets of the notation. -/
def bracketPairs : List (String × String) :=
  [("(", ")"), ("[", "]"), ("\x7b", "\x7d"), ("⟨", "⟩"), ("[[", "]]"), ("(|", "|)")]

def isBracket (t : Token) : Bool := t.kind == .delimiter && bracketPairs.any fun p => t.value == p.1 || t.value == p.2

/-- The marks between the parts of an expression. -/
def punctuation : List String := [",", ";", ":", "|", "@", ".", "\\"]

/-- Brackets one after the other, each closed by its own. -/
inductive Balanced : List String → Prop
  | nil : Balanced []
  | append {bs bs'} : Balanced bs → Balanced bs' → Balanced (bs ++ bs')
  | enclose {opening closing bs} : (opening, closing) ∈ bracketPairs → Balanced bs →
      Balanced (opening :: (bs ++ [closing]))

variable {t : Token}

theorem Shows.isSignificant {sign : Sign} (shown : Shows sign t) : isSignificant t = true := by
  cases shown with
  | name named =>
    simp only [isNameToken, Bool.or_eq_true, Bool.and_eq_true, beq_iff_eq] at named
    rcases named with kind | ⟨⟨kind, _⟩, _⟩ <;> simp [Parse.isSignificant, kind]
  | number kind => simp [Parse.isSignificant, kind]
  | field kind => rcases kind with kind | kind <;> simp [Parse.isSignificant, kind]
  | operator kind => simp [Parse.isSignificant, kind]
  | product kind => simp [Parse.isSignificant, kind]
  | keyword kind => simp [Parse.isSignificant, kind]

variable {value : String}

theorem is_iff {kind : Token.Kind} : t.is kind value = true ↔ t.kind = kind ∧ t.value = value := by
  simp [Token.is]

theorem kind_of_isBracket (bracket : isBracket t = true) : t.kind = .delimiter :=
  eq_of_beq (Bool.and_eq_true_iff.mp bracket).1

theorem Shows.not_bracket {sign : Sign} (shown : Shows sign t) : isBracket t = false := by
  apply Bool.eq_false_iff.mpr
  intro bracket
  have significant := shown.isSignificant
  simp [Parse.isSignificant, kind_of_isBracket bracket] at significant

theorem not_bracket_of_punctuation (marks : t.value ∈ punctuation) : isBracket t = false := by
  have apart : ∀ value ∈ punctuation, (bracketPairs.any fun p => value == p.1 || value == p.2) = false := by
    decide
  simp [isBracket, apart t.value marks]

theorem isBracket_of_opening (kind : t.kind = .delimiter) (opening : t.value ∈ bracketPairs.map (·.1)) :
    isBracket t = true := by
  obtain ⟨p, member, same⟩ := mem_map.mp opening
  exact Bool.and_eq_true_iff.mpr ⟨by simp [kind], any_eq_true.mpr ⟨p, member, by simp [same]⟩⟩

theorem isBracket_of_closing (kind : t.kind = .delimiter) (closing : t.value ∈ bracketPairs.map (·.2)) :
    isBracket t = true := by
  obtain ⟨p, member, same⟩ := mem_map.mp closing
  exact Bool.and_eq_true_iff.mpr ⟨by simp [kind], any_eq_true.mpr ⟨p, member, by simp [same]⟩⟩

theorem Env.view_eq_cons {env : Env} (ends : env.Ends) {toks : List Token}
    (inSource : (env.peek toks).kind ≠ .endOfInput) : env.view toks = env.peek toks :: env.rest toks := by
  have nonempty := view_ne_nil ends inSource
  unfold Env.peek Env.rest
  cases seen : env.view toks with
  | nil => exact absurd seen nonempty
  | cons t after => rfl

end Parse
end Whiteboard
