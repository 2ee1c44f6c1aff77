import Whiteboard.Proofs.Expr.Follow
import Whiteboard.Proofs.Expr.Listing

namespace Whiteboard

open List hiding set

/-!
# Trees at another place

The places in a tree come from its tokens, and nothing else does.  What ends a row of tokens does not go on with an
expression either: a line end, the end of input, a closing bracket, or the mark of a continued line.
-/

/-! ## Moving a tree -/

namespace Expr

mutual

/-- The expression with its places changed; a gap has none. -/
def relocate (move : Location → Location) : Expr → Expr
  | hole => hole
  | literal kind value loc => literal kind value (move loc)
  | unary op surface operand trailing loc => unary op surface (operand.relocate move) trailing (move loc)
  | binary op surface left right breakAfter chained loc =>
    binary op surface (left.relocate move) (right.relocate move) breakAfter chained (move loc)
  | quantifier quant surface bindings constraint body loc =>
    quantifier quant surface (groupsRelocate move bindings) (constraint.relocate move) (body.relocate move) (move loc)
  | comprehension bindings predicate result loc =>
    comprehension (groupsRelocate move bindings) (predicate.relocate move) (result.relocate move) (move loc)
  | collection kind elements loc => collection kind (listRelocate move elements) (move loc)
  | tuple elements loc => tuple (listRelocate move elements) (move loc)
  | projection target field loc => projection (target.relocate move) field (move loc)
  | range low high loc => range (low.relocate move) (high.relocate move) (move loc)
  | conditional condition yes no loc =>
    conditional (condition.relocate move) (yes.relocate move) (no.relocate move) (move loc)
  | application target args juxtaposed loc =>
    application (target.relocate move) (listRelocate move args) juxtaposed (move loc)
  | instantiation base params loc => instantiation (base.relocate move) (listRelocate move params) (move loc)
  | image relation set loc => image (relation.relocate move) (set.relocate move) (move loc)
  | script base super sub loc => script (base.relocate move) (super.relocate move) (sub.relocate move) (move loc)

def listRelocate (move : Location → Location) : List Expr → List Expr
  | [] => []
  | e :: rest => e.relocate move :: listRelocate move rest

def groupsRelocate (move : Location → Location) : List (Binding Expr) → List (Binding Expr)
  | [] => []
  | ⟨names, domain, loc⟩ :: rest => ⟨names, domain.relocate move, move loc⟩ :: groupsRelocate move rest

end

theorem loc_relocate (move : Location → Location) {e : Expr} (present : e.isHole = false) :
    (e.relocate move).loc = move e.loc := by
  cases e with
  | hole => cases present
  | _ => rfl

mutual

theorem relocate_relocate (move next : Location → Location) :
    ∀ e : Expr, (e.relocate move).relocate next = e.relocate (next ∘ move)
  | hole | literal .. => rfl
  | unary .. | binary .. | projection .. | range .. | conditional .. | image .. | script .. => by
    simp only [relocate, relocate_relocate move next, Function.comp]
  | quantifier .. | comprehension .. => by
    simp only [relocate, relocate_relocate move next, groupsRelocate_groupsRelocate move next, Function.comp]
  | collection .. | tuple .. | application .. | instantiation .. => by
    simp only [relocate, relocate_relocate move next, listRelocate_listRelocate move next, Function.comp]

theorem listRelocate_listRelocate (move next : Location → Location) :
    ∀ es : List Expr, listRelocate next (listRelocate move es) = listRelocate (next ∘ move) es
  | [] => rfl
  | e :: rest => by
    simp only [listRelocate, relocate_relocate move next e, listRelocate_listRelocate move next rest]

theorem groupsRelocate_groupsRelocate (move next : Location → Location) :
    ∀ gs : List (Binding Expr), groupsRelocate next (groupsRelocate move gs) = groupsRelocate (next ∘ move) gs
  | [] => rfl
  | ⟨_, domain, _⟩ :: rest => by
    simp only [groupsRelocate, relocate_relocate move next domain, groupsRelocate_groupsRelocate move next rest,
      Function.comp]

end

mutual

theorem relocate_id : ∀ e : Expr, e.relocate id = e
  | hole | literal .. => rfl
  | unary .. | binary .. | projection .. | range .. | conditional .. | image .. | script .. => by
    simp only [relocate, relocate_id, id]
  | quantifier .. | comprehension .. => by simp only [relocate, relocate_id, groupsRelocate_id, id]
  | collection .. | tuple .. | application .. | instantiation .. => by
    simp only [relocate, relocate_id, listRelocate_id, id]

theorem listRelocate_id : ∀ es : List Expr, listRelocate id es = es
  | [] => rfl
  | e :: rest => by simp only [listRelocate, relocate_id e, listRelocate_id rest]

theorem groupsRelocate_id : ∀ gs : List (Binding Expr), groupsRelocate id gs = gs
  | [] => rfl
  | ⟨_, domain, _⟩ :: rest => by simp only [groupsRelocate, relocate_id domain, groupsRelocate_id rest, id]

end

/-- The tree alone, without places. -/
def unplaced (e : Expr) : Expr := e.relocate fun _ => {}

/-- A tree that was moved is the same tree. -/
@[simp] theorem unplaced_relocate (move : Location → Location) (e : Expr) : (e.relocate move).unplaced = e.unplaced :=
  relocate_relocate move _ e

end Expr

namespace Parse

section
variable (move : Location → Location)
include move

theorem isName_relocate (e : Expr) : isName (e.relocate move) = isName e := by
  cases e with
  | literal kind value loc => cases kind <;> rfl
  | _ => rfl

theorem isApplicable_relocate (e : Expr) : isApplicable (e.relocate move) = isApplicable e := by
  cases e with
  | application | instantiation | projection => rfl
  | literal kind value loc => exact isName_relocate move (.literal kind value loc)
  | _ => rfl

theorem isLambda_relocate (e : Expr) : isLambda (e.relocate move) = isLambda e := by
  cases e <;> rfl

theorem nameExpr_relocate (name : String) (loc : Location) :
    (nameExpr name loc).relocate move = nameExpr name (move loc) := by
  unfold nameExpr
  split <;> rfl

theorem tupleOf_relocate (loc : Location) (es : List Expr) :
    (tupleOf loc es).relocate move = tupleOf (move loc) (Expr.listRelocate move es) := by
  cases es with
  | nil => rfl
  | cons e rest => cases rest <;> rfl

theorem superscript_relocate {base : Expr} (present : base.isHole = false) (sup : Expr) :
    (superscript base sup).relocate move = superscript (base.relocate move) (sup.relocate move) := by
  cases base with
  | hole => cases present
  | script nucleus super sub loc => cases super <;> rfl
  | _ => rfl

end

/-! ## Tokens that begin an expression -/

/-- Can an expression begin with a token of this kind and value? -/
def opensExpr (kind : Token.Kind) (value : String) : Bool :=
  match kind with
  | .identifier | .number => true
  | .operator => value == "minus" || isPrefix value
  | .delimiter => ["(", "\x7b", "⟨", "[["].contains value
  | .keyword => ["forall", "exists", "exists1", "mu", "lambda", "if"].contains value
  | _ => false

section
variable {env : Env} {toks : List Token} (closed : opensExpr (env.peek toks).kind (env.peek toks).value = false)
include closed

theorem leadAt_of_not_opens : env.leadAt toks = .atom := by
  have other : (env.peek toks).kind = .operator → (env.peek toks).value ≠ "not" := by
    intro kind same
    rw [kind, same] at closed
    exact absurd closed (by decide)
  unfold opensExpr at closed
  unfold Env.leadAt Token.isOp Token.isDelim Token.is
  cases kind : (env.peek toks).kind <;> simp_all

theorem formAt_of_not_opens : env.formAt toks = none := by
  unfold opensExpr at closed
  unfold Env.formAt
  cases kind : (env.peek toks).kind <;> simp_all

theorem not_primary_of_not_opens {v : Value} {rest : List Token} : ¬Reads env .primary toks v rest := by
  have none := formAt_of_not_opens closed
  intro reads
  cases reads with
  | number form | name form | grouped form | comprehended form | collected form | bound form | choice form =>
    cases none.symm.trans form

theorem not_binary_of_not_opens {least : Precedence} {v : Value} {rest : List Token} :
    ¬Reads env (.binary least) toks v rest := by
  have atom := leadAt_of_not_opens closed
  rintro (operand | _)
  cases operand with
  | prefixed found =>
    rw [atom] at found
    cases found
  | word lead | group lead => cases atom.symm.trans lead
  | atom _ primary => exact not_primary_of_not_opens closed primary

theorem not_elements_of_not_opens {v : Value} {rest : List Token} : ¬Reads env .elements toks v rest := by
  intro reads
  cases reads with
  | element first => exact not_binary_of_not_opens closed first

end

/-! ## Tokens that end a row -/

/-- Nothing in an expression begins with the token or goes on with it. -/
def Mute (t : Token) : Prop :=
  t.kind = .newline ∨ t.kind = .endOfInput ∨ (t.kind = .delimiter ∧ t.value ∈ [")", "]]", "\\"])

namespace Mute

variable {t : Token} (mute : Mute t)
include mute

theorem isOp (name : String) : t.isOp name = false := by
  rcases mute with kind | kind | ⟨kind, _⟩ <;> simp [Token.isOp, Token.is, kind]

theorem isKeyword (name : String) : t.isKeyword name = false := by
  rcases mute with kind | kind | ⟨kind, _⟩ <;> simp [Token.isKeyword, Token.is, kind]

theorem isDelim {value : String} (other : value ∉ [")", "]]", "\\"]) : t.isDelim value = false := by
  rcases mute with kind | kind | ⟨_, listed⟩
  · simp [Token.isDelim, Token.is, kind]
  · simp [Token.isDelim, Token.is, kind]
  · rw [Token.isDelim, Token.is, beq_false_of_ne fun same : t.value = value => other (same ▸ listed),
      Bool.and_false]

theorem kind_ne : t.kind ≠ .operator ∧ t.kind ≠ .identifier ∧ t.kind ≠ .number := by
  rcases mute with kind | kind | ⟨kind, _⟩ <;> simp [kind]

theorem insignificant : isSignificant t = false := by
  rcases mute with kind | kind | ⟨kind, _⟩ <;> simp [isSignificant, kind]

theorem isNameToken : isNameToken t = false := by
  simp [Parse.isNameToken, mute.kind_ne]

theorem isField : isField t = false := by
  simp [Parse.isField, mute.kind_ne]

theorem infixAt (env : Env) : env.infixAt t = none := by
  simp [Env.infixAt, mute.kind_ne]

theorem startsOperand (env : Env) : env.startsOperand t = false := by
  rcases mute with kind | kind | ⟨kind, listed⟩
  · simp [Env.startsOperand, kind]
  · simp [Env.startsOperand, kind]
  · simp only [mem_cons, not_mem_nil, or_false] at listed
    rcases listed with same | same | same <;> simp [Env.startsOperand, kind, same]

theorem isSpot : isSpot t = false := by
  simp [Parse.isSpot, mute.isDelim]

theorem not_opens : opensExpr t.kind t.value = false := by
  rcases mute with kind | kind | ⟨kind, listed⟩
  · simp [opensExpr, kind]
  · simp [opensExpr, kind]
  · simp only [mem_cons, not_mem_nil, or_false] at listed
    rcases listed with same | same | same <;> simp [opensExpr, kind, same]

end Mute

section
variable {env : Env} {toks : List Token} (mute : Mute (env.peek toks))
include mute

theorem leadAt_of_mute : env.leadAt toks = .atom := leadAt_of_not_opens mute.not_opens

theorem suffixAt_of_mute (juxtapose : Bool) (base : Expr) : env.suffixAt juxtapose base toks = none := by
  simp [Env.suffixAt, mute.isOp, mute.isDelim, mute.startsOperand]

theorem groupSuffixAt_of_mute (juxtapose : Bool) (group : Expr) : env.groupSuffixAt juxtapose group toks = none := by
  simp [Env.groupSuffixAt, mute.isDelim, mute.startsOperand]

theorem formAt_of_mute : env.formAt toks = none := formAt_of_not_opens mute.not_opens

end

/-- The tokens behind a row; a line end among them is the last one. -/
structure Ending (env : Env) (stop : List Token) : Prop where
  mute : ∀ t ∈ stop, Mute t
  final : Mute env.final
  line : ∀ n t rest, stop = n :: t :: rest → n.kind ≠ .newline

namespace Ending

variable {env : Env} {stop : List Token}

theorem nil (final : Mute env.final) : Ending env [] where
  mute _ member := absurd member not_mem_nil
  final := final
  line _ _ _ whole := by cases whole

variable (ending : Ending env stop)
include ending

theorem cons {t : Token} (mute : Mute t) (inLine : t.kind ≠ .newline) : Ending env (t :: stop) where
  mute := forall_mem_cons.mpr ⟨mute, ending.mute⟩
  final := ending.final
  line _ _ _ whole := (List.cons.inj whole).1 ▸ inLine

theorem headD {toks : List Token} (behind : toks <:+ stop) : Mute (toks.headD env.final) := by
  cases toks with
  | nil => exact ending.final
  | cons t rest => exact ending.mute t (behind.subset mem_cons_self)

theorem peek {toks : List Token} (behind : toks <:+ stop) : Mute (env.peek toks) :=
  ending.headD ((env.view_suffix toks).trans behind)

theorem namesAhead (spanLines wantName : Bool) : namesAhead spanLines wantName stop = false := by
  have each := ending.mute
  clear ending
  induction stop generalizing wantName with
  | nil => rfl
  | cons t rest ih =>
    have mute := each t mem_cons_self
    have later := fun wantName => ih wantName fun u member => each u (mem_cons_of_mem t member)
    unfold Parse.namesAhead
    split
    next => rw [later, Bool.and_false]
    next =>
      split
      next => rw [mute.isNameToken, Bool.false_and]
      next => simp [mute.isDelim]

theorem moreNames (nested : Bool) : moreNames nested stop = ([], stop) := by
  unfold Parse.moreNames
  split
  next t u rest =>
    rw [if_neg (by simp [ending.line t u rest rfl]), if_neg]
    simp [(ending.mute t mem_cons_self).isDelim]
  next => rfl

theorem moreNames_cons {t : Token} (solid : t.kind ≠ .newline) {nested : Bool} :
    Parse.moreNames nested (t :: stop) = ([], t :: stop) := by
  cases stop with
  | nil => rfl
  | cons u rest =>
    rw [Parse.moreNames, if_neg (by simp [solid]), if_neg]
    simp [(ending.mute u mem_cons_self).isNameToken]

end Ending

end Parse
end Whiteboard
