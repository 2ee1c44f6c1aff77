import Whiteboard.Location

namespace Whiteboard

/-!
Expressions and predicates.  A tree may have gaps: `hole` stands where no expression is given, be
it the domain of an untyped binding or a part that a tree built by hand leaves out.
-/

/-- The name of a variant in the notation, where trees built by hand may bring names of their
own. -/
inductive LiteralKind where
  | number
  | identifier
  | other (name : String)
  deriving DecidableEq, Inhabited

namespace LiteralKind

def name : LiteralKind → String
  | number => "number"
  | identifier => "identifier"
  | other name => name

def ofName (s : String) : LiteralKind :=
  if s == "number" then number else if s == "identifier" then identifier else other s

end LiteralKind

/-- The bracket family of a collection. -/
inductive CollectionKind where
  | set
  | sequence
  | bag
  | other (name : String)
  deriving DecidableEq, Inhabited

namespace CollectionKind

def name : CollectionKind → String
  | set => "set"
  | sequence => "sequence"
  | bag => "bag"
  | other name => name

def ofName (s : String) : CollectionKind :=
  if s == "set" then set else if s == "sequence" then sequence else if s == "bag" then bag
  else other s

end CollectionKind

/-- Variables that share a domain, as in `x, y : N`; the domain may be missing. -/
structure Binding (α : Type) where
  names : List String
  domain : α
  loc : Location
  deriving Inhabited

/-- An expression or predicate.  Operators carry their canonical name and their spelling in the
source.  A relation chain `a < b <= c` is a `chained` conjunction whose right part is the last
relation, which repeats the right operand of the relation before it. -/
inductive Expr where
  | hole
  | literal (kind : LiteralKind) (value : String) (loc : Location)
  | unary (op surface : String) (operand : Expr) (trailing : Bool) (loc : Location)
  | binary (op surface : String) (left right : Expr) (breakAfter chained : Bool) (loc : Location)
  | quantifier (quant surface : String) (bindings : List (Binding Expr)) (constraint body : Expr)
      (loc : Location)
  | comprehension (bindings : List (Binding Expr)) (predicate result : Expr) (loc : Location)
  | collection (kind : CollectionKind) (elements : List Expr) (loc : Location)
  | tuple (elements : List Expr) (loc : Location)
  | projection (target : Expr) (field : String) (loc : Location)
  | range (low high : Expr) (loc : Location)
  | conditional (condition yes no : Expr) (loc : Location)
  | application (target : Expr) (args : List Expr) (juxtaposed : Bool) (loc : Location)
  | instantiation (base : Expr) (params : List Expr) (loc : Location)
  | image (relation set : Expr) (loc : Location)
  | script (base super sub : Expr) (loc : Location)
  deriving Inhabited

namespace Expr

def kindName : Expr → String
  | hole => ""
  | literal .. => "literal"
  | unary .. => "unary"
  | binary .. => "binary"
  | quantifier .. => "quantifier"
  | comprehension .. => "comprehension"
  | collection .. => "collection"
  | tuple .. => "tuple"
  | projection .. => "projection"
  | range .. => "range"
  | conditional .. => "conditional"
  | application .. => "application"
  | instantiation .. => "instantiation"
  | image .. => "relational image"
  | script .. => "script"

def kindNames : List String :=
  ["literal", "unary", "binary", "quantifier", "comprehension", "collection", "tuple",
   "projection", "range", "conditional", "application", "instantiation", "relational image",
   "script"]

/-- Where the expression stands; a gap is nowhere. -/
def loc : Expr → Location
  | hole => {}
  | literal _ _ loc => loc
  | unary _ _ _ _ loc => loc
  | binary _ _ _ _ _ _ loc => loc
  | quantifier _ _ _ _ _ loc => loc
  | comprehension _ _ _ loc => loc
  | collection _ _ loc => loc
  | tuple _ loc => loc
  | projection _ _ loc => loc
  | range _ _ loc => loc
  | conditional _ _ _ loc => loc
  | application _ _ _ loc => loc
  | instantiation _ _ loc => loc
  | image _ _ loc => loc
  | script _ _ _ loc => loc

def isHole : Expr → Bool
  | hole => true
  | _ => false

def isIdent : Expr → String → Bool
  | literal .identifier value _, name => value == name
  | _, _ => false

/-- The parts of an expression with gaps among them, in source order; a superscript counts before
a subscript. -/
def slots : Expr → List Expr
  | hole | literal .. => []
  | unary _ _ operand _ _ => [operand]
  | binary _ _ left right _ _ _ => [left, right]
  | quantifier _ _ bindings constraint body _ => bindings.map (·.domain) ++ [constraint, body]
  | comprehension bindings predicate result _ => bindings.map (·.domain) ++ [predicate, result]
  | collection _ elements _ => elements
  | tuple elements _ => elements
  | projection target _ _ => [target]
  | range low high _ => [low, high]
  | conditional condition yes no _ => [condition, yes, no]
  | application target args _ _ => target :: args
  | instantiation base params _ => base :: params
  | image relation set _ => [relation, set]
  | script base super sub _ => [base, super, sub]

def operands (e : Expr) : List Expr :=
  e.slots.filter (fun x => !x.isHole)

/-- The operands of a left-nested run of one operator: `A x B x C` gives `A`, `B` and `C`. -/
def flatten : Expr → String → List Expr
  | binary op surface left right breakAfter chained loc, name =>
    if op == name && !chained then flatten left name ++ [right]
    else [binary op surface left right breakAfter chained loc]
  | e, _ => [e]

end Expr
end Whiteboard
