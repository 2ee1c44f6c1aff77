import Whiteboard.Document

namespace Whiteboard

/-!
Walks over expressions and documents, each node before its parts.  The visitor threads a state
through the walk and ends it by giving a reason.
-/

inductive Node where
  | item (i : Item)
  | expr (e : Expr)
  deriving Inhabited

namespace Node

def kindName : Node → String
  | item i => i.kindName
  | expr e => e.kindName

def loc : Node → Location
  | item i => i.loc
  | expr e => e.loc

end Node

/-- The state a walk has reached, and why it stopped if it did. -/
abbrev Walked (σ ε : Type) := σ × Option ε

/-- Goes on unless the walk has stopped. -/
def Walked.andThen {σ ε : Type} (w : Walked σ ε) (next : σ → Walked σ ε) : Walked σ ε :=
  match w with
  | (s, none) => next s
  | (s, some reason) => (s, some reason)

namespace Expr

variable {σ ε : Type}

mutual

/-- Visits an expression and then its parts; gaps are passed over. -/
def walk (visit : σ → Node → Walked σ ε) (s : σ) : Expr → Walked σ ε
  | hole => (s, none)
  | literal kind value loc => visit s (.expr (literal kind value loc))
  | unary op surface operand trailing loc =>
    (visit s (.expr (unary op surface operand trailing loc))).andThen fun s =>
      walk visit s operand
  | binary op surface left right breakAfter chained loc =>
    ((visit s (.expr (binary op surface left right breakAfter chained loc))).andThen fun s =>
      walk visit s left).andThen fun s => walk visit s right
  | quantifier quant surface bindings constraint body loc =>
    (((visit s (.expr (quantifier quant surface bindings constraint body loc))).andThen fun s =>
      walkBindings visit s bindings).andThen fun s =>
      walk visit s constraint).andThen fun s => walk visit s body
  | comprehension bindings predicate result loc =>
    (((visit s (.expr (comprehension bindings predicate result loc))).andThen fun s =>
      walkBindings visit s bindings).andThen fun s =>
      walk visit s predicate).andThen fun s => walk visit s result
  | collection kind elements loc =>
    (visit s (.expr (collection kind elements loc))).andThen fun s => walkAll visit s elements
  | tuple elements loc =>
    (visit s (.expr (tuple elements loc))).andThen fun s => walkAll visit s elements
  | projection target field loc =>
    (visit s (.expr (projection target field loc))).andThen fun s => walk visit s target
  | range low high loc =>
    ((visit s (.expr (range low high loc))).andThen fun s =>
      walk visit s low).andThen fun s => walk visit s high
  | conditional condition yes no loc =>
    (((visit s (.expr (conditional condition yes no loc))).andThen fun s =>
      walk visit s condition).andThen fun s =>
      walk visit s yes).andThen fun s => walk visit s no
  | application target args juxtaposed loc =>
    ((visit s (.expr (application target args juxtaposed loc))).andThen fun s =>
      walk visit s target).andThen fun s => walkAll visit s args
  | instantiation base params loc =>
    ((visit s (.expr (instantiation base params loc))).andThen fun s =>
      walk visit s base).andThen fun s => walkAll visit s params
  | image relation set loc =>
    ((visit s (.expr (image relation set loc))).andThen fun s =>
      walk visit s relation).andThen fun s => walk visit s set
  | script base super sub loc =>
    (((visit s (.expr (script base super sub loc))).andThen fun s =>
      walk visit s base).andThen fun s =>
      walk visit s super).andThen fun s => walk visit s sub

def walkAll (visit : σ → Node → Walked σ ε) (s : σ) : List Expr → Walked σ ε
  | [] => (s, none)
  | e :: rest => (walk visit s e).andThen fun s => walkAll visit s rest

def walkBindings (visit : σ → Node → Walked σ ε) (s : σ) : List (Binding Expr) → Walked σ ε
  | [] => (s, none)
  | ⟨_, domain, _⟩ :: rest => (walk visit s domain).andThen fun s => walkBindings visit s rest

end

end Expr

namespace ProofTree

mutual

def exprs : ProofTree → List Expr
  | hole => []
  | node step premises => step.expr :: exprsOfAll premises

def exprsOfAll : List ProofTree → List Expr
  | [] => []
  | t :: rest => t.exprs ++ exprsOfAll rest

end

end ProofTree

namespace Declaration

def exprs (d : Declaration) : List Expr :=
  [d.type, d.inclusion]

end Declaration

namespace Item

/-- The expressions that stand directly in an item, in source order and with gaps among them. -/
def exprs : Item → List Expr
  | hole | heading .. | givenType .. | pageBreak .. => []
  | truthTable header _ _ => header
  | equivChain steps _ => steps.map (·.expr)
  | proof root _ => (root.map ProofTree.exprs).getD []
  | freeType _ branches _ => branches.map (·.param)
  | abbreviation _ _ body _ => [body]
  | box _ _ _ declarations predicates _ =>
    declarations.flatMap Declaration.exprs ++ predicates.map (·.expr)
  | zedBlock lines _ =>
    lines.flatMap (fun l => (l.decl.map Declaration.exprs).getD [] ++ [l.expr])
  | text _ segments _ => segments.map (·.math)
  | formula expr _ => [expr]

variable {σ ε : Type}

mutual

/-- Visits an item, then the items under it, then its expressions. -/
def walk (visit : σ → Node → Walked σ ε) (s : σ) : Item → Walked σ ε
  | heading level title items loc =>
    (visit s (.item (heading level title items loc))).andThen fun s => walkAll visit s items
  | i => (visit s (.item i)).andThen fun s => Expr.walkAll visit s i.exprs

def walkAll (visit : σ → Node → Walked σ ε) (s : σ) : List Item → Walked σ ε
  | [] => (s, none)
  | i :: rest => (walk visit s i).andThen fun s => walkAll visit s rest

end

end Item

namespace Document

def walk {σ ε : Type} (visit : σ → Node → Walked σ ε) (s : σ) (doc : Document) : Walked σ ε :=
  Item.walkAll visit s doc

end Document

def collectNodes (seen : List Node) (n : Node) : Walked (List Node) Unit :=
  (n :: seen, none)

/-- The visitor that collects nodes and stops at the `limit`-th; it never stops if `limit` is not
positive. -/
def collectUpTo (limit : Int) (seen : List Node) (n : Node) : Walked (List Node) Unit :=
  (n :: seen, if (seen.length : Int) + 1 == limit then some () else none)

def Document.nodes (doc : Document) : List Node :=
  (doc.walk collectNodes []).1.reverse

def Expr.nodes (e : Expr) : List Node :=
  (e.walk collectNodes []).1.reverse

def countKind (name : String) (nodes : List Node) : Nat :=
  (nodes.filter (fun n => n.kindName == name)).length

end Whiteboard
