import Whiteboard.Expr

namespace Whiteboard
namespace Expr

/-!
# What an expression says

Two expressions say the same if they differ only in places, in the spelling of their operators and
in the line breaks after them.  `content` forgets these three.
-/

mutual

/-- The expression without places, spellings and line breaks. -/
def content : Expr → Expr
  | hole => hole
  | literal kind value _ => literal kind value {}
  | unary op _ operand trailing _ => unary op "" operand.content trailing {}
  | binary op _ left right _ chained _ => binary op "" left.content right.content false chained {}
  | quantifier quant _ bindings constraint body _ =>
    quantifier quant "" (groupContents bindings) constraint.content body.content {}
  | comprehension bindings predicate result _ =>
    comprehension (groupContents bindings) predicate.content result.content {}
  | collection kind elements _ => collection kind (contents elements) {}
  | tuple elements _ => tuple (contents elements) {}
  | projection target field _ => projection target.content field {}
  | range low high _ => range low.content high.content {}
  | conditional condition yes no _ => conditional condition.content yes.content no.content {}
  | application target args juxtaposed _ =>
    application target.content (contents args) juxtaposed {}
  | instantiation base params _ => instantiation base.content (contents params) {}
  | image relation set _ => image relation.content set.content {}
  | script base super sub _ => script base.content super.content sub.content {}

def contents : List Expr → List Expr
  | [] => []
  | e :: rest => e.content :: contents rest

def groupContents : List (Binding Expr) → List (Binding Expr)
  | [] => []
  | ⟨names, domain, _⟩ :: rest => ⟨names, domain.content, {}⟩ :: groupContents rest

end

attribute [local simp] content contents groupContents

theorem contents_eq_map (es : List Expr) : contents es = es.map content := by
  induction es with
  | nil => rfl
  | cons e rest ih => simp [ih]

end Expr
end Whiteboard
