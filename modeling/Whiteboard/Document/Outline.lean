import Whiteboard.Data
import Whiteboard.Document

namespace Whiteboard

/-!
Documents as plain data.  Every node becomes a record with its kind; empty fields and places are
left out, and a missing node is null.
-/

namespace Expr

mutual

def toData : Expr → Data
  | hole => .null
  | literal kind value _ =>
    .record (("kind", .text "literal") :: Data.textField "type" kind.name ++
      Data.textField "value" value)
  | unary op surface operand trailing _ =>
    .record (("kind", .text "unary") :: Data.textField "op" op ++
      Data.textField "surface" surface ++ Data.partField "operand" operand.toData ++
      Data.boolField "postfix" trailing)
  | binary op surface left right breakAfter chained _ =>
    .record (("kind", .text "binary") :: Data.textField "op" op ++
      Data.textField "surface" surface ++ Data.partField "left" left.toData ++
      Data.partField "right" right.toData ++ Data.boolField "breakAfter" breakAfter ++
      Data.boolField "chained" chained)
  | quantifier quant surface bindings constraint body _ =>
    .record (("kind", .text "quantifier") :: Data.textField "quant" quant ++
      Data.textField "surface" surface ++ Data.listField "bindings" (bindingsToData bindings) ++
      Data.partField "constraint" constraint.toData ++ Data.partField "body" body.toData)
  | comprehension bindings predicate result _ =>
    .record (("kind", .text "comprehension") ::
      Data.listField "bindings" (bindingsToData bindings) ++
      Data.partField "predicate" predicate.toData ++ Data.partField "result" result.toData)
  | collection kind elements _ =>
    .record (("kind", .text "collection") :: Data.textField "type" kind.name ++
      Data.listField "elements" (allToData elements))
  | tuple elements _ =>
    .record (("kind", .text "tuple") :: Data.listField "elements" (allToData elements))
  | projection target field _ =>
    .record (("kind", .text "projection") :: Data.partField "target" target.toData ++
      Data.textField "field" field)
  | range low high _ =>
    .record (("kind", .text "range") :: Data.partField "low" low.toData ++
      Data.partField "high" high.toData)
  | conditional condition yes no _ =>
    .record (("kind", .text "conditional") :: Data.partField "cond" condition.toData ++
      Data.partField "then" yes.toData ++ Data.partField "else" no.toData)
  | application target args juxtaposed _ =>
    .record (("kind", .text "application") :: Data.partField "target" target.toData ++
      Data.listField "args" (allToData args) ++ Data.boolField "juxtaposed" juxtaposed)
  | instantiation base params _ =>
    .record (("kind", .text "instantiation") :: Data.partField "base" base.toData ++
      Data.listField "params" (allToData params))
  | image relation set _ =>
    .record (("kind", .text "relational image") :: Data.partField "relation" relation.toData ++
      Data.partField "set" set.toData)
  | script base super sub _ =>
    .record (("kind", .text "script") :: Data.partField "base" base.toData ++
      Data.partField "super" super.toData ++ Data.partField "sub" sub.toData)

def allToData : List Expr → List Data
  | [] => []
  | e :: rest => e.toData :: allToData rest

def bindingsToData : List (Binding Expr) → List Data
  | [] => []
  | ⟨names, domain, _⟩ :: rest =>
    .record (Data.textsField "names" names ++ Data.partField "domain" domain.toData) ::
      bindingsToData rest

end

end Expr

namespace ProofTree

mutual

def toData : ProofTree → Data
  | hole => .null
  | node step premises =>
    .record (Data.partField "expr" step.expr.toData ++
      Data.textField "justification" step.justification ++ Data.intField "label" step.label ++
      Data.boolField "isAssumption" step.isAssumption ++
      Data.boolField "isSibling" step.isSibling ++ Data.boolField "isCase" step.isCase ++
      Data.listField "discharge" (step.discharge.map .int) ++
      Data.listField "children" (allToData premises))

def allToData : List ProofTree → List Data
  | [] => []
  | t :: rest => t.toData :: allToData rest

end

end ProofTree

def EquivStep.toData (s : EquivStep) : Data :=
  .record (Data.textField "connective" s.connective ++ Data.partField "expr" s.expr.toData ++
    Data.textField "justification" s.justification)

def Branch.toData (b : Branch) : Data :=
  .record (Data.textField "name" b.name ++ Data.partField "param" b.param.toData)

def Declaration.toData (d : Declaration) : Data :=
  .record (Data.textsField "names" d.names ++ Data.partField "type" d.type.toData ++
    Data.partField "include" d.inclusion.toData)

def Predicate.toData (p : Predicate) : Data :=
  .record (Data.partField "expr" p.expr.toData ++ Data.boolField "also" p.also)

def ZedLine.toData (l : ZedLine) : Data :=
  .record (((l.decl.map fun d => [("decl", d.toData)]).getD []) ++
    Data.partField "expr" l.expr.toData ++ Data.boolField "also" l.also)

def Segment.toData (s : Segment) : Data :=
  .record (Data.textField "text" s.text ++ Data.partField "math" s.math.toData)

namespace Item

/-- A row of a table; a row without cells is null. -/
def rowToData (row : List String) : Data :=
  if row.isEmpty then .null else .list (row.map .text)

mutual

def toData : Item → Data
  | hole => .null
  | heading level title items _ =>
    .record (("kind", .text level.name) ::
      Data.textField (match level with | .section => "title" | _ => "label") title ++
      Data.listField "items" (allToData items))
  | truthTable header rows _ =>
    .record (("kind", .text "truth table") :: Data.listField "header" (Expr.allToData header) ++
      Data.listField "rows" (rows.map rowToData))
  | equivChain steps _ =>
    .record (("kind", .text "equivalence chain") ::
      Data.listField "steps" (steps.map EquivStep.toData))
  | proof root _ =>
    .record (("kind", .text "proof tree") ::
      (root.map fun t => Data.partField "root" t.toData).getD [])
  | givenType names _ =>
    .record (("kind", .text "given type") :: Data.textsField "names" names)
  | freeType name branches _ =>
    .record (("kind", .text "free type") :: Data.textField "name" name ++
      Data.listField "branches" (branches.map Branch.toData))
  | abbreviation name generics body _ =>
    .record (("kind", .text "abbreviation") :: Data.textField "name" name ++
      Data.textsField "generics" generics ++ Data.partField "body" body.toData)
  | box kind name generics declarations predicates _ =>
    .record (("kind", .text "box") :: Data.textField "type" kind.name ++
      Data.textField "name" name ++ Data.textsField "generics" generics ++
      Data.listField "declarations" (declarations.map Declaration.toData) ++
      Data.listField "predicates" (predicates.map Predicate.toData))
  | zedBlock lines _ =>
    .record (("kind", .text "zed block") :: Data.listField "lines" (lines.map ZedLine.toData))
  | text kind segments _ =>
    .record (("kind", .text "text block") :: Data.textField "type" kind.name ++
      Data.listField "segments" (segments.map Segment.toData))
  | formula expr _ =>
    .record (("kind", .text "expression") :: Data.partField "expr" expr.toData)
  | pageBreak _ => .record [("kind", .text "page break")]

def allToData : List Item → List Data
  | [] => []
  | i :: rest => i.toData :: allToData rest

end

end Item

def Document.toData (doc : Document) : List Data :=
  Item.allToData doc

end Whiteboard
