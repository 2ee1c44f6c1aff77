import Whiteboard.Latex.Proof

namespace Whiteboard

/-!
Documents as LaTeX.  Boxed items are checked for overlong lines; the check only warns, except that
a free type that is too long is broken between its branches.
-/

/-- A remark on the output; it never changes the text. -/
structure Warning where
  loc : Location
  message : String
  deriving DecidableEq, Inhabited

def Warning.text (w : Warning) : String :=
  if w.loc.isValid then w.loc.text ++ ": " ++ w.message else w.message

/-- Rendered text with the warnings it drew, in order. -/
structure Rendered where
  text : String
  warnings : List Warning := []
  deriving DecidableEq, Inhabited

namespace Latex

/-- How documents are set: the vocabulary, the width above which lines of boxes draw a warning
(none if it is not positive), and whether the result is a complete document. -/
structure Layout where
  dialect : Dialect := .fuzz
  width : Int := 80
  standalone : Bool := false
  deriving DecidableEq, Inhabited

/-- Inside boxes line breaks are allowed. -/
def boxed : Context where
  box := true

def widthWarnings (width : Int) (text what : String) (loc : Location) : List Warning :=
  if width ≤ 0 then []
  else
    let numbered := (Text.splitLines text).mapIdx (fun i line => (i + 1, line.length))
    (numbered.filter (fun p => decide (width < (p.2 : Int)))).map fun p =>
      ⟨loc, "line " ++ toString p.1 ++ " of " ++ what ++ " is " ++ toString p.2 ++
        " characters long (limit " ++ toString width ++ ")"⟩

def checked (lay : Layout) (what : String) (loc : Location) (text : String) : Rendered :=
  ⟨text, widthWarnings lay.width text what loc⟩

/-- What separates two lines of a box; `also` marks a blank line of the source. -/
def lineGap (also : Bool) : String :=
  if also then "\n\\also\n" else " \\\\\n"

/-- Lines of a box, each after its own separator except the first. -/
def stackLines : List (Bool × String) → String
  | [] => ""
  | (_, first) :: rest => first ++ String.join (rest.map (fun p => lineGap p.1 ++ p.2))

def declaration (st : Style) (d : Declaration) : Except Fault String :=
  if !d.inclusion.isHole then expr st boxed d.inclusion
  else if d.names.isEmpty || d.type.isHole then
    .error (fault "declaration" d.loc .incompleteDeclaration)
  else do
    let type ← expr st boxed d.type
    return names st d.names ++ " : " ++ type

def branch (st : Style) (b : Branch) : Except Fault String :=
  if b.param.isHole then .ok (identifier st b.name)
  else do
    let param ← expr st boxed b.param
    return identifier st b.name ++ " \\ldata " ++ param ++ " \\rdata"

def freeType (lay : Layout) (name : String) (branches : List String) : String :=
  let head := identifier lay.dialect.style name ++ " ::= "
  let line := head ++ " | ".intercalate branches
  if 0 < lay.width && lay.width < (line.length : Int) then
    head ++ (" \\\\\n" ++ tab 1 ++ "| ").intercalate branches
  else line

def generics (st : Style) (ns : List String) : String :=
  if ns.isEmpty then "" else "[" ++ names st ns ++ "]"

/-- The header of a boxed environment, and how warnings call it. -/
def boxHeader (st : Style) (kind : BoxKind) (name : String) (loc : Location) :
    Except Fault (String × String) :=
  match kind with
  | .schema =>
    if name.isEmpty then .error (fault "box" loc .namelessSchema)
    else .ok (braced (identifier st name), "schema " ++ name)
  | .axdef | .gendef => .ok ("", kind.name)
  | .other other => .error (fault "box" loc (.unknownBox other))

def dropFirstLineEnd (s : String) : String :=
  match s.toList with
  | '\n' :: cs => String.ofList cs
  | _ => s

/-- Declarations above predicates; without declarations nothing stands above the divider. -/
def boxBody (declarations : List String) (predicates : List (Bool × String)) : String :=
  dropFirstLineEnd (" \\\\\n".intercalate declarations ++
    (if predicates.isEmpty then "" else "\n\\where\n" ++ stackLines predicates))

def zedLine (st : Style) (loc : Location) (l : ZedLine) : Except Fault (Bool × String) := do
  let text ←
    match l.decl with
    | some d => declaration st d
    | none =>
      if l.expr.isHole then .error (fault "zed block" loc .emptyZedLine)
      else expr st boxed l.expr
  return (l.also, text)

def segment (st : Style) (kind : TextKind) (loc : Location) (s : Segment) : Except Fault String :=
  if !s.math.isHole then
    if kind == .prose then do
      let math ← expr st {} s.math
      return "$" ++ math ++ "$"
    else .error (fault "text block" loc (.mathInText kind.name))
  else .ok (if kind == .latex then s.text else escapeText s.text)

def equivStep (st : Style) (s : EquivStep) : Except Fault String := do
  let formula ← expr st {} s.expr
  let reason := if s.justification.isEmpty then ""
    else " && [" ++ justification s.justification ++ "]"
  if s.connective.isEmpty then return "&" ++ formula ++ reason
  else
    match Symbol.lookup s.connective with
    | none => .error (fault "equivalence chain" s.loc (.unknownConnective s.connective))
    | some symbol => return symbol.command true ++ braced "" ++ " &" ++ formula ++ reason

/-- The rows of a table, checked against its number of columns. -/
def tableRows (loc : Location) (columns : Nat) (number : Nat) :
    List (List String) → Except Fault (List String)
  | [] => .ok []
  | row :: rest =>
    if row.length != columns then
      .error (fault "truth table" loc (.rowWidth number row.length columns))
    else do
      let others ← tableRows loc columns (number + 1) rest
      return (" & ".intercalate (row.map escapeText) ++ " \\\\\n") :: others

def truthTable (st : Style) (loc : Location) (header : List Expr) (rows : List (List String)) :
    Except Fault String :=
  if header.isEmpty then .error (fault "truth table" loc .noColumns)
  else do
    let columns ← header.mapM (fun h => expr st {} h)
    let lines ← tableRows loc header.length 1 rows
    let cells := columns.map (fun s => "$" ++ s ++ "$")
    return environment "center" ""
      (command "begin" "tabular" ++ braced ("|" ++ Text.repeated header.length "c|") ++
        "\n\\hline\n" ++ " & ".intercalate cells ++ " \\\\\n\\hline\n" ++ String.join lines ++
        "\\hline\n" ++ command "end" "tabular")

def headingText (level : Heading) (title : String) : String :=
  match level with
  | .section => "\\section*" ++ braced (escapeText title)
  | .solution => "\\subsection*" ++ braced (escapeText title)
  | .part => "\\subsubsection*" ++ braced (escapeText ("(" ++ title ++ ")"))

/-- Items stand apart by a blank line. -/
def joinItems (parts : List Rendered) : Rendered where
  text := "\n\n".intercalate (parts.map (·.text))
  warnings := parts.flatMap (·.warnings)

mutual

def item (lay : Layout) : Item → Except Fault Rendered
  | .hole => .error (fault "" {} .missingItem)
  | .heading level title items _ => do
    let body := joinItems (← itemList lay items)
    let head := headingText level title
    return { body with text := if body.text.isEmpty then head else head ++ "\n\n" ++ body.text }
  | .truthTable header rows loc => do
    return ⟨← truthTable lay.dialect.style loc header rows, []⟩
  | .equivChain steps loc =>
    if steps.isEmpty then .error (fault "equivalence chain" loc .noSteps)
    else do
      let lines ← steps.mapM (equivStep lay.dialect.style)
      return ⟨environment "align*" "" (" \\\\\n".intercalate lines), []⟩
  | .proof none loc => .error (fault "proof tree" loc .noConclusion)
  | .proof (some root) _ => do
    let figure ← proofTree lay.dialect.style root
    return ⟨"\\[\n" ++ figure ++ "\n\\]", []⟩
  | .givenType ns loc =>
    if ns.isEmpty then .error (fault "given type" loc .noNames)
    else .ok (checked lay "given type" loc
      (environment "zed" "" ("[" ++ names lay.dialect.style ns ++ "]")))
  | .freeType name branches loc =>
    if branches.isEmpty then .error (fault "free type" loc .noBranches)
    else do
      let parts ← branches.mapM (branch lay.dialect.style)
      return checked lay ("free type " ++ name) loc
        (environment "zed" "" (freeType lay name parts))
  | .abbreviation name gs body loc => do
    let term ← expr lay.dialect.style boxed body
    return checked lay ("abbreviation " ++ name) loc
      (environment "zed" ""
        (identifier lay.dialect.style name ++ generics lay.dialect.style gs ++ " == " ++ term))
  | .box kind name gs declarations predicates loc => do
    let (header, what) ← boxHeader lay.dialect.style kind name loc
    let decls ← declarations.mapM (declaration lay.dialect.style)
    let preds ← predicates.mapM fun p => do
      return (p.also, ← expr lay.dialect.style boxed p.expr)
    return checked lay what loc
      (environment kind.name (header ++ generics lay.dialect.style gs) (boxBody decls preds))
  | .zedBlock lines loc => do
    let rendered ← lines.mapM (zedLine lay.dialect.style loc)
    return checked lay "zed block" loc (environment "zed" "" (stackLines rendered))
  | .text kind segments loc => do
    let parts ← segments.mapM (segment lay.dialect.style kind loc)
    return ⟨String.join parts, []⟩
  | .formula e loc =>
    if e.isHole then .error (fault "expression" loc .missingExpression)
    else do
      let formula ← expr lay.dialect.style {} e
      return ⟨"\\[ " ++ formula ++ " \\]", []⟩
  | .pageBreak _ => .ok ⟨"\\newpage", []⟩

def itemList (lay : Layout) : List Item → Except Fault (List Rendered)
  | [] => .ok []
  | i :: rest => do
    let first ← item lay i
    let others ← itemList lay rest
    return first :: others

end

/-- A complete document around a body. -/
def standalone (st : Style) (body : String) : String :=
  command "documentclass" "article" ++ "\n" ++
    String.join (st.packages.map (fun p => command "usepackage" p ++ "\n")) ++
    command "usepackage" "proof" ++ "\n" ++ command "usepackage" "amsmath" ++ "\n\n" ++
    command "begin" "document" ++ "\n\n" ++
    (if body.isEmpty then "" else body ++ "\n\n") ++ command "end" "document" ++ "\n"

end Latex

def Document.render (lay : Latex.Layout) (doc : Document) : Except Fault Rendered := do
  let body := Latex.joinItems (← Latex.itemList lay doc)
  return { body with
    text :=
      if lay.standalone then Latex.standalone lay.dialect.style body.text
      else if body.text.isEmpty then "" else body.text ++ "\n" }

def Expr.render (d : Dialect) (e : Expr) : Except Fault String :=
  Latex.expr d.style {} e

end Whiteboard
