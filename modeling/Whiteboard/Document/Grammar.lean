import Whiteboard.Document.Derivation
import Whiteboard.Document.Headings
import Whiteboard.Expr.Grammar
import Whiteboard.Text.Integer
import Whiteboard.Token.Stream

namespace Whiteboard
namespace Parse

/-!
The grammar of documents.  Every item ends with its line; blocks run to their closing keyword or
to a blank line.  The functions that read a block line by line take a bound on the number of
lines; every line has a token, so the number of tokens is bound enough.
-/

namespace Env

def atLineEnd (env : Env) (toks : List Token) : Bool :=
  (env.peek toks).kind == .newline || (env.peek toks).kind == .endOfInput

def expectLineEnd (env : Env) (toks : List Token) : Except Fault (List Token) :=
  match (env.peek toks).kind with
  | .newline => .ok (env.rest toks)
  | .endOfInput => .ok toks
  | _ => .error (env.expected "end of line" toks)

end Env

/-- An item that ends with the line. -/
def endingLine {α : Type} (env : Env) (value : α) (toks : List Token) :
    Except Fault (Parsed α) := do
  let toks ← env.expectLineEnd toks
  return (value, toks)

/-! Names and paragraphs of one line. -/

def namesAfterComma (env : Env) : List Token → Except Fault (Parsed (List String))
  | [] => .ok ([], [])
  | comma :: toks =>
    if comma.isDelim "," then
      match toks with
      | [] => .error (env.expected "name" [])
      | t :: rest =>
        if isNameToken t then do
          let (names, toks) ← namesAfterComma env rest
          return (nameOf t :: names, toks)
        else .error (env.expected "name" (t :: rest))
    else .ok ([], comma :: toks)

def nameList (env : Env) (toks : List Token) : Except Fault (Parsed (List String)) :=
  match toks with
  | [] => .error (env.expected "name" [])
  | t :: rest =>
    if isNameToken t then do
      let (names, toks) ← namesAfterComma env rest
      return (nameOf t :: names, toks)
    else .error (env.expected "name" (t :: rest))

def generics (env : Env) (toks : List Token) : Except Fault (Parsed (List String)) :=
  if env.atDelim "[" toks then do
    let (names, after) ← nameList env (env.rest toks)
    let after ← env.close (env.peek toks) "]" after
    return (names, after)
  else .ok ([], toks)

def givenType (env : Env) (keyword : Token) (toks : List Token) : Except Fault (Parsed Item) := do
  let (names, toks) ← nameList env toks
  endingLine env (.givenType names (env.loc keyword)) toks

def branch (env : Env) (toks : List Token) : Except Fault (Parsed Branch) :=
  let t := env.peek toks
  if t.kind != .identifier then .error (env.expected "constructor name" toks)
  else
    let toks := env.rest toks
    let opener := env.peek toks
    let closing :=
      if opener.isDelim "⟨" then some "⟩" else if opener.isDelim "(" then some ")" else none
    match closing with
    | none => .ok (⟨t.value, .hole, env.loc t⟩, toks)
    | some closing => do
      let (param, toks) ← typeExpr env.inside (env.rest toks)
      let toks ← env.inside.close opener closing toks
      return (⟨t.value, param, env.loc t⟩, toks)

/-- The branches of a free type; a bar may open the next line. -/
def branches (env : Env) : (bound : Nat) → List Token → Except Fault (Parsed (List Branch))
  | 0, toks => .error (env.expected "constructor name" toks)
  | bound + 1, toks => do
    let (b, toks) ← branch env toks
    if env.atDelim "|" toks then
      let (bs, toks) ← branches env bound (env.rest toks)
      return (b :: bs, toks)
    else if (env.peek toks).kind == .newline && (env.second toks).isDelim "|" then
      let (bs, toks) ← branches env bound (env.rest toks).tail
      return (b :: bs, toks)
    else return ([b], toks)

def freeType (env : Env) (name : Token) (toks : List Token) : Except Fault (Parsed Item) := do
  let (bs, toks) ← branches env toks.length toks
  endingLine env (.freeType name.value bs (env.loc name)) toks

/-- An abbreviation after its name; the body is read as a type. -/
def abbreviation (env : Env) (name : Token) (toks : List Token) :
    Except Fault (Parsed Item) := do
  let (params, toks) ← generics env toks
  let toks ← env.expectDelim "==" toks
  let (term, toks) ← typeExpr env toks
  endingLine env (.abbreviation name.value params term (env.loc name)) toks

/-! Boxes. -/

/-- A declaration, or the inclusion of a schema. -/
def declaration (env : Env) (toks : List Token) : Except Fault (Parsed Declaration) := do
  let loc := env.loc (env.peek toks)
  if namesAhead false true toks then
    let (names, toks) ← nameList env toks
    let toks ← env.expectDelim ":" toks
    let (type, toks) ← typeExpr env toks
    return ({ names := names, type := type, loc := loc }, toks)
  else
    let (inclusion, toks) ← expr env toks
    return ({ inclusion := inclusion, loc := loc }, toks)

/-- The declarations of one line, separated by semicolons. -/
def declarationLine (env : Env) : (bound : Nat) → List Token →
    Except Fault (Parsed (List Declaration))
  | 0, toks => .error (env.expected "end of line" toks)
  | bound + 1, toks => do
    let (d, toks) ← declaration env toks
    if env.atDelim ";" toks && !env.atLineEnd (env.rest toks) then
      let (ds, toks) ← declarationLine env bound (env.rest toks)
      return (d :: ds, toks)
    else endingLine env [d] (if env.atDelim ";" toks then env.rest toks else toks)

def unclosed (env : Env) (keyword : Token) : Fault :=
  env.faultAt env.final "'end'" env.final.describe (some (Suggestion.closing keyword.value "end"))

def blankAhead (toks : List Token) : Bool :=
  (toks.head?.map (fun t => t.kind == .newline)).getD false

/-- The predicates of a box up to its end; `first` marks the first of them. -/
def predicates (env : Env) (keyword : Token) (first : Bool) : (bound : Nat) → List Token →
    Except Fault (Parsed (List Predicate))
  | 0, _ => .error (unclosed env keyword)
  | bound + 1, toks =>
    let blank := blankAhead toks
    match skipNewlines toks with
    | [] => .error (unclosed env keyword)
    | t :: rest =>
      if t.isKeyword "end" then endingLine env [] rest
      else if t.isKeyword "where" then
        .error (env.expected "predicate or 'end'" (t :: rest))
      else do
        let (e, toks) ← expr env (t :: rest)
        let toks ← env.expectLineEnd toks
        let (ps, toks) ← predicates env keyword false bound toks
        return (⟨e, blank && !first⟩ :: ps, toks)

/-- The declarations of a box, and its predicates if it has any, up to its end. -/
def boxLines (env : Env) (keyword : Token) : (bound : Nat) → List Token →
    Except Fault (Parsed (List Declaration × List Predicate))
  | 0, _ => .error (unclosed env keyword)
  | bound + 1, toks =>
    match skipNewlines toks with
    | [] => .error (unclosed env keyword)
    | t :: rest =>
      if t.isKeyword "end" then endingLine env ([], []) rest
      else if t.isKeyword "where" then do
        let toks ← env.expectLineEnd rest
        let (ps, toks) ← predicates env keyword true bound toks
        return (([], ps), toks)
      else do
        let (ds, toks) ← declarationLine env (rest.length + 1) (t :: rest)
        let ((more, ps), toks) ← boxLines env keyword bound toks
        return ((ds ++ more, ps), toks)

/-- The name of a box: only schemas have one. -/
def boxName (env : Env) (keyword : Token) (toks : List Token) :
    Except Fault (Parsed String) :=
  if keyword.value == "schema" then
    if (env.peek toks).kind == .identifier then .ok ((env.peek toks).value, env.rest toks)
    else .error (env.expected "schema name" toks)
  else .ok ("", toks)

def box (env : Env) (keyword : Token) (toks : List Token) : Except Fault (Parsed Item) := do
  let (name, toks) ← boxName env keyword toks
  let (params, toks) ← generics env toks
  let toks ← env.expectLineEnd toks
  let ((ds, ps), toks) ← boxLines env keyword (toks.length + 1) toks
  return (.box (BoxKind.ofName keyword.value) name params ds ps (env.loc keyword), toks)

/-- The lines of a zed block up to its end; `first` marks the first of them. -/
def zedLines (env : Env) (keyword : Token) (first : Bool) : (bound : Nat) → List Token →
    Except Fault (Parsed (List ZedLine))
  | 0, _ => .error (unclosed env keyword)
  | bound + 1, toks =>
    let also := blankAhead toks && !first
    match skipNewlines toks with
    | [] => .error (unclosed env keyword)
    | t :: rest =>
      if t.isKeyword "end" then endingLine env [] rest
      else do
        let (line, toks) ←
          if namesAhead false true (t :: rest) then do
            let (d, toks) ← declaration env (t :: rest)
            pure (({ decl := some d, also := also } : ZedLine), toks)
          else do
            let (e, toks) ← expr env (t :: rest)
            pure (({ expr := e, also := also } : ZedLine), toks)
        let toks ← env.expectLineEnd toks
        let (ls, toks) ← zedLines env keyword false bound toks
        return (line :: ls, toks)

def zedBlock (env : Env) (keyword : Token) (toks : List Token) : Except Fault (Parsed Item) := do
  let toks ← env.expectLineEnd toks
  let (ls, toks) ← zedLines env keyword true (toks.length + 1) toks
  return (.zedBlock ls (env.loc keyword), toks)

/-! Text. -/

def addText : List Segment → String → List Segment
  | [], text => [⟨text, .hole⟩]
  | [s], text => if s.math.isHole then [⟨s.text ++ text, .hole⟩] else [s, ⟨text, .hole⟩]
  | s :: rest, text => s :: addText rest text

def addSegment (segments : List Segment) (s : Segment) : List Segment :=
  if !s.math.isHole then segments ++ [s]
  else if s.text.isEmpty then segments
  else addText segments s.text

/-- The formula of a span that begins `offset` characters into the text of a line. -/
def spanExpr (env : Env) (line : Token) (offset : Nat) (span : List Char) : Except Fault Expr :=
  match Token.Reading.tokens {} (String.ofList span) with
  | .error fault => .error ⟨fault.problem, ⟨env.file, line.line, line.column + offset +
      fault.loc.column - 1⟩⟩
  | .ok toks => do
    let inner : Env :=
      { file := env.file
        final := finalToken toks
        origin := some (line.line, line.column + offset - 1) }
    let (e, rest) ← expr inner (body toks)
    match skipNewlines rest with
    | [] => return e
    | rest => .error (inner.expected "closing '$'" rest)

/-- The segments of a line of prose that was cut at its dollar signs, where `offset` characters
come before the first piece. -/
def spanSegments (env : Env) (line : Token) (offset : Nat) :
    List (List Char) → Except Fault (List Segment)
  | [] => .ok []
  | [text] => .ok [⟨String.ofList text, .hole⟩]
  | [text, _] =>
    .error ⟨.parse "closing '$'" "end of line" none,
      ⟨env.file, line.line, line.column + offset + text.length⟩⟩
  | text :: span :: rest => do
    let start := offset + text.length + 1
    let e ← spanExpr env line start span
    let others ← spanSegments env line (start + span.length + 1) rest
    return ⟨String.ofList text, .hole⟩ :: ⟨"", e⟩ :: others

/-- The segments of one line of text: formulas stand between dollar signs in prose only. -/
def lineSegments (env : Env) (kind : TextKind) (line : Token) : Except Fault (List Segment) :=
  if kind == .prose then
    spanSegments env line 0 (Text.splitWhere (· == '$') line.value.toList)
  else .ok [⟨line.value, .hole⟩]

def moreSegments (env : Env) (kind : TextKind) (segments : List Segment) :
    List Token → Except Fault (List Segment)
  | [] => .ok segments
  | line :: rest => do
    let more ← lineSegments env kind line
    moreSegments env kind (more.foldl addSegment (addSegment segments ⟨"\n", .hole⟩)) rest

def textSegments (env : Env) (kind : TextKind) : List Token → Except Fault (List Segment)
  | [] => .ok []
  | line :: rest => do
    let first ← lineSegments env kind line
    moreSegments env kind (first.foldl addSegment []) rest

def textLines (env : Env) : (bound : Nat) → List Token → Except Fault (Parsed (List Token))
  | 0, toks => .ok ([], toks)
  | bound + 1, toks =>
    if (env.peek toks).kind == .text then do
      let after ← env.expectLineEnd (env.rest toks)
      let (lines, after) ← textLines env bound after
      return (env.peek toks :: lines, after)
    else .ok ([], toks)

/-- A text block after its keyword: the rest of the line, or the lines that follow. -/
def textBlock (env : Env) (kind : TextKind) (keyword : Token) (toks : List Token) :
    Except Fault (Parsed Item) :=
  let loc := env.loc keyword
  if (env.peek toks).kind == .text then do
    let segments ← textSegments env kind [env.peek toks]
    endingLine env (.text kind segments loc) (env.rest toks)
  else do
    let toks ← env.expectLineEnd toks
    let (lines, toks) ← textLines env toks.length toks
    if lines.isEmpty then .error (env.expected ("text after " ++ keyword.value) toks)
    else
      let segments ← textSegments env kind lines
      return (.text kind segments loc, toks)

/-! Proofs, equivalence chains and truth tables. -/

/-- The position of the last `from ` in a justification that opens it or follows a space. -/
def lastFrom (before : List Char) : List Char → Option (List Char × List Char)
  | [] => none
  | c :: cs =>
    match lastFrom (before ++ [c]) cs with
    | some found => some found
    | none =>
      if "from ".toList.isPrefixOf (c :: cs) then some (before, (c :: cs).drop 5) else none

/-- Separates the labels that a step discharges, as in `=> intro from 1, 2`. -/
def splitDischarge (text : String) : String × List Int :=
  match lastFrom [] text.toList with
  | none => (text, [])
  | some (before, after) =>
    if before.isEmpty || before.getLast? == some ' ' then
      let fields := Text.piecesBetween (fun c => c == ',' || c == ' ') after
      match fields.mapM (fun f => Text.readInt (String.ofList f)) with
      | some (n :: labels) => (String.ofList (Text.trimBlanks before), n :: labels)
      | _ => (text, [])
    else (text, [])

/-- A label at the front of a proof line. -/
def assumptionLabel (env : Env) (toks : List Token) : Except Fault (Parsed (Option Int)) :=
  let t := env.peek toks
  if t.kind == .label then
    match Text.readInt t.value with
    | some n => .ok (some n, env.rest toks)
    | none => .error (env.faultAt t "assumption label" t.describe)
  else .ok (none, toks)

def proofLine (env : Env) (toks : List Token) : Except Fault (Parsed ProofStep) := do
  let loc := env.loc (env.peek toks)
  let (label, toks) ← assumptionLabel env toks
  let isSibling := env.atDelim "::" toks
  let toks := if isSibling then env.rest toks else toks
  let isCase := (env.peek toks).isKeyword "case"
  let toks := if isCase then env.rest toks else toks
  let (e, toks) ← expr env toks
  let toks := if isCase && env.atDelim ":" toks then env.rest toks else toks
  let t := env.peek toks
  let (reason, discharge) := if t.kind == .justification then splitDischarge t.value else ("", [])
  let toks := if t.kind == .justification then env.rest toks else toks
  endingLine env
    { expr := e
      justification := reason
      label := label.getD 0
      isAssumption := label.isSome
      isSibling := isSibling
      isCase := isCase
      discharge := discharge
      loc := loc } toks

def misfit (env : Env) (t : Token) (m : Derivation.Misfit) : Fault :=
  env.faultAt t m.expected (m.found.getD t.describe)

/-- The lines of a proof up to a blank line. -/
def proofLines (env : Env) (s : Derivation.State) : (bound : Nat) → List Token →
    Except Fault (Parsed ProofTree)
  | 0, toks => .error (env.expected "proof step" toks)
  | bound + 1, toks =>
    let first := env.peek toks
    if env.atLineEnd toks then
      match Derivation.finish s with
      | .ok tree => .ok (tree, toks)
      | .error m => .error (misfit env first m)
    else do
      let (step, toks) ← proofLine env toks
      match Derivation.add s first.column first.line step with
      | .ok s => proofLines env s bound toks
      | .error m => .error (misfit env first m)

def proof (env : Env) (keyword : Token) (toks : List Token) : Except Fault (Parsed Item) := do
  let toks ← env.expectLineEnd toks
  let (tree, toks) ← proofLines env {} (toks.length + 1) toks
  return (.proof (some tree) (env.loc keyword), toks)

/-- The steps of an equivalence chain up to a blank line; `first` marks the first of them. -/
def equivSteps (env : Env) (first : Bool) : (bound : Nat) → List Token →
    Except Fault (Parsed (List EquivStep))
  | 0, toks => .ok ([], toks)
  | bound + 1, toks =>
    if env.atLineEnd toks then .ok ([], toks)
    else do
      let t := env.peek toks
      let written := t.isOp "iff" || t.isOp "implies"
      let connective := if first then "" else if written then t.value else "iff"
      let (e, toks) ← expr env (if written then env.rest toks else toks)
      let j := env.peek toks
      let reason := if j.kind == .justification then j.value else ""
      let toks ← env.expectLineEnd (if j.kind == .justification then env.rest toks else toks)
      let (steps, toks) ← equivSteps env false bound toks
      return (⟨connective, e, reason, env.loc t⟩ :: steps, toks)

def equivChain (env : Env) (keyword : Token) (toks : List Token) :
    Except Fault (Parsed Item) := do
  let toks ← env.expectLineEnd toks
  let (steps, toks) ← equivSteps env true toks.length toks
  if steps.isEmpty then .error (env.expected "equivalence step" toks)
  else return (.equivChain steps (env.loc keyword), toks)

def tableHeader (env : Env) : (bound : Nat) → List Token → Except Fault (Parsed (List Expr))
  | 0, toks => .error (env.expected "truth table header" toks)
  | bound + 1, toks => do
    let (e, toks) ← expr env toks
    if env.atDelim "|" toks then
      let (es, toks) ← tableHeader env bound (env.rest toks)
      return (e :: es, toks)
    else return ([e], toks)

/-- The cells of a row as they are written; `cell` is the text of the current one. -/
def rowCells (cell : String) : List Token → List String
  | [] => [Text.trim cell]
  | t :: rest =>
    if t.isDelim "|" then Text.trim cell :: rowCells "" rest
    else
      let gap := if t.spaceBefore && !cell.isEmpty then " " else ""
      rowCells (cell ++ gap ++ t.literal) rest

/-- A row of dashes and plus signs rules off the header. -/
def isRule (row : List Token) : Bool :=
  row.all (fun t => t.isDelim "|" || t.isOp "minus" || t.isOp "plus")

/-- The rows of a table of given width up to a blank line. -/
def tableRows (env : Env) (columns : Nat) : (bound : Nat) → List Token →
    Except Fault (Parsed (List (List String)))
  | 0, toks => .ok ([], toks)
  | bound + 1, toks =>
    if env.atLineEnd toks then .ok ([], toks)
    else do
      let row := toks.takeWhile (fun t => t.kind != .newline)
      let after ← env.expectLineEnd (toks.drop row.length)
      let cells := rowCells "" row
      if isRule row then tableRows env columns bound after
      else if cells.length != columns then
        .error (env.faultAt (env.peek toks) (toString columns ++ " cells")
          (toString cells.length ++ " cells"))
      else
        let (rows, after) ← tableRows env columns bound after
        return (cells :: rows, after)

def truthTable (env : Env) (keyword : Token) (toks : List Token) :
    Except Fault (Parsed Item) := do
  let toks ← env.expectLineEnd toks
  if env.atLineEnd toks then .error (env.expected "truth table header" toks)
  else
    let (header, toks) ← tableHeader env toks.length toks
    let toks ← env.expectLineEnd toks
    let (rows, toks) ← tableRows env header.length toks.length toks
    return (.truthTable header rows (env.loc keyword), toks)

/-! Lines. -/

/-- Is the delimiter on the rest of the line? -/
def lineHasDelim (value : String) (toks : List Token) : Bool :=
  (toks.takeWhile (fun t => t.kind != .newline)).any (fun t => t.isDelim value)

def keywordHint (first second : Token) : Option String :=
  match Suggestion.keyword first.value Symbol.keywords with
  | some hint => some hint
  | none =>
    if second.isDelim ":" then Suggestion.keyword (first.value ++ ":") Symbol.blockKeywords
    else none

def withKeywordHint (first second : Token) (fault : Fault) : Fault :=
  match fault.problem with
  | .parse expected found none =>
    if first.kind == .identifier then
      { fault with problem := .parse expected found (keywordHint first second) }
    else fault
  | _ => fault

def formula (env : Env) (toks : List Token) : Except Fault (Parsed Item) :=
  let t := env.peek toks
  let parsed : Except Fault (Parsed Item) := do
    let (e, toks) ← expr env toks
    endingLine env (.formula e (env.loc t)) toks
  parsed.mapError (withKeywordHint t (env.second toks))

def block (env : Env) (t : Token) (rest : List Token) : Option (Except Fault (Parsed Item)) :=
  if t.kind != .keyword then none
  else
    match t.value with
    | "given" => some (givenType env t rest)
    | "axdef" | "schema" | "gendef" => some (box env t rest)
    | "zed" => some (zedBlock env t rest)
    | "TEXT:" => some (textBlock env .prose t rest)
    | "PURETEXT:" => some (textBlock env .pure t rest)
    | "LATEX:" => some (textBlock env .latex t rest)
    | "PROOF:" => some (proof env t rest)
    | "EQUIV:" => some (equivChain env t rest)
    | "TRUTH TABLE:" => some (truthTable env t rest)
    | "PAGEBREAK:" => some (endingLine env (.pageBreak (env.loc t)) rest)
    | _ => none

def item (env : Env) (toks : List Token) : Except Fault (Parsed Item) :=
  let t := env.peek toks
  match block env t (env.rest toks) with
  | some result => result
  | none =>
    if t.kind == .identifier && (env.second toks).isDelim "::=" then
      freeType env t (env.rest toks).tail
    else if t.kind == .identifier && lineHasDelim "==" toks then
      abbreviation env t (env.rest toks)
    else formula env toks

/-- The entries that begin at a line: a heading, prose, or an item; a part label may stand before
any of them. -/
def entries (env : Env) : List Token → Except Fault (Parsed (List Entry))
  | [] => .error (env.expected "expression" [])
  | t :: rest =>
    match t.kind with
    | .sectionHeader => endingLine env [.heading .section t.value (env.loc t)] rest
    | .solutionHeader => endingLine env [.heading .solution t.value (env.loc t)] rest
    | .partLabel =>
      let label := Entry.heading .part t.value (env.loc t)
      if env.atLineEnd rest then endingLine env [label] rest
      else do
        let (more, toks) ← entries env rest
        return (label :: more, toks)
    | .text => do
      let segments ← textSegments env .prose [t]
      endingLine env [.item (.text .prose segments (env.loc t))] rest
    | _ => do
      let (i, toks) ← item env (t :: rest)
      return ([.item i], toks)

def documentEntries (env : Env) : (bound : Nat) → List Token → Except Fault (List Entry)
  | 0, _ => .ok []
  | bound + 1, toks =>
    match skipNewlines toks with
    | [] => .ok []
    | t :: rest => do
      let (first, toks) ← entries env (t :: rest)
      let others ← documentEntries env bound toks
      return first ++ others

end Parse

def Document.ofTokens (file : String) (toks : List Token) : Except Fault Document := do
  let env := Parse.envOf file toks
  let entries ← Parse.documentEntries env (toks.length + 1) (Parse.body toks)
  return Document.ofEntries entries

end Whiteboard
