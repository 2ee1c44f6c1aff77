import Whiteboard.Diagnostic
import Whiteboard.Expr
import Whiteboard.Latex.Text

namespace Whiteboard
namespace Latex

/-!
Expressions as formulas.  Parentheses come from the binding powers of the symbol table, from the
rule that applications group to the left, and, for quantifiers, from what stands around them.
-/

/-- Where an expression stands: the place of the expression around it, whether it is the body of
a quantifier, whether nothing of the expression around it follows, whether line breaks are
allowed, and the indentation of continued lines. -/
structure Context where
  parent : Option Location := none
  body : Bool := false
  tail : Bool := true
  box : Bool := false
  indent : Nat := 0

namespace Context

/-- The context of a part of an expression at `parent`. -/
def child (c : Context) (parent : Location) (tail : Bool) : Context where
  parent := some parent
  tail := tail
  box := c.box
  indent := c.indent

/-- A parenthesized expression is in tail position. -/
def within (c : Context) (wrap : Bool) : Context :=
  { c with tail := c.tail || wrap }

end Context

/-- The binding power of what an expression is set as.  Quantifiers count as atoms: their
parentheses depend on the context instead. -/
def precedence : Expr → Precedence
  | .binary op _ _ _ _ chained _ =>
    if chained then Precedence.relation
    else ((Symbol.asInfix op).map Prod.fst).getD Precedence.lowest
  | .unary op _ _ trailing _ =>
    if trailing then Precedence.postfixed
    else if op == "not" then Precedence.negation
    else Precedence.prefixed
  | .range .. => Precedence.range
  | .conditional .. => Precedence.conditional
  | .application _ _ juxtaposed _ => if juxtaposed then Precedence.postfixed else Precedence.atom
  | _ => Precedence.atom

/-- Is the expression set as a function with its argument? -/
def appliesFunction : Expr → Bool
  | .application .. => true
  | .unary op _ _ trailing _ => !trailing && ((Symbol.lookup op).map (·.applied)).getD false
  | _ => false

/-- Does a quantifier need parentheses in this context? -/
def wrapsQuantifier (st : Style) (c : Context) : Bool :=
  c.parent.isSome && (if st.bareInTail then !c.tail else !c.body)

/-- Does the operand of a prefix operator need parentheses?  A prefix word that is set like a
function wraps whatever is no atom. -/
def wrapsPrefixOperand (st : Style) (s : Symbol) (operand : Expr) : Bool :=
  precedence operand < (if s.name == "not" then Precedence.negation else Precedence.prefixed) ||
    (if s.applied then precedence operand < Precedence.atom || appliesFunction operand
      else appliesFunction operand && st.wrapsApplications)

def closure (st : Style) (s : Symbol) (operand : String) : String :=
  if st.conventional then operand ++ st.command s else operand ++ " " ++ st.command s

def wrapIf (wrap : Bool) (s : String) : String :=
  if wrap then parens s else s

def collectionBrackets : CollectionKind → Option (String × String)
  | .set => some ("\\\x7b", "\\\x7d")
  | .sequence => some ("\\langle", "\\rangle")
  | .bag => some ("\\lbag", "\\rbag")
  | .other _ => none

def prefixed (st : Style) (s : Symbol) (operand : String) : String :=
  if s.name == "neg" then st.command s ++ operand
  else if s.applied then st.command s ++ "~" ++ operand
  else st.command s ++ " " ++ operand

def fault (node : String) (loc : Location) (cause : RenderCause) : Fault :=
  ⟨.generation node cause, loc⟩

/-- A part that may be missing, after what introduces it. -/
def optional (lead : String) (part : Except Fault String) (missing : Bool) : Except Fault String :=
  if missing then .ok "" else part.map (lead ++ ·)

/-- A superscript or subscript that may be missing. -/
def scriptPart (mark : String) (part : Except Fault String) (missing : Bool) :
    Except Fault String :=
  if missing then .ok "" else part.map (mark ++ braced ·)

mutual

def expr (st : Style) (c : Context) : Expr → Except Fault String
  | .hole => .error (fault "" (c.parent.getD {}) .missingExpression)
  | .literal kind value _ =>
    .ok (if kind == .number then value else identifier st value)
  | .unary op _ operand trailing loc =>
    match Symbol.lookup op with
    | none => .error (fault "unary" loc (.unknownOperator op))
    | some s => do
      let wrap := if trailing then decide (precedence operand < Precedence.postfixed)
        else wrapsPrefixOperand st s operand
      let inner ← expr st ((c.child loc c.tail).within wrap) operand
      if trailing then return closure st s (wrapIf wrap inner)
      else return prefixed st s (wrapIf wrap inner)
  | .binary _ _ left (.binary relation _ _ right _ _ relationLoc) _ true loc =>
    match (Symbol.lookup relation).filter (fun s => s.role == .relation) with
    | none => .error (fault "binary" relationLoc (.unknownRelation relation))
    | some s => do
      let first ← expr st (c.child loc false) left
      let wrap := needsParens (precedence right) Precedence.relation .none true
      let last ← expr st ((c.child loc c.tail).within wrap) right
      return first ++ " " ++ st.command s ++ " " ++ wrapIf wrap last
  | .binary _ _ _ _ _ true loc => .error (fault "binary" loc .chainWithoutRelation)
  | .binary op _ left right breakAfter false loc =>
    match Symbol.lookup op, Symbol.asInfix op with
    | some s, some (prec, assoc) => do
      let wrapLeft := needsParens (precedence left) prec assoc false
      let first ← expr st ((c.child loc false).within wrapLeft) left
      let breaks := breakAfter && c.box
      let indent := if breaks then c.indent + 1 else c.indent
      let wrapRight := needsParens (precedence right) prec assoc true
      let last ← expr st { (c.child loc c.tail).within wrapRight with indent := indent } right
      let gap := if breaks then " \\\\\n" ++ tab indent else " "
      return wrapIf wrapLeft first ++ " " ++ st.command s ++ gap ++ wrapIf wrapRight last
    | _, _ => .error (fault "binary" loc (.unknownOperator op))
  | .quantifier quant _ bindings constraint body loc =>
    match (Symbol.lookup quant).filter (fun s => s.role == .quantifier) with
    | none => .error (fault "quantifier" loc (.unknownQuantifier quant))
    | some s =>
      if constraint.isHole && body.isHole then .error (fault "quantifier" loc .noPredicate)
      else if bindings.isEmpty then .error (fault "quantifier" loc .noBoundVariables)
      else do
        let groups ← bindingGroups st (c.child loc false) bindings
        let such ← optional " | " (expr st (c.child loc body.isHole) constraint) constraint.isHole
        let result ← optional (" " ++ st.spot ++ " ")
          (expr st { c.child loc true with body := true } body) body.isHole
        return wrapIf (wrapsQuantifier st c)
          (st.command s ++ " " ++ "; ".intercalate groups ++ such ++ result)
  | .comprehension bindings predicate result loc =>
    if bindings.isEmpty then .error (fault "comprehension" loc .noBoundVariables)
    else do
      let groups ← bindingGroups st (c.child loc false) bindings
      let such ← optional " | " (expr st (c.child loc result.isHole) predicate) predicate.isHole
      let term ← optional (" " ++ st.spot ++ " ") (expr st (c.child loc true) result) result.isHole
      return "\\\x7b " ++ "; ".intercalate groups ++ such ++ term ++ " \\\x7d"
  | .collection kind elements loc =>
    match collectionBrackets kind with
    | none => .error (fault "collection" loc (.unknownCollection kind.name))
    | some (opening, closing) =>
      if elements.isEmpty then
        .ok (if kind == .set then opening ++ closing else opening ++ " " ++ closing)
      else do
        let inner ← exprs st (c.child loc true) elements
        return opening ++ " " ++ ", ".intercalate inner ++ " " ++ closing
  | .tuple elements loc => do
    let inner ← exprs st (c.child loc true) elements
    return parens (", ".intercalate inner)
  | .projection target field loc => do
    let wrap := decide (precedence target < Precedence.atom)
    let inner ← expr st ((c.child loc false).within wrap) target
    return wrapIf wrap inner ++ "." ++ identifier st field
  | .range low high loc => do
    let wrapLow := needsParens (precedence low) Precedence.range .none false
    let first ← expr st ((c.child loc false).within wrapLow) low
    let wrapHigh := needsParens (precedence high) Precedence.range .none true
    let last ← expr st ((c.child loc c.tail).within wrapHigh) high
    return wrapIf wrapLow first ++ " " ++ st.commandOf "upto" ++ " " ++ wrapIf wrapHigh last
  | .conditional condition yes no loc => do
    let first ← expr st (c.child loc false) condition
    let second ← expr st (c.child loc false) yes
    let third ← expr st (c.child loc c.tail) no
    let gap := st.keywordGap
    return st.commandOf "if" ++ gap ++ first ++ gap ++ st.commandOf "then" ++ gap ++ second ++
      gap ++ st.commandOf "else" ++ gap ++ third
  | .application target args juxtaposed loc => do
    let wrap := decide (precedence target < Precedence.postfixed)
    let function ← expr st ((c.child loc false).within wrap) target
    match juxtaposed, args with
    | true, [arg] =>
      let wrapArg := decide (precedence arg < Precedence.atom)
      let argument ← expr st ((c.child loc c.tail).within wrapArg) arg
      return wrapIf wrap function ++ "~" ++ wrapIf wrapArg argument
    | _, args =>
      let inner ← exprs st (c.child loc true) args
      return wrapIf wrap function ++ parens (", ".intercalate inner)
  | .instantiation base params loc => do
    let wrap := decide (precedence base < Precedence.postfixed)
    let generic ← expr st ((c.child loc false).within wrap) base
    let inner ← exprs st (c.child loc true) params
    return wrapIf wrap generic ++ "[" ++ ", ".intercalate inner ++ "]"
  | .image relation set loc => do
    let wrap := decide (precedence relation < Precedence.postfixed)
    let mapping ← expr st ((c.child loc false).within wrap) relation
    let inner ← expr st (c.child loc true) set
    return wrapIf wrap mapping ++ " \\limg " ++ inner ++ " \\rimg"
  | .script base super sub loc =>
    if super.isHole && sub.isHole then .error (fault "script" loc .emptyScript)
    else do
      let wrap := decide (precedence base < Precedence.atom)
      let nucleus ← expr st ((c.child loc false).within wrap) base
      let lower ← scriptPart "_" (expr st (c.child loc true) sub) sub.isHole
      let upper ← scriptPart "^" (expr st (c.child loc true) super) super.isHole
      return wrapIf wrap nucleus ++ lower ++ upper

/-- The elements of a list; only the last is in tail position. -/
def exprs (st : Style) (c : Context) : List Expr → Except Fault (List String)
  | [] => .ok []
  | e :: rest => do
    let first ← expr st { c with tail := rest.isEmpty } e
    let others ← exprs st c rest
    return first :: others

def bindingGroups (st : Style) (c : Context) : List (Binding Expr) → Except Fault (List String)
  | [] => .ok []
  | ⟨ns, domain, _⟩ :: rest => do
    let type ← optional " : " (expr st c domain) domain.isHole
    let others ← bindingGroups st c rest
    return (names st ns ++ type) :: others

end

end Latex
end Whiteboard
