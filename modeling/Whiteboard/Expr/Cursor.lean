import Whiteboard.Diagnostic
import Whiteboard.Diagnostic.Suggestion
import Whiteboard.Expr
import Whiteboard.Symbol.Table
import Whiteboard.Token

namespace Whiteboard
namespace Parse

/-!
Reading a list of tokens from the front.  The list holds no end-of-input token; a token kept in
the environment stands for the end.  Line ends inside brackets are stepped over.
-/

/-- Where tokens are read: the name of the source, the token at its end, the line and the column
shift of a formula inside a line of text, whether a bracket is open, and whether the name `x` is
the product sign. -/
structure Env where
  file : String
  final : Token
  origin : Option (Int × Int) := none
  nested : Bool := false
  product : Bool := false

/-- A parsed value with the tokens after it. -/
abbrev Parsed (α : Type) := α × List Token

namespace Env

def view (env : Env) (toks : List Token) : List Token :=
  if env.nested then toks.dropWhile (fun t => t.kind == .newline) else toks

def peek (env : Env) (toks : List Token) : Token :=
  (env.view toks).headD env.final

def rest (env : Env) (toks : List Token) : List Token :=
  (env.view toks).tail

/-- The token after the current one, be it a line end. -/
def second (env : Env) (toks : List Token) : Token :=
  (env.rest toks).headD env.final

def atDelim (env : Env) (value : String) (toks : List Token) : Bool :=
  (env.peek toks).isDelim value

def loc (env : Env) (t : Token) : Location :=
  match env.origin with
  | some (line, shift) => ⟨env.file, line, shift + t.column⟩
  | none => ⟨env.file, t.line, t.column⟩

def faultAt (env : Env) (t : Token) (expected found : String) (hint : Option String := none) :
    Fault :=
  ⟨.parse expected found hint, env.loc t⟩

def expected (env : Env) (what : String) (toks : List Token) : Fault :=
  env.faultAt (env.peek toks) what (env.peek toks).describe

def inside (env : Env) : Env :=
  { env with nested := true }

def withProduct (env : Env) (product : Bool) : Env :=
  { env with product := product }

def expectDelim (env : Env) (value : String) (toks : List Token) : Except Fault (List Token) :=
  if env.atDelim value toks then .ok (env.rest toks)
  else .error (env.expected ("'" ++ value ++ "'") toks)

def expectKeyword (env : Env) (name : String) (toks : List Token) : Except Fault (List Token) :=
  if (env.peek toks).isKeyword name then .ok (env.rest toks)
  else .error (env.expected ("'" ++ name ++ "'") toks)

/-- Steps over the delimiter that closes `opener`; if it is missing, the fault suggests it. -/
def close (env : Env) (opener : Token) (closing : String) (toks : List Token) :
    Except Fault (List Token) :=
  if env.atDelim closing toks then .ok (env.rest toks)
  else
    .error (env.faultAt (env.peek toks) ("'" ++ closing ++ "'") (env.peek toks).describe
      (some (Suggestion.closing opener.literal closing)))

/-- Steps over a mark at the end of a line that continues the expression, and that line end. -/
def continuation (env : Env) (toks : List Token) : Bool × List Token :=
  if env.atDelim "\\" toks then
    match env.rest toks with
    | t :: after => (true, if t.kind == .newline then after else t :: after)
    | [] => (true, [])
  else (false, toks)

end Env

def isPrefix (name : String) : Bool :=
  ((Symbol.lookup name).map (fun s => s.role == .prefixOp)).getD false

def isWordSpelled (t : Token) : Bool :=
  Symbol.isWordSpelling t.literal

/-- Can the token name a variable?  A prefix word may be used as a name. -/
def isNameToken (t : Token) : Bool :=
  t.kind == .identifier || (t.kind == .operator && isPrefix t.value && isWordSpelled t)

def nameOf (t : Token) : String :=
  if t.kind == .identifier then t.value else t.literal

/-- Can the token begin an operand? -/
def Env.startsOperand (env : Env) (t : Token) : Bool :=
  match t.kind with
  | .identifier => !(env.product && t.value == "x")
  | .number => true
  | .delimiter => ["(", "\x7b", "⟨", "[["].contains t.value
  | .operator => isPrefix t.value
  | _ => false

/-- Can the token follow the point of a projection? -/
def isField (t : Token) : Bool :=
  (t.kind == .identifier || t.kind == .number) && !t.spaceBefore

/-- The infix operator a token stands for, with its binding power and grouping. -/
def Env.infixAt (env : Env) (t : Token) : Option (String × Precedence × Assoc) :=
  let name :=
    if t.kind == .operator then some t.value
    else if t.kind == .identifier && t.value == "x" && env.product then some "cross"
    else none
  name.bind fun n => (Symbol.asInfix n).map fun p => (n, p.1, p.2)

/-- Is the expression a plain name that is no reserved constant? -/
def isName : Expr → Bool
  | .literal .identifier value _ =>
    ((Symbol.lookup value).map (fun s => s.role != .constant)).getD true
  | _ => false

/-- Can the expression be applied to arguments? -/
def isApplicable : Expr → Bool
  | .application .. | .instantiation .. | .projection .. => true
  | e => isName e

def isLambda : Expr → Bool
  | .quantifier quant .. => quant == "lambda"
  | _ => false

/-- Letters, an underscore, and exactly one ASCII letter or digit: base and subscript. -/
def splitSubscript (name : String) : Option (String × Char) :=
  match name.toList.reverse with
  | c :: '_' :: base =>
    if !base.isEmpty && base.all Text.isLetter && decide (c.toNat < 0x7F) &&
        (Text.isLetter c || ('0' ≤ c && c ≤ '9')) then
      some (String.ofList base.reverse, c)
    else none
  | _ => none

/-- The expression of a name; a subscript of one character is split off. -/
def nameExpr (name : String) (loc : Location) : Expr :=
  match splitSubscript name with
  | none => .literal .identifier name loc
  | some (base, c) =>
    let kind : LiteralKind := if '0' ≤ c && c ≤ '9' then .number else .identifier
    .script (.literal .identifier base loc) .hole (.literal kind (String.singleton c) loc) loc

/-- Do the tokens read `name, name, ... :`?  Line ends are passed over if `spanLines`. -/
def namesAhead (spanLines : Bool) (wantName : Bool) : List Token → Bool
  | [] => false
  | t :: rest =>
    if t.kind == .newline then spanLines && namesAhead spanLines wantName rest
    else if wantName then isNameToken t && namesAhead spanLines false rest
    else if t.isDelim "," then namesAhead spanLines true rest
    else t.isDelim ":"

/-- Further names of a binding group, each directly after a comma. -/
def moreNames (nested : Bool) : List Token → List String × List Token
  | t :: u :: rest =>
    if nested && t.kind == .newline then moreNames nested (u :: rest)
    else if t.isDelim "," && isNameToken u then
      let (names, after) := moreNames nested rest
      (nameOf u :: names, after)
    else ([], t :: u :: rest)
  | toks => ([], toks)

end Parse
end Whiteboard
