import Whiteboard.Expr.Cursor

namespace Whiteboard
namespace Parse

/-!
The grammar of expressions.  Infix operators are read by climbing their binding powers, adjacent
relations form a chain, and a primary expression takes applications, parameters, projections,
closures, scripts and images after it.  The first argument of these functions bounds their depth;
a call consumes a token at least every eight levels, so a bound that is eight times the number of
tokens is never reached.
-/

/-- A superscript on a base; a script that has only a subscript takes it in. -/
def superscript (base sup : Expr) : Expr :=
  match base with
  | .script nucleus .hole sub loc => .script nucleus sup sub loc
  | _ => .script base sup .hole base.loc

/-- One expression in parentheses is itself, several are a tuple. -/
def tupleOf (loc : Location) : List Expr → Expr
  | [e] => e
  | es => .tuple es loc

/-- Does the token separate bound variables from what is said of them? -/
def isSpot (t : Token) : Bool :=
  t.isDelim "@" || t.isDelim "."

mutual

/-- An operand and the operators after it that bind at least as tightly as `least`. -/
def binary (bound : Nat) (env : Env) (least : Precedence) (toks : List Token) :
    Except Fault (Parsed Expr) :=
  match bound with
  | 0 => .error (env.expected "expression" toks)
  | bound + 1 => do
    let (left, toks) ← operand bound env true toks
    climb bound env least left none toks

/-- Goes on after `left`.  If `left` ends in a relation, `last` is the right operand of that
relation, which a further relation repeats. -/
def climb (bound : Nat) (env : Env) (least : Precedence) (left : Expr) (last : Option Expr)
    (toks : List Token) : Except Fault (Parsed Expr) :=
  match bound with
  | 0 => .error (env.expected "expression" toks)
  | bound + 1 =>
    let t := env.peek toks
    match env.infixAt t with
    | none => .ok (left, toks)
    | some (name, prec, assoc) =>
      if prec < least then .ok (left, toks)
      else do
        let (breakAfter, after) := env.continuation (env.rest toks)
        let (right, toks) ← binary bound env (if assoc == .right then prec else prec + 1) after
        if name == "upto" then
          climb bound env least (.range left right (env.loc t)) none toks
        else if Symbol.isRelation name then
          match last with
          | some middle =>
            let relation := .binary name t.literal middle right breakAfter false (env.loc t)
            climb bound env least (.binary "and" "" left relation false true left.loc)
              (some right) toks
          | none =>
            climb bound env least (.binary name t.literal left right breakAfter false (env.loc t))
              (some right) toks
        else
          climb bound env least (.binary name t.literal left right breakAfter false (env.loc t))
            none toks

/-- Prefix operators and a primary expression with what follows it.  Only with `juxtapose` may an
argument follow after a space. -/
def operand (bound : Nat) (env : Env) (juxtapose : Bool) (toks : List Token) :
    Except Fault (Parsed Expr) :=
  match bound with
  | 0 => .error (env.expected "expression" toks)
  | bound + 1 =>
    let t := env.peek toks
    if t.isOp "minus" then do
      let (e, toks) ← operand bound env juxtapose (env.rest toks)
      return (.unary "neg" t.literal e false (env.loc t), toks)
    else if t.isOp "not" then do
      let (e, toks) ← binary bound env Precedence.negation (env.rest toks)
      return (.unary "not" t.literal e false (env.loc t), toks)
    else if t.kind == .operator && isPrefix t.value then
      if isWordSpelled t && !env.startsOperand (env.second toks) then
        suffixes bound env juxtapose (.literal .identifier t.literal (env.loc t)) (env.rest toks)
      else do
        let (e, toks) ← operand bound env juxtapose (env.rest toks)
        return (.unary t.value t.literal e false (env.loc t), toks)
    else do
      let (base, toks) ← primary bound env toks
      if t.isDelim "(" then
        let (base, toks) ← appliedGroup bound env juxtapose base toks
        suffixes bound env juxtapose base toks
      else suffixes bound env juxtapose base toks

/-- A parenthesized expression before arguments in parentheses; a lambda also takes an argument
after a space. -/
def appliedGroup (bound : Nat) (env : Env) (juxtapose : Bool) (group : Expr)
    (toks : List Token) : Except Fault (Parsed Expr) :=
  match bound with
  | 0 => .error (env.expected "expression" toks)
  | bound + 1 =>
    let t := env.peek toks
    if t.isDelim "(" && !t.spaceBefore then do
      let (args, toks) ← listed bound env ")" toks
      return (.application group args false group.loc, toks)
    else if juxtapose && t.spaceBefore && isLambda group && env.startsOperand t then do
      let (arg, toks) ← operand bound env false toks
      return (.application group [arg] true group.loc, toks)
    else .ok (group, toks)

/-- What follows a base: arguments, parameters, projections, closures, scripts and images. -/
def suffixes (bound : Nat) (env : Env) (juxtapose : Bool) (base : Expr) (toks : List Token) :
    Except Fault (Parsed Expr) :=
  match bound with
  | 0 => .error (env.expected "expression" toks)
  | bound + 1 =>
    let t := env.peek toks
    if t.isDelim "(" && !t.spaceBefore && isApplicable base then do
      let (args, toks) ← listed bound env ")" toks
      suffixes bound env juxtapose (.application base args false base.loc) toks
    else if t.isDelim "[" && (!t.spaceBefore || isName base) && isApplicable base then do
      let (params, toks) ← listed bound env "]" toks
      suffixes bound env juxtapose (.instantiation base params base.loc) toks
    else if t.isDelim "." && !t.spaceBefore && isField (env.second toks) then
      suffixes bound env juxtapose (.projection base (env.second toks).value base.loc)
        (env.rest toks).tail
    else if t.isOp "inv" then
      suffixes bound env juxtapose (.unary "inv" t.literal base true (env.loc t)) (env.rest toks)
    else if (t.isOp "plus" || t.isOp "times") && !t.spaceBefore &&
        !env.startsOperand (env.second toks) then
      suffixes bound env juxtapose
        (.unary (if t.value == "times" then "rtcl" else "tcl") t.literal base true (env.loc t))
        (env.rest toks)
    else if t.isOp "sup" then do
      let (sup, toks) ← primary bound env (env.rest toks)
      suffixes bound env juxtapose (superscript base sup) toks
    else if t.isDelim "(|" then do
      let (set, toks) ← binary bound env.inside 1 (env.rest toks)
      let toks ← env.inside.close t "|)" toks
      suffixes bound env juxtapose (.image base set base.loc) toks
    else if juxtapose && t.spaceBefore && isApplicable base && env.startsOperand t then do
      let (arg, toks) ← operand bound env false toks
      suffixes bound env juxtapose (.application base [arg] true base.loc) toks
    else .ok (base, toks)

/-- A list between the current bracket and `closing`; it may be empty. -/
def listed (bound : Nat) (env : Env) (closing : String) (toks : List Token) :
    Except Fault (Parsed (List Expr)) :=
  match bound with
  | 0 => .error (env.expected "expression" toks)
  | bound + 1 =>
    let opener := env.peek toks
    let toks := env.rest toks
    if env.inside.atDelim closing toks then .ok ([], env.inside.rest toks)
    else do
      let (es, toks) ← elements bound env.inside toks
      let toks ← env.inside.close opener closing toks
      return (es, toks)

/-- One or more expressions with commas between them. -/
def elements (bound : Nat) (env : Env) (toks : List Token) : Except Fault (Parsed (List Expr)) :=
  match bound with
  | 0 => .error (env.expected "expression" toks)
  | bound + 1 => do
    let (e, toks) ← binary bound env 1 toks
    if env.atDelim "," toks then
      let (es, toks) ← elements bound env (env.rest toks)
      return (e :: es, toks)
    else return ([e], toks)

/-- A literal, a bracketed form, a binder or a conditional. -/
def primary (bound : Nat) (env : Env) (toks : List Token) : Except Fault (Parsed Expr) :=
  match bound with
  | 0 => .error (env.expected "expression" toks)
  | bound + 1 =>
    let t := env.peek toks
    let loc := env.loc t
    match t.kind with
    | .number => .ok (.literal .number t.value loc, env.rest toks)
    | .identifier => .ok (nameExpr t.value loc, env.rest toks)
    | .delimiter =>
      if t.value == "(" then do
        let (es, toks) ← elements bound env.inside (env.rest toks)
        let toks ← env.inside.close t ")" toks
        return (tupleOf loc es, toks)
      else if t.value == "\x7b" then
        if namesAhead true true (env.rest toks) then
          comprehension bound (env.inside.withProduct false) t loc (env.rest toks)
        else do
          let (es, toks) ← listed bound (env.withProduct false) "\x7d" toks
          return (.collection .set es loc, toks)
      else if t.value == "⟨" then do
        let (es, toks) ← listed bound (env.withProduct false) "⟩" toks
        return (.collection .sequence es loc, toks)
      else if t.value == "[[" then do
        let (es, toks) ← listed bound (env.withProduct false) "]]" toks
        return (.collection .bag es loc, toks)
      else .error (env.expected "expression" toks)
    | .keyword =>
      if ["forall", "exists", "exists1", "mu", "lambda"].contains t.value then
        quantified bound (env.withProduct false) t loc (env.rest toks)
      else if t.value == "if" then do
        let (condition, toks) ← binary bound env 1 (env.rest toks)
        let toks ← env.expectKeyword "then" toks
        let (yes, toks) ← binary bound env 1 toks
        let toks ← env.expectKeyword "else" toks
        let (no, toks) ← binary bound env 1 toks
        return (.conditional condition yes no loc, toks)
      else .error (env.expected "expression" toks)
    | _ => .error (env.expected "expression" toks)

def comprehension (bound : Nat) (env : Env) (opener : Token) (loc : Location)
    (toks : List Token) : Except Fault (Parsed Expr) :=
  match bound with
  | 0 => .error (env.expected "expression" toks)
  | bound + 1 => do
    let (groups, toks) ← bindings bound env toks
    let (predicate, toks) ←
      if env.atDelim "|" toks then binary bound env 1 (env.rest toks) else .ok (.hole, toks)
    let (result, toks) ←
      if isSpot (env.peek toks) then binary bound env 1 (env.rest toks) else .ok (.hole, toks)
    let toks ← env.close opener "\x7d" toks
    return (.comprehension groups predicate result loc, toks)

def quantified (bound : Nat) (env : Env) (q : Token) (loc : Location) (toks : List Token) :
    Except Fault (Parsed Expr) :=
  match bound with
  | 0 => .error (env.expected "expression" toks)
  | bound + 1 => do
    let (groups, toks) ← bindings bound env toks
    if env.atDelim "|" toks then
      let (first, toks) ← binary bound env 1 (env.rest toks)
      if isSpot (env.peek toks) then
        let (body, toks) ← binary bound env 1 (env.rest toks)
        return (.quantifier q.value q.literal groups first body loc, toks)
      else if q.value == "mu" then
        return (.quantifier q.value q.literal groups first .hole loc, toks)
      else return (.quantifier q.value q.literal groups .hole first loc, toks)
    else if isSpot (env.peek toks) then
      let (body, toks) ← binary bound env 1 (env.rest toks)
      return (.quantifier q.value q.literal groups .hole body loc, toks)
    else .error (env.expected "'|', '@' or '.'" toks)

/-- Groups of bound variables, separated by semicolons, or by commas after a domain. -/
def bindings (bound : Nat) (env : Env) (toks : List Token) :
    Except Fault (Parsed (List (Binding Expr))) :=
  match bound with
  | 0 => .error (env.expected "expression" toks)
  | bound + 1 =>
    let first := env.peek toks
    if !isNameToken first then .error (env.expected "variable name" toks)
    else do
      let (others, toks) := moreNames env.nested (env.rest toks)
      let typed := env.atDelim ":" toks
      let (domain, toks) ←
        if typed then binary bound (env.withProduct true) 1 (env.rest toks) else .ok (.hole, toks)
      let group : Binding Expr := ⟨nameOf first :: others, domain, env.loc first⟩
      if env.atDelim ";" toks || (env.atDelim "," toks && typed) then
        let (groups, toks) ← bindings bound env (env.rest toks)
        return (group :: groups, toks)
      else return ([group], toks)

end

def expr (env : Env) (toks : List Token) : Except Fault (Parsed Expr) :=
  binary (8 * toks.length + 16) env 1 toks

def typeExpr (env : Env) (toks : List Token) : Except Fault (Parsed Expr) :=
  expr (env.withProduct true) toks

def skipNewlines (toks : List Token) : List Token :=
  toks.dropWhile (fun t => t.kind == .newline)

def body (toks : List Token) : List Token :=
  toks.takeWhile (fun t => t.kind != .endOfInput)

/-- The token at the end of input; if there is none, one is placed after the last token. -/
def finalToken (toks : List Token) : Token :=
  match toks.find? (fun t => t.kind == .endOfInput) with
  | some t => t
  | none =>
    match toks.getLast? with
    | some last =>
      { kind := .endOfInput
        line := last.line
        column := last.endColumn
        endColumn := last.endColumn }
    | none =>
      { kind := .endOfInput
        line := 1
        column := 1
        endColumn := 1 }

def envOf (file : String) (toks : List Token) : Env where
  file := file
  final := finalToken toks

end Parse

/-- Tokens that hold exactly one expression. -/
def Expr.ofTokens (file : String) (toks : List Token) : Except Fault Expr := do
  let env := Parse.envOf file toks
  let (e, rest) ← Parse.expr env (Parse.skipNewlines (Parse.body toks))
  match Parse.skipNewlines rest with
  | [] => return e
  | rest => .error (env.expected "end of input" rest)

end Whiteboard
