import Whiteboard.Proofs.Expr.Cursor

namespace Whiteboard
namespace Parse

/-!
# The grammar of expressions as a relation

`Reads env goal toks value rest` says that `goal`, tried at the front of `toks`, is met by `value`
and leaves `rest`.  The relation has no bound: a derivation is a finite tree, and its rules are the
branches of the functions that read expressions.  Which branch is taken is decided by the next one
or two tokens, so each decision is a function of its own and a rule only names its outcome.
-/

/-- What may follow a mark: an expression, further elements, or further groups of variables. -/
inductive Part where
  | expr
  | elements
  | groups

/-- What is to be read next.  A clause is a part that follows a mark and may be missing. -/
inductive Goal where
  | binary (least : Precedence)
  | climb (least : Precedence) (left : Expr) (last : Option Expr)
  | operand (juxtapose : Bool)
  | appliedGroup (juxtapose : Bool) (group : Expr)
  | suffixes (juxtapose : Bool) (base : Expr)
  | listed (closing : String)
  | elements
  | primary
  | comprehension (opener : Token) (loc : Location)
  | quantified (q : Token) (loc : Location)
  | bindings
  | clause (present : Bool) (part : Part)

/-- What is found: an expression, a list of them, or groups of bound variables. -/
inductive Value where
  | expr (e : Expr)
  | list (es : List Expr)
  | groups (gs : List (Binding Expr))

def Part.goal : Part → Goal
  | expr => .binary 1
  | elements => .elements
  | groups => .bindings

/-- What stands for a part that is missing. -/
def Part.missing : Part → Value
  | expr => .expr .hole
  | elements => .list []
  | groups => .groups []

/-! ## The decisions -/

/-- How an operand begins. -/
inductive Lead where
  | minus
  | not
  | word
  | operator
  | group
  | atom
  deriving DecidableEq

/-- The operator that the token in front of an operand stands for, and how its operand is read. -/
def Lead.prefixed (t : Token) (juxtapose : Bool) : Lead → Option (String × Goal)
  | minus => some ("neg", .operand juxtapose)
  | not => some ("not", .binary Precedence.negation)
  | operator => some (t.value, .operand juxtapose)
  | _ => none

/-- What may follow a base. -/
inductive Suffix where
  | call
  | parameters
  | field
  | closure
  | super
  | image
  | argument
  deriving DecidableEq

/-- The forms of primary expressions. -/
inductive Form where
  | number
  | name
  | group
  | comprehension
  | set
  | sequence
  | bag
  | binder
  | choice
  deriving DecidableEq

namespace Env

def leadAt (env : Env) (toks : List Token) : Lead :=
  let t := env.peek toks
  if t.isOp "minus" then .minus
  else if t.isOp "not" then .not
  else if t.kind == .operator && isPrefix t.value then
    if isWordSpelled t && !env.startsOperand (env.second toks) then .word else .operator
  else if t.isDelim "(" then .group
  else .atom

/-- What follows a parenthesized expression. -/
def groupSuffixAt (env : Env) (juxtapose : Bool) (group : Expr) (toks : List Token) :
    Option Suffix :=
  let t := env.peek toks
  if t.isDelim "(" && !t.spaceBefore then some .call
  else if juxtapose && t.spaceBefore && isLambda group && env.startsOperand t then some .argument
  else none

def suffixAt (env : Env) (juxtapose : Bool) (base : Expr) (toks : List Token) : Option Suffix :=
  let t := env.peek toks
  if t.isDelim "(" && !t.spaceBefore && isApplicable base then some .call
  else if t.isDelim "[" && (!t.spaceBefore || isName base) && isApplicable base then
    some .parameters
  else if t.isDelim "." && !t.spaceBefore && isField (env.second toks) then some .field
  else if t.isOp "inv" ||
      ((t.isOp "plus" || t.isOp "times") && !t.spaceBefore && !env.startsOperand (env.second toks)) then some .closure
  else if t.isOp "sup" then some .super
  else if t.isDelim "(|" then some .image
  else if juxtapose && t.spaceBefore && isApplicable base && env.startsOperand t then
    some .argument
  else none

def formAt (env : Env) (toks : List Token) : Option Form :=
  let t := env.peek toks
  match t.kind with
  | .number => some .number
  | .identifier => some .name
  | .delimiter =>
    if t.value == "(" then some .group
    else if t.value == "\x7b" then
      if namesAhead true true (env.rest toks) then some .comprehension else some .set
    else if t.value == "⟨" then some .sequence
    else if t.value == "[[" then some .bag
    else none
  | .keyword =>
    if ["forall", "exists", "exists1", "mu", "lambda"].contains t.value then some .binder
    else if t.value == "if" then some .choice
    else none
  | _ => none

/-- The expression made of `left` and `right` by the operator `name` at token `t`, and the right
operand that a further relation would repeat. -/
def joined (env : Env) (t : Token) (name : String) (left : Expr) (last : Option Expr)
    (right : Expr) (breakAfter : Bool) : Expr × Option Expr :=
  if name == "upto" then (.range left right (env.loc t), none)
  else if Symbol.isRelation name then
    match last with
    | some middle =>
      (.binary "and" "" left (.binary name t.literal middle right breakAfter false (env.loc t))
        false true left.loc, some right)
    | none => (.binary name t.literal left right breakAfter false (env.loc t), some right)
  else (.binary name t.literal left right breakAfter false (env.loc t), none)

end Env

/-- The least binding power on the right of an operator. -/
def rightLeast (prec : Precedence) (assoc : Assoc) : Precedence := if assoc == .right then prec else prec + 1

/-- The closing bracket and the kind of a collection. -/
def collectionOf : Form → Option (String × CollectionKind)
  | .set => some ("\x7d", .set)
  | .sequence => some ("⟩", .sequence)
  | .bag => some ("]]", .bag)
  | _ => none

/-- The name of an operator behind its operand: the inverse or a closure of a relation. -/
def closureName (t : Token) : String :=
  if t.isOp "inv" then "inv" else if t.value == "times" then "rtcl" else "tcl"

/-- The quantifier over `gs`, with what is said behind a bar and behind a spot.  Without a spot only a description
keeps what is behind the bar as its constraint. -/
def quantifierOf (q : Token) (spotted : Bool) (gs : List (Binding Expr)) (such body : Expr) (loc : Location) : Expr :=
  if spotted || q.value == "mu" then .quantifier q.value q.literal gs such body loc
  else .quantifier q.value q.literal gs .hole such loc

/-! ## The rules -/

/-- The grammar of expressions. -/
inductive Reads : Env → Goal → List Token → Value → List Token → Prop
  | binary {env least toks left mid v rest} : Reads env (.operand true) toks (.expr left) mid →
      Reads env (.climb least left none) mid v rest →
      Reads env (.binary least) toks v rest
  | stop {env least left last toks} :
      (∀ name prec assoc, env.infixAt (env.peek toks) = some (name, prec, assoc) → prec < least) →
      Reads env (.climb least left last) toks (.expr left) toks
  | climb {env least left last toks name prec assoc right mid v rest} :
      env.infixAt (env.peek toks) = some (name, prec, assoc) →
      least ≤ prec →
      Reads env (.binary (rightLeast prec assoc)) (env.continuation (env.rest toks)).2 (.expr right) mid →
      Reads env (.climb least (env.joined (env.peek toks) name left last right (env.continuation (env.rest toks)).1).1
          (env.joined (env.peek toks) name left last right (env.continuation (env.rest toks)).1).2)
        mid v rest →
      Reads env (.climb least left last) toks v rest
  | prefixed {env juxtapose toks op goal e rest} :
      (env.leadAt toks).prefixed (env.peek toks) juxtapose = some (op, goal) →
      Reads env goal (env.rest toks) (.expr e) rest →
      Reads env (.operand juxtapose) toks
        (.expr (.unary op (env.peek toks).literal e false (env.loc (env.peek toks)))) rest
  | word {env juxtapose toks v rest} : env.leadAt toks = .word → Reads env (.suffixes juxtapose
          (.literal .identifier (env.peek toks).literal (env.loc (env.peek toks))))
        (env.rest toks) v rest →
      Reads env (.operand juxtapose) toks v rest
  | group {env juxtapose toks group base mid after v rest} : env.leadAt toks = .group →
      Reads env .primary toks (.expr group) mid →
      Reads env (.appliedGroup juxtapose group) mid (.expr base) after →
      Reads env (.suffixes juxtapose base) after v rest →
      Reads env (.operand juxtapose) toks v rest
  | atom {env juxtapose toks base mid v rest} : env.leadAt toks = .atom → Reads env .primary toks (.expr base) mid →
      Reads env (.suffixes juxtapose base) mid v rest →
      Reads env (.operand juxtapose) toks v rest
  | groupCall {env juxtapose group toks args rest} : env.groupSuffixAt juxtapose group toks = some .call →
      Reads env (.listed ")") toks (.list args) rest →
      Reads env (.appliedGroup juxtapose group) toks (.expr (.application group args false group.loc)) rest
  | groupArgument {env juxtapose group toks arg rest} : env.groupSuffixAt juxtapose group toks = some .argument →
      Reads env (.operand false) toks (.expr arg) rest →
      Reads env (.appliedGroup juxtapose group) toks (.expr (.application group [arg] true group.loc)) rest
  | groupAlone {env juxtapose group toks} : env.groupSuffixAt juxtapose group toks = none →
      Reads env (.appliedGroup juxtapose group) toks (.expr group) toks
  | call {env juxtapose base toks args mid v rest} : env.suffixAt juxtapose base toks = some .call →
      Reads env (.listed ")") toks (.list args) mid →
      Reads env (.suffixes juxtapose (.application base args false base.loc)) mid v rest →
      Reads env (.suffixes juxtapose base) toks v rest
  | parameters {env juxtapose base toks params mid v rest} : env.suffixAt juxtapose base toks = some .parameters →
      Reads env (.listed "]") toks (.list params) mid →
      Reads env (.suffixes juxtapose (.instantiation base params base.loc)) mid v rest →
      Reads env (.suffixes juxtapose base) toks v rest
  | field {env juxtapose base toks v rest} : env.suffixAt juxtapose base toks = some .field →
      Reads env (.suffixes juxtapose (.projection base (env.second toks).value base.loc)) (env.rest toks).tail v rest →
      Reads env (.suffixes juxtapose base) toks v rest
  | closure {env juxtapose base toks v rest} : env.suffixAt juxtapose base toks = some .closure → Reads env
        (.suffixes juxtapose (.unary (closureName (env.peek toks)) (env.peek toks).literal base true
            (env.loc (env.peek toks))))
        (env.rest toks) v rest →
      Reads env (.suffixes juxtapose base) toks v rest
  | super {env juxtapose base toks sup mid v rest} : env.suffixAt juxtapose base toks = some .super →
      Reads env .primary (env.rest toks) (.expr sup) mid →
      Reads env (.suffixes juxtapose (superscript base sup)) mid v rest →
      Reads env (.suffixes juxtapose base) toks v rest
  | image {env juxtapose base toks set mid v rest} : env.suffixAt juxtapose base toks = some .image →
      Reads env.inside (.binary 1) (env.rest toks) (.expr set) mid →
      env.inside.atDelim "|)" mid = true →
      Reads env (.suffixes juxtapose (.image base set base.loc)) (env.inside.rest mid) v rest →
      Reads env (.suffixes juxtapose base) toks v rest
  | argument {env juxtapose base toks arg mid v rest} : env.suffixAt juxtapose base toks = some .argument →
      Reads env (.operand false) toks (.expr arg) mid →
      Reads env (.suffixes juxtapose (.application base [arg] true base.loc)) mid v rest →
      Reads env (.suffixes juxtapose base) toks v rest
  | bare {env juxtapose base toks} : env.suffixAt juxtapose base toks = none →
      Reads env (.suffixes juxtapose base) toks (.expr base) toks
  | listedNone {env closing toks} : env.inside.atDelim closing (env.rest toks) = true →
      Reads env (.listed closing) toks (.list []) (env.inside.rest (env.rest toks))
  | listed {env closing toks es mid} : env.inside.atDelim closing (env.rest toks) = false →
      Reads env.inside .elements (env.rest toks) (.list es) mid →
      env.inside.atDelim closing mid = true →
      Reads env (.listed closing) toks (.list es) (env.inside.rest mid)
  | element {env toks e es mid rest} : Reads env (.binary 1) toks (.expr e) mid →
      Reads env (.clause (env.atDelim "," mid) .elements) mid (.list es) rest →
      Reads env .elements toks (.list (e :: es)) rest
  | number {env toks} : env.formAt toks = some .number → Reads env .primary toks
        (.expr (.literal .number (env.peek toks).value (env.loc (env.peek toks)))) (env.rest toks)
  | name {env toks} : env.formAt toks = some .name → Reads env .primary toks
        (.expr (nameExpr (env.peek toks).value (env.loc (env.peek toks)))) (env.rest toks)
  | grouped {env toks es mid} : env.formAt toks = some .group →
      Reads env.inside .elements (env.rest toks) (.list es) mid →
      env.inside.atDelim ")" mid = true →
      Reads env .primary toks (.expr (tupleOf (env.loc (env.peek toks)) es)) (env.inside.rest mid)
  | comprehended {env toks v rest} : env.formAt toks = some .comprehension → Reads (env.inside.withProduct false)
        (.comprehension (env.peek toks) (env.loc (env.peek toks))) (env.rest toks) v rest →
      Reads env .primary toks v rest
  | collected {env toks form closing kind es rest} : env.formAt toks = some form →
      collectionOf form = some (closing, kind) →
      Reads (env.withProduct false) (.listed closing) toks (.list es) rest →
      Reads env .primary toks (.expr (.collection kind es (env.loc (env.peek toks)))) rest
  | bound {env toks v rest} : env.formAt toks = some .binder →
      Reads (env.withProduct false) (.quantified (env.peek toks) (env.loc (env.peek toks))) (env.rest toks) v rest →
      Reads env .primary toks v rest
  | choice {env toks condition yes no afterIf afterThen rest} : env.formAt toks = some .choice →
      Reads env (.binary 1) (env.rest toks) (.expr condition) afterIf →
      (env.peek afterIf).isKeyword "then" = true →
      Reads env (.binary 1) (env.rest afterIf) (.expr yes) afterThen →
      (env.peek afterThen).isKeyword "else" = true →
      Reads env (.binary 1) (env.rest afterThen) (.expr no) rest →
      Reads env .primary toks (.expr (.conditional condition yes no (env.loc (env.peek toks)))) rest
  | comprehension {env opener loc toks gs predicate result afterGroups afterBar rest} :
      Reads env .bindings toks (.groups gs) afterGroups →
      Reads env (.clause (env.atDelim "|" afterGroups) .expr) afterGroups (.expr predicate) afterBar →
      Reads env (.clause (isSpot (env.peek afterBar)) .expr) afterBar (.expr result) rest →
      env.atDelim "\x7d" rest = true →
      Reads env (.comprehension opener loc) toks (.expr (.comprehension gs predicate result loc)) (env.rest rest)
  | quantified {env q loc toks gs such body afterGroups afterBar rest} :
      Reads env .bindings toks (.groups gs) afterGroups →
      Reads env (.clause (env.atDelim "|" afterGroups) .expr) afterGroups (.expr such) afterBar →
      Reads env (.clause (isSpot (env.peek afterBar)) .expr) afterBar (.expr body) rest →
      (env.atDelim "|" afterGroups || isSpot (env.peek afterBar)) = true →
      Reads env (.quantified q loc) toks (.expr (quantifierOf q (isSpot (env.peek afterBar)) gs such body loc)) rest
  | groups {env toks others domain gs afterNames afterDomain rest} : isNameToken (env.peek toks) = true →
      moreNames env.nested (env.rest toks) = (others, afterNames) →
      Reads (env.withProduct true) (.clause (env.atDelim ":" afterNames) .expr) afterNames (.expr domain) afterDomain →
      Reads env (.clause (env.atDelim ";" afterDomain || (env.atDelim "," afterDomain && env.atDelim ":" afterNames))
        .groups) afterDomain (.groups gs) rest →
      Reads env .bindings toks
        (.groups (⟨nameOf (env.peek toks) :: others, domain, env.loc (env.peek toks)⟩ :: gs)) rest
  | absent {env part toks} : Reads env (.clause false part) toks part.missing toks
  | present {env part toks v rest} :
      Reads env part.goal (env.rest toks) v rest → Reads env (.clause true part) toks v rest

theorem Lead.cases_prefixed {lead : Lead} {t : Token} {juxtapose : Bool} {op : String} {goal : Goal}
    (found : lead.prefixed t juxtapose = some (op, goal)) :
    (lead = .minus ∧ op = "neg" ∧ goal = .operand juxtapose) ∨
      (lead = .not ∧ op = "not" ∧ goal = .binary Precedence.negation) ∨
      (lead = .operator ∧ op = t.value ∧ goal = .operand juxtapose) := by
  cases lead <;> cases found <;> simp

theorem Reads.last {env toks e rest} (reads : Reads env (.binary 1) toks (.expr e) rest)
    (alone : env.atDelim "," rest = false) : Reads env .elements toks (.list [e]) rest :=
  .element reads (by rw [alone]; exact .absent)

theorem Reads.hole_of_absent {env present toks e rest} (reads : Reads env (.clause present .expr) toks (.expr e) rest)
    (absent : present = false) : e = .hole := by
  subst absent
  cases reads
  rfl

end Parse
end Whiteboard
