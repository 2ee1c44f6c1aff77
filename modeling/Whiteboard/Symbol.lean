import Whiteboard.Text.Letter

namespace Whiteboard

/-!
Reserved symbols.  Every operator, keyword and named constant has a canonical name, the
spellings it may be written with, a role, a binding power, and the command it becomes in each of
the two output vocabularies.
-/

/-- Binding power; a larger number binds tighter. -/
abbrev Precedence := Int

namespace Precedence

def lowest : Precedence := 0
def conditional : Precedence := 10
def equivalence : Precedence := 20
def implication : Precedence := 30
def disjunction : Precedence := 40
def conjunction : Precedence := 50
def negation : Precedence := 60
def relation : Precedence := 70
def arrow : Precedence := 80
def product : Precedence := 85
def maplet : Precedence := 90
def range : Precedence := 95
def union : Precedence := 100
def intersection : Precedence := 105
def additive : Precedence := 110
def multiplicative : Precedence := 120
def prefixed : Precedence := 130
def postfixed : Precedence := 140
def atom : Precedence := 150

end Precedence

inductive Assoc where
  | left
  | right
  | none
  deriving DecidableEq, Inhabited

def Assoc.name : Assoc → String
  | left => "left"
  | right => "right"
  | none => "none"

/-- An operand needs parentheses when it binds more loosely than the operator around it, or
equally and stands on the side towards which the operator does not group. -/
def needsParens (child parent : Precedence) (assoc : Assoc) (rightSide : Bool) : Bool :=
  if child < parent then true
  else if parent < child then false
  else
    match assoc with
    | .left => rightSide
    | .right => !rightSide
    | .none => true

/-- How a reserved symbol behaves in an expression. -/
inductive Role where
  | infixOp
  | relation
  | prefixOp
  | postfixOp
  | quantifier
  | keyword
  | constant
  deriving DecidableEq, Inhabited

def Role.name : Role → String
  | infixOp => "infix"
  | relation => "relation"
  | prefixOp => "prefix"
  | postfixOp => "postfix"
  | quantifier => "quantifier"
  | keyword => "keyword"
  | constant => "constant"

/-- A row of the symbol table.  `zed` replaces `fuzz` in the conventional vocabulary, and
`applied` marks the prefix words that are set like a function with an argument. -/
structure Symbol where
  name : String
  aliases : List String
  role : Role
  prec : Precedence := Precedence.lowest
  assoc : Assoc := .left
  fuzz : String := ""
  zed : Option String := none
  applied : Bool := false
  deriving DecidableEq, Inhabited

namespace Symbol

def command (s : Symbol) (conventional : Bool) : String :=
  if conventional then s.zed.getD s.fuzz else s.fuzz

/-- Spellings that end in a colon open a block and are read only at the start of a line. -/
def isBlockSpelling (spelling : String) : Bool :=
  match spelling.toList with
  | [] | [_] => false
  | cs => cs.getLast? == some ':'

/-- Spellings that begin with an ASCII letter are words. -/
def isWordSpelling (spelling : String) : Bool :=
  match spelling.toList with
  | [] => false
  | c :: _ => decide (c.toNat < 128) && Text.isLetter c

end Symbol
end Whiteboard
