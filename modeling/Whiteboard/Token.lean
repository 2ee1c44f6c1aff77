import Whiteboard.Text.Quoted

namespace Whiteboard

/-!
Tokens of the notation.  A token carries its canonical value (the name of the operator or
keyword in the symbol table, the delimiter, the text of a name or number, the content of a run of
text) beside the literal text it was read from.
-/

namespace Token

/-- What a token is.  `other` is a kind outside the vocabulary. -/
inductive Kind where
  | endOfInput
  | newline
  | identifier
  | number
  | operator
  | keyword
  | delimiter
  | text
  | justification
  | label
  | partLabel
  | sectionHeader
  | solutionHeader
  | other (code : Nat)
  deriving DecidableEq, Inhabited

namespace Kind

def vocabulary : List Kind :=
  [endOfInput, newline, identifier, number, operator, keyword, delimiter, text, justification,
   label, partLabel, sectionHeader, solutionHeader]

def ofCode (n : Nat) : Kind :=
  vocabulary.getD n (.other n)

def name : Kind → String
  | endOfInput => "end of input"
  | newline => "newline"
  | identifier => "identifier"
  | number => "number"
  | operator => "operator"
  | keyword => "keyword"
  | delimiter => "delimiter"
  | text => "text"
  | justification => "justification"
  | label => "label"
  | partLabel => "part label"
  | sectionHeader => "section header"
  | solutionHeader => "solution header"
  | other n => "kind(" ++ toString n ++ ")"

def ofName? (s : String) : Option Kind :=
  vocabulary.find? (fun k => k.name == s)

def className : Kind → String
  | endOfInput => "end-of-input"
  | identifier => "identifier"
  | number => "number"
  | operator => "operator"
  | keyword => "keyword"
  | newline => "delimiter"
  | delimiter => "delimiter"
  | _ => "text-run"

end Kind
end Token

/-- A lexical unit with its place: `endColumn` is the column just past its last character,
`spaceBefore` tells that white space separates it from the token before it, `lineStart` that it
is the first of its line. -/
structure Token where
  kind : Token.Kind
  value : String := ""
  literal : String := ""
  line : Int := 0
  column : Int := 0
  endColumn : Int := 0
  spaceBefore : Bool := false
  lineStart : Bool := false
  deriving DecidableEq, Inhabited

namespace Token

def hasKind (t : Token) (k : Kind) : Bool :=
  t.kind == k

/-- Kind and canonical value. -/
def is (t : Token) (k : Kind) (value : String) : Bool :=
  t.kind == k && t.value == value

def isDelim (t : Token) (value : String) : Bool :=
  t.is .delimiter value

def isOp (t : Token) (name : String) : Bool :=
  t.is .operator name

def isKeyword (t : Token) (name : String) : Bool :=
  t.is .keyword name

def describe (t : Token) : String :=
  match t.kind with
  | .endOfInput => "end of input"
  | .newline => "end of line"
  | .text => "text"
  | _ => "'" ++ (if t.literal.isEmpty then t.value else t.literal) ++ "'"

/-- One line for listings: place, kind and quoted literal. -/
def summary (t : Token) : String :=
  toString t.line ++ ":" ++ toString t.column ++ " " ++ t.kind.name ++ " " ++ Text.quoted t.literal

end Token

end Whiteboard
