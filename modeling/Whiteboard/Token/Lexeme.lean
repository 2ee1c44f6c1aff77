import Whiteboard.Prose
import Whiteboard.Text.Digit
import Whiteboard.Text.Lines
import Whiteboard.Token

namespace Whiteboard

/-!
Lexemes: what can be read at one position of a line.  Each reader looks at the characters from its
position on and tells kind, canonical value and length of what stands there.
-/

/-- What stands at a position: its kind, canonical value, and length in characters. -/
structure Lexeme where
  kind : Token.Kind
  value : String
  length : Nat
  deriving DecidableEq

/-- How many bag and image brackets are open; a stray closing bracket counts below zero. -/
structure Brackets where
  bags : Int := 0
  images : Int := 0
  deriving DecidableEq, Inhabited

namespace Brackets

def track (b : Brackets) (value : String) : Brackets :=
  if value == "[[" then { b with bags := b.bags + 1 }
  else if value == "]]" then { b with bags := b.bags - 1 }
  else if value == "(|" then { b with images := b.images + 1 }
  else if value == "|)" then { b with images := b.images - 1 }
  else b

/-- `]]` and `|)` are one delimiter only while a bag or an image is open. -/
def allows (b : Brackets) (spelling : String) : Bool :=
  if spelling == "]]" then decide (0 < b.bags)
  else if spelling == "|)" then decide (0 < b.images)
  else true

end Brackets

namespace Lexeme

/-- The spellings of the delimiters with their canonical values. -/
def delimiters : List (String × String) :=
  [("::=", "::="), ("::", "::"), ("==", "=="), ("(|", "(|"), ("|)", "|)"), ("[[", "[["),
   ("]]", "]]"), ("⦇", "(|"), ("⦈", "|)"), ("⟦", "[["), ("⟧", "]]"), ("⟨", "⟨"), ("⟩", "⟩"),
   ("(", "("), (")", ")"), ("[", "["), ("]", "]"), ("\x7b", "\x7b"), ("\x7d", "\x7d"),
   (",", ","), (";", ";"), (":", ":"), (".", "."), ("|", "|"), ("@", "@"), ("•", "@"),
   ("⦁", "@")]

/-- Constants read as names, quantifiers as keywords. -/
def kindOf (s : Symbol) : Token.Kind :=
  match s.role with
  | .constant => .identifier
  | .keyword | .quantifier => .keyword
  | _ => .operator

/-- The delimiter or symbol spelled exactly by the first `n` characters. -/
def spelledBy (b : Brackets) (rest : List Char) (n : Nat) : Option Lexeme :=
  let front := rest.take n
  if front.length < n then none
  else
    let spelling := String.ofList front
    match (delimiters.lookup spelling).filter (fun _ => b.allows spelling) with
    | some value => some ⟨.delimiter, value, n⟩
    | none => (Symbol.ofSpelling spelling).map (fun s => ⟨kindOf s, s.name, n⟩)

/-- The longest delimiter or symbol at the front. -/
def longest (b : Brackets) (rest : List Char) : Option Lexeme :=
  [5, 4, 3, 2, 1].findSome? (spelledBy b rest)

def isNamePart (c : Char) : Bool :=
  Text.isLetter c || Text.isDigit c || c == '_'

/-- Only white space and a comment follow. -/
def restIsBlank (rest : List Char) : Bool :=
  match Text.dropBlanks rest with
  | [] => true
  | c :: _ => c == '%'

/-- Digits, and after a point more digits. -/
def number (rest : List Char) : Lexeme :=
  let whole := rest.takeWhile Text.isDigit
  let after := rest.drop whole.length
  let fraction :=
    match after with
    | '.' :: tail =>
      let digits := tail.takeWhile Text.isDigit
      if digits.isEmpty then [] else '.' :: digits
    | _ => []
  let text := whole ++ fraction
  ⟨.number, String.ofList text, text.length⟩

/-- The decorations that may end a name; `!` before `=` belongs to a relation. -/
def decorations : List Char → List Char
  | '\'' :: cs => '\'' :: decorations cs
  | '?' :: cs => '?' :: decorations cs
  | '!' :: '=' :: _ => []
  | '!' :: cs => '!' :: decorations cs
  | _ => []

/-- The length of white space and the word `in` at the front; zero if something else stands
there or the word goes on. -/
def spacedIn (rest : List Char) : Nat :=
  let gap := rest.takeWhile (fun c => c == ' ' || c == '\t')
  match gap, rest.drop gap.length with
  | [], _ => 0
  | _, 'i' :: 'n' :: after =>
    match after with
    | c :: _ => if isNamePart c then 0 else gap.length + 2
    | [] => gap.length + 2
  | _, _ => 0

/-- A word at the front: `not in`, a reserved word, the opening of prose in mid-line, or a name
with its decorations. -/
def word (rules : ProseRules) (midLine : Bool) (rest : List Char) : Lexeme :=
  let chars := rest.takeWhile isNamePart
  let text := String.ofList chars
  let after := rest.drop chars.length
  if text == "not" && spacedIn after != 0 then
    ⟨.operator, "notin", chars.length + spacedIn after⟩
  else
    match Symbol.ofWord text with
    | some s => ⟨kindOf s, s.name, chars.length⟩
    | none =>
      if midLine && Prose.isStarter rules text && Prose.isProse rules (String.ofList rest) false then
        ⟨.text, String.ofList (Text.trimBlanks rest), rest.length⟩
      else
        let name := chars ++ decorations after
        ⟨.identifier, String.ofList name, name.length⟩

/-- Two lower-case letters in a row. -/
def hasLowerPair : List Char → Bool
  | c :: d :: cs => (Text.isLower c && Text.isLower d) || hasLowerPair (d :: cs)
  | _ => false

/-- Separates a rule name such as `and intro` from a type argument such as `N`. -/
def looksLikeRuleName (content : List Char) : Bool :=
  content.any (fun c => c == ' ' || c == '\t') || hasLowerPair content

/-- A rule name in square brackets that ends the line; `rest` is what follows the opening
bracket. -/
def justification (rest : List Char) : Option Lexeme :=
  let inner := rest.takeWhile (· != ']')
  if inner.contains '[' then none
  else
    match rest.drop inner.length with
    | [] => none
    | _ :: after =>
      let content := Text.trimBlanks inner
      if restIsBlank after && looksLikeRuleName content then
        some ⟨.justification, String.ofList content, inner.length + 2⟩
      else none

/-- The offset of the `>` that closes a sequence opened before `rest`, counting from the opening
bracket; `skip` characters are passed over, `before` is the character just passed, `depth` is the
number of sequences still open and `offset` the offset of the first character of `rest`. -/
def closerOffset (b : Brackets) (before : Char) (depth offset : Nat) :
    (skip : Nat) → List Char → Option Nat
  | _, [] => none
  | skip + 1, c :: cs => closerOffset b c depth (offset + 1) skip cs
  | 0, c :: cs =>
    let width := ((longest b (c :: cs)).map (·.length)).getD 0
    if 1 < width then closerOffset b c depth (offset + 1) (width - 1) cs
    else if c == '<' then
      match cs with
      | [] => none
      | d :: _ =>
        if d == '>' then closerOffset b c depth (offset + 1) 1 cs
        else if Text.isBlank d then none
        else closerOffset b c (depth + 1) (offset + 1) 0 cs
    else if c == '>' then
      if Text.isBlank before then none
      else if depth ≤ 1 then some offset
      else closerOffset b c (depth - 1) (offset + 1) 0 cs
    else closerOffset b c depth (offset + 1) 0 cs

/-- The offset of the bracket that closes the sequence opened by a `<`, where `rest` follows the
`<`.  Before white space, or tight after an operand on a line that defines no free type, `<` is a
comparison. -/
def sequenceCloser (b : Brackets) (tight defines : Bool) (rest : List Char) : Option Nat :=
  match rest with
  | [] => none
  | d :: _ =>
    if d == '>' then some 1
    else if Text.isBlank d || (tight && !defines) then none
    else closerOffset b '<' 1 1 0 rest

end Lexeme
end Whiteboard
