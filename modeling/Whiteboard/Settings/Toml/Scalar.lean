import Whiteboard.Settings.Tree
import Whiteboard.Text.Unquoted

namespace Whiteboard
namespace Settings
namespace Toml

/-!
The scalars of a file: texts, numbers, truth values and moments.
-/

def isGap (c : Char) : Bool :=
  c == ' ' || c == '\t'

def isNewline (c : Char) : Bool :=
  c == '\n' || c == '\r'

/-! ### Texts -/

def escape (cs : List Char) : Option (Char × List Char) :=
  match cs with
  | 'u' :: rest => (Text.codePoint 4 rest).map fun c => (c, rest.drop 4)
  | 'U' :: rest => (Text.codePoint 8 rest).map fun c => (c, rest.drop 8)
  | c :: rest => (Text.simpleEscape c).map fun d => (d, rest)
  | [] => none

/-- A text up to the double quote that closes it, and what follows.  Each step takes a
character. -/
def basicText : Nat → List Char → Option (List Char × List Char)
  | 0, _ => none
  | bound + 1, cs =>
    match cs with
    | [] => none
    | '"' :: rest => some ([], rest)
    | '\\' :: rest => do
      let (c, rest) ← escape rest
      let (text, after) ← basicText bound rest
      some (c :: text, after)
    | c :: rest =>
      if isNewline c then none
      else (basicText bound rest).map fun (text, after) => (c :: text, after)

/-- A text without escapes up to the single quote that closes it, and what follows. -/
def literalText : List Char → Option (List Char × List Char)
  | [] => none
  | c :: rest =>
    if c == '\'' then some ([], rest)
    else if isNewline c then none
    else (literalText rest).map fun (text, after) => (c :: text, after)

/-- What follows a backslash at the end of a line: the white space up to the next text is left
out. -/
def joinedLine (cs : List Char) : Option (List Char) :=
  let white (c : Char) : Bool := isGap c || isNewline c
  if (cs.takeWhile white).contains '\n' then some (cs.dropWhile white) else none

/-- A text of several lines up to the three quotes that close it, and what follows.  Up to two
quotes before those belong to the text.  Each step takes a character. -/
def longText (mark : Char) : Nat → List Char → Option (List Char × List Char)
  | 0, _ => none
  | bound + 1, cs =>
    match cs with
    | [] => none
    | c :: rest =>
      let marks := (cs.takeWhile (· == mark)).length
      if 6 ≤ marks then none
      else if 3 ≤ marks then some (List.replicate (marks - 3) mark, cs.drop marks)
      else if c == '\\' && mark == '"' then
        match joinedLine rest with
        | some rest => longText mark bound rest
        | none => do
          let (d, rest) ← escape rest
          let (text, after) ← longText mark bound rest
          some (d :: text, after)
      else (longText mark bound rest).map fun (text, after) => (c :: text, after)

/-- A line break right after the opening quotes is left out. -/
def dropFirstNewline (cs : List Char) : List Char :=
  match cs with
  | '\n' :: rest => rest
  | '\r' :: '\n' :: rest => rest
  | cs => cs

/-- A text in quotes of any kind, and what follows it. -/
def quotedText (cs : List Char) : Option (List Char × List Char) :=
  match cs with
  | '"' :: '"' :: '"' :: rest => longText '"' (rest.length + 1) (dropFirstNewline rest)
  | '\'' :: '\'' :: '\'' :: rest => longText '\'' (rest.length + 1) (dropFirstNewline rest)
  | '"' :: rest => basicText (rest.length + 1) rest
  | '\'' :: rest => literalText rest
  | _ => none

/-! ### Numbers -/

/-- Every underscore follows a digit of some base, and the last character is one. -/
def underscoresFit (cs : List Char) : Bool :=
  go false cs
where
  go (digit : Bool) : List Char → Bool
    | [] => digit
    | c :: cs => (c != '_' || digit) && go (Text.isHexDigit c) cs

/-- More than one digit and the first a zero, behind an optional sign. -/
def hasLeadingZero (cs : List Char) : Bool :=
  match cs with
  | '0' :: _ :: _ => true
  | '+' :: '0' :: _ :: _ => true
  | '-' :: '0' :: _ :: _ => true
  | _ => false

/-- A point is followed by a digit. -/
def pointsFit : List Char → Bool
  | [] => true
  | [c] => c != '.'
  | c :: d :: cs => (c != '.' || d.isDigit) && pointsFit (d :: cs)

/-- The parts of a number between its point and the mark of its exponent. -/
def numberParts (cs : List Char) : List (List Char) :=
  match cs with
  | [] => []
  | c :: cs =>
    if c == '.' || c == 'e' || c == 'E' then [] :: numberParts cs
    else
      match numberParts cs with
      | [] => [[c]]
      | part :: parts => (c :: part) :: parts

def wordScalar (raw : List Char) (n : Int) : Option Scalar :=
  if Text.inWord n then some ⟨String.ofList raw, .int n⟩ else none

def integer (raw : List Char) : Option Scalar :=
  if !underscoresFit raw || hasLeadingZero raw then none
  else (Text.readSigned (raw.filter (· != '_'))).bind (wordScalar raw)

/-- An integer whose digits follow the mark of their base. -/
def based (mark : Char) (base : Nat) (digits : List Char) : Option Scalar :=
  if !underscoresFit digits || (digits.head?.getD '_') == '_' then none
  else
    let value := (digits.filter (· != '_')).foldl (fun n c => n * base + Text.hexValue [c]) 0
    wordScalar ('0' :: mark :: digits) value

def real (raw : List Char) : Option Scalar :=
  let parts := (numberParts raw).filter (fun part => !part.isEmpty)
  if !parts.all underscoresFit || (parts.head?.map hasLeadingZero).getD false || !pointsFit raw then
    none
  else
    (Text.readReal (String.ofList (raw.filter (· != '_')))).map fun x =>
      ⟨String.ofList raw, .real x⟩

/-! ### Moments -/

/-- Two digits that write a number from `least` to `most`. -/
def twoDigits (least most : Nat) (a b : Char) : Bool :=
  let n := Text.digitsValue [a, b]
  a.isDigit && b.isDigit && decide (least ≤ n) && decide (n ≤ most)

def daysIn (year month : Nat) : Nat :=
  if month == 2 then
    if year % 4 == 0 && (year % 100 != 0 || year % 400 == 0) then 29 else 28
  else if [4, 6, 9, 11].contains month then 30
  else 31

def dropDate (cs : List Char) : Option (List Char) :=
  match cs with
  | y1 :: y2 :: y3 :: y4 :: '-' :: m1 :: m2 :: '-' :: d1 :: d2 :: rest =>
    let year := [y1, y2, y3, y4]
    let days := daysIn (Text.digitsValue year) (Text.digitsValue [m1, m2])
    if year.all Char.isDigit && twoDigits 1 12 m1 m2 && twoDigits 1 days d1 d2 then some rest else none
  | _ => none

def dropTime (cs : List Char) : Option (List Char) :=
  match cs with
  | h1 :: h2 :: ':' :: m1 :: m2 :: ':' :: s1 :: s2 :: rest =>
    if twoDigits 0 23 h1 h2 && twoDigits 0 59 m1 m2 && twoDigits 0 59 s1 s2 then
      match rest with
      | '.' :: d :: rest => if d.isDigit then some (rest.dropWhile Char.isDigit) else none
      | rest => some rest
    else none
  | _ => none

/-- The distance from universal time, or nothing. -/
def isZone (cs : List Char) : Bool :=
  match cs with
  | [] => true
  | [c] => c == 'Z' || c == 'z'
  | [c, h1, h2, ':', m1, m2] =>
    (c == '+' || c == '-') && twoDigits 0 24 h1 h2 && twoDigits 0 59 m1 m2
  | _ => false

/-- A date, a time of day, or both. -/
def isMoment (cs : List Char) : Bool :=
  match dropDate cs with
  | some [] => true
  | some (c :: rest) =>
    (c == 'T' || c == 't' || c == ' ') && ((dropTime rest).map isZone).getD false
  | none => dropTime cs == some []

/-! ### Scalars -/

def number (cs : List Char) : Option (Scalar × List Char) :=
  let take (p : Char → Bool) (read : List Char → Option Scalar) (start : List Char) :
      Option (Scalar × List Char) :=
    (read (start.takeWhile p)).map fun x => (x, start.dropWhile p)
  let sign := cs.takeWhile (fun c => c == '+' || c == '-')
  let digits := (cs.drop sign.length).takeWhile (fun c => c.isDigit || c == '_')
  let isWhole := digits.all Char.isDigit && sign.isEmpty
  let inDigits (p : Char → Bool) (c : Char) : Bool := p c || c == '_'
  match cs with
  | '0' :: 'x' :: rest => take (inDigits Text.isHexDigit) (based 'x' 16) rest
  | '0' :: 'o' :: rest => take (inDigits (fun c => '0' ≤ c && c ≤ '7')) (based 'o' 8) rest
  | '0' :: 'b' :: rest => take (inDigits (fun c => c == '0' || c == '1')) (based 'b' 2) rest
  | cs =>
    if digits.isEmpty || 1 < sign.length || digits.head? == some '_' then none
    else
      match (cs.drop sign.length).drop digits.length with
      | [] => (integer cs).map fun x => (x, [])
      | c :: _ =>
        if isWhole && (c == '-' || c == ':') then
          let inMoment (c : Char) : Bool := c.isDigit || "-:Tt .Zz+".toList.contains c
          let word := Text.dropTrailing isGap (cs.takeWhile inMoment)
          if isMoment word then some (⟨String.ofList word, .moment⟩, cs.dropWhile inMoment) else none
        else if c == '.' || c == 'e' || c == 'E' then
          take (fun c => c.isDigit || "_.+-eE".toList.contains c) real cs
        else take (fun c => c.isDigit || c == '_' || c == '+' || c == '-') integer cs

/-- The words for truth values and for reals that are no numbers. -/
def words : List (String × Meaning) :=
  [("true", .bool true), ("false", .bool false), ("inf", .real (1.0 / 0.0)),
   ("+inf", .real (1.0 / 0.0)), ("-inf", .real (-(1.0 / 0.0))), ("nan", .real (0.0 / 0.0)),
   ("+nan", .real (0.0 / 0.0)), ("-nan", .real (0.0 / 0.0))]

def scalar (cs : List Char) : Option (Scalar × List Char) :=
  if cs.head? == some '"' || cs.head? == some '\'' then
    (quotedText cs).map fun (text, after) => (⟨String.ofList text, .text⟩, after)
  else
    match words.find? (fun w => w.1.toList.isPrefixOf cs) with
    | some (word, meaning) => some (⟨word, meaning⟩, cs.drop word.length)
    | none => number cs

end Toml
end Settings
end Whiteboard
