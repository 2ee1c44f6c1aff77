import Whiteboard.Settings.Tree
import Whiteboard.Text.Unquoted

namespace Whiteboard
namespace Settings
namespace Yaml

/-!
What the scalars of a file mean.  A plain scalar may be a number, a truth value or the absence of
a value; a tag settles what a scalar is.
-/

def digitValue (c : Char) : Nat :=
  Text.hexValue [c]

def basedDigits (base : Nat) (digits : List Char) : Option Nat :=
  if digits.isEmpty || !digits.all (fun c => Text.isHexDigit c && decide (digitValue c < base)) then
    none
  else some (digits.foldl (fun n c => n * base + digitValue c) 0)

/-- An integer without a sign and with an optional mark of its base; a leading zero marks octal. -/
def unsignedInteger (cs : List Char) : Option Nat :=
  match cs with
  | ['0'] => some 0
  | '0' :: m :: rest =>
    if m == 'x' || m == 'X' then basedDigits 16 rest
    else if m == 'b' || m == 'B' then basedDigits 2 rest
    else if m == 'o' || m == 'O' then basedDigits 8 rest
    else basedDigits 8 (m :: rest)
  | cs => basedDigits 10 cs

/-- A number with an optional sign, its magnitude read by `magnitude`. -/
def signed (magnitude : List Char → Option Nat) (cs : List Char) : Option Int :=
  match cs with
  | '+' :: rest => (magnitude rest).map Int.ofNat
  | '-' :: rest => (magnitude rest).map (fun n => -Int.ofNat n)
  | rest => (magnitude rest).map Int.ofNat

/-- An integer that a word holds; one without a sign may also fill an unsigned word. -/
def fitting (cs : List Char) (n : Int) : Option Int :=
  let written := cs.head? == some '+' || cs.head? == some '-'
  if Text.inWord n || (!written && 0 ≤ n && n < 18446744073709551616) then some n else none

/-- Digits after the mark of their base may have a sign of their own. -/
def markedInteger (cs : List Char) : Option Int :=
  match cs with
  | '0' :: 'b' :: rest => (signed (basedDigits 2) rest).bind (fitting rest)
  | '0' :: 'o' :: rest => (signed (basedDigits 8) rest).bind (fitting rest)
  | '-' :: '0' :: 'b' :: rest => (signed (basedDigits 2) ('-' :: rest)).bind (fitting cs)
  | '-' :: '0' :: 'o' :: rest => (signed (basedDigits 8) ('-' :: rest)).bind (fitting cs)
  | _ => none

/-- A decimal number with an optional sign, fraction and exponent. -/
def decimalNumber (cs : List Char) : Option Float :=
  match cs with
  | '+' :: rest => Text.readDecimal rest
  | '-' :: rest => (Text.readDecimal rest).map (-·)
  | rest => Text.readDecimal rest

/-- What a plain scalar that starts with a digit or a sign means.  Underscores do not count. -/
def numberMeaning (s : String) : Meaning :=
  let cs := s.toList.filter (· != '_')
  match (signed unsignedInteger cs).bind (fitting cs) with
  | some n => .int n
  | none =>
    match decimalNumber cs with
    | some x => .real x
    | none =>
      match markedInteger cs with
      | some n => .int n
      | none => .text

def plainMeaning (s : String) : Meaning :=
  if ["", "~", "null", "Null", "NULL"].contains s then .absent
  else if ["true", "True", "TRUE"].contains s then .bool true
  else if ["false", "False", "FALSE"].contains s then .bool false
  else if [".inf", ".Inf", ".INF", "+.inf", "+.Inf", "+.INF"].contains s then .real (1.0 / 0.0)
  else if ["-.inf", "-.Inf", "-.INF"].contains s then .real (-(1.0 / 0.0))
  else if [".nan", ".NaN", ".NAN"].contains s then .real (0.0 / 0.0)
  else
    match s.toList with
    | [] => .absent
    | c :: _ =>
      if c == '.' then
        match Text.readReal s with
        | some x => .real x
        | none => .text
      else if c.isDigit || c == '+' || c == '-' then numberMeaning s
      else .text

/-- What a scalar means under a tag; none if the tag does not fit it.  A tag that is not known
makes it a text. -/
def taggedMeaning (tag text : String) (quoted : Bool) : Option Meaning :=
  if tag == "" || tag == "!" then some (if quoted then .text else plainMeaning text)
  else if tag == "!!int" then
    match plainMeaning text with
    | .int n => some (.int n)
    | _ => none
  else if tag == "!!float" then
    match plainMeaning text with
    | .int n => if Text.inWord n then (Text.nearestDoubleInt n).map .real else none
    | .real x => some (.real x)
    | _ => none
  else if tag == "!!bool" then
    match plainMeaning text with
    | .bool b => some (.bool b)
    | _ => none
  else if tag == "!!null" then
    match plainMeaning text with
    | .absent => some .absent
    | _ => none
  else some .text

end Yaml
end Settings
end Whiteboard
