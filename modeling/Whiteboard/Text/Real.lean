import Whiteboard.Text.Integer
import Whiteboard.Text.Rounding

namespace Whiteboard
namespace Text

/-!
Real numbers as they are written in settings.  The result is the nearest double; a number that is
too large for a double is none.
-/

def spanDigits (cs : List Char) : List Char × List Char :=
  (cs.takeWhile Char.isDigit, cs.dropWhile Char.isDigit)

def isHexDigit (c : Char) : Bool :=
  c.isDigit || ('a' ≤ c.toLower && c.toLower ≤ 'f')

def spanHex (cs : List Char) : List Char × List Char :=
  (cs.takeWhile isHexDigit, cs.dropWhile isHexDigit)

def hexValue (cs : List Char) : Nat :=
  cs.foldl (fun n c =>
    n * 16 + (if c.isDigit then c.toNat - '0'.toNat else c.toLower.toNat - 'a'.toNat + 10)) 0

/-- The value of decimal digits; zero for none. -/
def digitsValue (cs : List Char) : Nat :=
  (readDigits 0 cs).getD 0

/-- An optional sign and at least one digit, and nothing else. -/
def readSigned (cs : List Char) : Option Int :=
  match cs with
  | '+' :: ds => (readNat ds).map Int.ofNat
  | '-' :: ds => (readNat ds).map (fun n => -Int.ofNat n)
  | ds => (readNat ds).map Int.ofNat

/-- Digits with an optional fraction: the digits without the point, and how many of them follow
it. -/
def spanFraction (span : List Char → List Char × List Char) (cs : List Char) :
    Option (List Char × Nat × List Char) :=
  let (whole, rest) := span cs
  match rest with
  | '.' :: rest =>
    let (fraction, rest) := span rest
    if whole.isEmpty && fraction.isEmpty then none
    else some (whole ++ fraction, fraction.length, rest)
  | rest => if whole.isEmpty then none else some (whole, 0, rest)

/-- The double nearest to `m` times ten to the power `e`; none if that is too large. -/
def scaledDecimal (m : Nat) (e : Int) : Option Float :=
  let size := (toString m).length + e
  if m == 0 || size < -400 then some 0.0
  else if 400 < size then none
  else if e < 0 then nearestDouble m (Nat.pow 10 e.natAbs)
  else nearestDouble (m * Nat.pow 10 e.natAbs) 1

/-- The double nearest to `m` times two to the power `e`; none if that is too large. -/
def scaledBinary (m : Nat) (e : Int) : Option Float :=
  let size := Nat.log2 m + e
  if m == 0 || size < -1200 then some 0.0
  else if 1200 < size then none
  else if e < 0 then nearestDouble m (Nat.pow 2 e.natAbs)
  else nearestDouble (m * Nat.pow 2 e.natAbs) 1

/-- An unsigned decimal number with an optional exponent. -/
def readDecimal (cs : List Char) : Option Float := do
  let (digits, places, rest) ← spanFraction spanDigits cs
  let e ←
    match rest with
    | [] => some 0
    | c :: rest => if c == 'e' || c == 'E' then readSigned rest else none
  scaledDecimal (digitsValue digits) (e - places)

/-- An unsigned hexadecimal number after its mark; the exponent of two must be there. -/
def readHexadecimal (cs : List Char) : Option Float := do
  let (digits, places, rest) ← spanFraction spanHex cs
  match rest with
  | c :: rest =>
    if c == 'p' || c == 'P' then
      let e ← readSigned rest
      scaledBinary (hexValue digits) (e - 4 * places)
    else none
  | [] => none

/-- Whether every underscore stands between two digits, or between the mark of a base and a
digit; `before` tells if one of these precedes. -/
def underscoresSeparate (digit : Char → Bool) (before : Bool) : List Char → Bool
  | [] => true
  | c :: cs =>
    if c == '_' then
      before && (cs.head?.map digit).getD false && underscoresSeparate digit false cs
    else underscoresSeparate digit (digit c) cs

/-- Digits without the underscores that separate them. -/
def dropUnderscores (digit : Char → Bool) (marked : Bool) (cs : List Char) : Option (List Char) :=
  if underscoresSeparate digit marked cs then some (cs.filter (· != '_')) else none

/-- A number without its sign. -/
def readMagnitude (cs : List Char) : Option Float :=
  let word := cs.map Char.toLower
  if word == "inf".toList || word == "infinity".toList then some (1.0 / 0.0)
  else
    match cs with
    | '0' :: 'x' :: rest => (dropUnderscores isHexDigit true rest).bind readHexadecimal
    | '0' :: 'X' :: rest => (dropUnderscores isHexDigit true rest).bind readHexadecimal
    | digits => (dropUnderscores Char.isDigit false digits).bind readDecimal

def readReal (s : String) : Option Float :=
  match s.toList with
  | '+' :: cs => readMagnitude cs
  | '-' :: cs => (readMagnitude cs).map (-·)
  | cs => if cs.map Char.toLower == "nan".toList then some (0.0 / 0.0) else readMagnitude cs

/-- A truth value: `1`, `t` or `true`, `0`, `f` or `false`, in lower case, upper case, or
capitalized. -/
def readBool (s : String) : Option Bool :=
  if ["1", "t", "T", "true", "TRUE", "True"].contains s then some true
  else if ["0", "f", "F", "false", "FALSE", "False"].contains s then some false
  else none

end Text
end Whiteboard
