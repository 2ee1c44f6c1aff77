import Whiteboard.Text.Decimal
import Whiteboard.Text.Real

namespace Whiteboard
namespace Duration

/-!
Lengths of time in nanoseconds, and their written form: an optional sign and numbers with units,
such as `1h30m` or `1.5s`.
-/

def millisecond : Int := 1000000
def second : Int := 1000 * millisecond
def hour : Int := 3600 * second

def unit? (name : String) : Option Nat :=
  match name with
  | "ns" => some 1
  | "us" => some 1000
  | "µs" => some 1000
  | "μs" => some 1000
  | "ms" => some 1000000
  | "s" => some 1000000000
  | "m" => some 60000000000
  | "h" => some 3600000000000
  | _ => none

/-- No sum of parts may exceed this many nanoseconds. -/
def limit : Nat := 0x8000000000000000

/-- The digits of a fraction as a number and the power of ten below it.  Digits that would make
the number exceed a word are dropped. -/
def fraction : List Char → Nat × Float
  | cs => go 0 1.0 cs
where
  go (x : Nat) (scale : Float) : List Char → Nat × Float
    | [] => (x, scale)
    | c :: cs =>
      let y := x * 10 + (c.toNat - '0'.toNat)
      if (limit - 1) / 10 < x || limit < y then (x, scale) else go y (scale * 10.0) cs

/-- The nanoseconds of a number of units with a fraction, rounded toward zero. -/
def part (whole : Nat) (fractionDigits : List Char) (unit : Nat) : Option Nat :=
  if limit / unit < whole then none
  else
    let (f, scale) := fraction fractionDigits
    let below := if f == 0 then 0 else (Float.ofNat f * (Float.ofNat unit / scale)).toUInt64.toNat
    let total := whole * unit + below
    if limit < total then none else some total

/-- One number with its unit, and the rest. -/
def readPart (cs : List Char) : Option (Nat × List Char) := do
  let (whole, rest) := Text.spanDigits cs
  let (below, rest) :=
    match rest with
    | '.' :: more => Text.spanDigits more
    | more => ([], more)
  if whole.isEmpty && below.isEmpty then none
  else
    let inUnit (c : Char) : Bool := c != '.' && !c.isDigit
    let unit ← unit? (String.ofList (rest.takeWhile inUnit))
    let n := Text.digitsValue whole
    if limit < n then none
    else
      let ns ← part n below unit
      some (ns, rest.dropWhile inUnit)

/-- The sum of the parts, each of which takes at least one character. -/
def readParts (sum : Nat) : Nat → List Char → Option Nat
  | _, [] => some sum
  | 0, _ :: _ => none
  | bound + 1, cs => do
    let (ns, rest) ← readPart cs
    if limit < sum + ns then none else readParts (sum + ns) bound rest

def read (s : String) : Option Int :=
  let magnitude (cs : List Char) : Option Nat :=
    match cs with
    | [] => none
    | ['0'] => some 0
    | cs => readParts 0 cs.length cs
  match s.toList with
  | '-' :: cs => (magnitude cs).map (fun n => -Int.ofNat n)
  | '+' :: cs => (magnitude cs).bind (fun n => if n < limit then some (Int.ofNat n) else none)
  | cs => (magnitude cs).bind (fun n => if n < limit then some (Int.ofNat n) else none)

/-- A fraction without the zeros at its end: `value / 10 ^ places`. -/
def fractionText (value places : Nat) : String :=
  let digits := Text.zeroPadded places value
  let kept := Text.dropTrailing (· == '0') digits.toList
  if kept.isEmpty then "" else "." ++ String.ofList kept

/-- Nanoseconds as text: below a second in one unit, else in hours, minutes and seconds. -/
def magnitudeText (n : Nat) : String :=
  if n == 0 then "0s"
  else if n < 1000 then toString n ++ "ns"
  else if n < 1000000 then toString (n / 1000) ++ fractionText (n % 1000) 3 ++ "µs"
  else if n < 1000000000 then toString (n / 1000000) ++ fractionText (n % 1000000) 6 ++ "ms"
  else
    let seconds := n / 1000000000
    let minutes := seconds / 60
    let hours := minutes / 60
    (if hours == 0 then "" else toString hours ++ "h") ++
      (if minutes == 0 then "" else toString (minutes % 60) ++ "m") ++
      toString (seconds % 60) ++ fractionText (n % 1000000000) 9 ++ "s"

def text (d : Int) : String :=
  (if d < 0 then "-" else "") ++ magnitudeText d.natAbs

end Duration
end Whiteboard
