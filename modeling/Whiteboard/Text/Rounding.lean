namespace Whiteboard
namespace Text

/-!
Quotients rounded to the nearest integer and to the nearest double.
-/

/-- The quotient rounded to the nearest integer; a tie goes to the even neighbour. -/
def roundDiv (n d : Nat) : Nat :=
  let q := n / d
  let r := n % d
  if 2 * r < d then q else if d < 2 * r then q + 1 else if q % 2 == 0 then q else q + 1

/-- A quotient divided by two to the power `e`. -/
def shiftQuotient (n d : Nat) (e : Int) : Nat × Nat :=
  if e < 0 then (n * Nat.pow 2 e.natAbs, d) else (n, d * Nat.pow 2 e.natAbs)

/-- The double nearest to a quotient, a tie going to the even neighbour; none if it is too large.
The significand takes 53 bits, or as many as the least exponent leaves. -/
def nearestDouble (n d : Nat) : Option Float :=
  if n == 0 then some 0.0
  else
    let leading := 0x10000000000000
    let guess : Int := Nat.log2 n - Nat.log2 d - 52
    let (a, b) := shiftQuotient n d guess
    let fitted := if a < leading * b then guess - 1 else guess
    let e := if fitted < -1074 then -1074 else fitted
    let (a, b) := shiftQuotient n d e
    let bits := (e + 1074).toNat * leading + roundDiv a b
    if bits < 0x7FF0000000000000 then some (Float.ofBits bits.toUInt64) else none

/-- The numerator of the magnitude of a double, over two to the power 1075. -/
def doubleNumerator (x : Float) : Nat :=
  let bits := x.toBits.toNat
  let leading := 0x10000000000000
  let e := bits / leading % 2048
  if e == 0 then bits % leading * 2 else (bits % leading + leading) * Nat.pow 2 e

def isNegative (x : Float) : Bool :=
  decide (0x8000000000000000 ≤ x.toBits.toNat)

def nearestDoubleInt (n : Int) : Option Float :=
  (nearestDouble n.natAbs 1).map fun x => if n < 0 then -x else x

end Text
end Whiteboard
