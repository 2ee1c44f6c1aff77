import Whiteboard.Text.Rounding

namespace Whiteboard
namespace Text

/-!
Doubles as decimal numbers.  Whole numbers have as few digits as tell their double from all
others.
-/

/-- Do two integers have the same nearest double? -/
def sameDouble (a b : Nat) : Bool :=
  (nearestDouble a 1).map Float.toBits == (nearestDouble b 1).map Float.toBits

/-- The multiple of `unit` next to `n` that has the same double, the nearer one if both have. -/
def nearMultiple (unit n : Nat) : Option Nat :=
  let below := n / unit * unit
  let above := below + unit
  let order := if n - below ≤ above - n then [below, above] else [above, below]
  order.find? (sameDouble n)

/-- The integer with the fewest digits before its trailing zeros that has the double of `n`; at
most `zeros` of them are tried. -/
def shortestWhole (n : Nat) : Nat → Nat
  | 0 => n
  | zeros + 1 => (nearMultiple (Nat.pow 10 (zeros + 1)) n).getD (shortestWhole n zeros)

/-- A double as a decimal mantissa and the number of its places.  There are none exactly for the
whole numbers of at most 21 digits. -/
def decimalParts (x : Float) : Int × Nat :=
  let n := doubleNumerator x
  let unit := Nat.pow 2 1075
  let whole := n / unit
  let (m, places) :=
    if n % unit == 0 && whole < 1000000000000000000000 then (shortestWhole whole 20, 0)
    else (n * Nat.pow 5 1075, 1075)
  (if isNegative x then -Int.ofNat m else Int.ofNat m, places)

end Text
end Whiteboard
