import Whiteboard.Text.Lines
import Whiteboard.Text.Rounding

namespace Whiteboard
namespace Text

/-!
Doubles written with a fixed number of decimal places.
-/

def zeroPadded (width n : Nat) : String :=
  let digits := toString n
  String.ofList (List.replicate (width - digits.length) '0') ++ digits

/-- A double with `places` digits after the point, rounded from its exact value. -/
def fixed (places : Nat) (x : Float) : String :=
  if x.isNaN then "NaN"
  else if x.isInf then (if x < 0.0 then "-Inf" else "+Inf")
  else
    let unit := Nat.pow 10 places
    let scaled := roundDiv (doubleNumerator x * unit) (Nat.pow 2 1075)
    (if isNegative x then "-" else "") ++ toString (scaled / unit) ++
      (if places == 0 then "" else "." ++ zeroPadded places (scaled % unit))

end Text
end Whiteboard
