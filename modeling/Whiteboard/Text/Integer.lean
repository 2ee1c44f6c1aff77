namespace Whiteboard
namespace Text

/-!
Decimal integers as they are written in labels, flags and settings: an optional sign and ASCII
digits, within the range of a signed 64-bit word.
-/

/-- The value of a run of ASCII digits read after `acc`; `none` at any other character. -/
def readDigits (acc : Nat) : List Char → Option Nat
  | [] => some acc
  | c :: cs =>
    if '0' ≤ c && c ≤ '9' then readDigits (acc * 10 + (c.toNat - '0'.toNat)) cs else none

def readNat (cs : List Char) : Option Nat :=
  if cs.isEmpty then none else readDigits 0 cs

def inWord (n : Int) : Bool :=
  decide (-0x8000000000000000 ≤ n) && decide (n < 0x8000000000000000)

/-- An optional sign and digits, within 64 bits. -/
def readInt (s : String) : Option Int :=
  let value : Option Int :=
    match s.toList with
    | '+' :: cs => (readNat cs).map Int.ofNat
    | '-' :: cs => (readNat cs).map (fun n => -Int.ofNat n)
    | cs => (readNat cs).map Int.ofNat
  value.filter inWord

end Text
end Whiteboard
