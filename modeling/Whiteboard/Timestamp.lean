import Whiteboard.Text.Decimal

namespace Whiteboard
namespace Timestamp

/-!
Points in time, as seconds since 1970, and their written form in universal time.
-/

/-- The year, month and day that lie a number of days after 1 March of the year 0. -/
def dateOfDays (days : Int) : Int × Int × Int :=
  let era := days.fdiv 146097
  let inEra := days.fmod 146097
  let year := (inEra - inEra / 1460 + inEra / 36524 - inEra / 146096) / 365
  let inYear := inEra - (365 * year + year / 4 - year / 100)
  let shifted := (5 * inYear + 2) / 153
  let day := inYear - (153 * shifted + 2) / 5 + 1
  let month := if shifted < 10 then shifted + 3 else shifted - 9
  (year + era * 400 + (if month ≤ 2 then 1 else 0), month, day)

def padded (width : Nat) (n : Int) : String :=
  Text.zeroPadded width n.toNat

/-- The date and time, with `T` between them and `Z` at the end. -/
def text (seconds : Int) : String :=
  let inDay := seconds.fmod 86400
  let (year, month, day) := dateOfDays (seconds.fdiv 86400 + 719468)
  padded 4 year ++ "-" ++ padded 2 month ++ "-" ++ padded 2 day ++ "T" ++ padded 2 (inDay / 3600) ++
    ":" ++ padded 2 (inDay % 3600 / 60) ++ ":" ++ padded 2 (inDay % 60) ++ "Z"

/-- The time that stands for none: the start of the year 1. -/
def never : Int := -62135596800

end Timestamp
end Whiteboard
