import Whiteboard.Duration
import Whiteboard.Text.Case

namespace Whiteboard

/-!
Schedules of repeated work: five calendar fields, a named period, or an interval.
-/

/-- When repeated work is due: at the minutes that match every calendar field, or after a fixed
interval.  Days of the week count from Sunday. -/
inductive Schedule where
  | calendar (minutes hours days months weekdays : List Nat)
  | every (interval : Int)
  deriving DecidableEq, Inhabited

namespace Schedule

/-- The values of a calendar field and the names that stand for some of them. -/
structure Field where
  first : Nat
  last : Nat
  names : List (String × Nat) := []

def minute : Field := { first := 0, last := 59 }
def hour : Field := { first := 0, last := 23 }
def day : Field := { first := 1, last := 31 }

def month : Field where
  first := 1
  last := 12
  names := [("jan", 1), ("feb", 2), ("mar", 3), ("apr", 4), ("may", 5), ("jun", 6), ("jul", 7),
    ("aug", 8), ("sep", 9), ("oct", 10), ("nov", 11), ("dec", 12)]

def weekday : Field where
  first := 0
  last := 6
  names := [("sun", 0), ("mon", 1), ("tue", 2), ("wed", 3), ("thu", 4), ("fri", 5), ("sat", 6)]

def stepped (a b step : Nat) : List Nat :=
  (List.range ((b - a) / step + 1)).map (fun i => a + i * step)

namespace Field

def value (f : Field) (cs : List Char) : Option Nat :=
  let word := String.ofList cs
  match f.names.find? (fun n => n.1 == Text.lowerText word) with
  | some (_, n) => some n
  | none => (Text.readInt word).bind (fun n => if n < 0 then none else some n.toNat)

/-- The first and last value of a range; a star or a question mark means all, and a single value
with a step runs up to the last one. -/
def bounds (f : Field) (range : List Char) (hasStep : Bool) : Option (Nat × Nat) :=
  match Text.splitWhere (· == '-') range with
  | [] => none
  | low :: more =>
    if low == ['*'] || low == ['?'] then some (f.first, f.last)
    else do
      let a ← f.value low
      match more with
      | [] => some (a, if hasStep then f.last else a)
      | [high] => (f.value high).map (fun b => (a, b))
      | _ => none

def range (f : Field) (cs : List Char) : Option (List Nat) := do
  let (range, step) ←
    match Text.splitWhere (· == '/') cs with
    | [range] => some (range, some 1)
    | [range, step] => some (range, (Text.readInt (String.ofList step)).bind (fun n =>
        if n < 0 then none else some n.toNat))
    | _ => none
  let (a, b) ← f.bounds range (cs.contains '/')
  let step ← step
  if a < f.first || f.last < b || b < a || step == 0 then none else some (stepped a b step)

def values (f : Field) (cs : List Char) : Option (List Nat) :=
  ((Text.piecesBetween (· == ',') cs).mapM f.range).map List.flatten

end Field

def named (name : String) : Option Schedule :=
  let all (f : Field) : List Nat := stepped f.first f.last 1
  match name with
  | "@yearly" => some (.calendar [0] [0] [1] [1] (all weekday))
  | "@annually" => some (.calendar [0] [0] [1] [1] (all weekday))
  | "@monthly" => some (.calendar [0] [0] [1] (all month) (all weekday))
  | "@weekly" => some (.calendar [0] [0] (all day) (all month) [0])
  | "@daily" => some (.calendar [0] [0] (all day) (all month) (all weekday))
  | "@midnight" => some (.calendar [0] [0] (all day) (all month) (all weekday))
  | "@hourly" => some (.calendar [0] (all hour) (all day) (all month) (all weekday))
  | _ => none

def read (s : String) : Option Schedule :=
  if s.startsWith "@" then
    if s.startsWith "@every " then
      (Duration.read (String.ofList (s.toList.drop "@every ".length))).map .every
    else named s
  else
    match Text.words s with
    | [mi, h, d, mo, w] => do
      let minutes ← minute.values mi.toList
      let hours ← hour.values h.toList
      let days ← day.values d.toList
      let months ← month.values mo.toList
      let weekdays ← weekday.values w.toList
      some (.calendar minutes hours days months weekdays)
    | _ => none

end Schedule
end Whiteboard
