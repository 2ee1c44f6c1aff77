namespace Whiteboard
namespace Text

/-!
Sets of code points as sorted tables of spans.  A span `(first, last, step)` holds the code
points `first`, `first + step`, ... up to `last`, and an interval `(first, more)` holds `first` and
the `more` code points after it.  The spans of a table do not overlap and stand in ascending order,
so a look-up stops at the first span that reaches the code point.
-/

/-- Code points `first`, `first + step`, ... up to `last`. -/
abbrev Span := Nat × Nat × Nat

/-- Membership in a sorted table of stepped spans. -/
def inSpans : List Span → Nat → Bool
  | [], _ => false
  | (first, last, step) :: rest, n =>
    if n ≤ last then decide (first ≤ n) && (n - first) % step == 0 else inSpans rest n

/-- Membership in a sorted table of intervals. -/
def inIntervals : List (Nat × Nat) → Nat → Bool
  | [], _ => false
  | (first, more) :: rest, n => if n ≤ first + more then decide (first ≤ n) else inIntervals rest n

end Text
end Whiteboard
