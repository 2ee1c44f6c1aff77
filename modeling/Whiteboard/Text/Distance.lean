namespace Whiteboard
namespace Text

/-!
Edit distance: the least number of insertions, deletions and substitutions of single characters
that turn one text into another.  It is computed row by row; a row holds the distances of one
fixed text to all suffixes of the other, the whole text first and the empty suffix last.
-/

/-- The distances of the empty text to all suffixes of `t`. -/
def emptyRow : List Char → List Nat
  | [] => [0]
  | _ :: t => (t.length + 1) :: emptyRow t

/-- From the row of `s` to the row of `c :: s`. -/
def nextRow (c : Char) : List Char → List Nat → List Nat
  | d :: t, x :: y :: rest =>
    match nextRow c t (y :: rest) with
    | z :: zs => min (min (x + 1) (z + 1)) (y + if c == d then 0 else 1) :: z :: zs
    | [] => []
  | _, x :: _ => [x + 1]
  | _, [] => []

def distanceRow (s t : List Char) : List Nat :=
  s.foldr (fun c row => nextRow c t row) (emptyRow t)

def editDistance (s t : String) : Nat :=
  (distanceRow s.toList t.toList).headD 0

end Text
end Whiteboard
