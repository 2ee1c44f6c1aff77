import Mathlib.Data.List.Infix
import Mathlib.Order.Bounds.Basic
import Mathlib.Order.MinMax
import Whiteboard.Diagnostic.Suggestion

namespace Whiteboard

open List

/-!
# Suggestions for misspelt keywords

The distance of two texts is the least number of edits of single characters that turn one into the other.  A hint
names the first of the nearest keywords.
-/

namespace Text

/-! ## Edits -/

/-- One character is put in, taken out or replaced. -/
inductive Edit : List Char → List Char → Prop
  | insertion (front : List Char) (c : Char) (back : List Char) : Edit (front ++ back) (front ++ c :: back)
  | deletion (front : List Char) (c : Char) (back : List Char) : Edit (front ++ c :: back) (front ++ back)
  | substitution (front : List Char) (c d : Char) (back : List Char) : Edit (front ++ c :: back) (front ++ d :: back)

/-- So many edits turn the first text into the second. -/
inductive Edits : Nat → List Char → List Char → Prop
  | done (s : List Char) : Edits 0 s s
  | step {s t u : List Char} {n : Nat} (edit : Edit s u) (others : Edits n u t) : Edits (n + 1) s t

variable {s t u : List Char} {n : Nat}

theorem Edit.cons (c : Char) : Edit s t → Edit (c :: s) (c :: t)
  | insertion front d back => insertion (c :: front) d back
  | deletion front d back => deletion (c :: front) d back
  | substitution front d e back => substitution (c :: front) d e back

namespace Edits

theorem cons (c : Char) (edits : Edits n s t) : Edits n (c :: s) (c :: t) := by
  induction edits with
  | done s => exact done (c :: s)
  | step edit _ ih => exact step (edit.cons c) ih

theorem snoc (edits : Edits n s u) (edit : Edit u t) : Edits (n + 1) s t := by
  induction edits with
  | done s => exact step edit (done t)
  | step first _ ih => exact step first (ih edit)

theorem insertions : ∀ t : List Char, Edits t.length [] t
  | [] => done []
  | c :: t => (insertions t).snoc (.insertion [] c t)

theorem deletions : ∀ s : List Char, Edits s.length s []
  | [] => done []
  | c :: s => step (.deletion [] c s) (deletions s)

end Edits

/-! ## The distance by recursion -/

def distance : List Char → List Char → Nat
  | [], t => t.length
  | _ :: s, [] => s.length + 1
  | c :: s, d :: t =>
    min (min (distance s (d :: t) + 1) (distance (c :: s) t + 1)) (distance s t + if c == d then 0 else 1)

@[simp]
theorem distance_nil (s : List Char) : distance s [] = s.length := by
  cases s <;> simp [distance]

theorem emptyRow_eq (t : List Char) : emptyRow t = t.tails.map (distance []) := by
  induction t with
  | nil => simp [emptyRow]
  | cons d t ih => simp [emptyRow, distance, ih]

theorem nextRow_eq (c : Char) (s t : List Char) :
    nextRow c t (t.tails.map (distance s)) = t.tails.map (distance (c :: s)) := by
  induction t with
  | nil => simp [nextRow]
  | cons d t ih =>
    -- The row of the shorter suffix begins with the distance to it.
    have row (s : List Char) : t.tails.map (distance s) = distance s t :: (t.tails.map (distance s)).tail := by
      cases t <;> rfl
    rw [row s] at ih
    rw [tails, map_cons, row s, nextRow, ih, map_cons, row (c :: s), distance]

theorem distanceRow_eq (s t : List Char) : distanceRow s t = t.tails.map (distance s) := by
  induction s with
  | nil => exact emptyRow_eq t
  | cons c s ih =>
    change nextRow c t (distanceRow s t) = _
    rw [ih, nextRow_eq]

theorem editDistance_eq (s t : String) : editDistance s t = distance s.toList t.toList := by
  rw [editDistance, distanceRow_eq]
  cases t.toList <;> rfl

/-! ## As many edits as the distance -/

theorem edits_distance (s t : List Char) : Edits (distance s t) s t := by
  fun_induction distance s t with
  | case1 t => exact .insertions t
  | case2 c s => exact .deletions (c :: s)
  | case3 c s d t delete insert replace =>
    rcases min_choice (min (distance s (d :: t) + 1) (distance (c :: s) t + 1))
      (distance s t + if c == d then 0 else 1) with least | least
    · rcases min_choice (distance s (d :: t) + 1) (distance (c :: s) t + 1) with first | first
      · rw [least, first]
        exact .step (.deletion [] c s) delete
      · rw [least, first]
        exact insert.snoc (.insertion [] d t)
    · rw [least]
      split
      next same =>
        rw [eq_of_beq same]
        exact replace.cons d
      next =>
        exact .step (.substitution [] c d s) (replace.cons d)

/-! ## No fewer edits than the distance -/

theorem distance_self (s : List Char) : distance s s = 0 := by
  induction s with
  | nil => simp
  | cons c s ih => simp [distance, ih]

theorem distance_cons_right_le (s t : List Char) (d : Char) : distance s (d :: t) ≤ distance s t + 1 := by
  cases s <;> grind [distance]

theorem distance_cons_left_le (s t : List Char) (c : Char) : distance (c :: s) t ≤ distance s t + 1 := by
  cases t <;> grind [distance, distance_nil]

theorem distance_le_cons_left (s t : List Char) (c : Char) : distance s t ≤ distance (c :: s) t + 1 := by
  induction t with
  | nil => simp; omega
  | cons d t ih =>
    have inserted := distance_cons_right_le s t d
    rw [distance]
    omega

theorem distance_substitute_le (s t : List Char) (c d : Char) : distance (c :: s) t ≤ distance (d :: s) t + 1 := by
  induction t with
  | nil => simp
  | cons e t ih =>
    simp only [distance]
    split <;> split <;> omega

theorem distance_cons_le (c : Char) (near : ∀ t, distance s t ≤ distance u t + 1) (t : List Char) :
    distance (c :: s) t ≤ distance (c :: u) t + 1 := by
  induction t with
  | nil => simpa using near []
  | cons d t ih =>
    have whole := near (d :: t)
    have rest := near t
    simp only [distance]
    omega

/-- An edit changes the distance to a text by one at most. -/
theorem Edit.distance_le (edit : Edit s u) (t : List Char) : distance s t ≤ distance u t + 1 := by
  cases edit with
  | insertion front c back =>
    induction front generalizing t with
    | nil => exact distance_le_cons_left back t c
    | cons d front ih => exact distance_cons_le d ih t
  | deletion front c back =>
    induction front generalizing t with
    | nil => exact distance_cons_left_le back t c
    | cons d front ih => exact distance_cons_le d ih t
  | substitution front c d back =>
    induction front generalizing t with
    | nil => exact distance_substitute_le back t c d
    | cons e front ih => exact distance_cons_le e ih t

theorem Edits.distance_le (edits : Edits n s t) : distance s t ≤ n := by
  induction edits with
  | done s => exact (distance_self s).le
  | step edit _ ih => exact (edit.distance_le _).trans (Nat.succ_le_succ ih)

theorem isLeast_editDistance (s t : String) : IsLeast {n | Edits n s.toList t.toList} (editDistance s t) := by
  rw [editDistance_eq]
  exact ⟨edits_distance _ _, fun _ edits => edits.distance_le⟩

end Text

namespace Suggestion

/-- The distance of two words when case does not count. -/
def wordDistance (unknown word : String) : Nat := Text.editDistance (Text.lowerText unknown) (Text.lowerText word)

/-- A list with a word that is the first of those nearest to `unknown`. -/
structure IsNearest (unknown : String) (before : List String) (word : String) (after : List String) : Prop where
  first : ∀ other ∈ before, wordDistance unknown word < wordDistance unknown other
  least : ∀ other ∈ after, wordDistance unknown word ≤ wordDistance unknown other

variable {unknown : String} {words : List String}

theorem nearest_cons (word : String) : nearest unknown (word :: words) =
    (nearest unknown words).elim (some (wordDistance unknown word, word)) fun best =>
      if best.1 < wordDistance unknown word then some best else some (wordDistance unknown word, word) := by
  rw [nearest]
  cases nearest unknown words <;> rfl

theorem nearest_eq_none_iff : nearest unknown words = none ↔ words = [] := by
  cases words with
  | nil => simp [nearest]
  | cons word rest =>
    rw [nearest_cons]
    cases nearest unknown rest <;> grind

theorem isNearest_of_nearest {best : Nat × String} (found : nearest unknown words = some best) :
    best.1 = wordDistance unknown best.2 ∧
      ∃ before after, words = before ++ best.2 :: after ∧ IsNearest unknown before best.2 after := by
  induction words generalizing best with
  | nil => cases found
  | cons here rest ih =>
    rw [nearest_cons] at found
    cases behind : nearest unknown rest with
    | none =>
      rw [behind] at found
      cases found
      rw [nearest_eq_none_iff.mp behind]
      exact ⟨rfl, [], [], rfl, by simp, by simp⟩
    | some second =>
      rcases ih behind with ⟨same, before, after, rfl, first, least⟩
      rw [behind, Option.elim_some, same] at found
      split at found
      next closer =>
        cases found
        exact ⟨same, here :: before, after, rfl, forall_mem_cons.mpr ⟨closer, first⟩, least⟩
      next farther =>
        cases found
        refine ⟨rfl, [], _, rfl, by simp, fun other member => ?_⟩
        have bound := Nat.not_lt.mp farther
        rcases mem_append.mp member with member | member
        · exact bound.trans (first other member).le
        · rcases mem_cons.mp member with rfl | member
          · exact bound
          · exact bound.trans (least other member)

theorem IsNearest.nearest_eq {before after : List String} {word : String} (is : IsNearest unknown before word after) :
    nearest unknown (before ++ word :: after) = some (wordDistance unknown word, word) := by
  induction before with
  | nil =>
    rw [nil_append, nearest_cons]
    cases behind : nearest unknown after with
    | none => rfl
    | some second =>
      rcases isNearest_of_nearest behind with ⟨same, front, back, split, _⟩
      have bound := is.least second.2 (by simp [split])
      exact if_neg (Nat.not_lt.mpr (same ▸ bound))
  | cons here before ih =>
    have closer := forall_mem_cons.mp is.first
    rw [cons_append, nearest_cons, ih ⟨closer.2, is.least⟩]
    exact if_pos closer.1

/-- A hint is given just for a word of three bytes or more that is no keyword, if the least distance to a keyword is
two at most and less than the length of the first keyword at this distance.  It names that keyword.  The distance is
the least number of edits. -/
theorem keyword_hint_exact (unknown : String) (keywords : List String) :
    (∀ s t, IsLeast {n | Text.Edits n s.toList t.toList} (Text.editDistance s t)) ∧
    ∀ hint, keyword unknown keywords = some hint ↔ 3 ≤ unknown.utf8ByteSize ∧ unknown ∉ keywords ∧
      ∃ before word after, keywords = before ++ word :: after ∧ IsNearest unknown before word after ∧
        wordDistance unknown word ≤ 2 ∧ wordDistance unknown word < word.utf8ByteSize ∧
        hint = "Did you mean '" ++ word ++ "'?" := by
  refine ⟨Text.isLeast_editDistance, fun hint => ?_⟩
  rw [keyword]
  by_cases refused : unknown.utf8ByteSize < 3 || keywords.contains unknown
  · rw [if_pos refused]
    simp only [Bool.or_eq_true, decide_eq_true_eq, contains_iff_mem] at refused
    grind
  · rw [if_neg refused]
    simp only [Bool.or_eq_true, decide_eq_true_eq, contains_iff_mem, not_or, Nat.not_lt] at refused
    cases found : nearest unknown keywords with
    | none =>
      rw [nearest_eq_none_iff.mp found]
      simp
    | some best =>
      rcases isNearest_of_nearest found with ⟨same, nearer⟩
      change (if (decide (best.1 ≤ 2) && decide (best.1 < best.2.utf8ByteSize)) = true then _ else _) = _ ↔ _
      rw [same]
      constructor
      · intro given
        split at given
        next close =>
          rcases nearer with ⟨before, after, split, is⟩
          rw [Bool.and_eq_true, decide_eq_true_eq, decide_eq_true_eq] at close
          exact ⟨refused.1, refused.2, before, best.2, after, split, is, close.1, close.2, (Option.some.inj given).symm⟩
        next => cases given
      · rintro ⟨_, _, before, word, after, rfl, is, near, shorter, rfl⟩
        cases is.nearest_eq.symm.trans found
        exact if_pos (by simp [near, shorter])

end Suggestion
end Whiteboard
