import Mathlib.Data.List.Basic
import Whiteboard.Proofs.Token.Tail

namespace Whiteboard

open List Text Lexeme
namespace Token

/-!
# The search for the bracket that closes a sequence

A `<` opens a sequence if a `>` is found that closes it.  The search goes by the brackets that are open at the `<`,
not by those that are open where it has come to.  This makes no difference, since what is one sign for the one and
two signs for the other has no `<` or `>` in it.
-/

/-! ## Signs of several characters -/

/-- The first two characters of the signs of more than one. -/
def doubles : List (Char × Char) :=
  (delimiters.map (·.1) ++ Symbol.symbolicSpellings.map (·.1)).filterMap fun spelling =>
    match spelling.toList with
    | c :: d :: _ => some (c, d)
    | _ => none

/-- The number of characters of the sign at the front; zero if there is none. -/
def width (b : Brackets) (rest : List Char) : Nat := ((longest b rest).map (·.length)).getD 0

variable {c : Char}

theorem mem_doubles {spelling : String} {d : Char} {more : List Char} (spelled : spelling.toList = c :: d :: more)
    (listed : (∃ value, (spelling, value) ∈ delimiters) ∨
      ∃ s, (spelling, s) ∈ Symbol.symbolicSpellings) : (c, d) ∈ doubles := by
  rw [doubles, mem_filterMap]
  refine ⟨spelling, ?_, by rw [spelled]⟩
  rw [mem_append]
  rcases listed with ⟨value, member⟩ | ⟨s, member⟩
  · exact .inl (mem_map_of_mem (f := (·.1)) member)
  · exact .inr (mem_map_of_mem (f := (·.1)) member)

variable {b : Brackets} {cs : List Char}

/-- A sign of several characters begins with two that are listed. -/
theorem mem_doubles_of_width (wide : 1 < width b (c :: cs)) : ∃ d more, cs = d :: more ∧ (c, d) ∈ doubles := by
  unfold width at wide
  cases found : longest b (c :: cs) with
  | none => simp [found] at wide
  | some lexeme =>
    have wide : 1 < lexeme.length := by simpa [found] using wide
    rcases of_longest found with ⟨n, _, inside, spelled⟩
    have length : lexeme.length = n := by
      rcases spelled with ⟨_, _, rfl⟩ | ⟨_, _, rfl⟩ <;> rfl
    obtain ⟨k, rfl⟩ : ∃ k, n = k + 2 := ⟨n - 2, by omega⟩
    cases cs with
    | nil => simp at inside
    | cons d more =>
      refine ⟨d, more, rfl, mem_doubles (String.toList_ofList (l := c :: d :: more.take k)) ?_⟩
      rcases spelled with ⟨value, listed, _⟩ | ⟨s, known, _⟩
      · exact .inl ⟨value, listed⟩
      · exact .inr ⟨s, mem_of_lookup known⟩

theorem width_le_length (b : Brackets) (rest : List Char) : width b rest ≤ rest.length := by
  unfold width
  cases found : longest b rest with
  | none => simp
  | some lexeme => exact (extends_of_longest found).1.inside

/-! ## Brackets make no difference -/

/-- The two brackets that are one sign or two, by what is open. -/
def splits : List (Char × Char) := [(']', ']'), ('|', ')')]

theorem splits_spelled : (∀ p ∈ delimiters, ∀ q ∈ splits, p.1.toList.take 2 = [q.1, q.2] → p.1.toList.length = 2) ∧
    ∀ p ∈ Symbol.symbolicSpellings, ∀ q ∈ splits, p.1.toList.take 2 ≠ [q.1, q.2] := by
  decide

theorem splits_second : ∀ q ∈ splits, q.1 ≠ '<' ∧ q.1 ≠ '>' ∧ q.2 ≠ '<' ∧ q.2 ≠ '>' ∧
    ∀ p ∈ doubles, p.1 = q.2 → p = (']', ']') := by
  decide

theorem allows_of_ne {spelling : String} (bag : spelling ≠ "]]") (image : spelling ≠ "|)") :
    b.allows spelling = true := by
  simp [Brackets.allows, bag, image]

/-- What is open makes no difference to the sign at the front, unless it is one of the two brackets. -/
theorem longest_brackets (other : ∀ d ∈ cs.head?, (c, d) ∉ splits) (b b' : Brackets) :
    longest b (c :: cs) = longest b' (c :: cs) := by
  have each (n : Nat) : spelledBy b (c :: cs) n = spelledBy b' (c :: cs) n := by
    have different {d : Char} (pair : (c, d) ∈ splits) : (c :: cs).take n ≠ [c, d] := by
      intro same
      cases cs with
      | nil => cases n <;> simp at same
      | cons e more =>
        have second : e = d := by
          rcases n with _ | _ | n <;> simp at same
          exact same.1
        exact other e rfl (second ▸ pair)
    have allowed (b : Brackets) : b.allows (String.ofList ((c :: cs).take n)) = true := by
      apply allows_of_ne
      · intro same
        have chars : (c :: cs).take n = [']', ']'] := by simpa using congrArg String.toList same
        have first : c = ']' := by
          cases n <;> simp at chars
          exact chars.1
        subst first
        exact different (d := ']') (by decide) chars
      · intro same
        have chars : (c :: cs).take n = ['|', ')'] := by simpa using congrArg String.toList same
        have first : c = '|' := by
          cases n <;> simp at chars
          exact chars.1
        subst first
        exact different (d := ')') (by decide) chars
    unfold spelledBy
    simp only [allowed]
  rw [longest, longest, funext each]

theorem longest_of_splits {d : Char} (pair : (c, d) ∈ splits) (b : Brackets) (more : List Char) :
    longest b (c :: d :: more) = longest b [c, d] := by
  change longest b ([c, d] ++ more) = _
  refine longest_append fun n beyond => ?_
  have two : 2 < n := beyond
  have leads : (([c, d] ++ more).take n).take 2 = [c, d] := by
    rw [take_take, Nat.min_eq_left (by omega)]
    rfl
  by_cases short : (([c, d] ++ more).take n).length < n
  · rw [spelledBy, if_pos short]
  · apply spelledBy_eq_none
    · intro value known
      have length := splits_spelled.1 _ known _ pair (by rw [String.toList_ofList]; exact leads)
      rw [String.toList_ofList] at length
      omega
    · intro s known
      exact splits_spelled.2 _ (mem_of_lookup known) _ pair (by rw [String.toList_ofList]; exact leads)

theorem width_of_splits {d : Char} (pair : (c, d) ∈ splits) (b : Brackets) (more : List Char) :
    width b (c :: d :: more) = width b [c, d] := by
  rw [width, longest_of_splits pair, width]

theorem closerOffset_cons (b : Brackets) (before : Char) (depth offset : Nat) (c : Char) (cs : List Char) :
    closerOffset b before depth offset 0 (c :: cs) =
      if 1 < width b (c :: cs) then closerOffset b c depth (offset + 1) (width b (c :: cs) - 1) cs
      else if c == '<' then
        match cs with
        | [] => none
        | d :: _ =>
          if d == '>' then closerOffset b c depth (offset + 1) 1 cs
          else if isBlank d then none
          else closerOffset b c (depth + 1) (offset + 1) 0 cs
      else if c == '>' then
        if isBlank before then none
        else if depth ≤ 1 then some offset
        else closerOffset b c (depth - 1) (offset + 1) 0 cs
      else closerOffset b c depth (offset + 1) 0 cs := by
  rw [closerOffset.eq_def]
  rfl

/-- A character that is no bracket of a sequence is passed over. -/
theorem closerOffset_pass (narrow : width b (c :: cs) ≤ 1)
    (noOpening : c ≠ '<') (noClosing : c ≠ '>') (before : Char) (depth offset : Nat) :
    closerOffset b before depth offset 0 (c :: cs) = closerOffset b c depth (offset + 1) 0 cs := by
  rw [closerOffset_cons, if_neg (by omega), if_neg (by simpa using noOpening), if_neg (by simpa using noClosing)]

/-- The two brackets are passed over, be they one sign or two. -/
theorem closerOffset_splits {d : Char} (pair : (c, d) ∈ splits) (b : Brackets) (before : Char) (depth offset : Nat)
    (more : List Char) : closerOffset b before depth offset 0 (c :: d :: more) =
      closerOffset b d depth (offset + 2) 0 more := by
  obtain ⟨noOpening, noClosing, noOpening', noClosing', followed⟩ := splits_second _ pair
  by_cases wide : 1 < width b (c :: d :: more)
  · have two : width b (c :: d :: more) = 2 := by
      have bounded := width_le_length b [c, d]
      rw [width_of_splits pair] at wide ⊢
      exact Nat.le_antisymm bounded wide
    rw [closerOffset_cons, if_pos wide, two]
    rfl
  · have narrow : width b (d :: more) ≤ 1 := by
      by_contra wide'
      rcases mem_doubles_of_width (Nat.lt_of_not_le wide') with ⟨e, rest, rfl, listed⟩
      cases followed _ listed rfl
      have first : c = ']' := by
        simp only [splits, mem_cons, Prod.mk.injEq, not_mem_nil, or_false] at pair
        rcases pair with ⟨same, _⟩ | ⟨_, same⟩
        · exact same
        · cases same
      subst first
      rw [width_of_splits pair] at wide wide'
      omega
    rw [closerOffset_pass (Nat.le_of_not_lt wide) noOpening noClosing, closerOffset_pass narrow noOpening' noClosing']

/-- The search does not depend on what is open. -/
theorem closerOffset_brackets (b b' : Brackets) (before : Char) (depth offset skip : Nat) (cs : List Char) :
    closerOffset b before depth offset skip cs = closerOffset b' before depth offset skip cs := by
  induction left : cs.length using Nat.strongRecOn generalizing before depth offset skip cs with
  | _ _ ih =>
    subst left
    cases cs with
    | nil => cases skip <;> rfl
    | cons c cs =>
      have onward (before : Char) (depth offset skip : Nat) :=
        ih cs.length (Nat.lt_succ_self _) before depth offset skip cs rfl
      cases skip with
      | succ skip =>
        rw [closerOffset, closerOffset]
        exact onward ..
      | zero =>
        by_cases pair : ∀ d ∈ cs.head?, (c, d) ∉ splits
        · have same : width b (c :: cs) = width b' (c :: cs) := by rw [width, width, longest_brackets pair b b']
          rw [closerOffset_cons, closerOffset_cons, same]
          simp only [onward]
        · cases cs with
          | nil => simp at pair
          | cons d more => grind [closerOffset_splits, length_cons]

/-- What opens a sequence does so whatever is open. -/
theorem sequenceCloser_brackets (b b' : Brackets) (tight defines : Bool) (cs : List Char) :
    sequenceCloser b tight defines cs = sequenceCloser b' tight defines cs := by
  unfold sequenceCloser
  simp only [closerOffset_brackets b b']

/-- The search ends at a `>`. -/
theorem closerOffset_points {before : Char} {depth offset skip k : Nat}
    (found : closerOffset b before depth offset skip cs = some k) : offset ≤ k ∧ cs[k - offset]? = some '>' := by
  fun_induction closerOffset b before depth offset skip cs with
  | case9 before depth offset c cs _ _ _ closing =>
    cases found
    exact ⟨Nat.le_refl _, by simpa using closing⟩
  | _ => grind

theorem sequenceCloser_points {tight defines : Bool} {k : Nat}
    (found : sequenceCloser b tight defines cs = some k) : ∃ i, k = i + 1 ∧ cs[i]? = some '>' := by
  unfold sequenceCloser at found
  split at found
  next => cases found
  next d rest =>
    split at found
    next closing =>
      cases found
      exact ⟨0, rfl, by simpa using closing⟩
    next =>
      split at found
      next => cases found
      next =>
        obtain ⟨behind, sign⟩ := closerOffset_points found
        exact ⟨k - 1, by omega, sign⟩

end Token
end Whiteboard
