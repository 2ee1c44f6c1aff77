import Mathlib.Data.List.Forall2
import Whiteboard.Latex.Text

namespace Whiteboard
namespace Latex

open List

/-!
# Escaped text

Ten signs mean something else in text and are written as sequences, which hold some of these signs themselves.  No
sequence begins another one, and none begins with a sign that is written as it is, so escaped text falls into
sequences and plain signs in one way only, and can be read back.
-/

/-- The signs that are not written as they are, each with the sequence for it. -/
def sequences : List (Char × String) :=
  [('\\', "\\textbackslash\x7b\x7d"), ('~', "\\textasciitilde\x7b\x7d"), ('^', "\\textasciicircum\x7b\x7d"),
   ('&', "\\&"), ('%', "\\%"), ('$', "\\$"), ('#', "\\#"), ('_', "\\_"), ('\x7b', "\\\x7b"), ('\x7d', "\\\x7d")]

def isSpecial (c : Char) : Bool := sequences.any (c == ·.1)

/-- What is written for a sign of a text: its sequence, or the sign itself. -/
def Writes (c : Char) (piece : List Char) : Prop :=
  (c, String.ofList piece) ∈ sequences ∨ isSpecial c = false ∧ piece = [c]

/-- The sign at the beginning of escaped text, with the text after it. -/
def nextSign (cs : List Char) : Option (Char × List Char) :=
  ((sequences.map (·.1) ++ cs.take 1).find? fun c => (escapeChar c).isPrefixOf cs).map fun c =>
    (c, cs.drop (escapeChar c).length)

/-! ## One sign -/

theorem sequences_begin : (sequences.all fun p => p.2.toList.head? == some '\\') = true := by decide

theorem sequences_apart : (sequences.all fun p => sequences.all fun q =>
    !p.2.toList.isPrefixOf q.2.toList || p.1 == q.1) = true := by decide

theorem sequences_escape : (sequences.all fun p => escapeChar p.1 == p.2.toList) = true := by decide

theorem escapeChar_of_mem {p : Char × String} (member : p ∈ sequences) : escapeChar p.1 = p.2.toList :=
  eq_of_beq (all_eq_true.mp sequences_escape p member)

theorem exists_mem_of_isSpecial {c : Char} (special : isSpecial c = true) : ∃ p ∈ sequences, p.1 = c := by
  obtain ⟨p, member, same⟩ := any_eq_true.mp special
  exact ⟨p, member, (eq_of_beq same).symm⟩

theorem escapeChar_of_plain {c : Char} (plain : isSpecial c = false) : escapeChar c = [c] := by
  simp_all [isSpecial, sequences, escapeChar]

theorem writes_escapeChar (c : Char) : Writes c (escapeChar c) := by
  cases special : isSpecial c with
  | false => exact .inr ⟨special, escapeChar_of_plain special⟩
  | true =>
    obtain ⟨p, member, rfl⟩ := exists_mem_of_isSpecial special
    rw [Writes, escapeChar_of_mem member, String.ofList_toList]
    exact .inl member

theorem head_escapeChar (c : Char) : (escapeChar c).head? = some (if isSpecial c then '\\' else c) := by
  cases special : isSpecial c with
  | false => rw [escapeChar_of_plain special]; rfl
  | true =>
    obtain ⟨p, member, rfl⟩ := exists_mem_of_isSpecial special
    rw [escapeChar_of_mem member]
    exact eq_of_beq (all_eq_true.mp sequences_begin p member)

/-- What is written for one sign does not begin what is written for another. -/
theorem eq_of_begins {c d : Char} (begins : escapeChar c <+: escapeChar d) : c = d := by
  have heads := head_escapeChar d
  obtain ⟨after, same⟩ := begins
  rw [← same, head?_append, head_escapeChar, Option.some_or, Option.some.injEq] at heads
  cases left : isSpecial c <;> cases right : isSpecial d
  all_goals simp only [left, right, Bool.false_eq_true, if_true, if_false] at heads
  · exact heads
  · cases heads ▸ left
  · cases heads ▸ right
  · obtain ⟨p, first, rfl⟩ := exists_mem_of_isSpecial left
    obtain ⟨q, second, rfl⟩ := exists_mem_of_isSpecial right
    have known := all_eq_true.mp (all_eq_true.mp sequences_apart p first) q second
    rw [escapeChar_of_mem first, escapeChar_of_mem second] at same
    have begins := isPrefixOf_iff_prefix.mpr ⟨after, same⟩
    simpa [begins] using known

theorem nextSign_eq_some_iff {c : Char} {cs rest : List Char} :
    nextSign cs = some (c, rest) ↔ cs = escapeChar c ++ rest := by
  unfold nextSign
  rw [Option.map_eq_some_iff]
  constructor
  · rintro ⟨d, found, same⟩
    obtain ⟨after, rfl⟩ := isPrefixOf_iff_prefix.mp (find?_some found :)
    cases same
    rw [drop_left]
  · rintro rfl
    have begins : (escapeChar c).isPrefixOf (escapeChar c ++ rest) = true := by simp
    have candidate : c ∈ sequences.map (·.1) ++ (escapeChar c ++ rest).take 1 := by
      cases special : isSpecial c with
      | false => simp [escapeChar_of_plain special]
      | true =>
        obtain ⟨p, member, rfl⟩ := exists_mem_of_isSpecial special
        exact mem_append_left _ (mem_map_of_mem member)
    have some : (find? (fun d => (escapeChar d).isPrefixOf (escapeChar c ++ rest)) _).isSome = true :=
      find?_isSome.mpr ⟨c, candidate, begins⟩
    obtain ⟨d, found⟩ := Option.isSome_iff_exists.mp some
    have same : d = c := by
      have leads := isPrefixOf_iff_prefix.mp (find?_some found :)
      rcases prefix_or_prefix_of_prefix leads (prefix_append _ rest) with inner | inner
      · exact eq_of_begins inner
      · exact (eq_of_begins inner).symm
    exact ⟨d, found, by rw [same, drop_left]⟩

/-! ## Texts -/

/-- Reads escaped text back. -/
def unescape (cs : List Char) : Option (List Char) :=
  if cs = [] then some []
  else
    match _ : nextSign cs with
    | none => none
    | some (c, rest) => (unescape rest).map (c :: ·)
termination_by cs.length
decreasing_by
  have nonempty := length_pos_of_mem (mem_of_mem_head? (head_escapeChar c))
  rw [nextSign_eq_some_iff.mp ‹nextSign cs = some (c, rest)›, length_append]
  omega

theorem unescape_eq_some_iff {s cs : List Char} : unescape cs = some s ↔ cs = s.flatMap escapeChar := by
  constructor
  · intro read
    fun_induction unescape cs generalizing s with
    | case1 =>
      cases read
      rfl
    | case2 => cases read
    | case3 cs _ c rest found ih =>
      obtain ⟨tail, readRest, rfl⟩ := Option.map_eq_some_iff.mp read
      rw [nextSign_eq_some_iff.mp found, flatMap_cons, ← ih readRest]
  · rintro rfl
    induction s with
    | nil => simp [unescape]
    | cons c rest ih =>
      have found : nextSign ((c :: rest).flatMap escapeChar) = some (c, rest.flatMap escapeChar) :=
        nextSign_eq_some_iff.mpr flatMap_cons
      have nonempty : (c :: rest).flatMap escapeChar ≠ [] := by
        intro empty
        rw [empty] at found
        cases found
      rw [unescape, if_neg nonempty]
      split
      next none => cases none.symm.trans found
      next d after found' =>
        cases found'.symm.trans found
        simp [ih]

/-- Escaping is safe and loses nothing.  Escaped text is put together from one piece for each sign, one of the ten
sequences or a sign that is not special; parts of a text are escaped one by one; and what is read back from a text is
the one text whose escape it is. -/
theorem escapeText_safe_and_faithful (s t : String) :
    (∃ pieces, Forall₂ Writes s.toList pieces ∧ (escapeText s).toList = pieces.flatten) ∧
    escapeText (s ++ t) = escapeText s ++ escapeText t ∧
    (escapeText s = escapeText t → s = t) ∧
    (unescape t.toList = some s.toList ↔ t = escapeText s) := by
  refine ⟨⟨s.toList.map escapeChar, ?_, ?_⟩, ?_, ?_, ?_⟩
  · exact forall₂_map_right_iff.mpr (forall₂_same.mpr fun c _ => writes_escapeChar c)
  · rw [escapeText, String.toList_ofList, flatMap_def]
  · simp [escapeText, String.toList_append]
  · intro same
    have read := unescape_eq_some_iff.mpr (String.ofList_injective same)
    rw [unescape_eq_some_iff.mpr rfl] at read
    exact String.toList_injective (Option.some.inj read)
  · rw [unescape_eq_some_iff, escapeText, ← String.toList_inj, String.toList_ofList]

end Latex
end Whiteboard
