import Whiteboard.Proofs.Token.Shape

namespace Whiteboard

open List Text Lexeme
namespace Token

/-!
# How far a lexeme reaches

What is read at a position covers at least one character and stays in its line.  If the line goes on
after it, its last character is no white space, so white space before the next token is passed over
between the two.
-/

/-- Neither the end of a line nor the end of the input. -/
def Kind.IsWritten (kind : Kind) : Prop := kind ≠ .newline ∧ kind ≠ .endOfInput

/-- A lexeme of `n` characters where the line goes on with `rest`. -/
structure Extends (rest : List Char) (n : Nat) : Prop where
  nonempty : 0 < n
  inside : n ≤ rest.length
  ends : n < rest.length → ∀ c ∈ (rest.take n).getLast?, isBlank c = false

variable {front rest : List Char}

theorem Extends.of_leads (leads : front <+: rest) (nonempty : front ≠ [])
    (visible : ∀ c ∈ front, isBlank c = false) : Extends rest front.length where
  nonempty := length_pos_iff.mpr nonempty
  inside := leads.length_le
  ends := by
    intro _ c last
    rw [← prefix_iff_eq_take.mp leads] at last
    exact visible c (mem_of_getLast? last)

theorem Extends.of_last {last : Char} (leads : front ++ [last] <+: rest)
    (visible : isBlank last = false) : Extends rest (front.length + 1) where
  nonempty := Nat.succ_pos _
  inside := by simpa using leads.length_le
  ends := by
    intro _ c found
    have taken := prefix_iff_eq_take.mp leads
    rw [length_append, length_singleton] at taken
    rw [← taken, List.getLast?_concat] at found
    cases found
    exact visible

theorem Extends.whole (nonempty : rest ≠ []) : Extends rest rest.length where
  nonempty := length_pos_iff.mpr nonempty
  inside := Nat.le_refl _
  ends := fun shorter => absurd shorter (Nat.lt_irrefl _)

/-! ## Symbols and delimiters -/

theorem visible_delimiters : ∀ p ∈ delimiters, ∀ c ∈ p.1.toList, isBlank c = false := by
  have checked : (delimiters.all fun p => p.1.toList.all fun c => !isBlank c) = true := by
    decide
  simpa using checked

theorem visible_spellings : ∀ p ∈ Symbol.symbolicSpellings, ∀ c ∈ p.1.toList, isBlank c = false := by
  have checked : (Symbol.symbolicSpellings.all fun p => p.1.toList.all fun c => !isBlank c) = true := by
    decide
  simpa using checked

theorem isWritten_kindOf (s : Symbol) : (kindOf s).IsWritten := by
  unfold kindOf
  split <;> simp [Kind.IsWritten]

variable {lexeme : Lexeme}

theorem extends_of_longest {b : Brackets} (found : longest b rest = some lexeme) :
    Extends rest lexeme.length ∧ lexeme.kind.IsWritten := by
  rcases of_longest found with ⟨n, positive, inside, spelled⟩
  have reaches (visible : ∀ c ∈ (String.ofList (rest.take n)).toList, isBlank c = false) : Extends rest n := by
    refine ⟨positive, inside, fun _ c last => visible c ?_⟩
    rw [String.toList_ofList]
    exact mem_of_getLast? last
  rcases spelled with ⟨_, member, rfl⟩ | ⟨s, known, rfl⟩
  · exact ⟨reaches (visible_delimiters _ member), by simp [Kind.IsWritten]⟩
  · exact ⟨reaches (visible_spellings _ (mem_of_lookup known)), isWritten_kindOf s⟩

/-! ## Numbers, words and rule names -/

variable {c : Char}

theorem not_blank_of_isNameChar (part : isNameChar c = true) : isBlank c = false := by
  simp only [isNameChar, isNamePart, Bool.or_eq_true, beq_iff_eq] at part
  rcases part with ((((letter | digit) | rfl) | rfl) | rfl) | rfl
  · exact not_blank_of_isLetter letter
  · exact not_blank_of_isDigit digit
  all_goals decide

theorem not_blank_of_isNamePart (part : isNamePart c = true) : isBlank c = false :=
  not_blank_of_isNameChar (by simp [isNameChar, part])

theorem drop_length_takeWhile (p : Char → Bool) (cs : List Char) :
    cs.drop (cs.takeWhile p).length = cs.dropWhile p := by
  have split : cs.takeWhile p ++ cs.dropWhile p = cs := takeWhile_append_dropWhile
  calc
    _ = (cs.takeWhile p ++ cs.dropWhile p).drop (cs.takeWhile p).length := by rw [split]
    _ = cs.dropWhile p := drop_left

/-- What is taken from the front of a list goes on with what is at the front of the rest. -/
theorem takeWhile_append_leads {p : Char → Bool}
    (leads : front <+: rest.drop (rest.takeWhile p).length) : rest.takeWhile p ++ front <+: rest := by
  obtain ⟨after, same⟩ := leads
  rw [drop_length_takeWhile] at same
  exact ⟨after, by rw [append_assoc, same, takeWhile_append_dropWhile]⟩

theorem extends_number (cs : List Char) (digit : isDigit c = true) : Extends (c :: cs) (number (c :: cs)).length := by
  have nonempty : (c :: cs).takeWhile isDigit ≠ [] := by simp [takeWhile_cons_of_pos digit]
  have visible {ds : List Char} : ∀ d ∈ ds.takeWhile isDigit, isBlank d = false :=
    fun d member => not_blank_of_isDigit (all_eq_true.mp all_takeWhile d member)
  have leads {ds : List Char} : ds.takeWhile isDigit <+: ds := takeWhile_prefix _
  have whole : Extends (c :: cs) ((c :: cs).takeWhile isDigit ++ []).length := by
    rw [append_nil]
    exact .of_leads leads nonempty visible
  unfold number
  dsimp only
  split
  next tail after =>
    split
    next => exact whole
    next =>
      refine .of_leads (takeWhile_append_leads ?_) (append_ne_nil_of_left_ne_nil nonempty _) ?_
      · rw [after]
        exact (prefix_cons_inj _).mpr leads
      · intro d member
        simp only [mem_append, mem_cons] at member
        rcases member with first | rfl | later
        · exact visible d first
        · decide
        · exact visible d later
  next => exact whole

theorem decorations_lead (cs : List Char) : decorations cs <+: cs := by
  fun_induction decorations cs with
  | case1 cs ih | case2 cs ih | case4 cs _ ih => exact (prefix_cons_inj _).mpr ih
  | case3 | case5 => exact nil_prefix

/-- White space and the word `in` after a word. -/
theorem extends_spacedIn (leads : front <+: rest) (follows : spacedIn (rest.drop front.length) ≠ 0) :
    Extends rest (front.length + spacedIn (rest.drop front.length)) := by
  obtain ⟨after, rfl⟩ := leads
  rw [drop_left] at follows ⊢
  have word {blanks tail : List Char} (found : after = blanks ++ 'i' :: 'n' :: tail) :
      Extends (front ++ after) (front.length + (blanks.length + 2)) := by
    have shape : front ++ after = (front ++ blanks ++ ['i', 'n']) ++ tail := by simp [found]
    rw [shape]
    refine ⟨by omega, by simp, fun _ c last => ?_⟩
    rw [take_left' (by simp), List.getLast?_append] at last
    cases last
    decide
  have split (tail : List Char) (found : after.drop (after.takeWhile fun c => c == ' ' || c == '\t').length =
      'i' :: 'n' :: tail) :
      after = (after.takeWhile fun c => c == ' ' || c == '\t') ++ 'i' :: 'n' :: tail := by
    rw [← found, drop_length_takeWhile, takeWhile_append_dropWhile]
  unfold spacedIn at follows ⊢
  dsimp only at follows ⊢
  split at follows
  next => exact absurd rfl follows
  next tail found _ => grind
  next => exact absurd rfl follows

theorem extends_word (rules : ProseRules) (midLine : Bool) (cs : List Char) (letter : isLetter c = true) :
    Extends (c :: cs) (word rules midLine (c :: cs)).length ∧ (word rules midLine (c :: cs)).kind.IsWritten := by
  have nonempty : (c :: cs).takeWhile isNamePart ≠ [] := by
    simp [takeWhile_cons_of_pos (show isNamePart c = true by simp [isNamePart, letter])]
  have visible : ∀ d ∈ (c :: cs).takeWhile isNamePart, isBlank d = false :=
    fun d member => not_blank_of_isNamePart (all_eq_true.mp all_takeWhile d member)
  have leads : (c :: cs).takeWhile isNamePart <+: c :: cs := takeWhile_prefix _
  unfold word
  dsimp only
  split
  next notIn =>
    simp only [Bool.and_eq_true, bne_iff_ne] at notIn
    exact ⟨extends_spacedIn leads notIn.2, by simp [Kind.IsWritten]⟩
  next =>
    split
    next s _ => exact ⟨.of_leads leads nonempty visible, isWritten_kindOf s⟩
    next =>
      split
      next =>
        -- prose takes the rest of the line
        refine ⟨⟨by simp, Nat.le_refl _, fun shorter => ?_⟩, by simp [Kind.IsWritten]⟩
        exact absurd shorter (Nat.lt_irrefl _)
      next =>
        refine ⟨.of_leads (takeWhile_append_leads (decorations_lead _))
          (append_ne_nil_of_left_ne_nil nonempty _) ?_, by simp [Kind.IsWritten]⟩
        intro d member
        rcases mem_append.mp member with first | later
        · exact visible d first
        · exact not_blank_of_isNameChar (isNameChar_of_decorations later)

/-- A rule name ends with its closing bracket. -/
theorem extends_justification {cs : List Char}
    (found : justification cs = some lexeme) : Extends ('[' :: cs) lexeme.length := by
  unfold justification at found
  dsimp only at found
  split at found
  next => cases found
  next =>
    split at found
    next => cases found
    next d after dropped =>
      split at found
      next =>
        cases found
        have closes : d = ']' := by grind [List.head?_dropWhile_not, drop_length_takeWhile]
        have shape : '[' :: cs = ('[' :: cs.takeWhile (· != ']') ++ [d]) ++ after := by
          rw [append_assoc, singleton_append, ← dropped, drop_length_takeWhile, cons_append, takeWhile_append_dropWhile]
        rw [shape]
        refine ⟨Nat.succ_pos _, by simp, fun _ c last => ?_⟩
        rw [take_left' (by simp), List.getLast?_append] at last
        cases last
        rw [closes]
        decide
      next => cases found

namespace Reading

/-! ## What stands at a position -/

/-- Reading a lexeme adds no token yet. -/
def Unmoved (s s' : Scan) : Prop := s'.tokens = s.tokens ∧ s'.gap = s.gap ∧ s'.number = s.number

theorem extends_of_lexemeAt {r : Reading} {defines : Bool} {s s' : Scan} {pos : Nat}
    {cs : List Char} (found : r.lexemeAt defines s pos c cs = .ok (s', lexeme))
    (visible : isBlank c = false) :
    Unmoved s s' ∧ Extends (c :: cs) lexeme.length ∧ lexeme.kind.IsWritten := by
  have same : Unmoved s s := ⟨rfl, rfl, rfl⟩
  have leads : [c] <+: c :: cs := ⟨cs, rfl⟩
  have single : Extends (c :: cs) 1 := .of_leads leads (by simp) (by simpa using visible)
  rw [lexemeAt_eq_ok_iff] at found
  cases found with
  | closer | continuation => exact ⟨same, single, by simp [Kind.IsWritten]⟩
  | rule _ bracket named =>
    refine ⟨same, ?_, by simp [kind_of_justification named, Kind.IsWritten]⟩
    unfold Scan.justification at named
    split at named
    next => cases named
    next => exact bracket ▸ extends_justification named
  | number _ digit => exact ⟨same, extends_number cs digit, by simp [number, Kind.IsWritten]⟩
  | word _ opens => exact ⟨same, extends_word _ _ cs (letter_of_opensWord opens)⟩
  | sign _ _ _ _ _ sign =>
    cases sign with
    | sequence longest => exact ⟨⟨rfl, rfl, rfl⟩, (extends_of_longest longest).1, by simp [Kind.IsWritten]⟩
    | raised longest => exact ⟨same, (extends_of_longest longest).1, by simp [Kind.IsWritten]⟩
    | delimiter longest => exact ⟨⟨rfl, rfl, rfl⟩, extends_of_longest longest⟩
    | less longest | operator longest | other longest => exact ⟨same, extends_of_longest longest⟩

end Reading
end Token
end Whiteboard
