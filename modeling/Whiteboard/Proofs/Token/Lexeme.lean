import Whiteboard.Proofs.Text.Class
import Whiteboard.Token.Stream

namespace Whiteboard

open Text Lexeme
namespace Token

/-!
# What stands at a position

What is read at a position of a line is a sign of a table, a number, a word, a rule name or a mark that was looked for
before.  `LexemeAt` has one rule for each way of reading; what the reader finds is proved of the rules.
-/

theorem mem_of_lookup {α : Type} {table : List (String × α)} {key : String} {value : α}
    (found : table.lookup key = some value) : (key, value) ∈ table := by
  rw [List.lookup_eq_some_iff] at found
  obtain ⟨before, after, split, _⟩ := found
  rw [split]
  simp

theorem kindOf_ne_text (s : Symbol) : kindOf s ≠ .text := by
  unfold kindOf
  split <;> simp

theorem kindOf_ne_delimiter (s : Symbol) : kindOf s ≠ .delimiter := by
  unfold kindOf
  split <;> simp

variable {b : Brackets} {rest : List Char}

/-- A sign is spelled by a table. -/
theorem of_longest {lexeme : Lexeme} (found : longest b rest = some lexeme) : ∃ n, 0 < n ∧ n ≤ rest.length ∧
      ((∃ value, (String.ofList (rest.take n), value) ∈ delimiters ∧ lexeme = ⟨.delimiter, value, n⟩) ∨
        ∃ s, Symbol.ofSpelling (String.ofList (rest.take n)) = some s ∧ lexeme = ⟨kindOf s, s.name, n⟩) := by
  rcases List.exists_of_findSome?_eq_some found with ⟨n, member, spelled⟩
  simp only [List.mem_cons, List.not_mem_nil, or_false] at member
  unfold spelledBy at spelled
  dsimp only at spelled
  split at spelled
  next => cases spelled
  next long =>
    rw [List.length_take] at long
    refine ⟨n, by omega, by omega, ?_⟩
    split at spelled
    next value known =>
      cases spelled
      exact .inl ⟨value, mem_of_lookup (Option.filter_eq_some_iff.mp known).1, rfl⟩
    next =>
      rcases Option.map_eq_some_iff.mp spelled with ⟨s, known, rfl⟩
      exact .inr ⟨s, known, rfl⟩

theorem spelledBy_eq_none {n : Nat} (delimiter : ∀ value, (String.ofList (rest.take n), value) ∈ delimiters →
      b.allows (String.ofList (rest.take n)) = false)
    (sign : ∀ s, Symbol.ofSpelling (String.ofList (rest.take n)) ≠ some s) : spelledBy b rest n = none := by
  unfold spelledBy
  dsimp only
  split
  next => rfl
  next =>
    have noDelimiter : (delimiters.lookup (String.ofList (rest.take n))).filter
        (fun _ => b.allows (String.ofList (rest.take n))) = none :=
      Option.filter_eq_none_iff.mpr fun value found => by simp [delimiter value (mem_of_lookup found)]
    rw [noDelimiter, Option.eq_none_iff_forall_ne_some.mpr sign]
    rfl

theorem longest_ne_text {lexeme : Lexeme} (found : longest b rest = some lexeme) : lexeme.kind ≠ .text := by
  rcases of_longest found with ⟨n, _, _, ⟨_, _, rfl⟩ | ⟨s, _, rfl⟩⟩
  · simp
  · exact kindOf_ne_text s

namespace Reading

variable {r : Reading} {defines : Bool} {s s₁ : Scan} {pos : Nat} {c : Char} {cs : List Char} {lexeme : Lexeme}

/-- Does a word begin here?  A letter of another script may be a sign. -/
def opensWord (b : Brackets) (c : Char) (cs : List Char) : Bool :=
  isLetter c && (decide (c.toNat < 0x7F) || (longest b (c :: cs)).isNone)

/-- A sign, and what it does to the state.  `<` may open a sequence, `^` may raise what follows it. -/
inductive SignAt (defines : Bool) (s : Scan) (pos : Nat) (c : Char) (cs : List Char) : Scan → Lexeme → Prop
  | sequence {lexeme : Lexeme} {offset : Nat} : longest s.brackets (c :: cs) = some lexeme →
      lexeme.kind = .operator → lexeme.value = "lt" →
      sequenceCloser s.brackets s.isTight defines cs = some offset →
      SignAt defines s pos c cs { s with closers := (pos + offset) :: s.closers } ⟨.delimiter, "⟨", lexeme.length⟩
  | less {lexeme : Lexeme} : longest s.brackets (c :: cs) = some lexeme →
      lexeme.kind = .operator → lexeme.value = "lt" →
      sequenceCloser s.brackets s.isTight defines cs = none → SignAt defines s pos c cs s lexeme
  | raised {lexeme : Lexeme} : longest s.brackets (c :: cs) = some lexeme →
      lexeme.kind = .operator → lexeme.value = "cat" → c = '^' → s.isTight = true →
      SignAt defines s pos c cs s ⟨.operator, "sup", lexeme.length⟩
  | operator {lexeme : Lexeme} : longest s.brackets (c :: cs) = some lexeme →
      lexeme.kind = .operator → lexeme.value ≠ "lt" → (lexeme.value == "cat" && c == '^' && s.isTight) = false →
      SignAt defines s pos c cs s lexeme
  | delimiter {lexeme : Lexeme} : longest s.brackets (c :: cs) = some lexeme → lexeme.kind = .delimiter →
      SignAt defines s pos c cs { s with brackets := s.brackets.track lexeme.value } lexeme
  | other {lexeme : Lexeme} : longest s.brackets (c :: cs) = some lexeme →
      lexeme.kind ≠ .operator → lexeme.kind ≠ .delimiter → SignAt defines s pos c cs s lexeme

theorem symbolAt_eq_ok_iff :
    r.symbolAt defines s pos c cs = .ok (s₁, lexeme) ↔ SignAt defines s pos c cs s₁ lexeme := by
  constructor
  · intro found
    unfold symbolAt at found
    split at found
    next => cases found
    next sign longest =>
      split at found
      next operator =>
        have operator := eq_of_beq operator
        split at found
        next less =>
          split at found
          next closer =>
            cases found
            exact .sequence longest operator (eq_of_beq less) closer
          next closer =>
            cases found
            exact .less longest operator (eq_of_beq less) closer
        next different =>
          split at found
          next raised =>
            simp only [Bool.and_eq_true, beq_iff_eq] at raised
            cases found
            exact .raised longest operator raised.1.1 raised.1.2 raised.2
          next plain =>
            cases found
            exact .operator longest operator (by simpa using different) (by simpa using plain)
      next noOperator =>
        have noOperator : sign.kind ≠ .operator := by simpa using noOperator
        split at found
        next delimiter =>
          cases found
          exact .delimiter longest (eq_of_beq delimiter)
        next noDelimiter =>
          cases found
          exact .other longest noOperator (by simpa using noDelimiter)
  · intro sign
    unfold symbolAt
    cases sign with
    | sequence longest operator less closer => simp [longest, operator, less, closer]
    | less longest operator less closer => simp [longest, operator, less, closer]
    | raised longest operator cat caret tight =>
      rw [longest]
      simp [operator, cat, caret, tight]
    | operator longest operator different plain =>
      rw [longest]
      simp [operator, different, plain]
    | delimiter longest delimiter => simp [longest, delimiter]
    | other longest noOperator noDelimiter => simp [longest, noOperator, noDelimiter]

/-- The ways in which what stands at a position is read. -/
inductive LexemeAt (r : Reading) (defines : Bool) (s : Scan) (pos : Nat) (c : Char) (cs : List Char) :
    Scan → Lexeme → Prop
  | closer : s.closers.contains pos = true → LexemeAt r defines s pos c cs s ⟨.delimiter, "⟩", 1⟩
  | continuation : s.closers.contains pos = false → c = '\\' → restIsBlank cs = true →
      LexemeAt r defines s pos c cs s ⟨.delimiter, "\\", 1⟩
  | rule {lexeme : Lexeme} : s.closers.contains pos = false → c = '[' → s.justification cs = some lexeme →
      LexemeAt r defines s pos c cs s lexeme
  | number : s.closers.contains pos = false → isDigit c = true → LexemeAt r defines s pos c cs s (number (c :: cs))
  | word : s.closers.contains pos = false → opensWord s.brackets c cs = true →
      LexemeAt r defines s pos c cs s (word r.rules (!s.tokens.isEmpty) (c :: cs))
  | sign {s₁ : Scan} {lexeme : Lexeme} : s.closers.contains pos = false →
      (c = '\\' → restIsBlank cs = false) → (c = '[' → s.justification cs = none) →
      isDigit c = false → opensWord s.brackets c cs = false → SignAt defines s pos c cs s₁ lexeme →
      LexemeAt r defines s pos c cs s₁ lexeme

theorem lexemeAt_eq_ok_iff :
    r.lexemeAt defines s pos c cs = .ok (s₁, lexeme) ↔ LexemeAt r defines s pos c cs s₁ lexeme := by
  constructor
  · intro found
    unfold lexemeAt at found
    split at found
    next closes =>
      cases found
      exact .closer closes
    next open_ =>
      have open_ : s.closers.contains pos = false := by simpa using open_
      split at found
      next continued =>
        cases found
        rw [Bool.and_eq_true] at continued
        exact .continuation open_ (eq_of_beq continued.1) continued.2
      next ended =>
        have ended : c = '\\' → restIsBlank cs = false := by simpa using ended
        split at found
        next named =>
          cases found
          split at named
          next bracket => exact .rule open_ (eq_of_beq bracket) named
          next => cases named
        next unnamed =>
          have unnamed : c = '[' → s.justification cs = none := by simpa using unnamed
          split at found
          next digit =>
            cases found
            exact .number open_ digit
          next noDigit =>
            have noDigit : isDigit c = false := by simpa using noDigit
            split at found
            next opens =>
              cases found
              exact .word open_ opens
            next noWord =>
              have noWord : opensWord s.brackets c cs = false := Bool.eq_false_iff.mpr noWord
              exact .sign open_ ended unnamed noDigit noWord (symbolAt_eq_ok_iff.mp found)
  · intro read
    unfold lexemeAt
    cases read with
    | closer closes => rw [if_pos closes]
    | continuation open_ backslash blank =>
      rw [if_neg (by simpa using open_), if_pos (by simp [backslash, blank])]
    | rule open_ bracket named => grind
    | number open_ digit =>
      have noBackslash : c ≠ '\\' := by
        rintro rfl
        revert digit
        decide
      have noBracket : c ≠ '[' := by
        rintro rfl
        revert digit
        decide
      rw [if_neg (by simpa using open_), if_neg (by simp [noBackslash]), if_neg (by simpa using noBracket)]
      simp only [digit, if_true]
    | word open_ opens =>
      have letter : isLetter c = true := (Bool.and_eq_true_iff.mp opens).1
      have noBackslash : c ≠ '\\' := by
        rintro rfl
        revert letter
        decide
      have noBracket : c ≠ '[' := by
        rintro rfl
        revert letter
        decide
      rw [if_neg (by simpa using open_), if_neg (by simp [noBackslash]), if_neg (by simpa using noBracket)]
      rw [opensWord] at opens
      dsimp only
      rw [if_neg (by simp [not_digit_of_isLetter letter]), if_pos opens]
    | sign open_ ended unnamed noDigit noWord sign =>
      have unnamed : (if c == '[' then s.justification cs else none) = none := by grind
      rw [if_neg (by simpa using open_), if_neg (by simpa using ended), unnamed]
      rw [opensWord] at noWord
      dsimp only
      rw [if_neg (by simp [noDigit]), if_neg (Bool.eq_false_iff.mp noWord), symbolAt_eq_ok_iff]
      exact sign

/-- Only a sign can fail to be read. -/
theorem lexemeAt_eq_error {fault : Fault} (failed : r.lexemeAt defines s pos c cs = .error fault) :
    fault = ⟨.lex (.unexpectedCharacter c), ⟨r.file, s.number, pos + 1⟩⟩ := by
  unfold lexemeAt symbolAt at failed
  repeat' split at failed
  all_goals cases failed <;> rfl

theorem kind_of_justification (named : s.justification cs = some lexeme) : lexeme.kind = .justification := by
  unfold Scan.justification justification at named
  grind

theorem letter_of_opensWord (opens : opensWord b c cs = true) : isLetter c = true :=
  (Bool.and_eq_true_iff.mp opens).1

/-- There is one way to read what stands at a position. -/
theorem LexemeAt.unique {s₂ : Scan} {other : Lexeme} (found : LexemeAt r defines s pos c cs s₁ lexeme)
    (read : LexemeAt r defines s pos c cs s₂ other) : s₁ = s₂ ∧ lexeme = other := by
  have same := (lexemeAt_eq_ok_iff.mpr found).symm.trans (lexemeAt_eq_ok_iff.mpr read)
  cases same
  exact ⟨rfl, rfl⟩

theorem SignAt.kind_ne_text (sign : SignAt defines s pos c cs s₁ lexeme) : lexeme.kind ≠ .text := by
  cases sign with
  | sequence | raised => simp
  | less longest | operator longest | delimiter longest | other longest => exact longest_ne_text longest

/-- Prose is a word. -/
theorem LexemeAt.prose (found : LexemeAt r defines s pos c cs s₁ lexeme) (text : lexeme.kind = .text) :
    lexeme = Lexeme.word r.rules (!s.tokens.isEmpty) (c :: cs) := by
  cases found with
  | closer | continuation | number => cases text
  | rule _ _ named => cases (kind_of_justification named).symm.trans text
  | word => rfl
  | sign _ _ _ _ _ sign => exact absurd text sign.kind_ne_text

end Reading
end Token
end Whiteboard
