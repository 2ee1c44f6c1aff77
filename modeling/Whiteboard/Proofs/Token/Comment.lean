import Whiteboard.Proofs.Token.Spaced
import Whiteboard.Proofs.Token.Tail

namespace Whiteboard

open List Text Lexeme
namespace Token

/-!
# Comments at the end of a line

A comment ends a line, and the tokens before it should not depend on it.  Four readers look at all that follows
them: prose takes in the whole line, a word may open prose in mid-line, `<` looks for the bracket that closes a
sequence, and `[` for the end of a rule name.  `looksInto` tells whether a token of a line is read otherwise because
of what these find in the comment.  All other tokens are read before a comment as at the end of the line.
-/

theorem ne_of_blank {b c : Char} (blank : isBlank b = true) (visible : isBlank c = false) : b ≠ c := by
  rintro rfl
  rw [visible] at blank
  cases blank

/-- White space, and a comment behind it. -/
def IsComment (tail : List Char) : Prop :=
  ∃ blanks text, tail = blanks ++ '%' :: text ∧ blanks ≠ [] ∧ ∀ c ∈ blanks, isBlank c = true

namespace IsComment

variable {tail : List Char} (comment : IsComment tail)
include comment

theorem head_blank : ∃ c rest, tail = c :: rest ∧ isBlank c = true := by
  rcases comment with ⟨blanks, text, rfl, some, each⟩
  cases blanks with
  | nil => exact absurd rfl some
  | cons c blanks => exact ⟨c, blanks ++ '%' :: text, rfl, each c mem_cons_self⟩

theorem stops : Stops tail := by
  rcases comment with ⟨blanks, text, rfl, _, each⟩
  exact stops_of_blanks each (by decide) (by decide)

/-- No sign reaches into white space. -/
theorem longest_eq (b : Brackets) (front : List Char) : longest b (front ++ tail) = longest b front := by
  rcases comment.head_blank with ⟨c, rest, rfl, blank⟩
  exact longest_append fun n beyond => spelledBy_of_blank blank (by simp [take_append_cons beyond])

theorem dropWhile_isBlank : ∃ text, tail.dropWhile isBlank = '%' :: text := by
  rcases comment with ⟨blanks, text, rfl, _, each⟩
  refine ⟨text, ?_⟩
  rw [dropWhile_append_of_pos each]
  exact dropWhile_cons_of_neg (by decide)

/-- A comment is no content. -/
theorem restIsBlank_eq (cs : List Char) : restIsBlank (cs ++ tail) = restIsBlank cs := by
  rcases comment.dropWhile_isBlank with ⟨text, passed⟩
  unfold restIsBlank
  rw [dropBlanks, dropWhile_append, ← dropBlanks]
  cases content : dropBlanks cs with
  | nil => simp [passed]
  | cons d more => rfl

/-- A rule name before the comment is read without it. -/
theorem justification_eq {cs : List Char} {lexeme : Lexeme} (found : justification cs = some lexeme) :
    justification (cs ++ tail) = some lexeme := by
  unfold justification at found ⊢
  dsimp only at found ⊢
  split at found
  next => cases found
  next single =>
    split at found
    next => cases found
    next closing after stop =>
      have same := takeWhile_append_of_stop stop tail
      rw [same.1, if_neg single, same.2]
      dsimp only
      rw [comment.restIsBlank_eq]
      exact found

theorem label_eq (cs : List Char) : Reading.label (cs ++ tail) = Reading.label cs := by
  rcases comment.head_blank with ⟨b, rest, tailEq, blank⟩
  cases cs with
  | nil =>
    have other : b ≠ '[' := ne_of_blank blank (by decide)
    simp [tailEq, Reading.label, other]
  | cons c cs =>
    by_cases bracket : c = '['
    · subst bracket
      simp only [Reading.label, cons_append]
      rw [drop_takeWhile_append_tail comment.stops.not_digit, takeWhile_append_tail comment.stops.not_digit]
      cases cs.drop (cs.takeWhile isDigit).length with
      | cons d after => grind
      | nil =>
        have other : b ≠ ']' := ne_of_blank blank (by decide)
        simp [tailEq, other]
    · simp [Reading.label, bracket]

theorem partLabel_eq (cs : List Char) : Reading.partLabel (cs ++ tail) = Reading.partLabel cs := by
  rcases comment.head_blank with ⟨b, rest, tailEq, blank⟩
  have notLower : ∀ c ∈ tail.head?, isLower c = false := by grind [not_blank_of_isLower]
  cases cs with
  | nil =>
    have other : b ≠ '(' := ne_of_blank blank (by decide)
    simp [tailEq, Reading.partLabel, other]
  | cons c cs =>
    by_cases bracket : c = '('
    · subst bracket
      simp only [Reading.partLabel, cons_append]
      rw [drop_takeWhile_append_tail notLower, takeWhile_append_tail notLower]
      cases cs.drop (cs.takeWhile isLower).length with
      | nil =>
        have other : b ≠ ')' := ne_of_blank blank (by decide)
        simp [tailEq, other]
      | cons d after => grind
    · simp [Reading.partLabel, bracket]

end IsComment

/-! ## Where a comment is looked at -/

/-- The open brackets after tokens of a line, the last of which comes first. -/
def bracketsAfter : List Token → Brackets
  | [] => {}
  | t :: earlier => if t.kind == .delimiter then (bracketsAfter earlier).track t.value else bracketsAfter earlier

/-- The state of a line after some tokens, as far as the tokens tell. -/
def Scan.after (earlier : List Token) (gap : Bool) : Scan where
  number := 1
  tokens := earlier
  gap := gap
  brackets := bracketsAfter earlier

namespace Reading

/-- Would what was read as of this kind and value be read otherwise where the line goes on with `c :: cs`?  The
bracket that closes a sequence, the end of a rule name and the words of a sentence are looked for in all that
follows, and prose takes in all of it. -/
def reconsiders (r : Reading) (defines : Bool) (s : Scan) (kind : Kind) (value : String) (c : Char)
    (cs : List Char) : Bool :=
  match kind with
  | .text => true
  | .operator => value == "lt" && (sequenceCloser s.brackets s.isTight defines cs).isSome
  | .delimiter => value == "[" && (s.justification cs).isSome
  | .identifier =>
    opensWord s.brackets c cs && (word r.rules (!s.tokens.isEmpty) (c :: cs)).kind == .text
  | _ => false

/-- Is one of the tokens read otherwise on a line? -/
def looksInto (r : Reading) (line : List Char) : (earlier tokens : List Token) → Bool
  | _, [] => false
  | earlier, t :: rest =>
    (match line.drop (t.column - 1).toNat with
      | c :: cs =>
        r.reconsiders (occursIn "::=".toList line) (.after earlier t.spaceBefore) t.kind t.value c cs
      | [] => false) ||
    looksInto r line (t :: earlier) rest

/-! ## One token -/

variable {r : Reading} {defines defines' : Bool} {s s₁ s' : Scan} {pos : Nat} {c : Char} {cs tail : List Char}
  {lexeme : Lexeme}

theorem head_take {n : Nat} (positive : 0 < n) (c : Char) (cs : List Char) :
    (String.ofList ((c :: cs).take n)).toList.head? = some c := by
  obtain ⟨k, rfl⟩ : ∃ k, n = k + 1 := ⟨n - 1, by omega⟩
  rw [String.toList_ofList, take_succ_cons, List.head?_cons]

theorem less_spelled : ∀ p ∈ Symbol.symbolicSpellings, p.2.name = "lt" → p.1 = "<" := by
  decide

theorem less_no_word : ∀ p ∈ Symbol.wordSpellings, p.2.name ≠ "lt" := by
  decide

theorem bracket_spelled : ∀ p ∈ delimiters, p.2 = "[" ↔ p.1.toList = ['['] := by
  decide

theorem bracket_opens : (∀ p ∈ delimiters, p.1.toList.head? = some '[' → p.1.toList = ['['] ∨
    p.1.toList = ['[', '[']) ∧ ∀ p ∈ Symbol.symbolicSpellings, p.1.toList.head? ≠ some '[' := by
  decide

variable {b : Brackets}

theorem less_of_longest (found : longest b (c :: cs) = some lexeme)
    (operator : lexeme.kind = .operator) (less : lexeme.value = "lt") : c = '<' := by
  rcases of_longest found with ⟨n, positive, _, ⟨_, _, rfl⟩ | ⟨s, known, rfl⟩⟩
  · cases operator
  · have single : String.ofList ((c :: cs).take n) = "<" := less_spelled _ (mem_of_lookup known) less
    have head := head_take positive c cs
    rw [single] at head
    exact (Option.some.inj head).symm

theorem bracket_of_longest (found : longest b (c :: cs) = some lexeme)
    (delimiter : lexeme.kind = .delimiter) (bracket : lexeme.value = "[") : c = '[' := by
  rcases of_longest found with ⟨n, positive, _, ⟨_, spelled, rfl⟩ | ⟨s, _, rfl⟩⟩
  · have single := (bracket_spelled _ spelled).mp bracket
    have head := head_take positive c cs
    rw [single] at head
    exact (Option.some.inj head).symm
  · exact absurd delimiter (kindOf_ne_delimiter s)

/-- An opening square bracket is read as one, or a second one follows. -/
theorem longest_bracket (found : longest b ('[' :: cs) = some lexeme) :
    lexeme.kind = .delimiter ∧ (lexeme.value = "[" ∨ cs.head? = some '[') := by
  rcases of_longest found with ⟨n, positive, _, ⟨_, spelled, rfl⟩ | ⟨s, known, _⟩⟩
  · refine ⟨rfl, ?_⟩
    rcases bracket_opens.1 _ spelled (head_take positive '[' cs) with single | double
    · exact .inl ((bracket_spelled _ spelled).mpr single)
    · right
      rw [String.toList_ofList] at double
      obtain ⟨k, rfl⟩ : ∃ k, n = k + 1 := ⟨n - 1, by omega⟩
      rw [take_succ_cons, List.cons.injEq] at double
      cases cs with
      | nil => simp at double
      | cons d cs =>
        cases k with
        | zero => simp at double
        | succ k => grind
  · exact absurd (head_take positive '[' cs) (bracket_opens.2 _ (mem_of_lookup known))

variable {rules : ProseRules}

/-- A word that opens prose is nothing but a name without it. -/
theorem word_text {midLine : Bool} (prose : (word rules midLine cs).kind = .text) :
    (word rules midLine cs).value = String.ofList (trimBlanks cs) ∧
      ((String.ofList (cs.takeWhile isNamePart) == "not") &&
        spacedIn (cs.drop (cs.takeWhile isNamePart).length) != 0) = false ∧
      Symbol.ofWord (String.ofList (cs.takeWhile isNamePart)) = none := by
  unfold word at prose ⊢
  dsimp only at prose ⊢
  split at prose
  next => cases prose
  next notIn => grind [kindOf_ne_text]

theorem word_of_text (midLine : Bool) {midLine' : Bool} (stops : Stops tail)
    (prose : (word rules midLine' (cs ++ tail)).kind = .text) :
    (word rules midLine cs).kind = .text ∨ (word rules midLine cs).kind = .identifier := by
  rcases word_text prose with ⟨_, notIn, unknown⟩
  rw [drop_takeWhile_append_tail stops.not_namePart, takeWhile_append_tail stops.not_namePart,
    spacedIn_append stops] at notIn
  rw [takeWhile_append_tail stops.not_namePart] at unknown
  unfold word
  dsimp only
  rw [if_neg (Bool.eq_false_iff.mp notIn), unknown]
  dsimp only
  split
  next => exact .inl rfl
  next => exact .inr rfl

theorem word_ne_delimiter (rules : ProseRules) (midLine : Bool) (cs : List Char) :
    (word rules midLine cs).kind ≠ .delimiter := by
  unfold word
  dsimp only
  split
  next => simp
  next =>
    split
    next s _ => exact kindOf_ne_delimiter s
    next => split <;> simp

theorem word_ne_less {midLine : Bool}
    (operator : (word rules midLine cs).kind = .operator) : (word rules midLine cs).value ≠ "lt" := by
  unfold word at operator ⊢
  dsimp only at operator ⊢
  split
  next => simp
  next notIn =>
    rw [if_neg notIn] at operator
    split
    next s known => exact less_no_word _ (mem_of_lookup known)
    next unknown => grind

theorem opensWord_comment (comment : IsComment tail) (b : Brackets) :
    opensWord b c (cs ++ tail) = opensWord b c cs := by
  rw [opensWord, ← cons_append, comment.longest_eq, opensWord]

theorem opensWord_eq_false (other : isLetter c = false) : opensWord b c cs = false := by
  rw [opensWord, other, Bool.false_and]

theorem justification_comment (comment : IsComment tail) (found : s.justification cs = some lexeme) :
    s.justification (cs ++ tail) = some lexeme := by
  unfold Scan.justification at found ⊢
  split
  next idle =>
    rw [if_pos idle] at found
    cases found
  next ready =>
    rw [if_neg ready] at found
    exact comment.justification_eq found

/-- After a second bracket there is no rule name. -/
theorem justification_eq_none (twice : cs.head? = some '[') : s.justification cs = none := by
  unfold Scan.justification
  split
  next => rfl
  next =>
    cases cs with
    | nil => cases twice
    | cons d cs =>
      cases twice
      simp [justification]

section
variable (comment : IsComment tail)
include comment

/-- A bracket that does not look at the comment opens no rule name. -/
theorem rule_comment (open_ : s.closers.contains pos = false) (found : LexemeAt r defines s pos '[' cs s₁ lexeme)
    (unread : r.reconsiders defines' s lexeme.kind lexeme.value '[' (cs ++ tail) = false) :
    s.justification (cs ++ tail) = s.justification cs := by
  cases named : s.justification cs with
  | some rule => exact justification_comment comment named
  | none =>
    cases found with
    | closer closed =>
      rw [open_] at closed
      cases closed
    | continuation _ backslash => cases backslash
    | rule _ _ found =>
      rw [named] at found
      cases found
    | number _ digit => exact absurd digit (by decide)
    | word _ opens => exact absurd (letter_of_opensWord opens) (by decide)
    | sign _ _ _ _ _ sign =>
      have plain {sign : Lexeme} (longest : longest s.brackets ('[' :: cs) = some sign) :
          sign.kind = .delimiter := (longest_bracket longest).1
      cases sign with
      | sequence longest operator | less longest operator | raised longest operator | operator longest operator =>
        cases (plain longest).symm.trans operator
      | other longest _ noDelimiter => exact absurd (plain longest) noDelimiter
      | delimiter longest delimiter =>
        rcases (longest_bracket longest).2 with bracket | twice
        · simpa [reconsiders, delimiter, bracket] using unread
        · grind [justification_eq_none]

/-- A word that does not look at the comment is the same without it. -/
theorem word_comment (opens : opensWord s.brackets c cs = true)
    (unread : r.reconsiders defines' s (word r.rules (!s.tokens.isEmpty) (c :: cs)).kind
      (word r.rules (!s.tokens.isEmpty) (c :: cs)).value c (cs ++ tail) = false) :
    word r.rules (!s.tokens.isEmpty) (c :: (cs ++ tail)) = word r.rules (!s.tokens.isEmpty) (c :: cs) := by
  have plain : (word r.rules (!s.tokens.isEmpty) (c :: cs)).kind ≠ .text := by
    intro prose
    rw [prose] at unread
    cases unread
  refine word_append comment.stops plain ?_
  intro prose
  rcases word_of_text (!s.tokens.isEmpty) comment.stops prose with text | name
  · exact plain text
  · rw [name] at unread
    simp only [reconsiders, opensWord_comment comment, opens, Bool.true_and] at unread
    rw [← cons_append, prose] at unread
    cases unread

/-- A comparison that does not look at the comment opens no sequence. -/
theorem closer_comment (kept : defines = true → defines' = true) {sign : Lexeme}
    (open_ : s.closers.contains pos = false) (found : LexemeAt r defines s pos c cs s₁ lexeme)
    (longest : longest s.brackets (c :: cs) = some sign) (operator : sign.kind = .operator)
    (less : sign.value = "lt") (unread : r.reconsiders defines' s lexeme.kind lexeme.value c (cs ++ tail) = false) :
    sequenceCloser s.brackets s.isTight defines' (cs ++ tail) = sequenceCloser s.brackets s.isTight defines cs := by
  cases closer : sequenceCloser s.brackets s.isTight defines cs with
  | some offset => exact sequenceCloser_append (fun front _ _ => .inl (comment.longest_eq s.brackets front)) kept closer
  | none =>
    cases less_of_longest longest operator less
    have read : LexemeAt r defines s pos '<' cs s sign :=
      .sign open_ (by simp) (by simp) (by decide) (opensWord_eq_false (by decide)) (.less longest operator less closer)
    obtain ⟨_, rfl⟩ := found.unique read
    simpa [reconsiders, operator, less] using unread

/-- What does not look at a comment is read as without it. -/
theorem lexemeAt_comment (kept : defines = true → defines' = true)
    (found : r.lexemeAt defines s pos c cs = .ok (s₁, lexeme))
    (unread : r.reconsiders defines' s lexeme.kind lexeme.value c (cs ++ tail) = false) :
    r.lexemeAt defines' s pos c (cs ++ tail) = .ok (s₁, lexeme) := by
  rw [lexemeAt_eq_ok_iff] at found
  cases closed : s.closers.contains pos with
  | true =>
    obtain ⟨rfl, rfl⟩ := found.unique (.closer closed)
    exact lexemeAt_eq_ok_iff.mpr (.closer closed)
  | false =>
    have seen : SeenAlike r defines defines' s s c cs (cs ++ tail) :=
      { brackets := rfl
        tight := rfl
        blank := fun _ => comment.restIsBlank_eq cs
        rule := by
          rintro rfl
          exact rule_comment comment closed found unread
        number := fun _ => number_append comment.stops (c :: cs)
        symbol := comment.longest_eq s.brackets (c :: cs)
        word := by
          intro opens
          obtain ⟨_, rfl⟩ := found.unique (.word closed opens)
          exact word_comment comment opens unread
        closer := fun _ longest operator less =>
          closer_comment comment kept closed found longest operator less unread }
    exact lexemeAt_of_seenAlike id seen rfl (fun _ => rfl) (fun _ => rfl) (lexemeAt_eq_ok_iff.mpr found)

theorem percent_mem_trimBlanks (cs : List Char) : '%' ∈ trimBlanks (cs ++ tail) := by
  rcases comment with ⟨blanks, text, rfl, _, _⟩
  have among : '%' ∈ dropBlanks (cs ++ (blanks ++ '%' :: text)) := by
    rw [← append_assoc]
    generalize cs ++ blanks = front
    induction front with
    | nil =>
      rw [nil_append, dropBlanks, dropWhile_cons_of_neg (by decide)]
      exact mem_cons_self
    | cons d front ih =>
      rw [cons_append, dropBlanks, dropWhile_cons]
      split
      next => exact ih
      next => simp
  rw [trimBlanks]
  obtain ⟨gap, split, blank⟩ := dropTrailing_append isBlank (dropBlanks (cs ++ (blanks ++ '%' :: text)))
  rw [split] at among
  rcases mem_append.mp among with kept | dropped
  · exact kept
  · exact absurd (all_eq_true.mp blank '%' dropped) (by decide)

end

theorem mem_of_mem_trimBlanks {d : Char} {line : List Char} (member : d ∈ trimBlanks line) : d ∈ line := by
  obtain ⟨gap, split, _⟩ := dropTrailing_append isBlank (dropBlanks line)
  have kept : d ∈ dropBlanks line := by
    rw [split]
    exact mem_append_left gap member
  exact (dropWhile_suffix isBlank).subset kept

section
variable (found : LexemeAt r defines s pos c cs s₁ lexeme)
include found

theorem LexemeAt.less (operator : lexeme.kind = .operator) (less : lexeme.value = "lt") :
    s.closers.contains pos = false ∧ longest s.brackets (c :: cs) = some lexeme := by
  cases found with
  | closer | continuation | number => cases operator
  | rule _ _ named => cases (kind_of_justification named).symm.trans operator
  | word => exact absurd less (word_ne_less operator)
  | sign open_ _ _ _ _ sign =>
    refine ⟨open_, ?_⟩
    cases sign with
    | sequence => cases operator
    | less longest => exact longest
    | raised => exact absurd less (by simp)
    | operator _ _ different => exact absurd less different
    | delimiter _ delimiter => cases delimiter.symm.trans operator
    | other _ noOperator => exact absurd operator noOperator

/-- What is read as a delimiter: a bracket that was looked for, a mark of continuation or a sign. -/
theorem LexemeAt.delimiter (delimiter : lexeme.kind = .delimiter) :
    lexeme.value = "⟩" ∨ lexeme.value = "⟨" ∨ (lexeme = ⟨.delimiter, "\\", 1⟩ ∧ restIsBlank cs = true) ∨
      (s.closers.contains pos = false ∧ longest s.brackets (c :: cs) = some lexeme) := by
  cases found with
  | closer => exact .inl rfl
  | continuation _ _ blank => exact .inr (.inr (.inl ⟨rfl, blank⟩))
  | rule _ _ named => cases (kind_of_justification named).symm.trans delimiter
  | number => cases delimiter
  | word => exact absurd delimiter (word_ne_delimiter _ _ _)
  | sign open_ _ _ _ _ sign =>
    cases sign with
    | sequence => exact .inr (.inl rfl)
    | less _ operator | operator _ operator => cases operator.symm.trans delimiter
    | raised => cases delimiter
    | delimiter longest => exact .inr (.inr (.inr ⟨open_, longest⟩))
    | other _ _ noDelimiter => exact absurd delimiter noDelimiter

theorem LexemeAt.bracket (delimiter : lexeme.kind = .delimiter)
    (bracket : lexeme.value = "[") : s.closers.contains pos = false ∧ c = '[' := by
  rcases found.delimiter delimiter with value | value | ⟨rfl, _⟩ | ⟨open_, longest⟩
  · simp [value] at bracket
  · simp [value] at bracket
  · simp at bracket
  · exact ⟨open_, bracket_of_longest longest delimiter bracket⟩

end

/-- What looks at a comment is read otherwise. -/
theorem lexemeAt_comment_ne (comment : IsComment tail) (plain : '%' ∉ c :: cs) {s₂ : Scan} {other : Lexeme}
    (found : r.lexemeAt defines s pos c cs = .ok (s₁, lexeme))
    (read : r.lexemeAt defines' s pos c (cs ++ tail) = .ok (s₂, other))
    (looked : r.reconsiders defines' s lexeme.kind lexeme.value c (cs ++ tail) = true) :
    ¬(other.kind = lexeme.kind ∧ other.value = lexeme.value) := by
  rintro ⟨kind, value⟩
  rw [lexemeAt_eq_ok_iff] at found read
  unfold reconsiders at looked
  split at looked
  next text =>
    -- the comment becomes a part of the text
    have short := found.prose text
    have long := read.prose (kind.trans text)
    have text' := kind.trans text
    rw [short] at text value
    rw [long] at text' value
    rw [(word_text text).1, (word_text text').1] at value
    have same : trimBlanks (c :: cs ++ tail) = trimBlanks (c :: cs) := String.ofList_injective value
    exact plain (mem_of_mem_trimBlanks (same ▸ percent_mem_trimBlanks comment (c :: cs)))
  next operator =>
    rw [Bool.and_eq_true, beq_iff_eq] at looked
    obtain ⟨open_, longest⟩ := found.less operator looked.1
    obtain ⟨offset, closer⟩ := Option.isSome_iff_exists.mp looked.2
    cases less_of_longest longest operator looked.1
    have longest' := (comment.longest_eq s.brackets ('<' :: cs)).trans longest
    have sequence : LexemeAt r defines' s pos '<' (cs ++ tail) _ _ :=
      .sign open_ (by simp) (by simp) (by decide) (opensWord_eq_false (by decide))
        (.sequence longest' operator looked.1 closer)
    obtain ⟨_, rfl⟩ := read.unique sequence
    cases kind.trans operator
  next delimiter =>
    rw [Bool.and_eq_true, beq_iff_eq] at looked
    obtain ⟨open_, rfl⟩ := found.bracket delimiter looked.1
    obtain ⟨rule, named⟩ := Option.isSome_iff_exists.mp looked.2
    obtain ⟨_, rfl⟩ := read.unique (.rule open_ rfl named)
    cases (kind_of_justification named).symm.trans (kind.trans delimiter)
  next name =>
    rw [Bool.and_eq_true, beq_iff_eq] at looked
    have open_ : s.closers.contains pos = false := by
      cases closed : s.closers.contains pos with
      | false => rfl
      | true =>
        obtain ⟨_, rfl⟩ := found.unique (.closer closed)
        cases name
    obtain ⟨_, rfl⟩ := read.unique (.word open_ looked.1)
    cases looked.2.symm.trans (kind.trans name)
  next => cases looked

/-! ## A row of tokens -/

theorem scan_tail (r : Reading) (defines : Bool) (pos : Nat) (s : Scan) (comment : IsComment tail) :
    ∃ s', r.scan defines pos 0 s tail = .ok s' ∧ s'.tokens = s.tokens := by
  rcases comment with ⟨blanks, text, rfl, -, each⟩
  induction blanks generalizing pos s with
  | nil =>
    refine ⟨s, ?_, rfl⟩
    rw [nil_append, scan]
    simp [show isBlank '%' = false by decide]
  | cons b blanks ih =>
    rw [cons_append, scan, if_pos (each b mem_cons_self)]
    exact ih (pos + 1) { s with gap := true } fun c member => each c (mem_cons_of_mem b member)

theorem isTight_after (s : Scan) (indented : Bool) :
    (Scan.after s.tokens (s.gap || (s.tokens.isEmpty && indented))).isTight = s.isTight := by
  unfold Scan.isTight Scan.after
  cases s.tokens with
  | nil => rfl
  | cons t earlier => simp

/-- What a token tells of the line before it is all that matters for reading it again. -/
theorem reconsiders_after (r : Reading) (defines : Bool) (tracked : s.brackets = bracketsAfter s.tokens)
    (indented : Bool) (kind : Kind) (value : String) (c : Char) (cs : List Char) :
    r.reconsiders defines (.after s.tokens (s.gap || (s.tokens.isEmpty && indented))) kind value c cs =
      r.reconsiders defines s kind value c cs := by
  have brackets : (Scan.after s.tokens (s.gap || (s.tokens.isEmpty && indented))).brackets = s.brackets := tracked.symm
  have rule : (Scan.after s.tokens (s.gap || (s.tokens.isEmpty && indented))).justification cs =
      s.justification cs := by
    unfold Scan.justification Scan.expectsGenerics Scan.after
    cases s.tokens with
    | nil => simp
    | cons t earlier => simp
  unfold reconsiders
  rw [brackets, isTight_after, rule]
  rfl

/-- A token that is read leaves the brackets that it tells of. -/
theorem brackets_of_lexemeAt (found : r.lexemeAt defines s pos c cs = .ok (s₁, lexeme)) :
    s₁.brackets = if lexeme.kind == .delimiter then s.brackets.track lexeme.value else s.brackets := by
  rw [lexemeAt_eq_ok_iff] at found
  cases found with
  | closer | continuation => simp [Brackets.track]
  | rule _ _ named => simp [kind_of_justification named]
  | number => simp [number]
  | word => simp [word_ne_delimiter]
  | sign _ _ _ _ _ sign =>
    cases sign with
    | sequence => simp [Brackets.track]
    | less _ operator | operator _ operator => simp [operator]
    | raised => simp
    | delimiter _ delimiter => simp [delimiter]
    | other _ _ noDelimiter => simp [noDelimiter]

theorem looksInto_cons {line : List Char} (tracked : s.brackets = bracketsAfter s.tokens)
    (here : line.drop pos = c :: cs) {t : Token} (column : t.column = pos + 1)
    (spaced : t.spaceBefore = (s.gap || (s.tokens.isEmpty && decide (0 < pos)))) (row : List Token) :
    r.looksInto line s.tokens (t :: row) = (r.reconsiders (occursIn "::=".toList line) s t.kind t.value c cs ||
        r.looksInto line (t :: s.tokens) row) := by
  have start : (t.column - 1).toNat = pos := by omega
  rw [looksInto, start, here, spaced]
  dsimp only
  rw [reconsiders_after r _ tracked]

/-- Rows that begin with different tokens are different. -/
theorem tokens_ne_of_suffix {t u : Token} {earlier tokens more : List Token} (reads : t :: earlier <:+ tokens)
    (others : u :: earlier <:+ more) (different : ¬(u.kind = t.kind ∧ u.value = t.value)) : more ≠ tokens := by
  rintro rfl
  have same : u :: earlier = t :: earlier := (suffix_of_suffix_length_le others reads (Nat.le_refl _)).eq_of_length rfl
  cases same
  exact different ⟨rfl, rfl⟩

theorem tracked_addLexeme (tracked : s.brackets = bracketsAfter s.tokens) (visible : isBlank c = false)
    (found : r.lexemeAt defines s pos c cs = .ok (s₁, lexeme)) : (addLexeme s₁ lexeme pos (c :: cs)).brackets =
      bracketsAfter (addLexeme s₁ lexeme pos (c :: cs)).tokens := by
  rcases addLexeme_eq_cons (extends_of_lexemeAt found visible).1 lexeme pos (c :: cs) with ⟨t, added, kind, value, _⟩
  rw [added, bracketsAfter, ← tracked, kind, value, ← brackets_of_lexemeAt found]
  rfl

/-- The tokens of a line before a comment are read again unless one of them looks at it, and then the row is
another one. -/
theorem scan_comment {line : List Char} (comment : IsComment tail) (plain : '%' ∉ line)
    (kept : defines = true → defines' = true) (whole : defines' = occursIn "::=".toList (line ++ tail))
    (scans : Scans r defines pos s cs s') (tracked : s.brackets = bracketsAfter s.tokens) (inside : pos ≤ line.length)
    (here : line.drop pos = cs) :
    ∃ row, s'.tokens = row.reverse ++ s.tokens ∧ (r.looksInto (line ++ tail) s.tokens row = false →
        ∃ s'', r.scan defines' pos 0 s (cs ++ tail) = .ok s'' ∧ s''.tokens = s'.tokens) ∧
      (r.looksInto (line ++ tail) s.tokens row = true →
        ∀ s'', r.scan defines' pos 0 s (cs ++ tail) = .ok s'' → s''.tokens ≠ s'.tokens) := by
  have among : ∀ d ∈ cs, d ∈ line := fun d member => (drop_suffix pos line).subset (here ▸ member)
  induction scans with
  | done =>
    refine ⟨[], rfl, fun _ => ?_, fun looked => absurd looked (by simp [looksInto])⟩
    exact scan_tail r defines' _ _ comment
  | comment => exact absurd (among '%' mem_cons_self) plain
  | @blank pos s s' c cs blank _ ih =>
    have cut : line.drop (pos + 1) = cs := by rw [← tail_drop, here]; rfl
    have length := congrArg List.length here
    rw [length_drop, length_cons] at length
    rw [cons_append, scan, if_pos blank]
    exact ih tracked (by omega) cut fun d member => among d (mem_cons_of_mem c member)
  | @lexeme pos s s₁ s' c cs lexeme visible noComment found scans ih =>
    rcases extends_of_lexemeAt found visible with ⟨same, reaches, _⟩
    have length := reaches.inside
    have within : pos + lexeme.length ≤ line.length := by
      rw [← here, length_drop] at length
      omega
    rcases addLexeme_eq_cons same lexeme pos (c :: cs) with
      ⟨t, added, kind, value, _, column, spaced⟩
    have cut : line.drop (pos + lexeme.length) = (c :: cs).drop lexeme.length := by rw [← here, drop_drop]
    rcases ih (tracked_addLexeme tracked visible found) within cut fun d later => among d (mem_of_mem_drop later)
      with ⟨row, rowEq, again, otherwise⟩
    rw [added] at rowEq again otherwise
    have here' : (line ++ tail).drop pos = c :: (cs ++ tail) := by
      rw [drop_append_of_le_length inside, here, cons_append]
    have looks := looksInto_cons (r := r) tracked here' column spaced row
    rw [kind, value, ← whole] at looks
    refine ⟨t :: row, by rw [rowEq, reverse_cons, append_assoc, singleton_append], ?_⟩
    rw [looks, cons_append]
    cases looked : r.reconsiders defines' s lexeme.kind lexeme.value c (cs ++ tail) with
    | true =>
      refine ⟨fun none => absurd none (by simp), fun _ s'' read' => ?_⟩
      -- this token is another one
      rcases lexemeAt_of_scan visible noComment read' with ⟨s₂, other, found', onward'⟩
      rcases addLexeme_eq_cons (extends_of_lexemeAt found' visible).1 other pos (c :: (cs ++ tail)) with
        ⟨u, added', kind', value', _⟩
      have different := lexemeAt_comment_ne comment (fun percent => plain (among '%' percent)) found found' looked
      rw [← kind, ← value, ← kind', ← value'] at different
      exact tokens_ne_of_suffix (added ▸ scans.suffix) (added' ▸ tokens_suffix_of_scan onward') different
    | false =>
      have found' := lexemeAt_comment comment kept found looked
      have state : addLexeme s₁ lexeme pos (c :: (cs ++ tail)) = addLexeme s₁ lexeme pos (c :: cs) := by
        rw [addLexeme, addLexeme, ← cons_append, take_append_of_le_length length]
      have cut' : (c :: (cs ++ tail)).drop lexeme.length = (c :: cs).drop lexeme.length ++ tail := by
        rw [← cons_append, drop_append_of_le_length length]
      rw [scan_of_lexemeAt visible noComment found', state, cut', Bool.false_or]
      exact ⟨again, otherwise⟩

/-! ## Lines -/

theorem dropTrailing_append_cons {p : Char → Bool} (kept : p c = false) (front back : List Char) :
    ∃ more, dropTrailing p (front ++ c :: back) = front ++ c :: more := by
  rcases dropTrailing_cons kept back with ⟨more, found⟩
  refine ⟨more, ?_⟩
  induction front with
  | nil => exact found
  | cons d front ih =>
    rw [cons_append, dropTrailing, ih]
    cases front <;> rfl

section
variable {line tail : List Char} (comment : IsComment tail)
include comment

omit comment in
theorem dropBlanks_append (content : dropBlanks line ≠ []) : dropBlanks (line ++ tail) = dropBlanks line ++ tail := by
  rw [dropBlanks, dropWhile_append, ← dropBlanks, if_neg (by simpa using content)]

theorem dropBlanks_comment_only (none : dropBlanks line = []) : ∃ text, dropBlanks (line ++ tail) = '%' :: text := by
  rcases comment.dropWhile_isBlank with ⟨text, passed⟩
  refine ⟨text, ?_⟩
  rw [dropBlanks, dropWhile_append, ← dropBlanks, if_pos (by simp [none]), passed]

/-- A line without the white space around it goes on with the comment. -/
theorem trimBlanks_comment (content : dropBlanks line ≠ []) :
    ∃ more, IsComment more ∧ trimBlanks (line ++ tail) = trimBlanks line ++ more := by
  rcases dropTrailing_append isBlank (dropBlanks line) with ⟨gap, split, gapBlank⟩
  rw [trimBlanks, dropBlanks_append content]
  rcases comment with ⟨blanks, text, rfl, some, each⟩
  rcases dropTrailing_append_cons (show isBlank '%' = false by decide) (dropBlanks line ++ blanks) text
    with ⟨rest, kept⟩
  refine ⟨gap ++ blanks ++ '%' :: rest, ⟨gap ++ blanks, rest, rfl, by simp [some], ?_⟩, ?_⟩
  · grind
  · rw [← append_assoc, kept, trimBlanks, ← append_assoc, ← append_assoc, ← split]

/-- What ends in a visible character and has no percent sign does not reach into the comment. -/
theorem isPrefixOf_comment {needle : List Char} (unlike : '%' ∉ needle)
    (visible : ∀ c ∈ needle.getLast?, isBlank c = false) (front : List Char) :
    needle.isPrefixOf (front ++ tail) = needle.isPrefixOf front := by
  refine isPrefixOf_append fun more split reaches => ?_
  rcases comment with ⟨blanks, text, rfl, _, each⟩
  have blank : ∀ c ∈ more, isBlank c = true := by
    rcases prefix_or_prefix_of_prefix reaches (prefix_append blanks _) with short | ⟨beyond, rfl⟩
    · exact fun c member => each c (short.subset member)
    · have comment : beyond <+: '%' :: text := (prefix_append_right_inj blanks).mp reaches
      cases beyond with
      | nil => simpa using each
      | cons d beyond => grind
  cases ending : more.getLast? with
  | none => exact List.getLast?_eq_none_iff.mp ending
  | some c =>
    have visible := visible c (by rw [split, List.getLast?_append, ending]; rfl)
    rw [blank c (mem_of_getLast? ending)] at visible
    cases visible

/-- The tests at the front of a line do not look at the comment. -/
theorem tests_comment (content : dropBlanks line ≠ []) :
    (∀ mark ∈ ["===", "**"], mark.toList.isPrefixOf (trimBlanks (line ++ tail)) =
        mark.toList.isPrefixOf (trimBlanks line)) ∧
      Symbol.blockKeywords.find? (fun k => k.toList.isPrefixOf (trimBlanks (line ++ tail))) =
        Symbol.blockKeywords.find? fun k => k.toList.isPrefixOf (trimBlanks line) := by
  rcases trimBlanks_comment comment content with ⟨more, comment', trimmed⟩
  have each : ∀ needle ∈ ["===", "**"] ++ Symbol.blockKeywords,
      '%' ∉ needle.toList ∧ (needle.toList.getLast?.all fun c => !isBlank c) = true := by
    decide
  have same : ∀ needle ∈ ["===", "**"] ++ Symbol.blockKeywords,
      needle.toList.isPrefixOf (trimBlanks (line ++ tail)) = needle.toList.isPrefixOf (trimBlanks line) := by
    intro needle member
    rcases each needle member with ⟨unlike, visible⟩
    rw [trimmed]
    exact isPrefixOf_comment comment' unlike (by simpa [Option.all_eq_true] using visible) _
  constructor
  · exact fun mark member => same mark (mem_append_left _ member)
  · rw [← List.head?_filter, ← List.head?_filter]
    apply congrArg
    exact filter_congr fun k member => same k (mem_append_right _ member)

end

theorem front_comment {line : List Char} (comment : IsComment tail) (content : dropBlanks line ≠ []) (s : Scan) :
    front s (line ++ tail) = front s line := by
  have start : (line ++ tail).length - (dropBlanks line ++ tail).length = line.length - (dropBlanks line).length := by
    rw [length_append, length_append]
    omega
  unfold front
  dsimp only
  rw [dropBlanks_append content, (tests_comment comment content).2, comment.label_eq, comment.partLabel_eq, start]
  split
  next => rfl
  next =>
    split
    next digits found =>
      have inside := (label_leads found).length_le
      rw [length_append, length_cons, length_singleton] at inside
      rw [take_append_of_le_length (by omega)]
    next =>
      split
      next letters found =>
        have inside := (partLabel_leads found).length_le
        rw [length_append, length_cons, length_singleton] at inside
        rw [take_append_of_le_length (by omega)]
      next => rfl

theorem looksInto_append (r : Reading) (line : List Char) (earlier row more : List Token) :
    r.looksInto line earlier (row ++ more) =
      (r.looksInto line earlier row || r.looksInto line (row.reverse ++ earlier) more) := by
  induction row generalizing earlier with
  | nil => simp [looksInto]
  | cons t row ih =>
    rw [cons_append, looksInto, ih, looksInto, reverse_cons, append_assoc, singleton_append, Bool.or_assoc]

/-- Other kinds of tokens do not look on. -/
theorem looksInto_singleton {t : Token} (other : t.kind ∉ [Kind.text, .operator, .delimiter, .identifier])
    (r : Reading) (line : List Char) (earlier : List Token) : r.looksInto line earlier [t] = false := by
  have idle (defines : Bool) (s : Scan) (c : Char) (cs : List Char) :
      r.reconsiders defines s t.kind t.value c cs = false := by
    unfold reconsiders
    split <;> simp_all
  rw [looksInto, looksInto, Bool.or_false]
  split
  next => exact idle ..
  next => rfl

/-- A comment makes a line prose, or it is read token by token with it too. -/
theorem isScanned_comment {line rest : List Char} (comment : IsComment tail)
    (found : dropBlanks line = c :: rest) (noComment : c ≠ '%') (scanned : r.isScanned line = true) (s : Scan) :
    r.isScanned (line ++ tail) = true ∨ r.isScanned (line ++ tail) = false ∧
      ∃ start stop, r.plainLine s (line ++ tail) = .ok (s.emit .text (String.ofList (trimBlanks (line ++ tail)))
          (String.ofList (trimBlanks (line ++ tail))) start stop, .off) := by
  have content : dropBlanks line ≠ [] := by simp [found]
  have found' : dropBlanks (line ++ tail) = c :: (rest ++ tail) := by
    rw [dropBlanks_append content, found, cons_append]
  have tests := tests_comment comment content
  have sections := tests.1 "===" (by simp)
  have solutions := tests.1 "**" (by simp)
  have here := Bool.eq_false_iff.mp (content_of_head found noComment)
  have here' := Bool.eq_false_iff.mp (content_of_head found' noComment)
  unfold isScanned at scanned ⊢
  dsimp only at scanned ⊢
  rw [if_neg here] at scanned
  rw [if_neg here', sections, solutions, tests.2]
  split at scanned
  next => cases scanned
  next heading =>
    rw [if_neg heading]
    cases opened : Symbol.blockKeywords.find? fun k => k.toList.isPrefixOf (trimBlanks line) with
    | some keyword =>
      rw [opened] at scanned
      exact .inl scanned
    | none =>
      dsimp only
      cases prose : Prose.isProse r.rules (String.ofList (trimBlanks (line ++ tail))) true with
      | false => exact .inl rfl
      | true =>
        refine .inr ⟨rfl, ?_⟩
        rw [Bool.or_eq_true, not_or] at heading
        unfold plainLine
        dsimp only
        rw [if_neg here', sections, solutions, if_neg heading.1, if_neg heading.2, tests.2, opened]
        dsimp only
        rw [if_pos prose]
        exact ⟨_, _, rfl⟩

/-! ## Sources of one line -/

end Reading

/-- The token without its place and the white space before it, if it ends a line or the source. -/
def blurEnd (t : Token) : Token :=
  if t.kind == .newline || t.kind == .endOfInput then { t with column := 0, endColumn := 0, spaceBefore := false }
  else t

namespace Reading

theorem map_blurEnd {r : Reading} {line : List Char} {s : Scan} {capture : Capture}
    (read : r.plainLine { number := 1 } line = .ok (s, capture)) :
    (s.tokens.reverse ++ lineEnd s line).map blurEnd =
      s.tokens.reverse ++ [{ kind := .newline, value := "\n", line := 1 }, { kind := .endOfInput, line := 1 }] := by
  rcases plainLine_written read with ⟨number, written⟩
  have kept : s.tokens.reverse.map blurEnd = s.tokens.reverse := by
    refine Eq.trans (map_congr_left fun t member => ?_) (map_id _)
    rcases (written t (mem_reverse.mp member)).1 with ⟨noNewline, noEnd⟩
    simp [blurEnd, noNewline, noEnd]
  rw [map_append, kept, lineEnd, number]
  rfl

theorem looksInto_lineEnd (r : Reading) (line rest : List Char) (s : Scan) :
    r.looksInto rest [] (s.tokens.reverse ++ lineEnd s line) = r.looksInto rest [] s.tokens.reverse := by
  rw [looksInto_append, lineEnd, ← singleton_append, looksInto_append, looksInto_singleton (by simp),
    looksInto_singleton (by simp), Bool.or_false, Bool.or_false]

/-- A source that a comment follows is its line with a tail. -/
theorem dropReturns_comment (source comment : String) : ∃ tail, IsComment tail ∧
    dropReturns (source ++ " %" ++ comment).toList = dropReturns source.toList ++ tail := by
  rcases dropTrailing_append (· == '\r') source.toList with ⟨returns, split, each⟩
  rcases dropTrailing_append_cons (p := (· == '\r')) (c := '%') (by decide) (source.toList ++ [' '])
    comment.toList with ⟨text, kept⟩
  refine ⟨returns ++ [' '] ++ '%' :: text, ⟨returns ++ [' '], text, rfl, by simp, ?_⟩, ?_⟩
  · intro c member
    rcases mem_append.mp member with inReturns | space
    · cases eq_of_beq (all_eq_true.mp each c inReturns)
      decide
    · cases mem_singleton.mp space
      decide
  · have spelled : (source ++ " %" ++ comment).toList = source.toList ++ [' '] ++ '%' :: comment.toList := by
      simp [String.toList_append]
    rw [dropReturns, spelled, kept, dropReturns, ← append_assoc, ← append_assoc, ← split]

theorem occursIn_append {needle front : List Char} (back : List Char) (found : occursIn needle front = true) :
    occursIn needle (front ++ back) = true := by
  induction front with
  | nil =>
    have empty : needle = [] := isEmpty_iff.mp found
    cases back with
    | nil => exact found
    | cons c back => simp [empty, occursIn]
  | cons c front ih =>
    rw [occursIn, Bool.or_eq_true] at found
    rw [cons_append, occursIn, Bool.or_eq_true]
    rcases found with here | later
    · grind
    · exact .inr (ih later)

/-- The front tells of its brackets and does not look on. -/
theorem front_idle (r : Reading) (line rest : List Char) :
    (front { number := 1 } line).2.brackets = bracketsAfter (front { number := 1 } line).2.tokens ∧
      r.looksInto rest [] (front { number := 1 } line).2.tokens.reverse = false := by
  rcases front_cases { number := 1 } line with none | ⟨t, tokens, brackets, kind⟩
  · rw [none]
    exact ⟨rfl, rfl⟩
  · rw [tokens, brackets]
    simp only [mem_cons, not_mem_nil, or_false] at kind
    refine ⟨?_, looksInto_singleton ?_ r rest []⟩
    · rcases kind with kind | kind | kind <;> simp [bracketsAfter, kind]
    · rcases kind with kind | kind | kind <;> simp [kind]

theorem plainLine_comment {r : Reading} {line tail : List Char} (comment : IsComment tail) (plain : '%' ∉ line)
    (scanned : r.isScanned line = true) {s : Scan} {capture : Capture}
    (found : r.plainLine { number := 1 } line = .ok (s, capture)) :
    (∃ s' capture', r.plainLine { number := 1 } (line ++ tail) = .ok (s', capture') ∧ s'.tokens = s.tokens) ↔
      r.isScanned (line ++ tail) = true ∧ r.looksInto (line ++ tail) [] s.tokens.reverse = false := by
  cases content : dropBlanks line with
  | nil =>
    -- nothing but white space
    have none : trimBlanks line = [] := by rw [trimBlanks, content]; rfl
    rcases dropBlanks_comment_only comment content with ⟨text, percent⟩
    rcases trimBlanks_cons percent with ⟨more, trimmed⟩
    unfold plainLine at found
    simp only [none, isEmpty_nil, Bool.true_or, if_true] at found
    cases found
    have skipped : r.plainLine { number := 1 } (line ++ tail) = .ok ({ number := 1 }, .off) := by
      unfold plainLine
      simp [trimmed]
    have comments : r.isScanned (line ++ tail) = true := by
      unfold isScanned
      simp [trimmed]
    exact ⟨fun _ => ⟨comments, rfl⟩, fun _ => ⟨_, _, skipped, rfl⟩⟩
  | cons c rest =>
    have present : dropBlanks line ≠ [] := by simp [content]
    have noComment : c ≠ '%' := by
      rintro rfl
      have member : '%' ∈ dropBlanks line := content ▸ mem_cons_self
      exact plain ((dropWhile_suffix isBlank).subset member)
    rcases isScanned_comment comment content noComment scanned { number := 1 } with
      scanned' | ⟨prose, start, stop, read⟩
    · have content' : dropBlanks (line ++ tail) = c :: (rest ++ tail) := by
        rw [dropBlanks_append present, content, cons_append]
      rw [plainLine_of_isScanned scanned (content_of_head content noComment)] at found
      rcases map_eq_ok.mp found with ⟨_, row, same⟩
      cases same
      rcases front_idle r line (line ++ tail) with ⟨tracked, idle⟩
      rcases scan_comment comment plain (occursIn_append tail) rfl (scan_eq_ok_iff.mp row) tracked (front_le _ line) rfl
        with ⟨added, tokens, again, otherwise⟩
      have looks : r.looksInto (line ++ tail) [] s.tokens.reverse =
          r.looksInto (line ++ tail) (front { number := 1 } line).2.tokens added := by
        rw [tokens, reverse_append, reverse_reverse, looksInto_append, idle, Bool.false_or, reverse_reverse, append_nil]
      rw [plainLine_of_isScanned scanned' (content_of_head content' noComment), front_comment comment present,
        drop_append_of_le_length (front_le _ line), looks, scanned']
      constructor
      · rintro ⟨s', capture', read', same⟩
        rcases map_eq_ok.mp read' with ⟨_, row', kept⟩
        cases kept
        refine ⟨rfl, Bool.eq_false_iff.mpr fun looked => ?_⟩
        exact otherwise looked s' row' same
      · rintro ⟨_, unread⟩
        rcases again unread with ⟨s', row', same⟩
        exact ⟨s', .off, by rw [row']; rfl, same⟩
    · rw [prose]
      refine ⟨?_, fun never => absurd never.1 (by simp)⟩
      rintro ⟨s', capture', read', same⟩
      rw [read] at read'
      cases read'
      -- the text has the percent sign of the comment, which none of the tokens has
      have literal := (plainLine_written found).2
      rw [← same] at literal
      have percent := percent_mem_trimBlanks comment line
      refine absurd ((literal _ mem_cons_self).2 '%' ?_) plain
      rw [String.toList_ofList]
      exact percent

/-- A comment after a line leaves the tokens of the line as they are just if the line is still read token by
token and no token looks into the comment. -/
theorem comment_unread_iff (r : Reading) {source comment : String} (single : '\n' ∉ source.toList)
    (plain : '%' ∉ source.toList) (singleComment : '\n' ∉ comment.toList)
    (scanned : r.isScanned (dropReturns source.toList) = true) {toks : List Token}
    (read : r.tokens source = .ok toks) :
    (∃ toks', r.tokens (source ++ " %" ++ comment) = .ok toks' ∧ toks'.map blurEnd = toks.map blurEnd) ↔
      r.isScanned (dropReturns (source ++ " %" ++ comment).toList) = true ∧
        r.looksInto (dropReturns (source ++ " %" ++ comment).toList) [] toks = false := by
  have single' : '\n' ∉ (source ++ " %" ++ comment).toList := by
    simp [String.toList_append, single, singleComment]
  rcases dropReturns_comment source comment with ⟨tail, follows, whole⟩
  rcases (tokens_eq_ok_iff r single).mp read with ⟨s, capture, found, rfl⟩
  have plainLine : '%' ∉ dropReturns source.toList := by
    rcases dropTrailing_append (· == '\r') source.toList with ⟨returns, split, _⟩
    rw [dropReturns]
    intro member
    exact plain (split ▸ mem_append_left returns member)
  rw [whole, looksInto_lineEnd, map_blurEnd found, ← plainLine_comment follows plainLine scanned found]
  constructor
  · rintro ⟨toks', read', same⟩
    rcases (tokens_eq_ok_iff r single').mp read' with ⟨s', capture', found', rfl⟩
    rw [whole] at found' same
    rw [map_blurEnd found', append_left_inj, reverse_inj] at same
    exact ⟨s', capture', found', same⟩
  · rintro ⟨s', capture', found', same⟩
    refine ⟨_, (tokens_eq_ok_iff r single').mpr ⟨s', capture', by rw [whole, found'], rfl⟩, ?_⟩
    rw [whole, map_blurEnd found', same]

theorem sequenceLine_before_comment : ∃ toks, (({} : Reading).tokens "s = <a, b> [and intro]" = .ok toks ∧
      ({} : Reading).isScanned (dropReturns "s = <a, b> [and intro]".toList) = true) ∧
      ∃ toks', ({} : Reading).tokens ("s = <a, b> [and intro]" ++ " %" ++ " ] > the base case") = .ok toks' ∧
        toks'.map blurEnd = toks.map blurEnd := by
  have unread : (({} : Reading).tokens "s = <a, b> [and intro]").toOption.map (({} : Reading).looksInto
      (dropReturns ("s = <a, b> [and intro]" ++ " %" ++ " ] > the base case").toList) []) = some false := by
    decide
  cases read : ({} : Reading).tokens "s = <a, b> [and intro]" with
  | error fault =>
    rw [read] at unread
    cases unread
  | ok toks =>
    rw [read] at unread
    have scanned : ({} : Reading).isScanned (dropReturns "s = <a, b> [and intro]".toList) = true := by
      decide
    refine ⟨toks, ⟨rfl, scanned⟩, (comment_unread_iff {} (by decide) (by decide) (by decide) scanned read).mpr ?_⟩
    exact ⟨by decide, Option.some.inj unread⟩

/-- The line is read token by token, and a comment after it changes its tokens. -/
def Changes (comment source : String) : Prop :=
  ({} : Reading).isScanned (dropReturns source.toList) = true ∧
    (({} : Reading).tokens source).toOption.isSome = true ∧
    (({} : Reading).tokens (source ++ " %" ++ comment)).toOption.map (List.map blurEnd) ≠
      (({} : Reading).tokens source).toOption.map (List.map blurEnd)

/-- Words of a comment make a line prose or end it as prose, and brackets of a comment close a sequence or a rule
name. -/
theorem comments_looked_into :
    Changes " the base case" "Size = 1" ∧ Changes " it is" "p A" ∧ Changes " a>" "x <y" ∧
      Changes " ]" "p [and intro" := by
  unfold Changes
  refine ⟨?_, ?_, ?_, ?_⟩
  all_goals decide

end Reading
end Token
end Whiteboard
