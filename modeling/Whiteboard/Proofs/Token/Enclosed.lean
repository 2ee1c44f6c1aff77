import Whiteboard.Proofs.Expr.Relocated
import Whiteboard.Proofs.Token.Comment
import Whiteboard.Proofs.Token.Search

namespace Whiteboard

open List Text Lexeme

/-!
# A line in parentheses

A closing parenthesis at the end of a line is a token of its own, and so is an opening one at its start, unless the
two make a part label of what they enclose.  All other tokens of a formula are read in parentheses as they are read
without them, one column further to the right: no sentence begins or ends with a parenthesis, no rule name comes
before one, and the bracket that closes a sequence is not looked for behind one.
-/

/-! ## Sentences in parentheses -/

namespace Text

theorem dropTrailing_concat {p : Char → Bool} {c : Char} (dropped : p c = true) (cs : List Char) :
    dropTrailing p (cs ++ [c]) = dropTrailing p cs := by
  induction cs with
  | nil => simp [dropTrailing, dropped]
  | cons d cs ih => rw [cons_append, dropTrailing, dropTrailing, ih]

/-- The pieces of a text that goes on with one more character, given those before it. -/
theorem splitWhere_concat (p : Char → Bool) (cs : List Char) : ∃ pieces last, splitWhere p cs = pieces ++ [last] ∧
    ∀ c, splitWhere p (cs ++ [c]) = if p c then pieces ++ [last, []] else pieces ++ [last ++ [c]] := by
  induction cs with
  | nil =>
    refine ⟨[], [], rfl, fun c => ?_⟩
    rw [nil_append, splitWhere]
    cases p c <;> rfl
  | cons d cs ih =>
    rcases ih with ⟨pieces, last, cut, next⟩
    cases splits : p d with
    | true =>
      refine ⟨[] :: pieces, last, by rw [splitWhere, if_pos splits, cut]; rfl, fun c => ?_⟩
      rw [cons_append, splitWhere, if_pos splits, next]
      cases p c <;> rfl
    | false =>
      cases pieces with
      | nil =>
        refine ⟨[], d :: last, by rw [splitWhere, if_neg (by simp [splits]), cut]; rfl, fun c => ?_⟩
        rw [cons_append, splitWhere, if_neg (by simp [splits]), next]
        cases p c <;> rfl
      | cons piece pieces =>
        refine ⟨(d :: piece) :: pieces, last, by rw [splitWhere, if_neg (by simp [splits]), cut]; rfl, fun c => ?_⟩
        rw [cons_append, splitWhere, if_neg (by simp [splits]), next]
        cases p c <;> rfl

theorem piecesBetween_append_blanks {p : Char → Bool} {blanks : List Char} (each : ∀ c ∈ blanks, p c = true)
    (cs : List Char) : piecesBetween p (cs ++ blanks) = piecesBetween p cs := by
  induction blanks generalizing cs with
  | nil => rw [append_nil]
  | cons b blanks ih =>
    rw [← singleton_append, ← append_assoc, ih (fun c later => each c (mem_cons_of_mem b later))]
    rcases splitWhere_concat p cs with ⟨pieces, last, cut, next⟩
    rw [piecesBetween, piecesBetween, next, if_pos (each b mem_cons_self), cut, append_cons, filter_append]
    simp

/-- White space at the ends of a text is between no words. -/
theorem words_trimBlanks (cs : List Char) : words (String.ofList (trimBlanks cs)) = words (String.ofList cs) := by
  have indent (cs : List Char) : piecesBetween isBlank (dropBlanks cs) = piecesBetween isBlank cs := by
    induction cs with
    | nil => rfl
    | cons c cs ih =>
      cases blank : isBlank c with
      | false => rw [dropBlanks, dropWhile_cons_of_neg (by simp [blank])]
      | true =>
        rw [dropBlanks, dropWhile_cons_of_pos blank, ← dropBlanks, ih, piecesBetween, piecesBetween,
          splitWhere, if_pos blank, filter_cons_of_neg (by simp)]
  rcases dropTrailing_append isBlank (dropBlanks cs) with ⟨gap, split, each⟩
  rw [words, words, String.toList_ofList, String.toList_ofList, trimBlanks, ← indent cs,
    ← piecesBetween_append_blanks (all_eq_true.mp each), ← split]

end Text

namespace Prose

/-- A sentence is told by its first word and the words after it. -/
theorem isProse_eq (rules : ProseRules) (text : String) (lineStart : Bool) :
    isProse rules text lineStart = match words text with
      | [] => false
      | first :: rest => opensSentence rules first lineStart &&
          (rest.take rules.effective.lookahead.toNat).any (isIndicator rules) := by
  unfold isProse
  split
  next found => rw [found]
  next other =>
    split
    next => rfl
    next first rest found =>
      cases rest with
      | nil => simp
      | cons second rest => exact absurd found (other first second rest)

theorem isProse_trimBlanks (rules : ProseRules) (cs : List Char) (lineStart : Bool) :
    isProse rules (String.ofList (trimBlanks cs)) lineStart = isProse rules (String.ofList cs) lineStart := by
  rw [isProse_eq, isProse_eq, words_trimBlanks]

theorem trimPunctuation_open (w : List Char) :
    trimPunctuation (String.ofList ('(' :: w)) = trimPunctuation (String.ofList w) := by
  unfold trimPunctuation
  dsimp only
  rw [String.toList_ofList, String.toList_ofList, dropWhile_cons_of_pos (by decide)]

theorem trimPunctuation_close (w : List Char) :
    trimPunctuation (String.ofList (w ++ [')'])) = trimPunctuation (String.ofList w) := by
  unfold trimPunctuation
  dsimp only
  rw [String.toList_ofList, String.toList_ofList, dropWhile_append]
  split
  next none => rw [isEmpty_iff.mp none, dropWhile_cons_of_pos (by decide), dropWhile_nil]
  next => rw [dropTrailing_concat (by decide)]

theorem isIndicator_close (rules : ProseRules) (w : List Char) :
    isIndicator rules (String.ofList (w ++ [')'])) = isIndicator rules (String.ofList w) := by
  rw [isIndicator, trimPunctuation_close, isIndicator]

/-- A sentence in mid-line would be one at the start of a line. -/
theorem isProse_lineStart {rules : ProseRules} {text : String} (prose : isProse rules text false = true) :
    isProse rules text true = true := by
  rw [isProse_eq] at prose ⊢
  split at prose
  next => cases prose
  next first rest _ =>
    rw [Bool.and_eq_true] at prose ⊢
    refine ⟨?_, prose.2⟩
    have opens := prose.1
    simp only [opensSentence, Bool.false_and, Bool.or_false, Bool.and_eq_true] at opens
    simp [opensSentence, opens]

/-- No sentence begins with a parenthesis that would not begin without it. -/
theorem opensSentence_open {rules : ProseRules} {w : List Char} {lineStart : Bool}
    (opens : opensSentence rules (String.ofList ('(' :: w)) lineStart = true) :
    opensSentence rules (String.ofList w) lineStart = true := by
  unfold opensSentence at opens ⊢
  dsimp only at opens ⊢
  rw [trimPunctuation_open] at opens
  simp only [Bool.and_eq_true] at opens ⊢
  refine ⟨⟨⟨⟨?_, opens.1.1.1.2⟩, opens.1.1.2⟩, opens.1.2⟩, opens.2⟩
  have first := opens.1.1.1.1
  rw [Bool.or_eq_true] at first ⊢
  have letters := opens.1.1.2
  rcases first with whole | comma
  · -- the first word has letters only
    rw [eq_of_beq whole, String.toList_ofList] at letters
    exact absurd (all_eq_true.mp letters '(' mem_cons_self) (by decide)
  · grind [String.toList_ofList]

theorem isProse_open {rules : ProseRules} {cs : List Char} {lineStart : Bool}
    (prose : isProse rules (String.ofList ('(' :: cs)) lineStart = true) :
    isProse rules (String.ofList cs) lineStart = true := by
  have visible : isBlank '(' = false := by decide
  have some : ∃ piece others, splitWhere isBlank cs = piece :: others := by
    rcases splitWhere_concat isBlank cs with ⟨pieces, last, cut, _⟩
    cases pieces with
    | nil => exact ⟨last, [], cut⟩
    | cons piece pieces => exact ⟨piece, pieces ++ [last], cut⟩
  rcases some with ⟨piece, others, cut⟩
  rw [isProse_eq, words, piecesBetween, String.toList_ofList] at prose ⊢
  rw [splitWhere, if_neg (by simp [visible]), cut] at prose
  dsimp only at prose
  rw [filter_cons_of_pos (by simp), map_cons] at prose
  dsimp only at prose
  rw [Bool.and_eq_true] at prose
  have opens := opensSentence_open prose.1
  cases piece with
  | nil =>
    have empty : trimPunctuation (String.ofList []) = "" := rfl
    simp [opensSentence, empty] at opens
  | cons c piece => grind

theorem words_close {blanks : List Char} (each : ∀ c ∈ blanks, isBlank c = true) (cs : List Char) :
    ∃ init last, words (String.ofList (cs ++ blanks ++ [')'])) = init ++ [String.ofList (last ++ [')'])] ∧
      words (String.ofList cs) = init ++ if last.isEmpty then [] else [String.ofList last] := by
  rcases splitWhere_concat isBlank (cs ++ blanks) with ⟨pieces, last, cut, next⟩
  refine ⟨(pieces.filter fun piece => !piece.isEmpty).map String.ofList, last, ?_, ?_⟩
  · rw [words, String.toList_ofList, piecesBetween, next, if_neg (by decide), filter_append,
      map_append, filter_cons_of_pos (by simp)]
    rfl
  · rw [words, String.toList_ofList, ← piecesBetween_append_blanks each, piecesBetween, cut, filter_append, map_append]
    cases last <;> rfl

/-- A parenthesis at its end makes no sentence of a text and takes none away. -/
theorem isProse_close {blanks : List Char} (each : ∀ c ∈ blanks, isBlank c = true) (cs : List Char)
    (lineStart : Bool) : isProse ProseRules.standard (String.ofList (cs ++ blanks ++ [')'])) lineStart =
      isProse ProseRules.standard (String.ofList cs) lineStart := by
  rcases words_close each cs with ⟨init, last, closed, plain⟩
  have same : isIndicator ProseRules.standard (String.ofList (last ++ [')'])) =
      (if last.isEmpty then ([] : List String) else [String.ofList last]).any (isIndicator ProseRules.standard) := by
    rw [isIndicator_close]
    cases last with
    | nil => decide
    | cons c last => simp
  rw [isProse_eq, isProse_eq, closed, plain]
  cases init with
  | nil =>
    cases last with
    | nil => simp
    | cons c last => simp
  | cons first rest =>
    dsimp only [cons_append]
    rw [take_append, any_append, take_append, any_append]
    generalize ProseRules.standard.effective.lookahead.toNat - rest.length = left
    cases left with
    | zero => simp
    | succ n =>
      rw [take_succ_cons, take_nil, any_cons, any_nil, Bool.or_false, same]
      cases last with
      | nil => simp
      | cons c last => simp

end Prose

namespace Token

/-! ## In front of a closing parenthesis -/

/-- White space, and a closing parenthesis behind it. -/
def IsClosing (tail : List Char) : Prop := ∃ blanks, tail = blanks ++ [')'] ∧ ∀ c ∈ blanks, isBlank c = true

theorem parenthesis_spelled : (∀ p ∈ delimiters, ')' ∈ p.1.toList → p.1.toList = [')'] ∨
    p.1.toList = ['|', ')']) ∧ ∀ p ∈ Symbol.symbolicSpellings, ')' ∉ p.1.toList := by
  decide

namespace IsClosing

variable {tail : List Char} (closing : IsClosing tail)
include closing

theorem stops : Stops tail := by
  rcases closing with ⟨blanks, rfl, each⟩
  exact stops_of_blanks each (by decide) (by decide)

theorem mem {c : Char} (member : c ∈ tail) : isBlank c = true ∨ c = ')' := by
  rcases closing with ⟨blanks, rfl, each⟩
  rcases mem_append.mp member with blank | last
  · exact .inl (each c blank)
  · exact .inr (mem_singleton.mp last)

theorem not_mem {c : Char} (visible : isBlank c = false) (other : c ≠ ')') : c ∉ tail := by
  intro member
  rcases closing.mem member with blank | last
  · rw [visible] at blank
    cases blank
  · exact other last

/-- A sign does not reach into the tail, unless it is the one that closes an image. -/
theorem longest_eq {b : Brackets} {front : List Char} (nonempty : front ≠ [])
    (apart : front = ['|'] → b.images ≤ 0) : longest b (front ++ tail) = longest b front := by
  apply longest_append
  intro n beyond
  have some : ∃ c rest, tail = c :: rest := by
    rcases closing with ⟨blanks, rfl, _⟩
    cases blanks with
    | nil => exact ⟨')', [], rfl⟩
    | cons c blanks => exact ⟨c, blanks ++ [')'], rfl⟩
  rcases some with ⟨c, rest, head⟩
  have reached : (front ++ tail).take n = front ++ c :: rest.take (n - front.length - 1) :=
    head ▸ take_append_cons beyond c rest
  have member : c ∈ (String.ofList ((front ++ tail).take n)).toList := by simp [reached]
  rcases closing.mem (head ▸ mem_cons_self) with blank | rfl
  · exact spelledBy_of_blank blank (by simpa using member)
  · apply spelledBy_eq_none
    · intro value known
      have longer : (front ++ ')' :: rest.take (n - front.length - 1)).length ≠ 1 := by
        have length := length_pos_iff.mpr nonempty
        simp
        omega
      rcases parenthesis_spelled.1 _ known member with single | double
      · rw [String.toList_ofList, reached] at single
        exact absurd (congrArg List.length single) longer
      · have alone : front = ['|'] := by
          rw [String.toList_ofList, reached] at double
          cases front with
          | nil => exact absurd rfl nonempty
          | cons d front =>
            cases front with
            | nil => simp_all
            | cons e front => simp at double
        have closed := apart alone
        have spelled : String.ofList ((front ++ tail).take n) = "|)" := String.toList_injective double
        rw [spelled]
        simp [Brackets.allows]
        omega
    · exact fun s known => parenthesis_spelled.2 _ (mem_of_lookup known) member

theorem keepsSigns (b : Brackets) (cs : List Char) : KeepsSigns b cs tail := by
  intro front nonempty _
  by_cases apart : front = ['|']
  · exact .inr ⟨'|', apart, by decide, by decide⟩
  · exact .inl (closing.longest_eq nonempty fun bar => absurd bar apart)

/-- The parenthesis is content. -/
theorem restIsBlank_eq {cs : List Char} (plain : '%' ∉ cs) : restIsBlank (cs ++ tail) = false := by
  unfold restIsBlank
  rw [dropBlanks, dropWhile_append]
  cases left : cs.dropWhile isBlank with
  | nil =>
    rcases closing with ⟨blanks, rfl, each⟩
    rw [isEmpty_nil, if_pos rfl, dropWhile_append_of_pos each, dropWhile_cons_of_neg (by decide)]
    rfl
  | cons c more =>
    have member : c ∈ cs := (dropWhile_suffix isBlank).subset (left ▸ mem_cons_self)
    rw [if_neg (by simp), cons_append]
    dsimp only
    rw [beq_eq_false_iff_ne]
    rintro rfl
    exact plain member

/-- No rule name comes before a parenthesis. -/
theorem justification_eq {cs : List Char} (plain : '%' ∉ cs) : justification (cs ++ tail) = none := by
  have unlike : ∀ c ∈ tail, (c != ']') = true := by
    intro c member
    rw [bne_iff_ne]
    rintro rfl
    exact closing.not_mem (by decide) (by decide) member
  unfold justification
  dsimp only
  split
  next => rfl
  next =>
    cases stop : cs.drop (cs.takeWhile (· != ']')).length with
    | cons d more =>
      have same := takeWhile_append_of_stop stop tail
      have behind : more <:+ cs := by grind [drop_suffix, suffix_cons]
      rw [same.1, same.2]
      dsimp only
      rw [closing.restIsBlank_eq fun member => plain (behind.subset member)]
      rfl
    | nil =>
      have all : cs.takeWhile (· != ']') = cs := (takeWhile_sublist _).eq_of_length_le (drop_eq_nil_iff.mp stop)
      rw [takeWhile_append_of_pos (takeWhile_eq_self_iff.mp all), takeWhile_eq_self_iff.mpr unlike, drop_length]

/-- The bracket that closes a sequence is not looked for behind the parenthesis. -/
theorem closerOffset_eq_none (b : Brackets) (before : Char) (depth offset skip : Nat) :
    closerOffset b before depth offset skip tail = none := by
  have unlike : ∀ c ∈ tail, (c == '>') = false := by
    intro c member
    rw [beq_eq_false_iff_ne]
    rintro rfl
    exact closing.not_mem (by decide) (by decide) member
  clear closing
  induction tail generalizing before depth offset skip with
  | nil => cases skip <;> rfl
  | cons c cs ih =>
    have onward := fun before depth offset skip =>
      ih before depth offset skip fun d later => unlike d (mem_cons_of_mem c later)
    cases skip with
    | succ skip => exact onward ..
    | zero =>
      rw [closerOffset.eq_def _ _ _ _ _ (c :: cs)]
      dsimp only
      rw [unlike c mem_cons_self]
      split
      next => exact onward ..
      next => grind

theorem sequenceCloser_eq (b : Brackets) (tight defines : Bool) (cs : List Char) :
    sequenceCloser b tight defines (cs ++ tail) = sequenceCloser b tight defines cs := by
  cases found : sequenceCloser b tight defines cs with
  | some k => exact sequenceCloser_append (closing.keepsSigns b cs) id found
  | none =>
    unfold sequenceCloser at found ⊢
    cases cs with
    | nil =>
      rw [nil_append]
      split
      next => rfl
      next d rest =>
        have other : d ≠ '>' := by
          rintro rfl
          exact closing.not_mem (by decide) (by decide) mem_cons_self
        rw [if_neg (by simpa using other), closing.closerOffset_eq_none, ite_self]
    | cons d rest =>
      dsimp only [cons_append] at found ⊢
      split at found
      next => cases found
      next other =>
        rw [if_neg other]
        split at found
        next idle => rw [if_pos idle]
        next looks =>
          rw [if_neg looks]
          rcases closerOffset_append (closing.keepsSigns b (d :: rest)) '<' 1 1 0 with
            same | ⟨_, _, _, _, _, same⟩
          · rw [← cons_append, same, found]
          · rw [← cons_append, same, closing.closerOffset_eq_none]

end IsClosing

/-! ## Behind an opening parenthesis -/

/-- The token one column further to the right, behind the start of its line. -/
def right (t : Token) : Token :=
  { t with
    column := t.column + 1
    endColumn := t.endColumn + 1
    lineStart := false }

/-- The opening parenthesis at the start of a source. -/
def opening : Token where
  kind := .delimiter
  value := "("
  literal := "("
  line := 1
  column := 1
  endColumn := 2
  lineStart := true

/-- The state of a line that an opening parenthesis was put in front of.  White space at the start of the line is
then passed over before its first token, and so seen as a gap. -/
def Scan.enclosed (indented : Bool) (s : Scan) : Scan where
  number := s.number
  tokens := s.tokens.map right ++ [opening]
  gap := s.gap || (s.tokens.isEmpty && indented)
  brackets := s.brackets
  closers := s.closers.map (· + 1)

namespace Scan

theorem isTight_enclosed (indented : Bool) (s : Scan) : (s.enclosed indented).isTight = s.isTight := by
  unfold isTight enclosed
  cases s.tokens with
  | nil => simp [opening, endsOperand]
  | cons t tokens => simp [right, endsOperand]

theorem isEmpty_enclosed (indented : Bool) (s : Scan) : (s.enclosed indented).tokens.isEmpty = false := by
  simp [enclosed]

theorem contains_enclosed (indented : Bool) (s : Scan) (pos : Nat) :
    (s.enclosed indented).closers.contains (pos + 1) = s.closers.contains pos := by
  simp [enclosed]

theorem opens_enclosed (indented : Bool) (s : Scan) (pos k : Nat) :
    { s with closers := (pos + k) :: s.closers }.enclosed indented =
      { s.enclosed indented with closers := (pos + 1 + k) :: (s.enclosed indented).closers } := by
  simp [enclosed]
  omega

end Scan

namespace Reading

/-- A token that is read by itself: no prose, no rule name, and no mark that the line goes on. -/
def IsPlain (t : Token) : Prop := t.kind ≠ .text ∧ t.kind ≠ .justification ∧ t.isDelim "\\" = false

theorem addLexeme_enclosed {indented : Bool} {s : Scan} {pos : Nat}
    (start : s.tokens = [] → decide (0 < pos) = indented) {lexeme : Lexeme} {rest rest' : List Char}
    (same : rest'.take lexeme.length = rest.take lexeme.length) :
    addLexeme (s.enclosed indented) lexeme (pos + 1) rest' = (addLexeme s lexeme pos rest).enclosed indented := by
  unfold addLexeme Scan.emit
  rw [same, Scan.isEmpty_enclosed]
  unfold Scan.enclosed right
  cases empty : s.tokens with
  | nil =>
    rw [← start empty]
    simp
    omega
  | cons t tokens =>
    simp
    omega

variable {r : Reading} {defines : Bool} {s s₁ s' : Scan} {pos : Nat} {c : Char} {cs tail : List Char} {lexeme : Lexeme}

/-- A word that opens prose before a tail opens it without the tail, unless the tail makes the sentence or its place
on the line does. -/
theorem isProse_of_word {rules : ProseRules} {midLine midLine' : Bool} (stops : Stops tail)
    (plain : (word rules midLine cs).kind ≠ .text)
    (text : (word rules midLine' (cs ++ tail)).kind = .text) :
    Prose.isProse rules (String.ofList (cs ++ tail)) false = true ∧
      (midLine = true → Prose.isProse rules (String.ofList cs) false = false) := by
  unfold word at plain text
  dsimp only at plain text
  rw [drop_takeWhile_append_tail stops.not_namePart, takeWhile_append_tail stops.not_namePart,
    spacedIn_append stops] at text
  split at text
  next => cases text
  next notIn => grind

/-- What is plain is read in parentheses as without them. -/
theorem lexemeAt_enclosed (standard : r.rules = ProseRules.standard) (closing : IsClosing tail) (plain : '%' ∉ cs)
    (found : r.lexemeAt defines s pos c cs = .ok (s₁, lexeme)) (prose : lexeme.kind ≠ .text)
    (rule : lexeme.kind ≠ .justification) (ended : lexeme.kind = .delimiter → lexeme.value ≠ "\\")
    (first : s.tokens = [] → Prose.isProse r.rules (String.ofList (c :: cs)) true = false)
    (apart : c :: cs = ['|'] → s.brackets.images ≤ 0) (indented : Bool) :
    r.lexemeAt defines (s.enclosed indented) (pos + 1) c (cs ++ tail) = .ok (s₁.enclosed indented, lexeme) := by
  rw [lexemeAt_eq_ok_iff] at found
  cases closed : s.closers.contains pos with
  | true =>
    obtain ⟨rfl, rfl⟩ := found.unique (.closer closed)
    exact lexemeAt_eq_ok_iff.mpr (.closer ((Scan.contains_enclosed ..).trans closed))
  | false =>
    have seen : SeenAlike r defines defines s (s.enclosed indented) c cs (cs ++ tail) :=
      { brackets := rfl
        tight := s.isTight_enclosed indented
        blank := by
          rintro rfl
          rw [closing.restIsBlank_eq plain]
          cases blank : restIsBlank cs with
          | false => rfl
          | true =>
            obtain ⟨_, rfl⟩ := found.unique (.continuation closed rfl blank)
            exact absurd rfl (ended rfl)
        rule := by
          rintro rfl
          have none : (s.enclosed indented).justification (cs ++ tail) = none := by
            unfold Scan.justification
            split
            next => rfl
            next => exact closing.justification_eq plain
          rw [none]
          cases named : s.justification cs with
          | none => rfl
          | some other =>
            obtain ⟨_, rfl⟩ := found.unique (.rule closed rfl named)
            exact absurd (kind_of_justification named) rule
        number := fun _ => number_append closing.stops (c :: cs)
        symbol := closing.longest_eq (cons_ne_nil c cs) apart
        word := by
          intro opens
          obtain ⟨_, rfl⟩ := found.unique (.word closed opens)
          refine word_append closing.stops prose fun text => ?_
          rcases isProse_of_word closing.stops prose text with ⟨enclosed, unenclosed⟩
          have sentence : Prose.isProse r.rules (String.ofList (c :: cs)) false = true := by
            rcases closing with ⟨blanks, rfl, each⟩
            rw [standard, ← append_assoc, Prose.isProse_close each] at enclosed
            rw [standard]
            exact enclosed
          cases empty : s.tokens with
          | nil => grind [Prose.isProse_lineStart]
          | cons t tokens => grind
        closer := fun _ _ _ _ => closing.sequenceCloser_eq ..  }
    exact lexemeAt_of_seenAlike (Scan.enclosed indented) seen (s.contains_enclosed indented pos) (fun _ => rfl)
      (s.opens_enclosed indented pos) (lexemeAt_eq_ok_iff.mpr found)

/-! ## A row of tokens -/

/-- The brackets that close sequences are looked for on the line. -/
theorem closers_of_lexemeAt (found : r.lexemeAt defines s pos c cs = .ok (s₁, lexeme)) :
    ∀ p ∈ s₁.closers, p ∈ s.closers ∨ p < pos + (c :: cs).length := by
  rw [lexemeAt_eq_ok_iff] at found
  intro p member
  cases found with
  | closer | continuation | rule | number | word => exact .inl member
  | sign _ _ _ _ _ sign =>
    cases sign with
    | sequence _ _ _ closer => grind [sequenceCloser_points, length_cons]
    | less | raised | operator | delimiter | other => exact .inl member

theorem Scans.closers_lt (scans : Scans r defines pos s cs s') (inside : ∀ p ∈ s.closers, p < pos + cs.length) :
    ∀ p ∈ s'.closers, p < pos + cs.length := by
  induction scans with
  | done | comment => exact inside
  | blank _ _ ih => grind
  | @lexeme pos s s₁ s' c cs lexeme visible _ found _ ih =>
    have reaches := (extends_of_lexemeAt found visible).2.1
    have total : pos + lexeme.length + ((c :: cs).drop lexeme.length).length = pos + (c :: cs).length := by
      have length := reaches.inside
      rw [length_drop]
      omega
    rw [total] at ih
    apply ih
    intro p member
    rcases closers_of_lexemeAt found p member with before | here
    · exact inside p before
    · exact here

theorem bar_spelled : ∀ p ∈ delimiters, p.1.toList.head? = some '|' → p.2 = "|" ∨ p.1.toList = ['|', ')'] := by
  decide

/-- A bar at the end of a line is no bracket. -/
theorem brackets_of_bar (found : r.lexemeAt defines s pos '|' [] = .ok (s₁, lexeme)) : s₁.brackets = s.brackets := by
  rw [brackets_of_lexemeAt found]
  split
  next delimiter =>
    rcases (lexemeAt_eq_ok_iff.mp found).delimiter (eq_of_beq delimiter) with value | value | ⟨rfl, _⟩ | ⟨_, longest⟩
    · rw [value]; rfl
    · rw [value]; rfl
    · rfl
    · rcases of_longest longest with ⟨n, positive, inside, ⟨value, spelled, rfl⟩ | ⟨sign, _, rfl⟩⟩
      · rcases bar_spelled _ spelled (head_take positive '|' []) with bar | image
        · exact congrArg s.brackets.track bar
        · rw [String.toList_ofList, take_of_length_le positive] at image
          cases image
      · exact absurd (eq_of_beq delimiter) (kindOf_ne_delimiter sign)
  next => rfl

/-- A row of plain tokens is read in parentheses as without them, and then the closing parenthesis. -/
theorem Scans.enclosed {indented : Bool} (standard : r.rules = ProseRules.standard) (closing : IsClosing tail)
    (scans : Scans r defines pos s cs s') (noComment : '%' ∉ cs) (plain : ∀ t ∈ s'.tokens, IsPlain t)
    (tracked : s.brackets = bracketsAfter s.tokens) (closed : (bracketsAfter s'.tokens).images ≤ 0)
    (start : s.tokens = [] → decide (0 < pos) = indented ∧ Prose.isProse r.rules (String.ofList cs) true = false ∧
      ∀ c ∈ cs.head?, isBlank c = false) :
    r.scan defines (pos + 1) 0 (s.enclosed indented) (cs ++ tail) =
      r.scan defines (pos + 1 + cs.length) 0 (s'.enclosed indented) tail := by
  induction scans with
  | done => rfl
  | comment => exact absurd mem_cons_self noComment
  | @blank pos s s' c cs blank _ ih =>
    have some : s.tokens ≠ [] := by grind
    rw [cons_append, scan, if_pos blank, length_cons, Nat.add_comm cs.length, ← Nat.add_assoc]
    exact ih (fun member => noComment (mem_cons_of_mem c member)) plain tracked closed
      fun empty => absurd empty some
  | @lexeme pos s s₁ s' c cs lexeme visible notComment found scans ih =>
    obtain ⟨same, reaches, _⟩ := extends_of_lexemeAt found visible
    have length := reaches.inside
    obtain ⟨t, added, kind, value, _⟩ := addLexeme_eq_cons same lexeme pos (c :: cs)
    have brackets := tracked_addLexeme tracked visible found
    have member : t ∈ s'.tokens := scans.suffix.subset (added ▸ mem_cons_self)
    obtain ⟨prose, rule, ended⟩ := plain t member
    rw [kind] at prose rule
    have ended' : lexeme.kind = .delimiter → lexeme.value ≠ "\\" := by
      intro delimiter backslash
      simp [Token.isDelim, Token.is, kind, value, delimiter, backslash] at ended
    have apart : c :: cs = ['|'] → s.brackets.images ≤ 0 := by
      intro bar
      cases bar
      have whole : ['|'].drop lexeme.length = [] := by
        rw [drop_eq_nil_iff]
        exact reaches.nonempty
      rw [whole] at scans
      cases scans
      rw [← brackets] at closed
      have unchanged : (addLexeme s₁ lexeme pos ['|']).brackets = s₁.brackets := rfl
      rw [unchanged, brackets_of_bar found] at closed
      exact closed
    have found' := lexemeAt_enclosed standard closing (fun among => noComment (mem_cons_of_mem c among)) found
      prose rule ended' (fun empty => (start empty).2.1) apart indented
    have tokens : s₁.tokens = s.tokens := same.1
    have state : addLexeme (s₁.enclosed indented) lexeme (pos + 1) (c :: (cs ++ tail)) =
        (addLexeme s₁ lexeme pos (c :: cs)).enclosed indented := by
      apply addLexeme_enclosed
      · intro empty
        exact (start (tokens ▸ empty)).1
      · rw [← cons_append, take_append_of_le_length length]
    rw [cons_append, scan_of_lexemeAt visible notComment found', state, ← cons_append,
      drop_append_of_le_length length, Nat.add_right_comm]
    have total : pos + lexeme.length + 1 + ((c :: cs).drop lexeme.length).length = pos + 1 + (c :: cs).length := by
      rw [length_drop]
      omega
    rw [← total]
    exact ih (fun among => noComment ((drop_suffix lexeme.length (c :: cs)).subset among)) plain brackets closed
      fun empty => absurd empty (by rw [added]; simp)

/-! ## Lines -/

theorem parenthesis_opens : (∀ p ∈ delimiters, p.1.toList.head? = some '(' ∨ p.1.toList.head? = some ')' →
    p.1.toList.length = 1 ∨ p.1.toList = ['(', '|']) ∧
    ∀ p ∈ Symbol.symbolicSpellings, p.1.toList.head? ≠ some '(' ∧ p.1.toList.head? ≠ some ')' := by
  decide

/-- Behind a mark of continuation there is no token. -/
theorem Scans.tokens_of_blank (scans : Scans r defines pos s cs s') (blank : restIsBlank cs = true) :
    s'.tokens = s.tokens := by
  induction scans with
  | done | comment => rfl
  | blank passed _ ih =>
    rw [restIsBlank, dropBlanks, dropWhile_cons_of_pos passed] at blank
    exact ih blank
  | lexeme visible noComment =>
    rw [restIsBlank, dropBlanks, dropWhile_cons_of_neg (by simp [visible])] at blank
    exact absurd (eq_of_beq blank) noComment

theorem backslash_not_listed : ∀ p ∈ delimiters, p.2 ≠ "\\" := by
  decide

/-- A mark of continuation stands in front of nothing but white space. -/
theorem blank_of_continuation (found : r.lexemeAt defines s pos c cs = .ok (s₁, lexeme))
    (delimiter : lexeme.kind = .delimiter) (value : lexeme.value = "\\") :
    lexeme.length = 1 ∧ restIsBlank cs = true := by
  rcases (lexemeAt_eq_ok_iff.mp found).delimiter delimiter with other | other | ⟨rfl, blank⟩ | ⟨_, longest⟩
  · simp [other] at value
  · simp [other] at value
  · exact ⟨rfl, blank⟩
  · rcases of_longest longest with ⟨n, _, _, ⟨_, listed, rfl⟩ | ⟨symbol, _, rfl⟩⟩
    · exact absurd value (backslash_not_listed _ listed)
    · exact absurd delimiter (kindOf_ne_delimiter symbol)

/-- A mark of continuation is the last token of its row. -/
theorem Scans.unbroken (scans : Scans r defines pos s cs s') (unbroken : ∀ t ∈ s.tokens, t.isDelim "\\" = false) :
    ∀ t ∈ s'.tokens.tail, t.isDelim "\\" = false := by
  induction scans with
  | done | comment => exact fun t later => unbroken t (mem_of_mem_tail later)
  | blank _ _ ih => exact ih unbroken
  | @lexeme pos s s₁ s' c cs lexeme visible _ found scans ih =>
    rcases extends_of_lexemeAt found visible with ⟨same, _, _⟩
    rcases addLexeme_eq_cons same lexeme pos (c :: cs) with ⟨t, added, kind, value, _⟩
    by_cases breaks : t.isDelim "\\" = true
    · simp only [Token.isDelim, Token.is, Bool.and_eq_true, beq_iff_eq, kind, value] at breaks
      rcases blank_of_continuation found breaks.1 breaks.2 with ⟨length, blank⟩
      rw [length, drop_one, tail_cons] at scans
      rw [scans.tokens_of_blank blank, added]
      exact unbroken
    · grind

/-- A parenthesis is a delimiter by itself, unless it opens an image. -/
theorem longest_parenthesis {rest : List Char} (listed : c = '(' ∧ rest.head? ≠ some '|' ∨ c = ')') (b : Brackets) :
    longest b (c :: rest) = some ⟨.delimiter, String.singleton c, 1⟩ := by
  have parenthesis : some c = some '(' ∨ some c = some ')' := by
    rcases listed with ⟨rfl, _⟩ | rfl <;> simp
  have longer (n : Nat) (more : 2 ≤ n) : spelledBy b (c :: rest) n = none := by
    have head := head_take (n := n) (by omega) c rest
    by_cases short : ((c :: rest).take n).length < n
    · rw [spelledBy, if_pos short]
    · apply spelledBy_eq_none
      · intro value known
        rcases parenthesis_opens.1 _ known (by rw [head]; exact parenthesis) with single | image
        · rw [String.toList_ofList] at single
          omega
        · rcases listed with ⟨rfl, other⟩ | rfl
          · rw [String.toList_ofList] at image
            cases rest with
            | nil => simp at short; omega
            | cons d rest => grind
          · rw [image] at head
            cases head
      · intro s known
        have other := parenthesis_opens.2 _ (mem_of_lookup known)
        rw [head] at other
        rcases parenthesis with same | same
        · exact other.1 same
        · exact other.2 same
  have single : spelledBy b (c :: rest) 1 = some ⟨.delimiter, String.singleton c, 1⟩ := by
    rcases listed with ⟨rfl, _⟩ | rfl <;> rfl
  simp [longest, longer, single]

/-- A parenthesis that closes no sequence is a token by itself. -/
theorem lexemeAt_parenthesis {rest : List Char} (listed : c = '(' ∧ rest.head? ≠ some '|' ∨ c = ')')
    (unclosed : ∀ p ∈ s.closers, p < pos) :
    r.lexemeAt defines s pos c rest = .ok (s, ⟨.delimiter, String.singleton c, 1⟩) := by
  have open_ : s.closers.contains pos = false := by grind
  have tracks : ({ s with brackets := s.brackets.track (String.singleton c) } : Scan) = s := by
    rcases listed with ⟨rfl, _⟩ | rfl <;> rfl
  have sign : SignAt defines s pos c rest s ⟨.delimiter, String.singleton c, 1⟩ := by
    have sign := @SignAt.delimiter defines s pos c rest _ (longest_parenthesis listed s.brackets) rfl
    rw [tracks] at sign
    exact sign
  rw [lexemeAt_eq_ok_iff]
  rcases listed with ⟨rfl, _⟩ | rfl
  · exact .sign open_ (by simp) (by simp) (by decide) (opensWord_eq_false (by decide)) sign
  · exact .sign open_ (by simp) (by simp) (by decide) (opensWord_eq_false (by decide)) sign

theorem scan_closing (closing : IsClosing tail) (unclosed : ∀ p ∈ s.closers, p < pos) :
    ∃ s' t, r.scan defines pos 0 s tail = .ok s' ∧
      s'.tokens = t :: s.tokens ∧ t.isDelim ")" = true ∧ s'.number = s.number := by
  rcases closing with ⟨blanks, rfl, each⟩
  induction blanks generalizing pos s with
  | nil =>
    rw [nil_append, scan_of_lexemeAt (by decide) (by decide) (lexemeAt_parenthesis (.inr rfl) unclosed)]
    exact ⟨_, _, rfl, rfl, rfl, rfl⟩
  | cons b blanks ih =>
    rw [cons_append, scan, if_pos (each b mem_cons_self)]
    exact ih (s := { s with gap := true }) (fun p member => Nat.lt_succ_of_lt (unclosed p member))
      fun c later => each c (mem_cons_of_mem b later)

theorem occursIn_open {needle : List Char} (other : needle.head? ≠ some '(') (nonempty : needle ≠ []) (cs : List Char) :
    occursIn needle ('(' :: cs) = occursIn needle cs := by
  cases needle with
  | nil => exact absurd rfl nonempty
  | cons c needle =>
    have other : c ≠ '(' := by simpa using other
    simp [occursIn, other]

theorem occursIn_closing {needle : List Char} (closing : IsClosing tail)
    (other : (needle.all fun c => !isBlank c && c != ')') = true) (some : needle ≠ []) (cs : List Char) :
    occursIn needle (cs ++ tail) = occursIn needle cs := by
  have apart : ∀ c ∈ needle, c ∉ tail := by
    intro c member
    have other := all_eq_true.mp other c member
    rw [Bool.and_eq_true, Bool.not_eq_true', bne_iff_ne] at other
    exact closing.not_mem other.1 other.2
  have leads (front : List Char) : needle.isPrefixOf (front ++ tail) = needle.isPrefixOf front := by
    refine isPrefixOf_append fun more split reaches => ?_
    cases more with
    | nil => rfl
    | cons c more => exact absurd (reaches.subset mem_cons_self) (apart c (by simp [split]))
  have nowhere : ∀ back, (∀ c ∈ back, c ∈ tail) → occursIn needle back = false := by
    intro back
    induction back with
    | nil => simpa [occursIn] using some
    | cons c back ih =>
      intro among
      rw [occursIn, ih fun d later => among d (mem_cons_of_mem c later), Bool.or_false]
      cases needle with
      | nil => exact absurd rfl some
      | cons d needle => grind
  induction cs with
  | nil => rw [nil_append, nowhere tail fun _ member => member, nowhere [] (by simp)]
  | cons c cs ih => rw [cons_append, occursIn, ← cons_append, leads, ih, occursIn]

theorem opensExpr_blockKeyword : ∀ k ∈ Symbol.blockKeywords, Parse.opensExpr .keyword k = false := by
  decide

theorem opensExpr_bar : (∀ p ∈ delimiters, p.1.toList.head? = some '|' → Parse.opensExpr .delimiter p.2 = false) ∧
    ∀ p ∈ Symbol.symbolicSpellings, p.1.toList.head? = some '|' → Parse.opensExpr (kindOf p.2) p.2.name = false := by
  decide

theorem getLast_of_suffix {t : Token} {tokens : List Token} (bottom : [t] <:+ tokens) : tokens.getLast? = some t := by
  rcases bottom with ⟨front, rfl⟩
  simp

/-- A line whose first token can begin an expression is a row without a label or a keyword in front of it. -/
theorem scan_of_plainLine {line : List Char} {capture : Capture}
    (read : r.plainLine { number := 1 } line = .ok (s, capture)) {t : Token} (first : s.tokens.getLast? = some t)
    (opens : Parse.opensExpr t.kind t.value = true) :
    dropBlanks line ≠ [] ∧ Prose.isProse r.rules (String.ofList (trimBlanks line)) true = false ∧
      r.scan (occursIn "::=".toList line) (line.length - (dropBlanks line).length) 0 { number := 1 }
        (dropBlanks line) = .ok s := by
  have other {u : Token} (bottom : [u] <:+ s.tokens) (closed : Parse.opensExpr u.kind u.value = false) : False := by
    cases (getLast_of_suffix bottom).symm.trans first
    rw [opens] at closed
    cases closed
  have plain {result : Except Fault Scan} (off : result.map (fun s => (s, Capture.off)) = .ok (s, capture)) :
      result = .ok s := by
    rcases map_eq_ok.mp off with ⟨_, found, same⟩
    cases same
    exact found
  have titled {start : Nat} {trimmed mark : List Char} {kind : Kind} {what : String}
      (header : r.header { number := 1 } start trimmed mark kind what = .ok s)
      (closed : ∀ value, Parse.opensExpr kind value = false) : False := by
    unfold Reading.header at header
    split at header
    · cases header
    · cases header
      exact other suffix_rfl (closed _)
  unfold plainLine at read
  dsimp only at read
  split at read
  · cases read
    cases first
  split at read
  · exact (titled (plain read) fun _ => rfl).elim
  split at read
  · exact (titled (plain read) fun _ => rfl).elim
  split at read
  next keyword opened =>
    have closed := opensExpr_blockKeyword keyword (mem_of_find?_eq_some opened)
    exfalso
    unfold Reading.block at read
    dsimp only at read
    split at read
    · split at read
      · cases read
        exact other suffix_rfl closed
      · cases read
        exact other (suffix_cons _ _) closed
    · split at read
      next row =>
        cases read
        exact other (tokens_suffix_of_scan row) closed
      next => cases read
  next =>
    split at read
    · cases read
      exact (other suffix_rfl rfl).elim
    next prose =>
      split at read
      · exact (other (tokens_suffix_of_scan (plain read)) rfl).elim
      split at read
      · exact (other (tokens_suffix_of_scan (plain read)) rfl).elim
      refine ⟨fun empty => ?_, Bool.eq_false_iff.mpr prose, plain read⟩
      have row := plain read
      rw [empty] at row
      cases row
      cases first

/-- An expression does not begin with a bar. -/
theorem head_ne_bar (read : r.scan defines pos 0 { number := 1 } (c :: cs) = .ok s) {t : Token}
    (first : s.tokens.getLast? = some t) (opens : Parse.opensExpr t.kind t.value = true) : c ≠ '|' := by
  rintro rfl
  rcases lexemeAt_of_scan (by decide) (by decide) read with ⟨s₁, lexeme, found, onward⟩
  rcases addLexeme_eq_cons (extends_of_lexemeAt found (by decide)).1 lexeme pos ('|' :: cs) with
    ⟨u, added, kind, value, _⟩
  cases (getLast_of_suffix (added ▸ tokens_suffix_of_scan onward)).symm.trans first
  rw [kind, value] at opens
  rw [lexemeAt_eq_ok_iff] at found
  have closed {sign : Lexeme} (longest : longest ({} : Brackets) ('|' :: cs) = some sign) :
      Parse.opensExpr sign.kind sign.value = false := by
    rcases of_longest longest with ⟨n, positive, _, ⟨_, spelled, rfl⟩ | ⟨_, known, rfl⟩⟩
    · exact opensExpr_bar.1 _ spelled (head_take positive '|' cs)
    · exact opensExpr_bar.2 _ (mem_of_lookup known) (head_take positive '|' cs)
  cases found with
  | closer closed => cases closed
  | continuation _ backslash => cases backslash
  | rule _ bracket => cases bracket
  | number _ digit => exact absurd digit (by decide)
  | word _ letter => exact absurd (letter_of_opensWord letter) (by decide)
  | sign _ _ _ _ _ sign =>
    cases sign with
    | sequence longest operator less => cases less_of_longest longest operator less
    | raised _ _ _ caret => cases caret
    | less longest | operator longest | delimiter longest | other longest => cases (closed longest).symm.trans opens

/-! ## Part labels -/

theorem partLabel_spelled : ∀ label ∈ partLabels, label.toList ≠ [] ∧ label ≠ "not" ∧ Symbol.ofWord label = none ∧
    ∀ c ∈ label.toList, isLetter c = true ∧ c.toNat < 0x7F := by
  have each : ∀ label ∈ partLabels, label.toList ≠ [] ∧ label ≠ "not" ∧ Symbol.ofWord label = none ∧
      (label.toList.all fun c => isLetter c && decide (c.toNat < 0x7F)) = true := by decide
  intro label member
  rcases each label member with ⟨nonempty, different, unknown, letters⟩
  exact ⟨nonempty, different, unknown, fun c inside => by simpa using all_eq_true.mp letters c inside⟩

/-- Parentheses make a part label of a label, and of what begins with one and a closing parenthesis. -/
theorem partLabel_enclosed {letters : List Char} (found : partLabel ('(' :: (cs ++ [')'])) = some letters) :
    String.ofList letters ∈ partLabels ∧ (letters = cs ∨ ∃ more, cs = letters ++ ')' :: more) := by
  have ends : ∀ c ∈ [')'].head?, isLower c = false := by
    rintro c ⟨⟩
    decide
  simp only [partLabel] at found
  rw [drop_takeWhile_append_tail ends, takeWhile_append_tail ends] at found
  split at found
  next after behind =>
    split at found
    next known =>
      cases found
      rw [Bool.and_eq_true] at known
      refine ⟨contains_iff_mem.mp known.1, ?_⟩
      cases left : cs.drop (cs.takeWhile isLower).length with
      | nil => exact .inl ((takeWhile_sublist _).eq_of_length_le (drop_eq_nil_iff.mp left))
      | cons d more => grind [drop_length_takeWhile, takeWhile_append_dropWhile]
    next => cases found
  next => cases found

/-- Before a closing parenthesis a label is a name. -/
theorem word_of_label {letters : List Char} (label : String.ofList letters ∈ partLabels) (rules : ProseRules)
    (more : List Char) : word rules false (letters ++ ')' :: more) =
      ⟨.identifier, String.ofList letters, letters.length⟩ := by
  rcases partLabel_spelled _ label with ⟨_, different, unknown, each⟩
  rw [String.toList_ofList] at each
  have taken : (letters ++ ')' :: more).takeWhile isNamePart = letters := by
    rw [takeWhile_append_of_pos fun c member => by simp [isNamePart, (each c member).1],
      takeWhile_cons_of_neg (by decide), append_nil]
  have undecorated : decorations (')' :: more) = [] := rfl
  unfold word
  dsimp only
  rw [taken, drop_left, if_neg (by simp [different]), unknown]
  dsimp only
  rw [Bool.false_and, Bool.false_and, if_neg (by simp), undecorated, append_nil]

/-- The tokens of a line that begins with a label and a closing parenthesis. -/
theorem tokens_of_label {letters more : List Char} (label : String.ofList letters ∈ partLabels)
    (read : r.scan defines 0 0 { number := 1 } (letters ++ ')' :: more) = .ok s) :
    ∃ t u, [u, t] <:+ s.tokens ∧ t.kind = .identifier ∧ u.isDelim ")" = true := by
  have word := word_of_label label r.rules more
  rcases partLabel_spelled _ label with ⟨nonempty, _, _, each⟩
  rw [String.toList_ofList] at nonempty each
  have behind : (letters ++ ')' :: more).drop letters.length = ')' :: more := drop_left
  cases letters with
  | nil => exact absurd rfl nonempty
  | cons c letters =>
    rcases each c mem_cons_self with ⟨letter, low⟩
    rcases visible_of_head (.inl letter) with ⟨visible, noComment, _, _⟩
    have opens : opensWord ({} : Brackets) c (letters ++ ')' :: more) = true := by
      simp [opensWord, letter, low]
    have found : r.lexemeAt defines { number := 1 } 0 c (letters ++ ')' :: more) =
        .ok ({ number := 1 }, ⟨.identifier, String.ofList (c :: letters), (c :: letters).length⟩) := by
      rw [← word]
      exact lexemeAt_eq_ok_iff.mpr (.word rfl opens)
    rw [cons_append, scan_of_lexemeAt visible (by simpa using noComment) found, ← cons_append, behind,
      scan_of_lexemeAt (by decide) (by decide) (lexemeAt_parenthesis (.inr rfl) (by simp [addLexeme, Scan.emit]))]
      at read
    exact ⟨_, _, tokens_suffix_of_scan read, rfl, rfl⟩

/-! ## Sources -/

/-- White space in front of the first token is passed over, and leaves a gap. -/
theorem scan_indent (r : Reading) (defines : Bool) (s : Scan) (pos : Nat) (cs : List Char) :
    r.scan defines pos 0 s cs = r.scan defines (pos + (cs.length - (dropBlanks cs).length)) 0
      { s with gap := s.gap || decide (0 < cs.length - (dropBlanks cs).length) } (dropBlanks cs) := by
  cases cs with
  | nil => simp [dropBlanks]
  | cons c cs =>
    cases blank : isBlank c with
    | false =>
      have whole : dropBlanks (c :: cs) = c :: cs := dropWhile_cons_of_neg (by simp [blank])
      simp [whole]
    | true =>
      have passed : dropBlanks (c :: cs) = dropBlanks cs := dropWhile_cons_of_pos blank
      have shorter := length_dropBlanks_le cs
      have some : 0 < (c :: cs).length - (dropBlanks cs).length := by
        rw [length_cons]
        omega
      rw [scan, if_pos blank, scan_dropBlanks r defines (s := { s with gap := true }) rfl, passed,
        decide_eq_true some, Bool.or_true]
      congr 1
      rw [length_cons]
      omega

/-- The tokens of a formula, as far as parentheses around it depend on them. -/
structure IsFormula (row : List Token) : Prop where
  first : ∃ t rest, row = t :: rest ∧ Parse.opensExpr t.kind t.value = true
  plain : ∀ t ∈ row, IsPlain t
  closed : (bracketsAfter row.reverse).images ≤ 0
  apart : ∀ t u rest, row = t :: u :: rest → t.kind = .identifier → u.isDelim ")" = false

section
variable {line tail : List Char} (closing : IsClosing tail)
include closing

theorem trimBlanks_enclosed (line : List Char) : trimBlanks ('(' :: (line ++ tail)) = '(' :: (line ++ tail) := by
  rw [trimBlanks, dropBlanks, dropWhile_cons_of_neg (by decide), dropTrailing_eq_self]
  rcases closing with ⟨blanks, rfl, _⟩
  rw [← append_assoc, ← cons_append, List.getLast?_append]
  intro c last
  cases last
  decide

theorem keyword_enclosed (line : List Char) :
    Symbol.blockKeywords.find? (fun k => k.toList.isPrefixOf (trimBlanks ('(' :: (line ++ tail)))) = none := by
  rw [trimBlanks_enclosed closing, List.find?_eq_none]
  have heads : ∀ k ∈ Symbol.blockKeywords, k.toList ≠ [] ∧ k.toList.head? ≠ some '(' := by decide
  intro k member
  rcases heads k member with ⟨nonempty, other⟩
  cases letters : k.toList with
  | nil => exact absurd letters nonempty
  | cons c more => grind

/-- A line in parentheses is read token by token if it is no prose without them. -/
theorem isScanned_enclosed (standard : r.rules = ProseRules.standard)
    (noProse : Prose.isProse r.rules (String.ofList (trimBlanks line)) true = false) :
    r.isScanned ('(' :: (line ++ tail)) = true := by
  have noProse' : Prose.isProse r.rules (String.ofList ('(' :: (line ++ tail))) true = false := by
    apply Bool.eq_false_iff.mpr
    intro prose
    have inner := Prose.isProse_open prose
    rcases closing with ⟨blanks, rfl, each⟩
    rw [standard] at inner noProse
    rw [← append_assoc, Prose.isProse_close each] at inner
    rw [Prose.isProse_trimBlanks, inner] at noProse
    cases noProse
  unfold isScanned
  dsimp only
  rw [keyword_enclosed closing, trimBlanks_enclosed closing, noProse']
  simp

theorem front_enclosed (unlabelled : partLabel ('(' :: (line ++ tail)) = none) (s : Scan) :
    front s ('(' :: (line ++ tail)) = (0, s) := by
  have whole : dropBlanks ('(' :: (line ++ tail)) = '(' :: (line ++ tail) := dropWhile_cons_of_neg (by decide)
  have noLabel : label ('(' :: (line ++ tail)) = none := by simp [label]
  unfold front
  dsimp only
  rw [keyword_enclosed closing, whole, noLabel, unlabelled, Nat.sub_self]

theorem scan_enclosed (standard : r.rules = ProseRules.standard) (noComment : '%' ∉ line) {capture : Capture}
    (read : r.plainLine { number := 1 } line = .ok (s, capture)) (formula : IsFormula s.tokens.reverse) :
    ∃ s' close, r.scan (occursIn "::=".toList ('(' :: (line ++ tail))) 0 0 { number := 1 }
      ('(' :: (line ++ tail)) = .ok s' ∧ s'.tokens = close :: (s.tokens.map right ++ [opening]) ∧
        close.isDelim ")" = true ∧ s'.number = s.number := by
  rcases formula.first with ⟨t, more, tokens, opens⟩
  have first : s.tokens.getLast? = some t := by rw [← List.head?_reverse, tokens]; rfl
  rcases scan_of_plainLine read first opens with ⟨content, noProse, row⟩
  have defines : occursIn "::=".toList ('(' :: (line ++ tail)) = occursIn "::=".toList line := by
    rw [occursIn_open (by decide) (by decide), occursIn_closing closing (by decide) (by decide)]
  cases here : dropBlanks line with
  | nil => exact absurd here content
  | cons c rest =>
    have noBar : (line ++ tail).head? ≠ some '|' := by
      cases line with
      | nil => exact absurd rfl content
      | cons d line =>
        rw [cons_append, List.head?_cons]
        rintro same
        cases same
        have whole : dropBlanks ('|' :: line) = '|' :: line := dropWhile_cons_of_neg (by decide)
        rw [whole] at row
        exact head_ne_bar row first opens rfl
    have indent : (line ++ tail).length - (dropBlanks line ++ tail).length =
        line.length - (dropBlanks line).length := by
      rw [length_append, length_append]
      omega
    have behind : '%' ∉ dropBlanks line := fun member => noComment ((dropWhile_suffix isBlank).subset member)
    have noProse' : Prose.isProse r.rules (String.ofList (dropBlanks line)) true = false := by
      rw [← Prose.isProse_trimBlanks, trimBlanks, dropBlanks_dropBlanks]
      exact noProse
    have scans := scan_eq_ok_iff.mp row
    have enclosed := scans.enclosed standard closing behind
      (fun t member => formula.plain t (mem_reverse.mpr member)) rfl
      (by rw [← reverse_reverse s.tokens]; exact formula.closed)
      fun _ => ⟨rfl, noProse', by rw [here]; exact fun d first => Option.some.inj first ▸ head_dropBlanks here⟩
    have unclosed : ∀ p ∈ (s.enclosed (decide (0 < line.length - (dropBlanks line).length))).closers,
        p < line.length - (dropBlanks line).length + 1 + (dropBlanks line).length := by
      simp only [Scan.enclosed, mem_map, forall_exists_index, and_imp, forall_apply_eq_imp_iff₂]
      intro p member
      have before := scans.closers_lt (by simp) p member
      omega
    rcases scan_closing (r := r) closing unclosed with ⟨s', close, ended, added, closes, number⟩
    refine ⟨s', close, ?_, added, closes, number⟩
    rw [defines, scan_of_lexemeAt (by decide) (by decide) (lexemeAt_parenthesis (.inl ⟨rfl, noBar⟩) (by simp)),
      drop_one, tail_cons, scan_indent, dropBlanks_append content, indent, Nat.zero_add, Nat.add_comm 1]
    exact enclosed.trans ended

end

/-- What is read as a part label, from a formula in parentheses, is the whole formula: a formula does not go on with
the closing parenthesis of a label. -/
theorem unlabelled_of_formula {source : String} {capture : Capture}
    (read : r.plainLine { number := 1 } (dropReturns source.toList) = .ok (s, capture))
    (formula : IsFormula s.tokens.reverse) (unlabelled : source ∉ partLabels) :
    partLabel ('(' :: (source.toList ++ [')'])) = none := by
  cases found : partLabel ('(' :: (source.toList ++ [')'])) with
  | none => rfl
  | some letters =>
    exfalso
    rcases partLabel_enclosed found with ⟨label, rfl | ⟨more, goesOn⟩⟩
    · rw [String.ofList_toList] at label
      exact unlabelled label
    · rcases dropTrailing_append_cons (p := (· == '\r')) (c := ')') (by decide) letters more with ⟨more', line⟩
      rw [goesOn, dropReturns, line] at read
      rcases formula.first with ⟨t, rest, tokens, opens⟩
      rcases scan_of_plainLine read (by rw [← List.head?_reverse, tokens]; rfl) opens with ⟨_, _, row⟩
      have whole : dropBlanks (letters ++ ')' :: more') = letters ++ ')' :: more' := by
        rcases partLabel_spelled _ label with ⟨nonempty, _, _, each⟩
        rw [String.toList_ofList] at nonempty each
        cases letters with
        | nil => exact absurd rfl nonempty
        | cons c letters =>
          have visible := (visible_of_head (.inl (each c mem_cons_self).1)).1
          exact dropWhile_cons_of_neg (by simp [visible])
      rw [whole, Nat.sub_self] at row
      rcases tokens_of_label label row with ⟨t, u, first, kind, closes⟩
      rcases first with ⟨before, first⟩
      have apart := formula.apart t u before.reverse (by rw [← first]; simp) kind
      rw [closes] at apart
      cases apart

/-- The tokens of a formula of one line in parentheses: the row of the formula, one column further on, between the
two. -/
theorem tokens_enclosed (standard : r.rules = ProseRules.standard) {source : String} (single : '\n' ∉ source.toList)
    (noComment : '%' ∉ source.toList) (unlabelled : source ∉ partLabels) {row : List Token} {eol eof : Token}
    (read : r.tokens source = .ok (row ++ [eol, eof])) (formula : IsFormula row) :
    ∃ close eol' eof', r.tokens ("(" ++ source ++ ")") = .ok (opening :: (row.map right ++ [close, eol', eof'])) ∧
      close.isDelim ")" = true ∧ eol'.kind = .newline ∧ eof'.kind = .endOfInput := by
  rcases (tokens_eq_ok_iff r single).mp read with ⟨s, capture, line, same⟩
  rcases append_inj' same rfl with ⟨rfl, _⟩
  have noLabel := unlabelled_of_formula line formula unlabelled
  rcases formula.first with ⟨t, rest, tokens, opens⟩
  rcases scan_of_plainLine line (by rw [← List.head?_reverse, tokens]; rfl) opens with ⟨_, noProse, _⟩
  rcases dropTrailing_append (· == '\r') source.toList with ⟨returns, split, each⟩
  rw [← dropReturns] at split
  have closing : IsClosing (returns ++ [')']) := by
    refine ⟨returns, rfl, fun c member => ?_⟩
    rw [eq_of_beq (all_eq_true.mp each c member)]
    decide
  have noComment' : '%' ∉ dropReturns source.toList := fun member => noComment (split ▸ mem_append_left returns member)
  have whole : ("(" ++ source ++ ")").toList = '(' :: (dropReturns source.toList ++ (returns ++ [')'])) := by
    rw [← append_assoc, ← split]
    simp
  have kept : dropReturns ("(" ++ source ++ ")").toList = '(' :: (dropReturns source.toList ++ (returns ++ [')'])) := by
    rw [whole, dropReturns, dropTrailing_eq_self]
    rw [← append_assoc, ← cons_append, List.getLast?_concat]
    rintro c ⟨⟩
    decide
  have single' : '\n' ∉ ("(" ++ source ++ ")").toList := by simpa using single
  rw [split, append_assoc] at noLabel
  rcases scan_enclosed closing standard noComment' line formula with ⟨s', close, row, added, closes, _⟩
  have read' : r.plainLine { number := 1 } (dropReturns ("(" ++ source ++ ")").toList) = .ok (s', .off) := by
    rw [kept, plainLine_of_isScanned (isScanned_enclosed closing standard noProse)
      (content_of_head (dropWhile_cons_of_neg (by decide)) (by decide)), front_enclosed closing noLabel]
    dsimp only
    rw [drop_zero, row]
    rfl
  have tokens' := (tokens_eq_ok_iff r single').mpr ⟨s', .off, read', rfl⟩
  rw [added, reverse_cons, reverse_append, ← map_reverse, append_assoc, append_assoc] at tokens'
  exact ⟨close, _, _, tokens', closes, rfl, rfl⟩

end Reading
end Token
end Whiteboard
