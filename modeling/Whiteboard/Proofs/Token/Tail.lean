import Mathlib.Data.List.TakeWhile
import Whiteboard.Proofs.Token.Row

namespace Whiteboard

open List Text Lexeme
namespace Token

/-!
# Reading in front of a tail

More characters may follow the end of a line, and the readers of words, numbers and signs look at them only if
they could take them in.  A tail that `Stops` them has nothing of the kind at its front, and what is read before
it is what is read before the end of the line.
-/

/-- The tail does not go on with a part of a name or a number, nor, after white space, with the word `in`. -/
structure Stops (tail : List Char) : Prop where
  head : ∀ c ∈ tail.head?, isNamePart c = false ∧ c ∉ ['.', '\'', '?', '!', '=']
  spaced : ∀ c ∈ (tail.dropWhile fun c => c == ' ' || c == '\t').head?, c ≠ 'i'

variable {p : Char → Bool}

theorem takeWhile_append_tail {tail : List Char} (ends : ∀ c ∈ tail.head?, p c = false)
    (cs : List Char) : (cs ++ tail).takeWhile p = cs.takeWhile p := by
  induction cs with
  | nil =>
    cases tail with
    | nil => rfl
    | cons c rest => rw [nil_append, takeWhile_cons_of_neg (by simp [ends c rfl]), takeWhile_nil]
  | cons c cs ih =>
    cases holds : p c with
    | true => rw [cons_append, takeWhile_cons_of_pos holds, takeWhile_cons_of_pos holds, ih]
    | false =>
      rw [cons_append, takeWhile_cons_of_neg (by simp [holds]), takeWhile_cons_of_neg (by simp [holds])]

theorem drop_takeWhile_append_tail {tail : List Char} (ends : ∀ c ∈ tail.head?, p c = false) (cs : List Char) :
    (cs ++ tail).drop ((cs ++ tail).takeWhile p).length = cs.drop (cs.takeWhile p).length ++ tail := by
  rw [takeWhile_append_tail ends, drop_append_of_le_length (takeWhile_sublist p).length_le]

/-- What stops before the tail does not depend on it. -/
theorem takeWhile_append_of_stop {cs more : List Char} {d : Char}
    (stop : cs.drop (cs.takeWhile p).length = d :: more) (tail : List Char) :
    (cs ++ tail).takeWhile p = cs.takeWhile p ∧ (cs ++ tail).drop (cs.takeWhile p).length = d :: (more ++ tail) := by
  have shorter : (cs.takeWhile p).length < cs.length := by
    have length := congrArg List.length stop
    rw [length_drop, length_cons] at length
    omega
  constructor
  · rw [takeWhile_append, if_neg (by omega)]
  · rw [drop_append_of_le_length (by omega), stop, cons_append]

namespace Stops

variable {tail : List Char} (stops : Stops tail)
include stops

theorem not_namePart : ∀ c ∈ tail.head?, isNamePart c = false := fun c first => (stops.head c first).1

theorem not_digit : ∀ c ∈ tail.head?, isDigit c = false := by
  intro c first
  have other := stops.not_namePart c first
  simp only [isNamePart, Bool.or_eq_false_iff] at other
  exact other.1.2

theorem head_ne {c : Char} (listed : c ∈ ['.', '\'', '?', '!', '=']) {rest : List Char} : tail ≠ c :: rest := by
  rintro rfl
  exact (stops.head c rfl).2 listed

end Stops

/-- White space and a visible mark behind it stop what comes before them. -/
theorem stops_of_blanks {blanks rest : List Char} {c : Char} (each : ∀ b ∈ blanks, isBlank b = true)
    (visible : isBlank c = false) (mark : isNamePart c = false ∧ c ∉ ['.', '\'', '?', '!', '=']) :
    Stops (blanks ++ c :: rest) where
  head := by
    cases blanks with
    | nil =>
      intro d first
      cases first
      exact mark
    | cons b blanks =>
      intro d first
      cases first
      have blank := each b mem_cons_self
      constructor
      · grind [not_blank_of_isNamePart]
      · intro listed
        have visible : (['.', '\'', '?', '!', '='].all fun c => !isBlank c) = true := by decide
        have visible := all_eq_true.mp visible b listed
        rw [blank] at visible
        cases visible
  spaced := by
    have among : ∀ d ∈ ((blanks ++ c :: rest).dropWhile fun c => c == ' ' || c == '\t').head?, d ∈ blanks ∨ d = c := by
      induction blanks with
      | nil =>
        have other : (c == ' ' || c == '\t') = false := by
          rw [Bool.or_eq_false_iff, beq_eq_false_iff_ne, beq_eq_false_iff_ne]
          constructor
          · rintro rfl
            revert visible
            decide
          · rintro rfl
            revert visible
            decide
        rw [nil_append, dropWhile_cons_of_neg (by simp [other])]
        rintro d first
        cases first
        exact .inr rfl
      | cons b blanks ih => grind [dropWhile_cons, mem_cons_of_mem]
    rintro d first rfl
    rcases among 'i' first with blank | rfl
    · exact absurd (each 'i' blank) (by decide)
    · exact absurd mark.1 (by decide)

/-! ## Numbers and words -/

theorem number_append {tail : List Char} (stops : Stops tail) (cs : List Char) : number (cs ++ tail) = number cs := by
  unfold number
  dsimp only
  rw [drop_takeWhile_append_tail stops.not_digit, takeWhile_append_tail stops.not_digit]
  generalize cs.drop (cs.takeWhile isDigit).length = after
  cases after with
  | nil =>
    rw [nil_append]
    split
    next => exact absurd rfl (stops.head_ne (by simp))
    next => rfl
  | cons d rest =>
    by_cases point : d = '.'
    · subst point
      simp only [cons_append, takeWhile_append_tail stops.not_digit]
    · simp [point]

theorem decorations_append {tail : List Char} (stops : Stops tail) (cs : List Char) :
    decorations (cs ++ tail) = decorations cs := by
  have none : decorations tail = [] := by
    unfold decorations
    split
    next => exact absurd rfl (stops.head_ne (by simp))
    next => exact absurd rfl (stops.head_ne (by simp))
    next => rfl
    next => exact absurd rfl (stops.head_ne (by simp))
    next => rfl
  fun_induction decorations cs with
  | case1 cs ih => rw [cons_append, decorations, ih]
  | case2 cs ih => rw [cons_append, decorations, ih]
  | case3 cs => rw [cons_append, cons_append, decorations]
  | case4 cs other ih =>
    rw [cons_append, decorations, ih]
    intro rest goes
    cases cs with
    | nil => exact stops.head_ne (by simp) goes
    | cons d more =>
      cases goes
      exact other more rfl
  | case5 cs other₁ other₂ other₃ other₄ =>
    cases cs with
    | nil => exact none
    | cons d more =>
      rw [cons_append]
      unfold decorations
      split
      next goes =>
        cases goes
        exact absurd rfl (other₁ more)
      next goes =>
        cases goes
        exact absurd rfl (other₂ more)
      next => rfl
      next goes =>
        cases goes
        exact absurd rfl (other₄ more)
      next => rfl

/-- After white space, where the word does not begin with an `i`, there is no `in`. -/
theorem spacedIn_eq_zero {cs : List Char}
    (other : ∀ c ∈ (cs.dropWhile fun c => c == ' ' || c == '\t').head?, c ≠ 'i') : spacedIn cs = 0 := by
  unfold spacedIn
  dsimp only
  rw [drop_length_takeWhile]
  split
  next => rfl
  next after found _ =>
    rw [found] at other
    exact absurd rfl (other 'i' rfl)
  next => rfl

theorem spacedIn_append {tail : List Char} (stops : Stops tail) (cs : List Char) :
    spacedIn (cs ++ tail) = spacedIn cs := by
  cases word : cs.dropWhile (fun c => c == ' ' || c == '\t') with
  | nil =>
    have passed := dropWhile_eq_nil_iff.mp word
    rw [spacedIn_eq_zero, spacedIn_eq_zero]
    · simp [word]
    · rw [dropWhile_append_of_pos passed]
      exact stops.spaced
  | cons d more =>
    -- the white space ends before the tail
    rw [← drop_length_takeWhile] at word
    have stop := takeWhile_append_of_stop word tail
    unfold spacedIn
    dsimp only
    rw [stop.1, stop.2, word]
    generalize cs.takeWhile (fun c => c == ' ' || c == '\t') = gap
    cases gap with
    | nil => rfl
    | cons g gap =>
      by_cases opens : d = 'i'
      · subst opens
        cases more with
        | nil =>
          cases tail with
          | nil => rfl
          | cons e rest =>
            have different : e ≠ 'n' := by
              rintro rfl
              have part := stops.not_namePart 'n' rfl
              revert part
              decide
            simp [different]
        | cons e after =>
          by_cases goes : e = 'n'
          · subst goes
            cases after with
            | nil =>
              cases tail with
              | nil => rfl
              | cons f rest => simp [stops.not_namePart f rfl]
            | cons f after => rfl
          · simp [goes]
      · simp [opens]

/-- A word that opens no prose is the same before the tail, wherever it stands. -/
theorem word_append {rules : ProseRules} {midLine midLine' : Bool} {cs tail : List Char} (stops : Stops tail)
    (plain : (word rules midLine cs).kind ≠ .text)
    (plain' : (word rules midLine' (cs ++ tail)).kind ≠ .text) :
    word rules midLine' (cs ++ tail) = word rules midLine cs := by
  unfold word at plain plain' ⊢
  dsimp only at plain plain' ⊢
  rw [drop_takeWhile_append_tail stops.not_namePart, takeWhile_append_tail stops.not_namePart,
    spacedIn_append stops, decorations_append stops] at plain' ⊢
  split
  next => rfl
  next notIn => grind

/-! ## Signs -/

variable {b : Brackets} {front : List Char}

theorem spelledBy_append {n : Nat} (inside : n ≤ front.length)
    (tail : List Char) : spelledBy b (front ++ tail) n = spelledBy b front n := by
  unfold spelledBy
  rw [take_append_of_le_length inside]

theorem longest_append {tail : List Char} (apart : ∀ n, front.length < n → spelledBy b (front ++ tail) n = none) :
    longest b (front ++ tail) = longest b front := by
  have each (n : Nat) : spelledBy b (front ++ tail) n = spelledBy b front n := by
    by_cases inside : n ≤ front.length
    · exact spelledBy_append inside tail
    · have short : (front.take n).length < n := by
        rw [length_take]
        omega
      rw [apart n (by omega), spelledBy, if_pos short]
  rw [longest, longest, funext each]

theorem spelledBy_of_blank {cs : List Char} {n : Nat} {c : Char} (blank : isBlank c = true)
    (member : c ∈ cs.take n) : spelledBy b cs n = none := by
  rw [← String.toList_ofList (l := cs.take n)] at member
  apply spelledBy_eq_none
  · intro value known
    rw [visible_delimiters _ known c member] at blank
    cases blank
  · intro s known
    rw [visible_spellings _ (mem_of_lookup known) c member] at blank
    cases blank

theorem take_append_cons {n : Nat} (beyond : front.length < n) (c : Char) (rest : List Char) :
    (front ++ c :: rest).take n = front ++ c :: rest.take (n - front.length - 1) := by
  obtain ⟨k, more⟩ : ∃ k, n - front.length = k + 1 := ⟨n - front.length - 1, by omega⟩
  rw [take_append, take_of_length_le (by omega), more, take_succ_cons, Nat.add_sub_cancel]

theorem isPrefixOf_append {needle tail : List Char}
    (apart : ∀ more, needle = front ++ more → more <+: tail → more = []) :
    needle.isPrefixOf (front ++ tail) = needle.isPrefixOf front := by
  rw [Bool.eq_iff_iff, isPrefixOf_iff_prefix, isPrefixOf_iff_prefix]
  refine ⟨fun leads => ?_, fun leads => leads.trans (prefix_append front tail)⟩
  rcases prefix_or_prefix_of_prefix leads (prefix_append front tail) with inside | ⟨more, rfl⟩
  · exact inside
  · have none := apart more rfl ((prefix_append_right_inj front).mp leads)
    exact ⟨[], by rw [none, append_nil, append_nil]⟩

/-- No sign reaches into the tail, but perhaps one that begins with the last character. -/
def KeepsSigns (b : Brackets) (cs tail : List Char) : Prop :=
  ∀ front, front ≠ [] → front <:+ cs → longest b (front ++ tail) = longest b front ∨
    ∃ c, front = [c] ∧ c ≠ '<' ∧ c ≠ '>'

theorem KeepsSigns.tail {c : Char} {cs tail : List Char} (keeps : KeepsSigns b (c :: cs) tail) :
    KeepsSigns b cs tail :=
  fun front nonempty ending => keeps front nonempty (ending.trans (suffix_cons c cs))

/-- The search for the bracket that closes a sequence ends before the tail, or it finds nothing there and goes
on in the tail. -/
theorem closerOffset_append {cs tail : List Char} (keeps : KeepsSigns b cs tail) (before : Char)
    (depth offset skip : Nat) :
    closerOffset b before depth offset skip (cs ++ tail) = closerOffset b before depth offset skip cs ∨
      closerOffset b before depth offset skip cs = none ∧
        ∃ before' depth' offset' skip', closerOffset b before depth offset skip (cs ++ tail) =
          closerOffset b before' depth' offset' skip' tail := by
  induction cs generalizing before depth offset skip with
  | nil =>
    refine .inr ⟨?_, before, depth, offset, skip, rfl⟩
    cases skip <;> rfl
  | cons c cs ih =>
    have onward := ih keeps.tail
    cases skip with
    | succ skip =>
      rw [cons_append, closerOffset, closerOffset]
      exact onward ..
    | zero =>
      rw [cons_append, closerOffset.eq_def _ _ _ _ _ (c :: (cs ++ tail)), closerOffset.eq_def _ _ _ _ _ (c :: cs)]
      dsimp only
      rcases keeps (c :: cs) (cons_ne_nil c cs) suffix_rfl with here | ⟨_, last, noOpening, noClosing⟩
      · rw [cons_append] at here
        rw [here]
        split
        next => exact onward ..
        next =>
          split
          next =>
            cases cs with
            | nil => grind
            | cons d rest => grind
          next => grind
      · -- the last character neither opens nor closes a sequence
        cases last
        right
        simp only [beq_iff_eq, noOpening, noClosing, if_false, nil_append]
        constructor
        · split <;> simp [closerOffset]
        · split
          next => exact ⟨_, _, _, _, rfl⟩
          next => exact ⟨_, _, _, _, rfl⟩

theorem sequenceCloser_append {tight defines defines' : Bool} {cs tail : List Char}
    (keeps : KeepsSigns b cs tail) (kept : defines = true → defines' = true) {k : Nat}
    (found : sequenceCloser b tight defines cs = some k) :
    sequenceCloser b tight defines' (cs ++ tail) = some k := by
  unfold sequenceCloser at found ⊢
  cases cs with
  | nil => cases found
  | cons d rest =>
    dsimp only [cons_append] at found ⊢
    split at found
    next closes => rw [if_pos closes, found]
    next opens =>
      rw [if_neg opens]
      split at found
      next => cases found
      next sequence =>
        have allowed : ¬(isBlank d || tight && !defines') = true := by grind
        rw [if_neg allowed]
        rcases closerOffset_append keeps '<' 1 1 0 with same | ⟨none, _⟩
        · rw [← cons_append, same, found]
        · rw [none] at found
          cases found

/-! ## What stands at a position -/

namespace Reading

variable {r : Reading} {defines : Bool} {s s₁ s' : Scan} {pos : Nat} {c : Char} {cs : List Char} {lexeme : Lexeme}

/-- Whatever a reader looks at, it sees the same on two lines that begin with one character. -/
structure SeenAlike (r : Reading) (defines defines' : Bool) (s s' : Scan) (c : Char) (cs cs' : List Char) : Prop where
  brackets : s'.brackets = s.brackets
  tight : s'.isTight = s.isTight
  blank : c = '\\' → restIsBlank cs' = restIsBlank cs
  rule : c = '[' → s'.justification cs' = s.justification cs
  number : isDigit c = true → number (c :: cs') = number (c :: cs)
  symbol : longest s.brackets (c :: cs') = longest s.brackets (c :: cs)
  word : opensWord s.brackets c cs = true →
    word r.rules (!s'.tokens.isEmpty) (c :: cs') = word r.rules (!s.tokens.isEmpty) (c :: cs)
  closer : ∀ lexeme, longest s.brackets (c :: cs) = some lexeme → lexeme.kind = .operator → lexeme.value = "lt" →
    sequenceCloser s.brackets s.isTight defines' cs' = sequenceCloser s.brackets s.isTight defines cs

/-- What is seen alike is read alike, in a state that may be moved along. -/
theorem lexemeAt_of_seenAlike {defines' : Bool} (move : Scan → Scan) {pos' : Nat} {cs' : List Char}
    (seen : SeenAlike r defines defines' s (move s) c cs cs')
    (closes : (move s).closers.contains pos' = s.closers.contains pos)
    (tracks : ∀ b, move { s with brackets := b } = { move s with brackets := b })
    (opens : ∀ k, move { s with closers := (pos + k) :: s.closers } =
      { move s with closers := (pos' + k) :: (move s).closers })
    (found : r.lexemeAt defines s pos c cs = .ok (s₁, lexeme)) :
    r.lexemeAt defines' (move s) pos' c cs' = .ok (move s₁, lexeme) := by
  have noWord (word : opensWord s.brackets c cs = false) : opensWord (move s).brackets c cs' = false := by
    rw [opensWord, seen.brackets, seen.symbol]
    exact word
  rw [lexemeAt_eq_ok_iff] at found ⊢
  cases found with
  | closer closed => exact .closer (closes.trans closed)
  | continuation open_ backslash blank =>
    exact .continuation (closes.trans open_) backslash ((seen.blank backslash).trans blank)
  | rule open_ bracket named => exact .rule (closes.trans open_) bracket ((seen.rule bracket).trans named)
  | number open_ digit =>
    rw [← seen.number digit]
    exact .number (closes.trans open_) digit
  | word open_ opens =>
    rw [← seen.word opens]
    refine .word (closes.trans open_) ?_
    rw [opensWord, seen.brackets, seen.symbol]
    exact opens
  | sign open_ ended unnamed noDigit word sign =>
    refine .sign (closes.trans open_) (fun backslash => (seen.blank backslash).trans (ended backslash))
      (fun bracket => (seen.rule bracket).trans (unnamed bracket)) noDigit (noWord word) ?_
    have symbol : longest (move s).brackets (c :: cs') = longest s.brackets (c :: cs) := by
      rw [seen.brackets, seen.symbol]
    cases sign with
    | sequence longest operator less closer =>
      rw [opens]
      refine .sequence (symbol.trans longest) operator less ?_
      rw [seen.brackets, seen.tight, seen.closer _ longest operator less, closer]
    | less longest operator less closer =>
      refine .less (symbol.trans longest) operator less ?_
      rw [seen.brackets, seen.tight, seen.closer _ longest operator less, closer]
    | raised longest operator cat caret tight =>
      exact .raised (symbol.trans longest) operator cat caret (seen.tight.trans tight)
    | operator longest operator different plain =>
      refine .operator (symbol.trans longest) operator different ?_
      rw [seen.tight, plain]
    | delimiter longest delimiter =>
      rw [tracks (s.brackets.track lexeme.value), ← seen.brackets]
      exact .delimiter (symbol.trans longest) delimiter
    | other longest noOperator noDelimiter => exact .other (symbol.trans longest) noOperator noDelimiter

/-! ## One token of a row -/

/-- The state after a lexeme, where the line goes on with `rest`. -/
def addLexeme (s : Scan) (lexeme : Lexeme) (pos : Nat) (rest : List Char) : Scan :=
  s.emit lexeme.kind lexeme.value (String.ofList (rest.take lexeme.length)) pos (pos + lexeme.length)

/-- A row goes on behind the token at its front. -/
theorem scan_of_lexemeAt (visible : isBlank c = false) (noComment : c ≠ '%')
    (found : r.lexemeAt defines s pos c cs = .ok (s₁, lexeme)) :
    r.scan defines pos 0 s (c :: cs) =
      r.scan defines (pos + lexeme.length) 0 (addLexeme s₁ lexeme pos (c :: cs)) ((c :: cs).drop lexeme.length) := by
  obtain ⟨_, reaches, _⟩ := extends_of_lexemeAt found visible
  have nonempty := reaches.nonempty
  have length := reaches.inside
  rw [length_cons] at length
  obtain ⟨n, count⟩ : ∃ n, lexeme.length = n + 1 := ⟨lexeme.length - 1, by omega⟩
  rw [scan, if_neg (by simp [visible]), if_neg (by simpa using noComment), found]
  dsimp only
  rw [scan_skip _ _ _ (by omega), addLexeme, count, drop_succ_cons, Nat.add_sub_cancel, Nat.add_right_comm,
    Nat.add_assoc]

/-- A row that is read has a token at its front. -/
theorem lexemeAt_of_scan (visible : isBlank c = false) (noComment : c ≠ '%')
    (read : r.scan defines pos 0 s (c :: cs) = .ok s') :
    ∃ s₁ lexeme, r.lexemeAt defines s pos c cs = .ok (s₁, lexeme) ∧
      r.scan defines (pos + lexeme.length) 0 (addLexeme s₁ lexeme pos (c :: cs)) ((c :: cs).drop lexeme.length) =
        .ok s' := by
  cases found : r.lexemeAt defines s pos c cs with
  | error fault =>
    rw [scan, if_neg (by simp [visible]), if_neg (by simpa using noComment), found] at read
    cases read
  | ok result => grind [scan_of_lexemeAt]

/-- A row of ordinary tokens, read one by one up to the end of the line or a comment. -/
inductive Scans (r : Reading) (defines : Bool) : Nat → Scan → List Char → Scan → Prop
  | done {pos : Nat} {s : Scan} : Scans r defines pos s [] s
  | blank {pos : Nat} {s s' : Scan} {c : Char} {cs : List Char} : isBlank c = true →
      Scans r defines (pos + 1) { s with gap := true } cs s' → Scans r defines pos s (c :: cs) s'
  | comment {pos : Nat} {s : Scan} {cs : List Char} : Scans r defines pos s ('%' :: cs) s
  | lexeme {pos : Nat} {s s₁ s' : Scan} {c : Char} {cs : List Char} {lexeme : Lexeme} : isBlank c = false →
      c ≠ '%' → r.lexemeAt defines s pos c cs = .ok (s₁, lexeme) →
      Scans r defines (pos + lexeme.length) (addLexeme s₁ lexeme pos (c :: cs)) ((c :: cs).drop lexeme.length) s' →
      Scans r defines pos s (c :: cs) s'

theorem scan_eq_ok_iff : r.scan defines pos 0 s cs = .ok s' ↔ Scans r defines pos s cs s' := by
  constructor
  · intro read
    induction left : cs.length using Nat.strongRecOn generalizing pos s cs with
    | _ _ ih =>
      subst left
      cases cs with
      | nil =>
        cases read
        exact .done
      | cons c cs =>
        cases visible : isBlank c with
        | true =>
          rw [scan, if_pos visible] at read
          exact .blank visible (ih cs.length (Nat.lt_succ_self _) read rfl)
        | false =>
          by_cases comment : c = '%'
          · subst comment
            rw [scan, if_neg (by simp [visible]), if_pos (by simp)] at read
            cases read
            exact .comment
          · rcases lexemeAt_of_scan visible comment read with ⟨s₁, lexeme, found, onward⟩
            have reaches := (extends_of_lexemeAt found visible).2.1
            have shorter : ((c :: cs).drop lexeme.length).length < (c :: cs).length := by
              have nonempty := reaches.nonempty
              rw [length_drop, length_cons]
              omega
            exact .lexeme visible comment found (ih _ shorter onward rfl)
  · intro scans
    induction scans with
    | done => rfl
    | blank visible _ ih =>
      rw [scan, if_pos visible]
      exact ih
    | comment => rfl
    | lexeme visible comment found _ ih => rw [scan_of_lexemeAt visible comment found, ih]

/-- The token that a lexeme is added as, and what it tells of the state it was read in. -/
theorem addLexeme_eq_cons (same : Unmoved s s₁) (lexeme : Lexeme) (pos : Nat) (rest : List Char) :
    ∃ t : Token, (addLexeme s₁ lexeme pos rest).tokens = t :: s.tokens ∧
      t.kind = lexeme.kind ∧ t.value = lexeme.value ∧ t.literal = String.ofList (rest.take lexeme.length) ∧
      t.column = pos + 1 ∧ t.spaceBefore = (s.gap || (s.tokens.isEmpty && decide (0 < pos))) := by
  obtain ⟨tokens, gap, _⟩ := same
  refine ⟨_, by rw [addLexeme, Scan.emit, tokens], rfl, rfl, rfl, rfl, ?_⟩
  rw [gap]

theorem Scans.suffix (scans : Scans r defines pos s cs s') : s.tokens <:+ s'.tokens := by
  induction scans with
  | done | comment => exact suffix_rfl
  | blank _ _ ih => exact ih
  | @lexeme pos s s₁ s' c cs lexeme visible _ found _ ih =>
    rcases addLexeme_eq_cons (extends_of_lexemeAt found visible).1 lexeme pos (c :: cs) with ⟨t, added, _⟩
    rw [added] at ih
    exact (suffix_cons t s.tokens).trans ih

theorem tokens_suffix_of_scan (read : r.scan defines pos 0 s cs = .ok s') : s.tokens <:+ s'.tokens :=
  (scan_eq_ok_iff.mp read).suffix

end Reading
end Token
end Whiteboard
