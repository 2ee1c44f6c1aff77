import Whiteboard.Proofs.Token.Extent

namespace Whiteboard

open List Text Lexeme
namespace Token

/-!
# The rows of tokens that lines are read as

Every line of a source is a row of tokens with white space between them, and at its end there may be
a comment.  `Written` lays a line out in this way.  Every reader of a line, be it of ordinary tokens,
of headings, of blocks or of captured text, adds such a row to the tokens it has.
-/

/-- A run of text that begins at an offset goes to the end of the line, but for white space. -/
def RunsOut (line : List Char) (kind : Kind) (value : List Char) (start : Nat) : Prop :=
  kind = .text → ∃ blanks : List Char, blanks.all isBlank = true ∧ line.drop start = value ++ blanks

/-- The token covers the characters from offset `start` to `stop`, and its literal is what it covers;
text may be trimmed at its end. -/
structure Placed (number : Int) (line : List Char) (start stop : Nat) (t : Token) : Prop where
  line_eq : t.line = number
  column_eq : t.column = start + 1
  endColumn_eq : t.endColumn = stop + 1
  written : t.kind.IsWritten
  literal_eq : t.literal.toList = (line.drop start).take (stop - start) ∨
    (t.kind = .text ∧ ∃ blanks : List Char, blanks.all isBlank = true ∧
      (line.drop start).take (stop - start) = t.literal.toList ++ blanks)
  runs : RunsOut line t.kind t.value.toList start
  shaped : Shaped t

/-- The tokens of a line from offset `pos` on.  `first` tells that none stands before them, and a line
that a block keyword opens does not tell where its gaps are. -/
inductive Written (number : Int) (line : List Char) (opened : Bool) : Bool → Nat → List Token → Prop
  | done {first pos} : restIsBlank (line.drop pos) = true → Written number line opened first pos []
  | token {first pos start stop t rest} : pos ≤ start → start < stop → stop ≤ line.length →
      (∀ c ∈ (line.take start).drop pos, isBlank c = true) →
      (stop < line.length → ∀ c ∈ (line.take stop).getLast?, isBlank c = false) →
      Placed number line start stop t →
      t.lineStart = first →
      (opened = false → t.spaceBefore = decide (pos < start)) →
      Written number line opened false stop rest →
      Written number line opened first pos (t :: rest)

/-- The token opens a block. -/
def OpensBlock (t : Token) : Prop := t.lineStart = true ∧ t.kind = .keyword ∧ t.value ∈ Symbol.blockKeywords

variable {line : List Char} {kind : Kind}

theorem runsOut_of_ne {start : Nat} (other : kind ≠ .text) (value : List Char) : RunsOut line kind value start :=
  fun text => absurd text other

variable {rest : List Char}

theorem runsOut_trimBlanks {start : Nat}
    (whole : line.drop start = dropBlanks rest) : RunsOut line kind (trimBlanks rest) start := by
  rcases dropTrailing_append isBlank (dropBlanks rest) with ⟨blanks, split, all⟩
  exact fun _ => ⟨blanks, all, whole.trans split⟩

namespace Reading

/-! ## Adding a row to what was read -/

/-- What has been read up to offset `pos` of a line, where the last token ends at `past`: there is
white space in between, and the state tells whether there is any. -/
structure Reached (line : List Char) (opened : Bool) (past pos : Nat) (s : Scan) : Prop where
  within : past ≤ pos
  blanks : ∀ c ∈ (line.take pos).drop past, isBlank c = true
  gap : opened = false → (s.gap || (s.tokens.isEmpty && decide (0 < pos))) = decide (past < pos)

/-- From one state to the other a row is added, which covers the line from `past` on. -/
def Adds (line : List Char) (opened : Bool) (past : Nat) (s s' : Scan) : Prop :=
  ∃ row : List Token, s'.tokens = row.reverse ++ s.tokens ∧ s'.number = s.number ∧
    Written s.number line opened s.tokens.isEmpty past row

variable {past : Nat}

theorem Adds.done (opened : Bool) (s : Scan)
    (rest : restIsBlank (line.drop past) = true) : Adds line opened past s s :=
  ⟨[], rfl, rfl, .done rest⟩

variable {pos : Nat} {s s' : Scan} {value : String}

/-- A token is added to what was read, and the line is read on behind it. -/
theorem Adds.token {opened : Bool} {n : Nat} {s₁ : Scan}
    {literal : String} (reached : Reached line opened past pos s) (same : Unmoved s s₁)
    (written : kind.IsWritten) (reaches : Extends (line.drop pos) n)
    (covers : literal.toList = (line.drop pos).take n ∨
      (kind = .text ∧ ∃ blanks : List Char, blanks.all isBlank = true ∧
        (line.drop pos).take n = literal.toList ++ blanks))
    (runs : RunsOut line kind value.toList pos) (shaped : ShapedAs kind value literal)
    (others : Adds line opened (pos + n) (s₁.emit kind value literal pos (pos + n)) s') :
    Adds line opened past s s' := by
  obtain ⟨tokens, gap, number⟩ := same
  obtain ⟨row, added, numbered, rest⟩ := others
  have inside := reaches.inside
  have nonempty := reaches.nonempty
  rw [length_drop] at inside
  rw [Scan.emit, tokens] at added
  refine ⟨_ :: row, by rw [added, reverse_cons, append_assoc, singleton_append], numbered.trans number, ?_⟩
  refine .token reached.within (show pos < pos + n by omega) (by omega) reached.blanks ?_ ?_ ?_ ?_ ?_
  · intro shorter c last
    apply reaches.ends (by rw [length_drop]; omega)
    rw [take_add, List.getLast?_append] at last
    cases ending : ((line.drop pos).take n).getLast? with
    | none => grind
    | some d =>
      rw [ending] at last
      exact last
  · refine ⟨number, rfl, rfl, written, ?_, runs, shaped⟩
    rw [Nat.add_sub_cancel_left]
    exact covers
  · simp [written.1]
  · intro unopened
    rw [← reached.gap unopened, gap]
  · rw [← number]
    exact rest

/-- Right behind a token nothing has been passed over. -/
theorem Reached.of_emit (line : List Char) (opened : Bool) (s : Scan) (kind : Kind) (value literal : String)
    (start stop : Nat) : Reached line opened stop stop (s.emit kind value literal start stop) where
  within := Nat.le_refl stop
  blanks := by simp [drop_take_self]
  gap := by simp [Scan.emit]

/-- Between the last token and the place that was reached there is nothing to be read. -/
theorem Reached.dropBlanks_eq {opened : Bool} (reached : Reached line opened past pos s) :
    dropBlanks (line.drop past) = dropBlanks (line.drop pos) := by
  have split : line.drop past = (line.take pos).drop past ++ line.drop pos := by
    by_cases inside : pos ≤ line.length
    · rw [← drop_append_of_le_length (by rw [length_take]; have := reached.within; omega), take_append_drop]
    · rw [take_of_length_le (by omega), drop_eq_nil_of_le (i := pos) (by omega), append_nil]
  rw [split, dropBlanks, dropWhile_append_of_pos reached.blanks]
  rfl

/-- White space at the front of what is left is passed over at once. -/
theorem Reached.pass_blanks {opened : Bool} (inside : past ≤ line.length)
    (gap : opened = false → past = 0 ∧ s.gap = false ∧ s.tokens = []) :
    Reached line opened past (line.length - (dropBlanks (line.drop past)).length) s := by
  have shorter := length_dropBlanks_le (line.drop past)
  rw [length_drop] at shorter
  refine ⟨by omega, ?_, ?_⟩
  · intro c member
    rw [drop_take] at member
    have count : line.length - (dropBlanks (line.drop past)).length - past
        = (line.drop past).length - (dropBlanks (line.drop past)).length := by
      rw [length_drop]
      omega
    rw [count] at member
    exact blank_of_mem_take member
  · grind

theorem drop_passed_blanks (inside : past ≤ line.length) :
    line.drop (line.length - (dropBlanks (line.drop past)).length) = dropBlanks (line.drop past) := by
  have shorter := length_dropBlanks_le (line.drop past)
  have dropped := dropBlanks_eq_drop (line.drop past)
  rw [length_drop] at shorter
  rw [drop_drop, length_drop] at dropped
  have offset : line.length - (dropBlanks (line.drop past)).length
      = past + (line.length - past - (dropBlanks (line.drop past)).length) := by omega
  rw [offset]
  exact dropped

/-! ## Ordinary tokens -/

/-- Characters that belong to the token just read are passed over. -/
theorem scan_skip (r : Reading) (defines : Bool) (s : Scan) {skip : Nat} {cs : List Char}
    (inside : skip ≤ cs.length) (pos : Nat) :
    r.scan defines pos skip s cs = r.scan defines (pos + skip) 0 s (cs.drop skip) := by
  induction cs generalizing pos skip with
  | nil =>
    cases Nat.le_zero.mp inside
    rfl
  | cons c cs ih =>
    cases skip with
    | zero => rfl
    | succ skip =>
      rw [scan, ih (Nat.le_of_succ_le_succ inside), drop_succ_cons, Nat.add_right_comm, Nat.add_assoc]

theorem mem_drop_take_succ {chars : List Char} {c d : Char}
    (here : chars.drop pos = c :: rest) (within : past ≤ pos) (member : d ∈ (chars.take (pos + 1)).drop past) :
    d ∈ (chars.take pos).drop past ∨ d = c := by
  have inside : pos < chars.length := by
    have length := congrArg List.length here
    rw [length_drop, length_cons] at length
    omega
  have next : chars.take (pos + 1) = chars.take pos ++ [c] := by grind
  rw [next, drop_append_of_le_length (by rw [length_take]; omega)] at member
  simpa using member

/-- Prose in mid-line goes to the end of the line. -/
theorem runsOut_of_lexemeAt {r : Reading} {defines : Bool} {cs : List Char} {c : Char} {s₁ : Scan}
    {lexeme : Lexeme} (found : LexemeAt r defines s pos c cs s₁ lexeme) (visible : isBlank c = false)
    (ahead : line.drop pos = c :: cs) : RunsOut line lexeme.kind lexeme.value.toList pos := by
  intro text
  have kept : dropBlanks (c :: cs) = c :: cs := dropWhile_cons_of_neg (by simp [visible])
  have word := found.prose text
  unfold Lexeme.word at word
  dsimp only at word
  split at word
  next => simp [word] at text
  next =>
    split at word
    next s _ => exact absurd (by rw [← text, word]) (kindOf_ne_text s)
    next =>
      split at word
      next =>
        rw [word, String.toList_ofList]
        have runs : RunsOut line .text (trimBlanks (c :: cs)) pos := runsOut_trimBlanks (ahead.trans kept.symm)
        exact runs rfl
      next => simp [word] at text

theorem adds_scan (r : Reading) (defines : Bool) {opened : Bool} (reached : Reached line opened past pos s)
    (read : r.scan defines pos 0 s (line.drop pos) = .ok s') : Adds line opened past s s' := by
  -- on the number of characters that are left
  induction left : line.length - pos using Nat.strongRecOn generalizing past pos s with
  | _ _ ih =>
    subst left
    cases here : line.drop pos with
    | nil =>
      rw [here, scan] at read
      cases read
      exact .done _ _ (by rw [restIsBlank, reached.dropBlanks_eq, here]; rfl)
    | cons c cs =>
      have inside : pos < line.length := by grind [length_drop, length_cons]
      obtain rfl : line.drop (pos + 1) = cs := by rw [← tail_drop, here]; rfl
      rw [here, scan] at read
      split at read
      next blank =>
        refine ih (line.length - (pos + 1)) (by omega) (s := { s with gap := true }) ?_ read rfl
        refine ⟨Nat.le_succ_of_le reached.within, ?_, ?_⟩
        · intro d member
          rcases mem_drop_take_succ here reached.within member with earlier | rfl
          · exact reached.blanks d earlier
          · exact blank
        · have within := reached.within
          simp
          omega
      next visible =>
        split at read
        next comment =>
          cases read
          refine .done _ _ ?_
          rw [restIsBlank, reached.dropBlanks_eq, here, dropBlanks, dropWhile_cons_of_neg visible]
          exact comment
        next =>
          split at read
          next => cases read
          next s₁ lexeme found =>
            obtain ⟨same, reaches, written⟩ := extends_of_lexemeAt found (Bool.eq_false_iff.mpr visible)
            have nonempty := reaches.nonempty
            have length := reaches.inside
            rw [length_cons] at length
            have stop : pos + 1 + (lexeme.length - 1) = pos + lexeme.length := by omega
            rw [scan_skip _ _ _ (by omega), drop_drop, stop] at read
            have lexes := lexemeAt_eq_ok_iff.mp found
            have runs := runsOut_of_lexemeAt lexes (Bool.eq_false_iff.mpr visible) here
            have shaped := (shaped_of_lexemeAt lexes).2
            rw [← here] at reaches read shaped
            exact .token reached same written reaches (.inl String.toList_ofList) runs shaped
              (ih (line.length - (pos + lexeme.length)) (by omega) (.of_emit ..) read rfl)

/-! ## Lines -/

theorem restIsBlank_of_all (blanks : rest.all isBlank = true) : restIsBlank rest = true := by
  have passed : dropBlanks (rest ++ []) = [] := dropWhile_append_of_pos (all_eq_true.mp blanks)
  rw [append_nil] at passed
  rw [restIsBlank, passed]

theorem Reached.indent (empty : s.tokens = []) (noGap : s.gap = false) :
    Reached line false 0 (line.length - (dropBlanks line).length) s :=
  .pass_blanks (Nat.zero_le _) fun _ => ⟨rfl, noGap, empty⟩

/-- The text of a line without the white space around it is one token. -/
theorem adds_trimmed (empty : s.tokens = []) (noGap : s.gap = false)
    (visible : trimBlanks line ≠ []) (written : kind.IsWritten)
    (runs : RunsOut line kind value.toList (line.length - (dropBlanks line).length))
    (shaped : ShapedAs kind value (String.ofList (trimBlanks line))) :
    let start := line.length - (dropBlanks line).length
    Adds line false 0 s (s.emit kind value (String.ofList (trimBlanks line)) start
      (start + (trimBlanks line).length)) := by
  intro start
  have here : line.drop start = dropBlanks line := dropBlanks_eq_drop line
  obtain ⟨tail, split, blanks⟩ := dropTrailing_append isBlank (dropBlanks line)
  rw [← trimBlanks] at split
  have leads : trimBlanks line <+: dropBlanks line := ⟨tail, split.symm⟩
  have reaches : Extends (line.drop start) (trimBlanks line).length := by
    rw [here]
    refine ⟨length_pos_iff.mpr visible, leads.length_le, fun _ c last => ?_⟩
    rw [← prefix_iff_eq_take.mp leads] at last
    exact getLast?_dropTrailing last
  refine .token (.indent empty noGap) ⟨rfl, rfl, rfl⟩ written reaches (.inl ?_) runs shaped (.done _ _ ?_)
  · rw [String.toList_ofList, here]
    exact prefix_iff_eq_take.mp leads
  · apply restIsBlank_of_all
    rw [← drop_drop, here, split, drop_left]
    exact blanks

theorem adds_text {opened : Bool}
    (reached : Reached line opened past pos s) (nonempty : line.drop pos ≠ []) {text : String}
    (runs : RunsOut line .text text.toList pos) :
    Adds line opened past s (s.emit .text text text pos line.length) := by
  have inside : pos < line.length := by simpa using nonempty
  have stop : line.length = pos + (line.drop pos).length := by
    rw [length_drop]
    omega
  have added : Adds line opened past s (s.emit .text text text pos (pos + (line.drop pos).length)) := by
    refine .token reached ⟨rfl, rfl, rfl⟩ (by simp [Kind.IsWritten]) (.whole nonempty)
      (.inr ⟨rfl, ?_⟩) runs (by trivial) (.done _ _ ?_)
    · rw [take_length]
      exact runs rfl
    · rw [← stop, drop_length]
      rfl
  rw [← stop] at added
  exact added

theorem adds_front (r : Reading) (defines : Bool) {front : List Char} {last : Char}
    (empty : s.tokens = []) (noGap : s.gap = false) (written : kind.IsWritten) (other : kind ≠ .text)
    (shaped : ∀ value literal, ShapedAs kind value literal) (leads : front ++ [last] <+: dropBlanks line)
    (visible : isBlank last = false)
    (read : let start := line.length - (dropBlanks line).length
      r.scan defines (start + (front.length + 1)) 0
        (s.emit kind value (String.ofList ((dropBlanks line).take (front.length + 1))) start
          (start + (front.length + 1))) (line.drop (start + (front.length + 1))) = .ok s') :
    Adds line false 0 s s' := by
  have here := dropBlanks_eq_drop line
  refine .token (.indent empty noGap) ⟨rfl, rfl, rfl⟩ written (n := front.length + 1) ?_ (.inl ?_)
    (runsOut_of_ne other _) (shaped _ _) (adds_scan r defines (.of_emit ..) read)
  · rw [here]
    exact .of_last leads visible
  · rw [here, String.toList_ofList]

theorem label_leads {digits : List Char} (found : label rest = some digits) : '[' :: digits ++ [']'] <+: rest := by
  unfold label at found
  split at found
  next cs =>
    dsimp only at found
    split at found
    next d more tail digitsEq after =>
      cases found
      refine ⟨tail, ?_⟩
      have split := take_append_drop (cs.takeWhile isDigit).length cs
      rw [← prefix_iff_eq_take.mp <| takeWhile_prefix isDigit, after] at split
      rw [append_assoc, cons_append, singleton_append, split]
    next => cases found
  next => cases found

theorem partLabel_leads {letters : List Char} (found : partLabel rest = some letters) :
    '(' :: letters ++ [')'] <+: rest := by
  unfold partLabel at found
  split at found
  next cs =>
    dsimp only at found
    split at found
    next tail after =>
      split at found
      next =>
        cases found
        refine ⟨tail, ?_⟩
        have split := take_append_drop (cs.takeWhile isLower).length cs
        rw [← prefix_iff_eq_take.mp <| takeWhile_prefix isLower, after] at split
        rw [append_assoc, cons_append, singleton_append, split]
      next => cases found
    next => cases found
  next => cases found

/-- The row of a line, which tells of its gaps unless a block keyword opens it. -/
def AddsRow (line : List Char) (s s' : Scan) : Prop :=
  ∃ opened, Adds line opened 0 s s' ∧ (opened = true → ∀ t ∈ s'.tokens.getLast?, OpensBlock t)

theorem blockKeyword_ends : ∀ k ∈ Symbol.blockKeywords, k.toList.dropLast ++ [':'] = k.toList := by
  decide

theorem adds_block (r : Reading) (defines : Bool) {keyword : String}
    {capture : Capture} (empty : s.tokens = []) (known : keyword ∈ Symbol.blockKeywords)
    (leads : keyword.toList <+: dropBlanks line)
    (read : r.block defines s (line.length - (dropBlanks line).length) line keyword = .ok (s', capture)) :
    AddsRow line s s' := by
  generalize startEq : line.length - (dropBlanks line).length = start at read
  have here : line.drop start = dropBlanks line := by
    rw [← startEq]
    exact dropBlanks_eq_drop line
  have reaches : Extends (line.drop start) keyword.length := by
    have ends := blockKeyword_ends keyword known
    have length : keyword.length = keyword.toList.dropLast.length + 1 := by
      rw [← String.length_toList, ← congrArg List.length ends]
      simp
    rw [here, length]
    rw [← ends] at leads
    exact .of_last leads (by decide)
  have inside := reaches.inside
  rw [length_drop] at inside
  have reached : Reached line true 0 start s := by
    rw [← startEq]
    exact .pass_blanks (Nat.zero_le _) (by simp)
  -- behind the keyword the block is read in one of its ways
  suffices more : Adds line true (start + keyword.length)
      (s.emit .keyword keyword keyword start (start + keyword.length)) s' by
    refine ⟨true, .token reached ⟨rfl, rfl, rfl⟩ (by simp [Kind.IsWritten]) reaches (.inl ?_)
      (runsOut_of_ne (by simp) _) (by trivial) more, ?_⟩
    · rw [here]
      exact prefix_iff_eq_take.mp leads
    · obtain ⟨row, tokens, _, _⟩ := more
      intro _ t last
      rw [tokens, Scan.emit, empty, List.getLast?_concat] at last
      cases last
      exact ⟨rfl, rfl, known⟩
  have stopInside : start + keyword.length ≤ line.length := by
    have nonempty := reaches.nonempty
    omega
  have opened (s : Scan) : Reached line true _ _ s := .pass_blanks stopInside (by simp)
  have after := drop_passed_blanks stopInside
  unfold block at read
  dsimp only at read
  split at read
  next =>
    split at read
    next none =>
      cases read
      exact .done _ _ (by rw [restIsBlank, isEmpty_iff.mp none])
    next some =>
      cases read
      refine adds_text (opened _) (by rw [after]; simpa using some) ?_
      rw [String.toList_ofList]
      split
      next => exact fun _ => ⟨[], rfl, after.trans (append_nil _).symm⟩
      next => exact runsOut_trimBlanks (after.trans (dropBlanks_dropBlanks _).symm)
  next =>
    split at read
    next scanned =>
      cases read
      rw [← congrArg (r.scan defines _ 0 _) after] at scanned
      exact adds_scan (s := { s.emit .keyword keyword keyword start (start + keyword.length) with gap := true })
        r defines (opened _) scanned
    next => cases read

theorem adds_header (r : Reading) {mark : List Char} {what : String}
    (empty : s.tokens = []) (noGap : s.gap = false) (visible : trimBlanks line ≠ [])
    (titled : kind = .sectionHeader ∨ kind = .solutionHeader)
    (read : r.header s (line.length - (dropBlanks line).length) (trimBlanks line) mark kind what
      = .ok s') : Adds line false 0 s s' := by
  unfold header at read
  split at read
  next => cases read
  next =>
    cases read
    rcases titled with rfl | rfl
    all_goals exact adds_trimmed empty noGap visible (by simp [Kind.IsWritten]) (runsOut_of_ne (by simp) _) (by trivial)

/-- A line of white space, or with a comment only. -/
theorem restIsBlank_of_skipped (skipped : (trimBlanks line).isEmpty = true ∨ (trimBlanks line).head? = some '%') :
    restIsBlank line = true := by
  unfold restIsBlank
  split
  next => rfl
  next c rest found => grind [trimBlanks_cons]

theorem adds_plainLine (r : Reading) {capture : Capture}
    (empty : s.tokens = []) (noGap : s.gap = false) (read : r.plainLine s line = .ok (s', capture)) :
    AddsRow line s s' := by
  have unopened (adds : Adds line false 0 s s') : AddsRow line s s' := ⟨false, adds, by simp⟩
  have plain {result : Except Fault Scan}
      (off : result.map (fun s => (s, Capture.off)) = .ok (s', capture)) : result = .ok s' := by
    obtain ⟨_, found, same⟩ := map_eq_ok.mp off
    cases same
    exact found
  unfold plainLine at read
  dsimp only at read
  split at read
  next skipped =>
    cases read
    exact unopened (.done _ _ (restIsBlank_of_skipped (by simpa using skipped)))
  next content =>
    have visible : trimBlanks line ≠ [] := by
      intro none
      rw [none] at content
      exact content rfl
    split at read
    next =>
      exact unopened (adds_header r empty noGap visible (.inl rfl) (plain read))
    next =>
      split at read
      next =>
        exact unopened (adds_header r empty noGap visible (.inr rfl) (plain read))
      next =>
        split at read
        next keyword found =>
          have leading : keyword.toList <+: trimBlanks line := isPrefixOf_iff_prefix.mp (List.find?_some found :)
          obtain ⟨tail, split, _⟩ := dropTrailing_append isBlank (dropBlanks line)
          exact adds_block r _ empty (mem_of_find?_eq_some found) (leading.trans ⟨tail, split.symm⟩) read
        next =>
          split at read
          next =>
            cases read
            refine unopened (adds_trimmed empty noGap visible (by simp [Kind.IsWritten]) ?_ (by trivial))
            rw [String.toList_ofList]
            exact runsOut_trimBlanks (dropBlanks_eq_drop line)
          next =>
            split at read
            next digits found =>
              have scanned := plain read
              rw [Nat.add_assoc] at scanned
              exact unopened (adds_front r _ empty noGap (by simp [Kind.IsWritten]) (by simp) (fun _ _ => by trivial)
                (label_leads found) (by decide) scanned)
            next =>
              split at read
              next letters found =>
                have scanned := plain read
                rw [Nat.add_assoc] at scanned
                exact unopened (adds_front r _ empty noGap (by simp [Kind.IsWritten]) (by simp) (fun _ _ => by trivial)
                  (partLabel_leads found) (by decide) scanned)
              next =>
                have scanned := plain read
                rw [← congrArg (r.scan _ _ 0 _) (dropBlanks_eq_drop line)] at scanned
                exact unopened (adds_scan r _ (.indent empty noGap) scanned)

theorem adds_capturedLine (capture : Capture) (line : List Char) (empty : s.tokens = [])
    (noGap : s.gap = false) : AddsRow line s (capturedLine capture s line).1 := by
  refine ⟨false, ?_, by simp⟩
  unfold capturedLine
  dsimp only
  split
  next blank =>
    refine .done _ _ ?_
    rw [drop_zero, restIsBlank, dropBlanks_eq_nil_of_trimBlanks (isEmpty_iff.mp blank)]
  next visible =>
    have trimmed : trimBlanks line ≠ [] := by simpa using visible
    split
    next =>
      have reached : Reached line false 0 0 s := ⟨Nat.le_refl 0, by simp, by simp [noGap]⟩
      refine adds_text reached ?_ fun _ => ⟨[], rfl, by simp⟩
      rintro rfl
      exact trimmed rfl
    next =>
      refine adds_trimmed empty noGap trimmed (by simp [Kind.IsWritten]) ?_ (by trivial)
      rw [String.toList_ofList]
      exact runsOut_trimBlanks (dropBlanks_eq_drop line)

end Reading
end Token
end Whiteboard
