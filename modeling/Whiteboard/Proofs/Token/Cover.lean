import Whiteboard.Proofs.Token.Row

namespace Whiteboard

open List Text
namespace Token

/-!
# The tokens of a source cover it

The rows of the lines, each with the end of its line, make up the stream.  What `Covers` says of a
stream is shown of one row first; two streams that cover the one some lines and the other the lines
after them cover all of these lines together.
-/

/-- The characters that a token covers in its line. -/
def spanIn (t : Token) (chars : List Char) : List Char :=
  (chars.drop (t.column - 1).toNat).take (t.endColumn - t.column).toNat

/-- The token lies in its line, and its literal is what it covers there; text may be trimmed at its
end. -/
structure LiesIn (chars : List Char) (t : Token) : Prop where
  starts : 1 ≤ t.column
  ordered : t.column ≤ t.endColumn
  ends : t.endColumn ≤ chars.length + 1
  literal_eq : t.literal.toList = t.spanIn chars ∨ (t.kind = .text ∧ ∃ blanks : List Char, blanks.all isBlank = true ∧
      t.spanIn chars = t.literal.toList ++ blanks)

/-- The token covers the character at offset `k`. -/
def CoversAt (t : Token) (k : Nat) : Prop := t.column ≤ k + 1 ∧ (k : Int) + 1 < t.endColumn

/-- White space stands directly before the token. -/
def FollowsBlank (chars : List Char) (t : Token) : Prop :=
  ∃ c, (chars.take (t.column - 1).toNat).getLast? = some c ∧ isBlank c = true

/-- The tokens are those of the lines, of which the first has the given number. -/
structure Covers (number : Nat) (lines : List (List Char)) (toks : List Token) : Prop where
  /-- Tokens stand in their order. -/
  ascending : toks.Pairwise fun s t => s.line ≤ t.line
  apart : toks.Pairwise fun s t => s.line = t.line → s.endColumn ≤ t.column
  /-- Every token has its place in one of the lines. -/
  placed : ∀ t ∈ toks, ∃ (i : Nat) (chars : List Char), lines[i]? = some chars ∧ t.line = number + i ∧ LiesIn chars t
  /-- Every line ends once. -/
  newlines : (toks.filter (·.hasKind .newline)).map (·.line) =
    (List.range' number lines.length).map fun n : Nat => (n : Int)
  /-- What is not covered is white space, or belongs to a comment behind the tokens of its line. -/
  gaps : ∀ (i : Nat) (chars : List Char), lines[i]? = some chars → ∀ (k : Nat) (c : Char), chars[k]? = some c →
    (∃ t ∈ toks, t.line = number + i ∧ t.CoversAt k) ∨ isBlank c = true ∨ ∃ j ≤ k, chars[j]? = some '%' ∧
        ∀ t ∈ toks, t.line = number + i → t.kind.IsWritten → t.endColumn ≤ j + 1
  /-- The first token of a line is marked. -/
  starts : ∀ front t back, toks = front ++ t :: back → t.kind.IsWritten →
    (t.lineStart = true ↔ ∀ s ∈ front, s.line ≠ t.line)
  /-- White space before a token is marked, where no block keyword opens the line. -/
  spaces : ∀ t ∈ toks, t.kind.IsWritten → (∀ s ∈ toks, s.line = t.line → ¬ s.OpensBlock) →
    ∀ (i : Nat) (chars : List Char), lines[i]? = some chars → t.line = number + i →
      (t.spaceBefore = true ↔ FollowsBlank chars t)

/-- The token is in one of the lines, of which the first has the given number; text runs out there.  It is shaped,
and not empty if it is written. -/
def Runs (number : Nat) (lines : List (List Char)) (t : Token) : Prop :=
  (∃ (i : Nat) (chars : List Char), lines[i]? = some chars ∧ t.line = number + i ∧ 1 ≤ t.column ∧
    RunsOut chars t.kind t.value.toList (t.column - 1).toNat) ∧ Shaped t ∧ (t.kind.IsWritten → t.column < t.endColumn)

/-! ## One row -/

namespace Written
variable {back front : List Token}

variable {number : Int} {chars : List Char} {opened first : Bool} {pos : Nat} {row : List Token}

/-- Tokens of a row stand behind its beginning. -/
theorem bounds (written : Written number chars opened first pos row) {t : Token} (member : t ∈ row) :
    ∃ start stop, pos ≤ start ∧ start < stop ∧ stop ≤ chars.length ∧ Placed number chars start stop t := by
  induction written with
  | done => cases member
  | @token first pos start stop u rest after nonempty inside _ _ placed _ _ _ ih => grind

theorem apart (written : Written number chars opened first pos row) :
    row.Pairwise fun s t => s.endColumn ≤ t.column := by
  induction written with
  | done => exact List.Pairwise.nil
  | @token first pos start stop u rest _ _ _ _ _ placed _ _ others ih =>
    refine List.Pairwise.cons (fun t later => ?_) ih
    obtain ⟨start', _, after, _, _, there⟩ := others.bounds later
    rw [placed.endColumn_eq, there.column_eq]
    omega

/-- Where nothing but white space and a comment is left. -/
theorem blank_or_comment {rest : List Char} (blank : Lexeme.restIsBlank rest = true) {k : Nat} {c : Char}
    (here : rest[k]? = some c) : isBlank c = true ∨ ∃ j ≤ k, rest[j]? = some '%' := by
  induction rest generalizing k with
  | nil => cases here
  | cons d rest ih =>
    rw [Lexeme.restIsBlank, dropBlanks] at blank
    by_cases space : isBlank d = true
    · cases k with
      | zero =>
        cases here
        exact .inl space
      | succ k =>
        rw [dropWhile_cons_of_pos space] at blank
        rcases ih blank here with covered | ⟨j, before, found⟩
        · exact .inl covered
        · exact .inr ⟨j + 1, Nat.succ_le_succ before, found⟩
    · rw [dropWhile_cons_of_neg space] at blank
      cases eq_of_beq blank
      exact .inr ⟨0, Nat.zero_le k, rfl⟩

theorem gaps (written : Written number chars opened first pos row) {k : Nat} {c : Char} (behind : pos ≤ k)
    (here : chars[k]? = some c) :
    (∃ t ∈ row, t.CoversAt k) ∨ isBlank c = true ∨
      ∃ j ≤ k, pos ≤ j ∧ chars[j]? = some '%' ∧ ∀ t ∈ row, t.endColumn ≤ j + 1 := by
  induction written with
  | @done _ pos rest =>
    have there : (chars.drop pos)[k - pos]? = some c := by
      rw [List.getElem?_drop, Nat.add_sub_cancel' behind]
      exact here
    rcases blank_or_comment rest there with blank | ⟨j, before, found⟩
    · exact .inr (.inl blank)
    · rw [List.getElem?_drop] at found
      exact .inr (.inr ⟨pos + j, by omega, by omega, found, by simp⟩)
  | @token first pos start stop u rest after nonempty inside blanks _ placed _ _ others ih =>
    by_cases early : k < start
    · refine .inr (.inl (blanks c ?_))
      apply mem_of_getElem? (i := k - pos)
      rw [List.getElem?_drop, Nat.add_sub_cancel' behind, List.getElem?_take_of_lt early]
      exact here
    · by_cases covered : k < stop
      · refine .inl ⟨u, mem_cons_self, ?_⟩
        rw [CoversAt, placed.column_eq, placed.endColumn_eq]
        omega
      · rcases ih (by omega) with ⟨t, member, covers⟩ | blank | ⟨j, before, after', found, ends⟩
        · exact .inl ⟨t, mem_cons_of_mem u member, covers⟩
        · exact .inr (.inl blank)
        · refine .inr (.inr ⟨j, before, by omega, found, ?_⟩)
          intro t member
          rcases mem_cons.mp member with rfl | later
          · rw [placed.endColumn_eq]
            omega
          · exact ends t later

/-- Only the first token of a row is marked. -/
theorem starts (written : Written number chars opened first pos row) {t : Token}
    (split : row = front ++ t :: back) : t.lineStart = true ↔ first = true ∧ front = [] := by
  induction written generalizing front with
  | done => simp at split
  | @token first pos start stop u rest _ _ _ _ _ _ marked _ _ ih =>
    cases front with
    | nil =>
      cases split
      simp [marked]
    | cons v front =>
      cases split
      simp [ih rfl]

theorem followsBlank_iff {start stop pos : Nat} {t : Token} (placed : Placed number chars start stop t)
    (nonempty : start < stop) (inside : stop ≤ chars.length) (after : pos ≤ start)
    (blanks : ∀ c ∈ (chars.take start).drop pos, isBlank c = true)
    (before : pos < chars.length → ∀ c ∈ (chars.take pos).getLast?, isBlank c = false) :
    FollowsBlank chars t ↔ pos < start := by
  have offset : (t.column - 1).toNat = start := by
    rw [placed.column_eq]
    omega
  rw [FollowsBlank, offset]
  constructor
  · grind
  · grind [List.getLast?_eq_some_getLast, getLast_mem, List.getLast?_drop]

theorem spaces (written : Written number chars false first pos row)
    (before : pos < chars.length → ∀ c ∈ (chars.take pos).getLast?, isBlank c = false) {t : Token}
    (member : t ∈ row) : t.spaceBefore = true ↔ FollowsBlank chars t := by
  generalize unopened : false = opened at written
  induction written with
  | done => cases member
  | @token first pos start stop u rest after nonempty inside blanks ends placed _ gap _ ih =>
    rcases mem_cons.mp member with rfl | later
    · rw [gap unopened.symm, decide_eq_true_iff, followsBlank_iff placed nonempty inside after blanks before]
    · exact ih ends later

end Written

/-- The token covers nothing and stands behind the characters of its line. -/
structure AtEnd (number : Int) (chars : List Char) (t : Token) : Prop where
  line_eq : t.line = number
  column_eq : t.column = chars.length + 1
  endColumn_eq : t.endColumn = chars.length + 1
  literal_eq : t.literal = ""
  unwritten : ¬ t.kind.IsWritten

/-- What stands at the end of a line: the end of the line, and that of the input behind the last line. -/
structure Closing (number : Int) (chars : List Char) (ends : List Token) : Prop where
  newlines : (ends.filter (·.hasKind .newline)).map (·.line) = [number]
  atEnd : ∀ t ∈ ends, AtEnd number chars t

theorem Closing.append_final {number : Int} {chars : List Char} {ends : List Token} {final : Token}
    (closing : Closing number chars ends) (kind : final.kind = .endOfInput)
    (atEnd : AtEnd number chars final) : Closing number chars (ends ++ [final]) where
  newlines := by simpa [hasKind, kind] using closing.newlines
  atEnd := by
    intro t member
    rcases mem_append.mp member with inside | outside
    · exact closing.atEnd t inside
    · rw [mem_singleton.mp outside]
      exact atEnd

/-- A line as it stands in the stream: its row, and its end. -/
structure IsRow (number : Nat) (chars : List Char) (row ends : List Token) : Prop where
  written : ∃ opened, Written number chars opened true 0 row ∧ (opened = true → ∀ t ∈ row.head?, OpensBlock t)
  closing : Closing number chars ends

namespace IsRow

variable {number : Nat} {chars : List Char} {row ends : List Token}

section
variable (is : IsRow number chars row ends)
include is

theorem line_eq {t : Token} (member : t ∈ row ++ ends) : t.line = number := by
  obtain ⟨⟨_, written, _⟩, closing⟩ := is
  rcases mem_append.mp member with inside | outside
  · obtain ⟨_, _, _, _, _, placed⟩ := written.bounds inside
    exact placed.line_eq
  · exact (closing.atEnd t outside).line_eq

theorem mem_row {t : Token} (member : t ∈ row ++ ends) (writes : t.kind.IsWritten) : t ∈ row := by
  rcases mem_append.mp member with inside | outside
  · exact inside
  · exact absurd writes (is.closing.atEnd t outside).unwritten

/-- Tokens that are written stand in front of the end of the line. -/
theorem split {t : Token} (writes : t.kind.IsWritten) (split : row ++ ends = front ++ t :: back) :
    ∃ others, row = front ++ t :: others := by
  have outside (member : t ∈ ends) : False := (is.closing.atEnd t member).unwritten writes
  rcases append_eq_append_iff.mp split with ⟨others, _, ends_eq⟩ | ⟨others, row_eq, back_eq⟩
  · exact (outside (by simp [ends_eq])).elim
  · cases others with
    | nil => exact (outside (by rw [← nil_append ends, ← back_eq]; exact mem_cons_self)).elim
    | cons u others =>
      cases back_eq
      exact ⟨others, row_eq⟩

theorem ascending : (row ++ ends).Pairwise fun s t => s.line ≤ t.line := by
  apply pairwise_iff_getElem.mpr
  intro i j hi hj _
  exact Int.le_of_eq ((is.line_eq (getElem_mem hi)).trans (is.line_eq (getElem_mem hj)).symm)

theorem apart : (row ++ ends).Pairwise fun s t => s.endColumn ≤ t.column := by
  obtain ⟨⟨_, written, _⟩, closing⟩ := is
  refine pairwise_append.mpr ⟨written.apart, ?_, ?_⟩
  · apply pairwise_iff_getElem.mpr
    intro i j hi hj _
    have stop := (closing.atEnd _ (getElem_mem hi)).endColumn_eq
    have start := (closing.atEnd _ (getElem_mem hj)).column_eq
    exact Int.le_of_eq (stop.trans start.symm)
  · intro s inside t outside
    obtain ⟨_, stop, _, _, within, placed⟩ := written.bounds inside
    rw [placed.endColumn_eq, (closing.atEnd t outside).column_eq]
    omega

theorem liesIn {t : Token} (member : t ∈ row ++ ends) : LiesIn chars t := by
  obtain ⟨⟨_, written, _⟩, closing⟩ := is
  rcases mem_append.mp member with inside | outside
  · obtain ⟨start, stop, _, nonempty, within, ⟨_, column, endColumn, _, literal, _, _⟩⟩ := written.bounds inside
    have span : t.spanIn chars = (chars.drop start).take (stop - start) := by
      have offset : (t.column - 1).toNat = start := by omega
      have length : (t.endColumn - t.column).toNat = stop - start := by omega
      rw [spanIn, offset, length]
    exact ⟨by omega, by omega, by omega, by rw [span]; exact literal⟩
  · obtain ⟨_, column, endColumn, literal, _⟩ := closing.atEnd t outside
    refine ⟨by omega, by omega, by omega, .inl ?_⟩
    rw [spanIn, column, endColumn, literal]
    simp

theorem runs (more : List (List Char)) {t : Token} (member : t ∈ row ++ ends) : Runs number (chars :: more) t := by
  suffices shown : RunsOut chars t.kind t.value.toList (t.column - 1).toNat ∧ Shaped t ∧
      (t.kind.IsWritten → t.column < t.endColumn) from
    ⟨⟨0, chars, rfl, by simp [is.line_eq member], (is.liesIn member).starts, shown.1⟩, shown.2⟩
  obtain ⟨⟨_, written, _⟩, closing⟩ := is
  rcases mem_append.mp member with inside | outside
  · obtain ⟨start, _, _, nonempty, _, placed⟩ := written.bounds inside
    have offset : (t.column - 1).toNat = start := by
      rw [placed.column_eq]
      omega
    exact ⟨offset ▸ placed.runs, placed.shaped, fun _ => by rw [placed.column_eq, placed.endColumn_eq]; omega⟩
  · have unwritten := (closing.atEnd t outside).unwritten
    have ended : t.kind = .newline ∨ t.kind = .endOfInput := by
      simpa [Kind.IsWritten, Decidable.or_iff_not_imp_left] using unwritten
    refine ⟨runsOut_of_ne ?_ _, ?_, fun writes => absurd writes unwritten⟩
    all_goals
      rcases ended with kind | kind
      all_goals simp [Shaped, ShapedAs, kind]

theorem newlines : ((row ++ ends).filter (·.hasKind .newline)).map (·.line) = [(number : Int)] := by
  obtain ⟨⟨_, written, _⟩, closing⟩ := is
  have none : row.filter (·.hasKind .newline) = [] := by
    apply filter_eq_nil_iff.mpr
    intro t inside
    obtain ⟨_, _, _, _, _, placed⟩ := written.bounds inside
    simpa [hasKind] using placed.written.1
  rw [filter_append, none, nil_append, closing.newlines]

theorem starts {t : Token} (split : row ++ ends = front ++ t :: back) (writes : t.kind.IsWritten) :
    t.lineStart = true ↔ ∀ s ∈ front, s.line ≠ t.line := by
  obtain ⟨others, row_eq⟩ := is.split writes split
  obtain ⟨_, written, _⟩ := is.written
  rw [written.starts row_eq]
  constructor
  · rintro ⟨_, rfl⟩
    simp
  · intro different
    refine ⟨rfl, eq_nil_iff_forall_not_mem.mpr fun s member => different s member ?_⟩
    rw [is.line_eq (t := s) (by simp [row_eq, member]), is.line_eq (t := t) (by simp [row_eq])]

theorem spaces {t : Token} (member : t ∈ row ++ ends)
    (writes : t.kind.IsWritten) (unopened : ∀ s ∈ row ++ ends, s.line = t.line → ¬ s.OpensBlock) :
    t.spaceBefore = true ↔ FollowsBlank chars t := by
  have inside := is.mem_row member writes
  obtain ⟨opened, written, keyword⟩ := is.written
  cases opened with
  | false => exact written.spaces (by simp) inside
  | true =>
    cases row with
    | nil => cases inside
    | cons u row =>
      have front : u ∈ u :: row ++ ends := mem_cons_self
      exact absurd (keyword rfl u rfl) (unopened u front (by rw [is.line_eq front, is.line_eq member]))

/-- A row with the end of its line covers the line. -/
theorem covers : Covers number [chars] (row ++ ends) where
  ascending := is.ascending
  apart := by
    apply is.apart.imp
    exact fun ordered _ => ordered
  placed := fun t member => ⟨0, chars, rfl, by simp [is.line_eq member], is.liesIn member⟩
  newlines := is.newlines
  gaps := by
    intro i content found k c here
    obtain ⟨rfl, rfl⟩ : i = 0 ∧ chars = content := by simpa [List.getElem?_singleton] using found
    obtain ⟨_, written, _⟩ := is.written
    rcases written.gaps (Nat.zero_le k) here with ⟨t, member, covers⟩ | blank | ⟨j, before, _, comment, ends⟩
    · have inside := mem_append_left ends member
      exact .inl ⟨t, inside, by simp [is.line_eq inside], covers⟩
    · exact .inr (.inl blank)
    · exact .inr (.inr ⟨j, before, comment, fun t member _ writes => ends t (is.mem_row member writes)⟩)
  starts := fun _ _ _ split writes => is.starts split writes
  spaces := by
    intro t member writes unopened i content found _
    obtain ⟨rfl, rfl⟩ : i = 0 ∧ chars = content := by simpa [List.getElem?_singleton] using found
    exact is.spaces member writes unopened

theorem last {final : Token} (kind : final.kind = .endOfInput) (atEnd : AtEnd number chars final) :
    Covers number [chars] (row ++ ends ++ [final]) ∧ ∀ t ∈ row ++ ends ++ [final], Runs number [chars] t := by
  have ended : IsRow number chars row (ends ++ [final]) := ⟨is.written, is.closing.append_final kind atEnd⟩
  rw [append_assoc]
  exact ⟨ended.covers, fun t member => ended.runs [] member⟩

end

end IsRow

/-! ## Line after line -/

namespace Covers

variable {number : Nat} {lines more : List (List Char)} {toks rest : List Token}

theorem line_lt (first : Covers number lines toks) {t : Token} (member : t ∈ toks) :
    t.line < number + lines.length := by
  obtain ⟨i, chars, found, numbered, _⟩ := first.placed t member
  obtain ⟨inside, _⟩ := List.getElem?_eq_some_iff.mp found
  omega

theorem le_line (second : Covers number lines toks) {t : Token} (member : t ∈ toks) : number ≤ t.line := by
  obtain ⟨i, chars, found, numbered, _⟩ := second.placed t member
  omega

section
variable (first : Covers number lines toks) (second : Covers (number + lines.length) more rest)
include first second

/-- No token of the first lines stands on one of the lines after them. -/
theorem line_lt_line {s t : Token} (before : s ∈ toks) (after : t ∈ rest) : s.line < t.line := by
  have := first.line_lt before
  have := second.le_line after
  omega

theorem gaps_append {i : Nat} {chars : List Char} (found : (lines ++ more)[i]? = some chars) {k : Nat} {c : Char}
    (here : chars[k]? = some c) :
    (∃ t ∈ toks ++ rest, t.line = number + i ∧ t.CoversAt k) ∨ isBlank c = true ∨ ∃ j ≤ k, chars[j]? = some '%' ∧
        ∀ t ∈ toks ++ rest, t.line = number + i → t.kind.IsWritten → t.endColumn ≤ j + 1 := by
  by_cases before : i < lines.length
  · rw [List.getElem?_append_left before] at found
    rcases first.gaps i chars found k c here with ⟨t, member, covered⟩ | blank | ⟨j, inside, comment, ends⟩
    · exact .inl ⟨t, mem_append_left _ member, covered⟩
    · exact .inr (.inl blank)
    · refine .inr (.inr ⟨j, inside, comment, fun t member numbered writes => ?_⟩)
      rcases mem_append.mp member with earlier | later
      · exact ends t earlier numbered writes
      · have := second.le_line later
        omega
  · rw [List.getElem?_append_right (by omega)] at found
    have shift : (number : Int) + i = (number + lines.length : Nat) + (i - lines.length : Nat) := by omega
    rw [shift]
    rcases second.gaps _ chars found k c here with ⟨t, member, covered⟩ | blank | ⟨j, inside, comment, ends⟩
    · exact .inl ⟨t, mem_append_right _ member, covered⟩
    · exact .inr (.inl blank)
    · refine .inr (.inr ⟨j, inside, comment, fun t member numbered writes => ?_⟩)
      rcases mem_append.mp member with earlier | later
      · have := first.line_lt earlier
        omega
      · exact ends t later numbered writes

theorem starts_append {t : Token} (split : toks ++ rest = front ++ t :: back)
    (writes : t.kind.IsWritten) : t.lineStart = true ↔ ∀ s ∈ front, s.line ≠ t.line := by
  have behind {others : List Token} (rest_eq : rest = others ++ t :: back) :
      t.lineStart = true ↔ ∀ s ∈ toks ++ others, s.line ≠ t.line := by
    rw [second.starts others t back rest_eq writes]
    constructor
    · intro different s member
      rcases mem_append.mp member with earlier | later
      · exact Int.ne_of_lt (line_lt_line first second earlier (by simp [rest_eq]))
      · exact different s later
    · exact fun different s member => different s (mem_append_right _ member)
  rcases append_eq_append_iff.mp split with ⟨others, front_eq, rest_eq⟩ | ⟨others, toks_eq, back_eq⟩
  · rw [front_eq]
    exact behind rest_eq
  · cases others with
    | nil => grind
    | cons u others =>
      cases back_eq
      exact first.starts front t others toks_eq writes

theorem spaces_append {t : Token} (member : t ∈ toks ++ rest) (writes : t.kind.IsWritten)
    (unopened : ∀ s ∈ toks ++ rest, s.line = t.line → ¬ s.OpensBlock) {i : Nat} {chars : List Char}
    (found : (lines ++ more)[i]? = some chars) (numbered : t.line = number + i) :
    t.spaceBefore = true ↔ FollowsBlank chars t := by
  rcases mem_append.mp member with earlier | later
  · have := first.line_lt earlier
    rw [List.getElem?_append_left (by omega)] at found
    exact first.spaces t earlier writes (fun s inside => unopened s (mem_append_left _ inside)) i chars
      found numbered
  · have := second.le_line later
    rw [List.getElem?_append_right (by omega)] at found
    exact second.spaces t later writes (fun s inside => unopened s (mem_append_right _ inside)) _ chars
      found (by omega)

/-- Lines are covered one after the other. -/
theorem append : Covers number (lines ++ more) (toks ++ rest) where
  ascending := pairwise_append.mpr ⟨first.ascending, second.ascending,
    fun _ before _ after => Int.le_of_lt (line_lt_line first second before after)⟩
  apart := pairwise_append.mpr ⟨first.apart, second.apart,
    fun _ before _ after same => absurd same (Int.ne_of_lt (line_lt_line first second before after))⟩
  placed := by
    intro t member
    rcases mem_append.mp member with before | after
    · obtain ⟨i, chars, found, place⟩ := first.placed t before
      obtain ⟨inside, _⟩ := List.getElem?_eq_some_iff.mp found
      exact ⟨i, chars, by rw [List.getElem?_append_left inside]; exact found, place⟩
    · obtain ⟨i, chars, found, numbered, lies⟩ := second.placed t after
      refine ⟨lines.length + i, chars, ?_, by omega, lies⟩
      rw [List.getElem?_append_right (by omega), Nat.add_sub_cancel_left]
      exact found
  newlines := by
    rw [filter_append, map_append, first.newlines, second.newlines, ← map_append, length_append, List.range'_append_1]
  gaps := fun _ _ found _ _ here => gaps_append first second found here
  starts := fun _ _ _ split writes => starts_append first second split writes
  spaces := fun _ member writes unopened _ _ found numbered =>
    spaces_append first second member writes unopened found numbered

end

end Covers

namespace Reading

/-- A line is read as its row and its end. -/
theorem isRow_readLine (r : Reading) {number : Nat} {carry carry' : Carry} {chars : List Char}
    {toks : List Token} (read : r.readLine number carry chars = .ok (toks, carry')) :
    ∃ row newline, toks = row ++ [newline] ∧ IsRow number chars row [newline] ∧ ∀ t ∈ toks, t.kind ≠ .endOfInput := by
  unfold readLine at read
  dsimp only at read
  obtain ⟨⟨s, capture⟩, found, same⟩ := map_eq_ok.mp read
  cases same
  have adds : AddsRow chars { number := number, brackets := carry.brackets } s := by
    grind [adds_plainLine, adds_capturedLine, Except.ok.inj]
  obtain ⟨opened, ⟨row, tokens, numbered, written⟩, keyword⟩ := adds
  rw [append_nil] at tokens
  refine ⟨row, _, by rw [Scan.emit, tokens, reverse_cons, reverse_reverse], ⟨⟨opened, written, ?_⟩, ?_⟩, ?_⟩
  · rw [← List.getLast?_reverse, ← tokens]
    exact keyword
  · refine ⟨by simp [numbered, hasKind], fun t member => ?_⟩
    rw [mem_singleton.mp member]
    exact ⟨numbered, rfl, rfl, rfl, by simp [Kind.IsWritten]⟩
  · intro t member
    rw [Scan.emit, tokens, reverse_cons, reverse_reverse] at member
    rcases mem_append.mp member with inside | outside
    · obtain ⟨_, _, _, _, _, placed⟩ := written.bounds inside
      exact placed.written.2
    · rw [mem_singleton.mp outside]
      simp

theorem covers_readLines (r : Reading) {number : Nat} {carry : Carry} {lines : List (List Char)}
    {toks : List Token} (some : lines ≠ []) (read : r.readLines number carry lines = .ok toks) :
    Covers number lines toks ∧ (∀ t ∈ toks, Runs number lines t) ∧
      ∃ front final, toks = front ++ [final] ∧ final.kind = .endOfInput ∧ ∀ t ∈ front, t.kind ≠ .endOfInput := by
  induction lines generalizing number carry toks with
  | nil => exact absurd rfl some
  | cons chars rest ih =>
    unfold readLines at read
    split at read
    next => cases read
    next tokens carried line_read =>
      obtain ⟨row, newline, rfl, is, kinds⟩ := isRow_readLine r line_read
      split at read
      next last =>
        cases isEmpty_iff.mp last
        cases read
        exact and_assoc.mp ⟨is.last rfl ⟨rfl, rfl, rfl, rfl, by simp [Kind.IsWritten]⟩, _, _, rfl, rfl, kinds⟩
      next notLast =>
        split at read
        next => cases read
        next more more_read =>
          cases read
          obtain ⟨covers, runs, front, final, rfl, kind, others⟩ := ih (by simpa using notLast) more_read
          have shifted : ∀ t ∈ front ++ [final], Runs number (chars :: rest) t := by
            intro t member
            obtain ⟨⟨i, line, found, numbered, run⟩, shaped⟩ := runs t member
            exact ⟨⟨i + 1, line, found, by omega, run⟩, shaped⟩
          exact ⟨is.covers.append covers, forall_mem_append.mpr ⟨fun t member => is.runs rest member, shifted⟩,
            row ++ [newline] ++ front, final, by simp, kind, forall_mem_append.mpr ⟨kinds, others⟩⟩

/-- The tokens of a source cover its lines, and the end of the input stands behind them. -/
theorem tokens_cover_source (r : Reading) (source : String) {toks : List Token} (read : r.tokens source = .ok toks) :
    Text.AreLines source.toList (sourceLines source) ∧ Covers 1 (sourceLines source) toks ∧
      ∃ front final, toks = front ++ [final] ∧ final.kind = .endOfInput ∧ ∀ t ∈ front, t.kind ≠ .endOfInput := by
  have lines := areLines_sourceLines source
  have ⟨covers, _, ended⟩ := covers_readLines r lines.ne_nil read
  exact ⟨lines, covers, ended⟩

theorem blockWithComment_covered :
    ∃ toks, ({} : Reading).tokens "PROOF: x not in S  \r\n  <y> . z % rest\n" = .ok toks ∧
      Covers 1 ["PROOF: x not in S  ".toList, "  <y> . z % rest".toList, []] toks := by
  have accepted : (({} : Reading).tokens "PROOF: x not in S  \r\n  <y> . z % rest\n").toOption.isSome = true := by
    decide
  cases read : ({} : Reading).tokens "PROOF: x not in S  \r\n  <y> . z % rest\n" with
  | error fault =>
    rw [read] at accepted
    cases accepted
  | ok toks => exact ⟨toks, rfl, (tokens_cover_source {} _ read).2.1⟩

end Reading
end Token
end Whiteboard
