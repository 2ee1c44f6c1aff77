import Whiteboard.Text.Case
import Whiteboard.Text.Digit
import Whiteboard.Text.Letter
import Whiteboard.Text.Lines
import Whiteboard.Text.Punctuation

namespace Whiteboard

open List
namespace Text

/-!
# Classes of characters, trimming and splitting

Letters, digits and white space have no character in common, and neither have small and capital
letters, which is read off their tables.  Trimming takes white space away and nothing else.
-/

/-! ## Tables of code points -/

/-- Intervals are spans without gaps. -/
def spansOf (table : List (Nat × Nat)) : List Span := table.map fun p => (p.1, p.1 + p.2, 1)

theorem inSpans_spansOf (table : List (Nat × Nat)) (n : Nat) : inSpans (spansOf table) n = inIntervals table n := by
  induction table with
  | nil => rfl
  | cons p rest ih =>
    rw [spansOf, map_cons, inSpans, inIntervals, ← spansOf, ih]
    simp [Nat.mod_one]

/-- Are the code points of a span all even or all odd? -/
def keepsParity (p : Span) : Bool := p.1 == p.2.1 || p.2.2 == 2

/-- Do the spans lie beside each other, or do the even code points alternate with the odd ones? -/
def alternates (p q : Span) : Bool :=
  decide (p.2.1 < q.1) || decide (q.2.1 < p.1) || (keepsParity p && keepsParity q && (p.1 + q.1) % 2 == 1)

/-- Do the spans of two sorted tables have no code point in common?  For each span of the second, those
of the first that end before it are passed for good. -/
def liesBeside (first : List Span) : List Span → Bool
  | [] => true
  | q :: rest =>
    let left := first.dropWhile fun p => decide (p.2.1 < q.1)
    decide (q.1 ≤ q.2.1) && (left.takeWhile fun p => decide (p.1 ≤ q.2.1)).all (alternates · q) &&
      liesBeside left rest

variable {n : Nat}

theorem inSpans_dropWhile {bound : Nat} (passed : bound ≤ n) (table : List Span) :
    inSpans (table.dropWhile fun p => decide (p.2.1 < bound)) n = inSpans table n := by
  induction table with
  | nil => rfl
  | cons p rest ih =>
    obtain ⟨first, last, step⟩ := p
    rw [dropWhile_cons]
    split
    next before =>
      have ended : last < bound := of_decide_eq_true before
      have behind : ¬ n ≤ last := by omega
      rw [ih, inSpans, if_neg behind]
    next => rfl

/-- A code point of a table is in a span that does not begin behind it. -/
theorem exists_of_inSpans {table : List Span} (ordered : ∀ p ∈ table, p.1 ≤ p.2.1) {high : Nat}
    (inside : inSpans table n = true) (below : n ≤ high) :
    ∃ p ∈ table.takeWhile (fun p => decide (p.1 ≤ high)), p.1 ≤ n ∧ n ≤ p.2.1 ∧ (n - p.1) % p.2.2 = 0 := by
  induction table with
  | nil => cases inside
  | cons p rest ih =>
    obtain ⟨first, last, step⟩ := p
    have here : first ≤ last := ordered _ mem_cons_self
    have reached (begins : first ≤ high) : ((first, last, step) :: rest).takeWhile (fun p => decide (p.1 ≤ high)) =
          (first, last, step) :: rest.takeWhile (fun p => decide (p.1 ≤ high)) := by
      rw [takeWhile_cons, if_pos (decide_eq_true begins)]
    rw [inSpans] at inside
    split at inside
    next low =>
      simp only [Bool.and_eq_true, decide_eq_true_eq, beq_iff_eq] at inside
      refine ⟨(first, last, step), ?_, inside.1, low, inside.2⟩
      rw [reached (by omega)]
      exact mem_cons_self
    next behind => grind

theorem mod_two_of_keepsParity {p : Span} (parity : keepsParity p = true) (low : p.1 ≤ n)
    (high : n ≤ p.2.1) (step : (n - p.1) % p.2.2 = 0) : n % 2 = p.1 % 2 := by
  simp only [keepsParity, Bool.or_eq_true, beq_iff_eq] at parity
  rcases parity with single | two
  · omega
  · rw [two] at step
    omega

theorem not_both_of_alternates {p q : Span} (apart : alternates p q = true)
    (inP : p.1 ≤ n ∧ n ≤ p.2.1 ∧ (n - p.1) % p.2.2 = 0)
    (inQ : q.1 ≤ n ∧ n ≤ q.2.1 ∧ (n - q.1) % q.2.2 = 0) : False := by
  simp only [alternates, Bool.or_eq_true, Bool.and_eq_true, decide_eq_true_eq, beq_iff_eq] at apart
  rcases apart with (before | after) | ⟨⟨parityP, parityQ⟩, odd⟩
  · omega
  · omega
  · grind [mod_two_of_keepsParity]

theorem inSpans_eq_false {first second : List Span} (ordered : ∀ p ∈ first, p.1 ≤ p.2.1)
    (beside : liesBeside first second = true) (inside : inSpans second n = true) :
    inSpans first n = false := by
  induction second generalizing first with
  | nil => cases inside
  | cons q rest ih =>
    obtain ⟨begins, ends, step⟩ := q
    simp only [liesBeside, Bool.and_eq_true, decide_eq_true_eq] at beside
    obtain ⟨⟨orderedQ, apart⟩, more⟩ := beside
    have orderedLeft : ∀ p ∈ first.dropWhile (fun p => decide (p.2.1 < begins)), p.1 ≤ p.2.1 :=
      fun p member => ordered p ((dropWhile_suffix _).subset member)
    rw [inSpans] at inside
    split at inside
    next low =>
      simp only [Bool.and_eq_true, decide_eq_true_eq, beq_iff_eq] at inside
      apply Bool.eq_false_iff.mpr
      intro also
      rw [← inSpans_dropWhile inside.1] at also
      obtain ⟨p, member, inP⟩ := exists_of_inSpans orderedLeft also low
      exact not_both_of_alternates (all_eq_true.mp apart p member) inP ⟨inside.1, low, inside.2⟩
    next behind =>
      rw [← inSpans_dropWhile (show begins ≤ n by omega)]
      exact ih orderedLeft more inside

/-- Tables that have no code point in common, two by two. -/
def separateTables : List (List Span × List Span) :=
  [(spansOf blankIntervals, spansOf letterIntervals), (spansOf blankIntervals, spansOf digitIntervals),
   (spansOf digitIntervals, spansOf letterIntervals), (spansOf blankIntervals, lowerSpans), (upperSpans, lowerSpans),
   (spansOf punctuationIntervals, lowerSpans)]

theorem separateTables_lie_beside : ∀ pair ∈ separateTables,
    (∀ p ∈ pair.1, p.1 ≤ p.2.1) ∧ liesBeside pair.1 pair.2 = true := by
  decide +kernel

theorem inSpans_of_separate {first second : List Span} (separate : (first, second) ∈ separateTables)
    (inside : inSpans second n = true) : inSpans first n = false :=
  have ⟨ordered, beside⟩ := separateTables_lie_beside _ separate
  inSpans_eq_false ordered beside inside

variable {c : Char}

theorem not_blank_of_isLetter (letter : isLetter c = true) : isBlank c = false := by
  rw [isLetter, ← inSpans_spansOf] at letter
  rw [isBlank, ← inSpans_spansOf]
  exact inSpans_of_separate (by simp [separateTables]) letter

theorem not_blank_of_isDigit (digit : isDigit c = true) : isBlank c = false := by
  rw [isDigit, ← inSpans_spansOf] at digit
  rw [isBlank, ← inSpans_spansOf]
  exact inSpans_of_separate (by simp [separateTables]) digit

theorem not_digit_of_isLetter (letter : isLetter c = true) : isDigit c = false := by
  rw [isLetter, ← inSpans_spansOf] at letter
  rw [isDigit, ← inSpans_spansOf]
  exact inSpans_of_separate (by simp [separateTables]) letter

theorem not_blank_of_isLower (lower : isLower c = true) : isBlank c = false := by
  rw [isBlank, ← inSpans_spansOf]
  exact inSpans_of_separate (by simp [separateTables]) lower

theorem not_upper_of_isLower (lower : isLower c = true) : isUpper c = false :=
  inSpans_of_separate (by simp [separateTables]) lower

theorem not_punctuation_of_isLower (lower : isLower c = true) : isPunctuation c = false := by
  rw [isPunctuation, ← inSpans_spansOf]
  exact inSpans_of_separate (by simp [separateTables]) lower

/-! ## Trimming -/

/-- What trailing characters are dropped, and what is left. -/
theorem dropTrailing_append (p : Char → Bool) (cs : List Char) :
    ∃ tail, cs = dropTrailing p cs ++ tail ∧ tail.all p = true := by
  fun_induction dropTrailing p cs with
  | case1 => exact ⟨[], rfl, rfl⟩
  | case2 c cs dropped holds ih => simp_all
  | case3 c cs dropped fails ih => grind
  | case4 c cs kept ih => grind

variable {p : Char → Bool}

/-- The last character that is left is not one of those to be dropped. -/
theorem getLast?_dropTrailing {cs : List Char} (last : (dropTrailing p cs).getLast? = some c) : p c = false := by
  fun_induction dropTrailing p cs with
  | case1 => cases last
  | case2 => cases last
  | case3 d cs dropped fails ih =>
    cases last
    exact Bool.eq_false_iff.mpr fails
  | case4 d cs nonempty ih => grind

theorem dropTrailing_eq_self {cs : List Char} (kept : ∀ c ∈ cs.getLast?, p c = false) : dropTrailing p cs = cs := by
  obtain ⟨tail, split, all⟩ := dropTrailing_append p cs
  rcases eq_nil_or_concat tail with rfl | ⟨before, c, rfl⟩
  · rw [append_nil] at split
    exact split.symm
  · have last : cs.getLast? = some c := by
      rw [split]
      simp
    have dropped : p c = true := all_eq_true.mp all c (by simp)
    rw [kept c last] at dropped
    cases dropped

theorem dropTrailing_cons (kept : p c = false) (rest : List Char) :
    ∃ more, dropTrailing p (c :: rest) = c :: more := by
  rw [dropTrailing]
  cases dropTrailing p rest with
  | nil => exact ⟨[], by simp [kept]⟩
  | cons d more => exact ⟨d :: more, rfl⟩

theorem dropBlanks_eq_drop (line : List Char) : line.drop (line.length - (dropBlanks line).length) = dropBlanks line :=
  (suffix_iff_eq_drop.mp (dropWhile_suffix isBlank)).symm

theorem length_dropBlanks_le (line : List Char) : (dropBlanks line).length ≤ line.length :=
  (dropWhile_suffix isBlank).length_le

variable {line : List Char}

/-- The characters before the first one that is no white space are white space. -/
theorem blank_of_mem_take (member : c ∈ line.take (line.length - (dropBlanks line).length)) : isBlank c = true := by
  have split : line.takeWhile isBlank ++ dropBlanks line = line := takeWhile_append_dropWhile
  have front : line.take (line.length - (dropBlanks line).length) = line.takeWhile isBlank := by
    have lengths := congrArg List.length split
    rw [length_append] at lengths
    have count : line.length - (dropBlanks line).length = (line.takeWhile isBlank).length := by omega
    rw [count]
    exact (prefix_iff_eq_take.mp <| takeWhile_prefix isBlank).symm
  rw [front] at member
  exact all_eq_true.mp all_takeWhile c member

theorem head_dropBlanks {rest : List Char} (found : dropBlanks line = c :: rest) : isBlank c = false := by
  have head := List.head?_dropWhile_not isBlank line
  rw [← dropBlanks, found] at head
  simpa using head

theorem dropBlanks_dropBlanks (line : List Char) : dropBlanks (dropBlanks line) = dropBlanks line := by
  cases found : dropBlanks line with
  | nil => rfl
  | cons c rest => exact dropWhile_cons_of_neg (by simp [head_dropBlanks found])

/-- Text is trimmed to nothing only if it is white space, and keeps its first character otherwise. -/
theorem trimBlanks_cons {rest : List Char} (found : dropBlanks line = c :: rest) :
    ∃ more, trimBlanks line = c :: more := by
  rw [trimBlanks, found]
  exact dropTrailing_cons (head_dropBlanks found) rest

theorem dropBlanks_eq_nil_of_trimBlanks (empty : trimBlanks line = []) : dropBlanks line = [] := by
  cases found : dropBlanks line with
  | nil => rfl
  | cons c rest =>
    obtain ⟨more, trimmed⟩ := trimBlanks_cons found
    rw [trimmed] at empty
    cases empty

/-! ## Pieces and lines -/

theorem splitWhere_eq_self {cs : List Char} (none : ∀ c ∈ cs, p c = false) : splitWhere p cs = [cs] := by
  induction cs with
  | nil => rfl
  | cons c cs ih =>
    rw [splitWhere, none c mem_cons_self, ih fun d later => none d (mem_cons_of_mem c later)]
    rfl

/-- The first piece goes up to the first character at which the text is split. -/
theorem splitWhere_append {front after : List Char} (none : ∀ c ∈ front, p c = false)
    (splits : ∀ c ∈ after.head?, p c = true) : ∃ more, splitWhere p (front ++ after) = front :: more := by
  induction front with
  | nil =>
    cases after with
    | nil => exact ⟨[], rfl⟩
    | cons c rest => exact ⟨splitWhere p rest, by rw [nil_append, splitWhere, if_pos (splits c rfl)]⟩
  | cons c front ih =>
    obtain ⟨more, split⟩ := ih fun d later => none d (mem_cons_of_mem c later)
    exact ⟨more, by rw [cons_append, splitWhere, none c mem_cons_self, split]; rfl⟩

/-- The characters between the signs of a text. -/
inductive ArePieces (sign : Char) : List Char → List (List Char) → Prop
  | last {piece} : sign ∉ piece → ArePieces sign piece [piece]
  | next {piece rest pieces} : sign ∉ piece → ArePieces sign rest pieces →
      ArePieces sign (piece ++ sign :: rest) (piece :: pieces)

/-- A line without the carriage returns at its end. -/
structure IsLine (piece line : List Char) : Prop where
  feedless : '\n' ∉ piece
  returns : ∃ returns : List Char, piece = line ++ returns ∧ ∀ c ∈ returns, c = '\r'
  ends : line.getLast? ≠ some '\r'

/-- The lines of a source. -/
inductive AreLines : List Char → List (List Char) → Prop
  | last {piece line} : IsLine piece line → AreLines piece [line]
  | next {piece line rest lines} : IsLine piece line → AreLines rest lines →
      AreLines (piece ++ '\n' :: rest) (line :: lines)

theorem AreLines.ne_nil {source : List Char} {lines : List (List Char)} (are : AreLines source lines) : lines ≠ [] := by
  cases are <;> simp

theorem arePieces_splitWhere (sign : Char) (cs : List Char) : ArePieces sign cs (splitWhere (· == sign) cs) := by
  induction cs with
  | nil => exact .last (by simp)
  | cons c cs ih =>
    rw [splitWhere]
    split
    next feed =>
      cases eq_of_beq feed
      exact .next (show sign ∉ [] by simp) ih
    next other =>
      have different : sign ≠ c := fun same => other (beq_iff_eq.mpr same.symm)
      generalize splitWhere (· == sign) cs = pieces at ih
      cases ih with
      | last free => exact .last (by simp [different, free])
      | @next piece _ _ free more =>
        have kept : sign ∉ c :: piece := by simp [different, free]
        exact .next kept more

theorem isLine_dropReturns {piece : List Char} (feedless : '\n' ∉ piece) : IsLine piece (dropReturns piece) := by
  obtain ⟨returns, split, all⟩ := dropTrailing_append (· == '\r') piece
  refine ⟨feedless, ⟨returns, split, by simpa using all⟩, fun last => ?_⟩
  have kept := getLast?_dropTrailing last
  cases kept

theorem areLines_sourceLines (source : String) : AreLines source.toList (sourceLines source) := by
  have pieces := arePieces_splitWhere '\n' source.toList
  rw [sourceLines, splitLines]
  generalize splitWhere (· == '\n') source.toList = parts at pieces
  generalize source.toList = cs at pieces
  induction pieces with
  | last free => exact .last (isLine_dropReturns free)
  | next free _ ih => exact .next (isLine_dropReturns free) ih

end Text
end Whiteboard
