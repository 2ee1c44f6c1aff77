import Mathlib.Data.Bool.Basic
import Mathlib.Data.List.Perm.Subperm
import Whiteboard.Proofs.Token.Comment
import Whiteboard.Proofs.Token.Cover
import Whiteboard.Proofs.Token.Search

namespace Whiteboard

open List Text Lexeme
namespace Token

/-!
# The brackets of sequences

The signs `<` and `>` are brackets of a sequence or comparisons.  Where a `<` is read as a bracket its line has been
searched for the `>` that closes it, and just the signs at the places that were found are read as closing brackets.
So no closing bracket is without an opening one.  An opening bracket stays open if the sign that was found for it is
not read: a comment, a rule name or prose may hide it.
-/

/-- The sign `<`, read as a bracket. -/
def opensSequence (t : Token) : Bool := t.isDelim "⟨" && t.literal == "<"

/-- The sign `>`, read as a bracket. -/
def closesSequence (t : Token) : Bool := t.isDelim "⟩" && t.literal == ">"

/-- The brackets that are open after a token; a closing one is for the last of them. -/
def pair (opened : List Token) (t : Token) : Option (List Token) :=
  if t.opensSequence then some (t :: opened)
  else if t.closesSequence then opened.tail?
  else some opened

/-- The brackets that are open at the end of a row, if every closing one had one to close. -/
def pairing (row : List Token) : Option (List Token) := row.foldlM pair []

/-- The offsets of the signs that were found for the opening brackets of a row, whose tokens are given from the last
to the first. -/
def soughtClosers (line : List Char) : List Token → List Nat
  | [] => []
  | t :: earlier =>
    (if t.opensSequence then
      ((sequenceCloser {} (Scan.after earlier t.spaceBefore).isTight (occursIn "::=".toList line)
        (line.drop t.column.toNat)).map (t.column.toNat - 1 + ·)).toList
    else []) ++ soughtClosers line earlier

/-- The tokens of one line of a source. -/
def rowOf (number : Nat) (toks : List Token) : List Token := toks.filter fun t => t.line == (number : Int)

variable {number : Nat} {toks : List Token}

theorem rowOf_eq_self (all : ∀ t ∈ toks, t.line = number) : rowOf number toks = toks :=
  filter_eq_self.mpr fun t member => beq_iff_eq.mpr (all t member)

theorem rowOf_eq_nil (none : ∀ t ∈ toks, t.line ≠ number) : rowOf number toks = [] :=
  filter_eq_nil_iff.mpr fun t member same => none t member (beq_iff_eq.mp same)

/-- The offsets of the closing brackets. -/
def closers (row : List Token) : List Nat := (row.filter closesSequence).map (·.column.toNat - 1)

@[simp]
theorem closers_cons (t : Token) (row : List Token) :
    closers (t :: row) = (if t.closesSequence then [t.column.toNat - 1] else []) ++ closers row := by
  unfold closers
  rw [filter_cons]
  split <;> rfl

@[simp]
theorem pairing_append (row : List Token) (t : Token) : pairing (row ++ [t]) = (pairing row).bind (pair · t) := by
  simp [pairing, foldlM_append]

namespace Reading

variable {r : Reading} {defines : Bool} {s s₁ s' : Scan} {pos : Nat} {c : Char} {line cs : List Char} {lexeme : Lexeme}

/-! ## One token -/

theorem delimiters_unlike : ∀ p ∈ delimiters, p.1 ≠ "<" ∧ p.1 ≠ ">" := by
  decide

/-- A token is no bracket of a sequence, or it closes one at a place that was found, or it opens one. -/
theorem bracket_of_lexemeAt (found : r.lexemeAt defines s pos c cs = .ok (s₁, lexeme)) (visible : isBlank c = false) :
    ∃ t : Token, (addLexeme s₁ lexeme pos (c :: cs)).tokens = t :: s.tokens ∧ t.column = pos + 1 ∧
      t.spaceBefore = (s.gap || (s.tokens.isEmpty && decide (0 < pos))) ∧
      ((t.opensSequence = false ∧ t.closesSequence = false ∧ s₁.closers = s.closers) ∨
        (t.opensSequence = false ∧ t.closesSequence = true ∧ s₁.closers = s.closers ∧ pos ∈ s.closers) ∨
        (t.opensSequence = true ∧ t.closesSequence = false ∧ ∃ offset,
          sequenceCloser s.brackets s.isTight defines cs = some offset ∧
            s₁.closers = (pos + offset) :: s.closers)) := by
  rcases addLexeme_eq_cons (extends_of_lexemeAt found visible).1 lexeme pos (c :: cs) with
    ⟨t, added, kind, value, literal, column, space⟩
  refine ⟨t, added, column, space, ?_⟩
  simp only [opensSequence, closesSequence, isDelim, is, kind, value, literal]
  rw [lexemeAt_eq_ok_iff] at found
  cases found with
  | closer closes => grind
  | continuation => exact .inl ⟨by simp, by simp, rfl⟩
  | rule _ _ named => exact .inl (by simp [kind_of_justification named])
  | number => exact .inl (by simp [Lexeme.number])
  | word => exact .inl (by simp [word_ne_delimiter])
  | sign _ _ _ _ _ sign =>
    cases sign with
    | sequence longest operator less closer =>
      rcases of_longest longest with ⟨n, _, _, ⟨_, _, rfl⟩ | ⟨s, known, rfl⟩⟩
      · cases operator
      · have spelled := less_spelled _ (mem_of_lookup known) less
        dsimp only at spelled ⊢
        rw [spelled]
        exact .inr (.inr ⟨rfl, rfl, _, closer, rfl⟩)
    | less _ operator | operator _ operator => exact .inl (by simp [operator])
    | raised => exact .inl (by simp)
    | delimiter longest delimiter =>
      rcases of_longest longest with ⟨n, _, _, ⟨_, listed, rfl⟩ | ⟨s, _, rfl⟩⟩
      · have unlike := delimiters_unlike _ listed
        exact .inl (by simp [unlike])
      · exact absurd delimiter (kindOf_ne_delimiter s)
    | other _ _ noDelimiter => exact .inl (by simp [noDelimiter])

/-! ## One row -/

/-- What is known while a row is read: the places that were found, and the tokens so far, the last one first. -/
structure Paired (line : List Char) (pos : Nat) (found : List Nat) (earlier : List Token) : Prop where
  sought : found = soughtClosers line earlier
  read : ∀ q ∈ closers earlier, q ∈ found ∧ q < pos
  distinct : (closers earlier).Nodup
  paired : ∃ opened, pairing earlier.reverse = some opened ∧ opened.length + (closers earlier).length = found.length

namespace Paired

variable {pos' : Nat} {found : List Nat} {earlier : List Token} {t : Token}

section
variable (known : Paired line pos found earlier)
include known

theorem mono (further : pos ≤ pos') : Paired line pos' found earlier :=
  { known with read := fun q member => ⟨(known.read q member).1, Nat.lt_of_lt_of_le (known.read q member).2 further⟩ }

theorem self : Paired line pos (soughtClosers line earlier) earlier :=
  known.sought ▸ known

theorem other (opens : t.opensSequence = false)
    (closes : t.closesSequence = false) : Paired line pos found (t :: earlier) where
  sought := by simp [soughtClosers, opens, known.sought]
  read := by simpa [closes] using known.read
  distinct := by simpa [closes] using known.distinct
  paired := by
    obtain ⟨opened, paired, balance⟩ := known.paired
    refine ⟨opened, ?_, by simpa [closes] using balance⟩
    simp [paired, pair, opens, closes]

/-- A closing bracket has one to close: it is at a place that was found, and no other one is there. -/
theorem close (opens : t.opensSequence = false)
    (closes : t.closesSequence = true) (column : t.column = pos + 1) (member : pos ∈ found) :
    Paired line (pos + 1) found (t :: earlier) := by
  have offset : closers (t :: earlier) = pos :: closers earlier := by simp [closes, column]
  have distinct : (pos :: closers earlier).Nodup :=
    nodup_cons.mpr ⟨fun again => Nat.lt_irrefl pos (known.read pos again).2, known.distinct⟩
  have among : ∀ q ∈ pos :: closers earlier, q ∈ found ∧ q < pos + 1 :=
    forall_mem_cons.mpr ⟨⟨member, Nat.lt_succ_self pos⟩, (known.mono (Nat.le_succ pos)).read⟩
  have bounded := (distinct.subperm fun q inside => (among q inside).1).length_le
  refine ⟨by simp [soughtClosers, opens, known.sought], offset ▸ among, offset ▸ distinct, ?_⟩
  obtain ⟨opened, paired, balance⟩ := known.paired
  rw [length_cons] at bounded
  cases opened with
  | nil =>
    rw [length_nil] at balance
    omega
  | cons last opened =>
    refine ⟨opened, ?_, ?_⟩
    · simp [paired, pair, opens, closes]
    · rw [offset, length_cons, ← balance, length_cons]
      omega

theorem opens (opens : t.opensSequence = true) (closes : t.closesSequence = false) {q : Nat}
    (sought : soughtClosers line (t :: earlier) = q :: soughtClosers line earlier) :
    Paired line pos (q :: found) (t :: earlier) where
  sought := by rw [sought, known.sought]
  read := by
    intro p member
    have member : p ∈ closers earlier := by simpa [closes] using member
    exact ⟨mem_cons_of_mem q (known.read p member).1, (known.read p member).2⟩
  distinct := by simpa [closes] using known.distinct
  paired := by
    obtain ⟨opened, paired, balance⟩ := known.paired
    refine ⟨t :: opened, by simp [paired, pair, opens], ?_⟩
    simp only [closers_cons, closes, length_cons, ← balance]
    simp only [Bool.false_eq_true, if_false, nil_append]
    omega

/-- Nothing stays open just if the signs that were found are different ones and all of them are read. -/
theorem closed_iff {opened : List Token} (paired : pairing earlier.reverse = some opened) :
    opened = [] ↔ found.Nodup ∧ ∀ q ∈ found, q ∈ closers earlier := by
  obtain ⟨opened', paired', balance⟩ := known.paired
  cases paired.symm.trans paired'
  have among : closers earlier ⊆ found := fun q member => (known.read q member).1
  rw [← length_eq_zero_iff]
  constructor
  · intro none
    have same := (known.distinct.subperm among).perm_of_length_le (by omega)
    exact ⟨same.nodup_iff.mp known.distinct, fun q member => same.mem_iff.mpr member⟩
  · rintro ⟨different, all⟩
    have bounded := (different.subperm all).length_le
    omega

end

end Paired

theorem Paired.addLexeme (known : Paired line pos s.closers s.tokens) (here : line.drop pos = c :: cs)
    (visible : isBlank c = false) (found : r.lexemeAt (occursIn "::=".toList line) s pos c cs = .ok (s₁, lexeme)) :
    Paired line (pos + lexeme.length) (addLexeme s₁ lexeme pos (c :: cs)).closers
      (addLexeme s₁ lexeme pos (c :: cs)).tokens := by
  have further : pos + 1 ≤ pos + lexeme.length := by
    have := (extends_of_lexemeAt found visible).2.1.nonempty
    omega
  rcases bracket_of_lexemeAt found visible with ⟨t, added, column, space, kind⟩
  rw [added]
  change Paired _ _ s₁.closers _
  rcases kind with ⟨opens, closes, same⟩ | ⟨opens, closes, same, member⟩ | ⟨opens, closes, k, closer, same⟩
  · rw [same]
    exact (known.other opens closes).mono (by omega)
  · rw [same]
    exact (known.close opens closes column member).mono further
  · rw [same]
    have behind : line.drop (pos + 1) = cs := by rw [← tail_drop, here]; rfl
    have start : t.column.toNat = pos + 1 := by omega
    refine (known.opens opens closes (q := pos + k) ?_).mono (by omega)
    rw [soughtClosers, if_pos opens, start, space, isTight_after, behind, sequenceCloser_brackets {} s.brackets, closer]
    simp

theorem Paired.scans (scans : Scans r (occursIn "::=".toList line) pos s cs s') (here : line.drop pos = cs)
    (known : Paired line pos s.closers s.tokens) : ∃ pos', Paired line pos' s'.closers s'.tokens := by
  induction scans with
  | done | comment => exact ⟨_, known⟩
  | blank _ _ ih => exact ih (by rw [← tail_drop, here]; rfl) (known.mono (Nat.le_succ _))
  | lexeme visible _ found _ ih =>
    exact ih (by rw [← drop_drop, here]) (known.addLexeme here visible found)

/-! ## Lines -/

theorem Paired.emit (known : Paired line pos s.closers s.tokens) {kind : Kind} (other : kind ≠ .delimiter)
    (value literal : String) (start stop : Nat) :
    Paired line pos (s.emit kind value literal start stop).closers (s.emit kind value literal start stop).tokens := by
  refine known.other ?_ ?_ <;> simp [opensSequence, closesSequence, isDelim, is, other]

/-- A line is a row of tokens, or it has no bracket.  Nor is there one in what stands before a row. -/
theorem Paired.plainLine {capture : Capture} (known : Paired line 0 s.closers s.tokens)
    (read : r.plainLine s line = .ok (s', capture)) : ∃ pos, Paired line pos s'.closers s'.tokens := by
  have row {s₀ : Scan} {rest : List Char} (behind : rest <:+ line)
      (scanned : r.scan (occursIn "::=".toList line) (line.length - rest.length) 0 s₀ rest = .ok s')
      (known : Paired line 0 s₀.closers s₀.tokens) : ∃ pos, Paired line pos s'.closers s'.tokens :=
    Paired.scans (scan_eq_ok_iff.mp scanned) (suffix_iff_eq_drop.mp behind).symm (known.mono (Nat.zero_le _))
  have labelled {kind : Kind} (other : kind ≠ .delimiter) {value literal : String} {start stop : Nat}
      (scanned : r.scan (occursIn "::=".toList line) stop 0 (s.emit kind value literal start stop) (line.drop stop) =
        .ok s') : ∃ pos, Paired line pos s'.closers s'.tokens :=
    Paired.scans (scan_eq_ok_iff.mp scanned) rfl ((known.emit other _ _ _ _).mono (Nat.zero_le _))
  have off {result : Except Fault Scan} (read : result.map (fun s => (s, Capture.off)) = .ok (s', capture)) :
      result = .ok s' := by
    obtain ⟨_, found, same⟩ := map_eq_ok.mp read
    cases same
    exact found
  have heading {start : Nat} {trimmed mark : List Char} {kind : Kind} {what : String} (other : kind ≠ .delimiter)
      (read : r.header s start trimmed mark kind what = .ok s') : ∃ pos, Paired line pos s'.closers s'.tokens := by
    unfold header at read
    split at read
    next => cases read
    next =>
      cases read
      exact ⟨0, known.emit other _ _ _ _⟩
  unfold Reading.plainLine at read
  dsimp only at read
  split at read
  next =>
    cases read
    exact ⟨0, known⟩
  split at read
  next => exact heading (by simp) (off read)
  split at read
  next => exact heading (by simp) (off read)
  split at read
  next keyword _ =>
    have opened := known.emit (show Kind.keyword ≠ .delimiter by simp) keyword keyword
      (line.length - (dropBlanks line).length) (line.length - (dropBlanks line).length + keyword.length)
    unfold block at read
    dsimp only at read
    split at read
    next =>
      split at read
      next =>
        cases read
        exact ⟨0, opened⟩
      next =>
        cases read
        exact ⟨0, opened.emit (by simp) _ _ _ _⟩
    next =>
      split at read
      next scanned =>
        cases read
        exact row ((dropWhile_suffix _).trans (drop_suffix _ _)) scanned opened
      next => cases read
  next =>
    split at read
    next =>
      cases read
      exact ⟨0, known.emit (by simp) _ _ _ _⟩
    split at read
    next => exact labelled (by simp) (off read)
    split at read
    next => exact labelled (by simp) (off read)
    next => exact row (dropWhile_suffix _) (off read) known

theorem Paired.capturedLine {capture : Capture} (known : Paired line pos s.closers s.tokens) :
    Paired line pos (capturedLine capture s line).1.closers (capturedLine capture s line).1.tokens := by
  unfold Reading.capturedLine
  dsimp only
  split
  next => exact known
  split
  next => exact known.emit (by simp) _ _ _ _
  next => exact known.emit (by simp) _ _ _ _

theorem Paired.readLine {carry carry' : Carry} (read : r.readLine number carry line = .ok (toks, carry')) :
    ∃ pos, Paired line pos (soughtClosers line toks.reverse) toks.reverse := by
  unfold Reading.readLine at read
  dsimp only at read
  obtain ⟨⟨s, capture⟩, found, same⟩ := map_eq_ok.mp read
  cases same
  have start : Paired line 0 [] [] := ⟨rfl, by simp [closers], nodup_nil, [], rfl, rfl⟩
  have known : ∃ pos, Paired line pos s.closers s.tokens := by
    split at found
    next => exact Paired.plainLine start found
    next =>
      have same := congrArg Prod.fst (Except.ok.inj found)
      dsimp only at same
      rw [← same]
      exact ⟨0, Paired.capturedLine start⟩
  obtain ⟨pos, known⟩ := known
  have ended := (known.emit (show Kind.newline ≠ .delimiter by simp) "\n" "" line.length line.length).self
  exact ⟨pos, by rwa [reverse_reverse]⟩

/-! ## Sources -/

/-- The tokens of a line of a source are those that were read from it, and at the end of the input one more. -/
theorem Paired.readLines {carry : Carry} {lines : List (List Char)}
    (read : r.readLines number carry lines = .ok toks) {i : Nat} (here : lines[i]? = some line) :
    ∃ pos, Paired line pos (soughtClosers line (rowOf (number + i) toks).reverse)
      (rowOf (number + i) toks).reverse := by
  induction lines generalizing number carry toks i with
  | nil => simp at here
  | cons chars rest ih =>
    unfold Reading.readLines at read
    split at read
    next => cases read
    next tokens carried line_read =>
      obtain ⟨row, newline, same, is, _⟩ := isRow_readLine r line_read
      have placed : ∀ t ∈ tokens, t.line = number := fun t member => is.line_eq (same ▸ member)
      split at read
      next last =>
        cases isEmpty_iff.mp last
        cases read
        have first : i = 0 := by simpa using (List.getElem?_eq_some_iff.mp here).1
        subst first
        cases here
        obtain ⟨pos, known⟩ := Paired.readLine line_read
        refine ⟨pos, ?_⟩
        rw [Nat.add_zero, rowOf_eq_self (forall_mem_append.mpr ⟨placed, by simp⟩), reverse_append]
        exact (known.other rfl rfl).self
      next notLast =>
        split at read
        next => cases read
        next more more_read =>
          cases read
          have below := (covers_readLines r (by simpa using notLast) more_read).1
          rw [rowOf, filter_append, ← rowOf, ← rowOf]
          cases i with
          | zero =>
            cases here
            rw [Nat.add_zero, rowOf_eq_self placed, rowOf_eq_nil, append_nil]
            · exact Paired.readLine line_read
            · intro t member
              have := below.le_line member
              omega
          | succ i => grind [rowOf_eq_nil, Nat.add_comm, Nat.add_assoc]

/-- Every closing bracket of a line closes an opening one.  Nothing stays open at the end of the line just if the
signs that were found for the opening brackets are different ones and each of them is read as a closing one. -/
theorem sequences_closed_iff (r : Reading) (source : String) {toks : List Token} (read : r.tokens source = .ok toks)
    {i : Nat} {line : List Char} (here : (sourceLines source)[i]? = some line) :
    ∃ opened, pairing (rowOf (i + 1) toks) = some opened ∧
      (opened = [] ↔ (soughtClosers line (rowOf (i + 1) toks).reverse).Nodup ∧
        ∀ q ∈ soughtClosers line (rowOf (i + 1) toks).reverse, q ∈ closers (rowOf (i + 1) toks)) := by
  obtain ⟨pos, known⟩ := Paired.readLines read here
  rw [Nat.add_comm 1 i] at known
  obtain ⟨opened, paired, _⟩ := known.paired
  have closed := known.closed_iff paired
  rw [reverse_reverse] at paired
  refine ⟨opened, paired, closed.trans ?_⟩
  simp only [closers, filter_reverse, map_reverse, mem_reverse]

theorem nestedSequence_closed : ∃ toks, (({} : Reading).tokens "s = <a, <b>>" = .ok toks ∧
      (sourceLines "s = <a, <b>>")[0]? = some "s = <a, <b>>".toList) ∧ pairing (rowOf 1 toks) = some [] := by
  have found : (({} : Reading).tokens "s = <a, <b>>").toOption.map (fun toks => decide
      ((soughtClosers "s = <a, <b>>".toList (rowOf 1 toks).reverse).Nodup ∧
        ∀ q ∈ soughtClosers "s = <a, <b>>".toList (rowOf 1 toks).reverse, q ∈ closers (rowOf 1 toks))) = some true := by
    decide +kernel
  have here : (sourceLines "s = <a, <b>>")[0]? = some "s = <a, <b>>".toList := by
    decide
  cases read : ({} : Reading).tokens "s = <a, <b>>" with
  | error fault =>
    rw [read] at found
    cases found
  | ok toks =>
    rw [read] at found
    obtain ⟨opened, paired, closed⟩ := sequences_closed_iff {} _ read here
    have none := closed.mpr (of_decide_eq_true (Option.some.inj found))
    exact ⟨toks, ⟨rfl, here⟩, none ▸ paired⟩

/-- How many brackets stay open at the end of a row. -/
def leftOpen (source : String) : Option Nat :=
  (({} : Reading).tokens source).toOption.bind fun toks => (pairing (rowOf 1 toks)).map List.length

/-- The sign that was found is in a comment or in the name of a rule. -/
theorem hiddenClosers_left_open : leftOpen "<y % a>" = some 1 ∧ leftOpen "p <a [and intro>]" = some 1 := by
  decide +kernel

end Reading
end Token
end Whiteboard
