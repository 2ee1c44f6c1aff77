import Whiteboard.Proofs.Diagnostic.Place
import Whiteboard.Proofs.Token.Cover

namespace Whiteboard

open Text
namespace Token
namespace Reading

/-!
# Where reading a line fails

A line that cannot be read is faulted at one of its own columns.  The name of the source is part of the fault and of
nothing else, so the same walk through the readers of a line shows that a source has the same tokens under every name.
-/

def inFile (f : String) (r : Reading) : Reading := { r with file := f }

/-- The line with the given number cannot be read. -/
structure Unreadable (file : String) (number : Int) (line : List Char) (fault : Fault) : Prop where
  lexical : ∃ cause, fault.problem = .lex cause
  file_eq : fault.loc.file = file
  line_eq : fault.loc.line = number
  positive : 1 ≤ fault.loc.column
  inside : fault.loc.column ≤ line.length + 1

theorem unreadable_at (file : String) (number : Int) {line : List Char} {pos : Nat} (inside : pos ≤ line.length)
    (cause : LexCause) : Unreadable file number line ⟨.lex cause, ⟨file, number, pos + 1⟩⟩ :=
  ⟨⟨cause, rfl⟩, rfl, rfl, by dsimp only; omega, by dsimp only; omega⟩

/-- What is found is found under another name too, or the line cannot be read. -/
abbrev Named {α : Type} (r : Reading) (number : Int) (line : List Char) : Except Fault α → Except Fault α → Prop :=
  Shares id (fun _ => True) (Unreadable r.file number line)

variable {number : Int} {line : List Char} (f : String) (r : Reading)

variable {r} in
theorem Named.map {α β : Type} {first second : Except Fault α} (named : r.Named number line first second) (g : α → β) :
    r.Named number line (first.map g) (second.map g) := by
  cases first with
  | error fault => exact named
  | ok value =>
    rw [Shares.mirrors named value rfl]
    exact .ok rfl trivial

theorem named_lexemeAt (defines : Bool) {s : Scan} {pos : Nat} {c : Char} {cs : List Char}
    (numbered : s.number = number) (ahead : line.drop pos = c :: cs) :
    r.Named number line (r.lexemeAt defines s pos c cs) ((r.inFile f).lexemeAt defines s pos c cs) := by
  cases found : r.lexemeAt defines s pos c cs with
  | error fault =>
    have inside : pos < line.length := by
      have length := congrArg List.length ahead
      rw [List.length_drop, List.length_cons] at length
      omega
    rw [lexemeAt_eq_error found, numbered]
    exact unreadable_at r.file number (Nat.le_of_lt inside) _
  | ok result =>
    rcases result with ⟨s₁, lexeme⟩
    refine ⟨trivial, lexemeAt_eq_ok_iff.mpr ?_⟩
    cases lexemeAt_eq_ok_iff.mp found with
    | closer closed => exact .closer closed
    | continuation open_ backslash blank => exact .continuation open_ backslash blank
    | rule open_ bracket named => exact .rule open_ bracket named
    | number open_ digit => exact .number open_ digit
    | word open_ opens => exact .word open_ opens
    | sign open_ ended unnamed noDigit noWord sign => exact .sign open_ ended unnamed noDigit noWord sign

theorem named_scan (defines : Bool) {pos : Nat} (skip : Nat) {s : Scan} {cs : List Char}
    (numbered : s.number = number) (ahead : line.drop pos = cs) :
    r.Named number line (r.scan defines pos skip s cs) ((r.inFile f).scan defines pos skip s cs) := by
  induction cs generalizing pos skip s with
  | nil => exact .ok rfl trivial
  | cons c cs ih =>
    have onward : line.drop (pos + 1) = cs := by
      rw [← List.tail_drop, ahead]
      rfl
    cases skip with
    | succ skip => exact ih _ numbered onward
    | zero =>
      rw [scan, scan]
      apply Shares.ite
      · exact fun _ => ih _ numbered onward
      · intro visible
        apply Shares.ite
        · exact fun _ => .ok rfl trivial
        · intro _
          have lexed := named_lexemeAt f r defines numbered ahead
          cases found : r.lexemeAt defines s pos c cs with
          | error fault =>
            rw [found] at lexed
            exact lexed
          | ok result =>
            rcases extends_of_lexemeAt found (Bool.eq_false_iff.mpr visible) with ⟨⟨_, _, same⟩, _⟩
            rw [lexed.mirrors result found]
            exact ih _ (same.trans numbered) onward

theorem named_block (defines : Bool) {s : Scan} (start : Nat) (keyword : String) (numbered : s.number = number) :
    r.Named number line (r.block defines s start line keyword) ((r.inFile f).block defines s start line keyword) := by
  have ahead : line.drop (line.length - (dropBlanks (line.drop (start + keyword.length))).length) =
      dropBlanks (line.drop (start + keyword.length)) :=
    (List.suffix_iff_eq_drop.mp ((List.dropWhile_suffix _).trans (List.drop_suffix _ _))).symm
  unfold block
  apply Shares.ite
  · intro _
    split <;> exact .ok rfl trivial
  · intro _
    have scanned := named_scan f r defines 0
      (s := { s.emit .keyword keyword keyword start (start + keyword.length) with gap := true }) numbered ahead
    split
    next found =>
      rw [scanned.mirrors _ found]
      exact .ok rfl trivial
    next failed => exact scanned.yields.fault failed

theorem named_header {s : Scan} {start : Nat} (trimmed mark : List Char) (kind : Kind) (what : String)
    (numbered : s.number = number) (inside : start ≤ line.length) :
    r.Named number line (r.header s start trimmed mark kind what)
      ((r.inFile f).header s start trimmed mark kind what) := by
  apply Shares.ite
  · intro _
    rw [numbered]
    exact unreadable_at r.file number inside _
  · exact fun _ => .ok rfl trivial

theorem named_plainLine {s : Scan} (numbered : s.number = number) :
    r.Named number line (r.plainLine s line) ((r.inFile f).plainLine s line) := by
  have inside : line.length - (dropBlanks line).length ≤ line.length := Nat.sub_le _ _
  unfold plainLine
  apply Shares.ite
  · exact fun _ => .ok rfl trivial
  · intro _
    apply Shares.ite
    · exact fun _ => Named.map (named_header f r _ _ _ _ numbered inside) _
    · intro _
      apply Shares.ite
      · exact fun _ => Named.map (named_header f r _ _ _ _ numbered inside) _
      · intro _
        cases Symbol.blockKeywords.find? (fun k => k.toList.isPrefixOf (trimBlanks line)) with
        | some keyword => exact named_block f r _ _ _ numbered
        | none =>
          apply Shares.ite
          · exact fun _ => .ok rfl trivial
          · intro _
            cases label (dropBlanks line) with
            | some digits => exact Named.map (named_scan f r _ _ (by exact numbered) rfl) _
            | none =>
              cases partLabel (dropBlanks line) with
              | some letters => exact Named.map (named_scan f r _ _ (by exact numbered) rfl) _
              | none => exact Named.map (named_scan f r _ _ numbered (dropBlanks_eq_drop line)) _

theorem named_readLine (number : Nat) (carry : Carry) (line : List Char) :
    r.Named number line (r.readLine number carry line) ((r.inFile f).readLine number carry line) := by
  have content (s : Scan) (numbered : s.number = number) : r.Named number line
      (if carry.capture == .off then r.plainLine s line else .ok (capturedLine carry.capture s line))
      (if carry.capture == .off then (r.inFile f).plainLine s line
        else .ok (capturedLine carry.capture s line)) := by
    apply Shares.ite
    · exact fun _ => named_plainLine f r numbered
    · exact fun _ => .ok rfl trivial
  exact Named.map (content { number := number, brackets := carry.brackets } rfl) _

/-- The lexical fault of a source. -/
def Stray (file : String) (number : Nat) (lines : List (List Char)) (fault : Fault) : Prop :=
  ∃ (i : Nat) (chars : List Char), lines[i]? = some chars ∧ Unreadable file (number + i : Nat) chars fault

theorem shares_readLines (number : Nat) (carry : Carry) (lines : List (List Char)) :
    Shares id (fun _ => True) (Stray r.file number lines) (r.readLines number carry lines)
      ((r.inFile f).readLines number carry lines) := by
  induction lines generalizing number carry with
  | nil => exact .ok rfl trivial
  | cons line rest ih =>
    rw [readLines, readLines]
    have read := named_readLine f r number carry line
    cases found : r.readLine number carry line with
    | error fault => exact ⟨0, line, rfl, read.yields.fault found⟩
    | ok result =>
      rw [read.mirrors result found]
      apply Shares.ite
      · exact fun _ => .ok rfl trivial
      · intro _
        have others := ih (number + 1) result.2
        cases more : r.readLines (number + 1) result.2 rest with
        | error fault =>
          rcases others.yields.fault more with ⟨i, chars, there, unreadable⟩
          refine ⟨i + 1, chars, there, ?_⟩
          rw [show number + (i + 1) = number + 1 + i by omega]
          exact unreadable
        | ok toks =>
          rw [others.mirrors toks more]
          exact .ok rfl trivial

/-- A source has the same tokens under every name. -/
theorem mirrors_tokens (source : String) : Mirrors id (r.tokens source) ((r.inFile f).tokens source) :=
  (shares_readLines f r 1 {} (sourceLines source)).mirrors

theorem yields_tokens (source : String) : Yields (fun toks => ∀ t ∈ toks, Runs 1 (sourceLines source) t)
    (Stray r.file 1 (sourceLines source)) (r.tokens source) := by
  cases found : r.tokens source with
  | error fault => exact (shares_readLines r.file r 1 {} (sourceLines source)).yields.fault found
  | ok toks => exact (covers_readLines r (areLines_sourceLines source).ne_nil found).2.1

/-- Every token of a source is shaped, and a source without tokens has a fault of its own. -/
theorem finds_tokens (source : String) : Finds (fun toks => ∀ t ∈ toks, Shaped t) (r.tokens source) := by
  have yields := yields_tokens r source
  cases found : r.tokens source with
  | error fault =>
    rcases yields.fault found with ⟨_, _, _, unreadable⟩
    rcases unreadable.lexical with ⟨cause, problem⟩
    show fault.OfSource
    unfold Fault.OfSource
    rw [problem]
    trivial
  | ok toks => exact fun t member => (yields.value found t member).2.1

theorem Stray.liesIn {file : String} {lines : List (List Char)} {fault : Fault} (stray : Stray file 1 lines fault) :
    fault.loc.LiesIn lines := by
  rcases stray with ⟨i, chars, found, unreadable⟩
  have numbered := unreadable.line_eq
  exact ⟨i, chars, found, by omega, unreadable.positive, unreadable.inside⟩

end Reading
end Token
end Whiteboard
