import Whiteboard.Proofs.Token.Extent
import Whiteboard.Token.Reader

namespace Whiteboard

open List Text
namespace Token
namespace Reader

/-!
# A reader can be used again

A reader works in place and clears nothing when it ends, be it at the final token or at a fault.  Seen from
outside, the tokens of its line, what it knows of that line and the way the next line is taken are what the
token stream passes from step to step.  Every step of a reader agrees in this view with the step of the stream,
and none looks at what earlier lines or earlier sources have left behind.
-/

/-! ## The view of a reader -/

/-- What the line leaves to the next one. -/
def carry (d : Reader) : Carry := ⟨d.brackets, d.capture⟩

/-- The tokens of the line are among those of the reader. -/
def Held (d : Reader) : Prop := d.lineTokens ≤ d.tokens.length

/-- A later reader of the same line: only its tokens are new. -/
structure Onward (d e : Reader) : Prop where
  reading : e.reading = d.reading
  source : e.source = d.source
  line : e.line = d.line
  number : e.number = d.number
  defines : e.defines = d.defines
  earlier : e.tokens.drop e.lineTokens = d.tokens.drop d.lineTokens
  held : e.Held

/-- Passing characters and marking brackets or a block of text adds no token. -/
theorem Held.onward {d e : Reader} (held : d.Held) (same : e = { d with
      pos := e.pos
      gap := e.gap
      closers := e.closers
      brackets := e.brackets
      capturing := e.capturing
      captureRaw := e.captureRaw }) : d.Onward e := by
  rw [same]
  exact ⟨rfl, rfl, rfl, rfl, rfl, rfl, held⟩

theorem Onward.trans {d e f : Reader} (first : d.Onward e) (second : e.Onward f) : d.Onward f where
  reading := second.reading.trans first.reading
  source := second.source.trans first.source
  line := second.line.trans first.line
  number := second.number.trans first.number
  defines := second.defines.trans first.defines
  earlier := second.earlier.trans first.earlier
  held := second.held

/-- Work within a line ends as the stream does, with the line and the capture that the stream has found. -/
def Agrees (d : Reader) (outcome : Except Fault (Scan × Capture)) : EStateM.Result Fault Reader Unit → Prop
  | .ok _ e => outcome = .ok (e.row, e.capture) ∧ d.Onward e
  | .error fault e => outcome = .error fault ∧ e.reading = d.reading ∧ e.source = d.source

theorem Agrees.after {d e : Reader} {outcome : Except Fault (Scan × Capture)}
    {result : EStateM.Result Fault Reader Unit} (onward : d.Onward e) (agrees : e.Agrees outcome result) :
    d.Agrees outcome result := by
  cases result with
  | ok _ f => exact ⟨agrees.1, onward.trans agrees.2⟩
  | error fault f => exact ⟨agrees.1, agrees.2.1.trans onward.reading, agrees.2.2.trans onward.source⟩

theorem bind_of_ok {α β : Type} {first : Action α} {next : α → Action β} {d e : Reader} {value : α}
    (done : first d = .ok value e) : (first >>= next) d = next value e := by
  simp only [bind, EStateM.bind, done]

theorem bind_of_error {α β : Type} {first : Action α} {next : α → Action β} {d e : Reader} {fault : Fault}
    (failed : first d = .error fault e) : (first >>= next) d = .error fault e := by
  simp only [bind, EStateM.bind, failed]

theorem bind_get {β : Type} (next : Reader → Action β) (d : Reader) : (get >>= next) d = next d d := rfl

/-! ## A token -/

theorem Held.isEmpty_row {d : Reader} (held : d.Held) : d.row.tokens.isEmpty = (d.lineTokens == 0) := by
  unfold Held at held
  cases count : d.lineTokens with
  | zero => simp [row, count]
  | succ n =>
    cases found : d.tokens with
    | nil =>
      rw [count, found] at held
      cases held
    | cons t rest => simp [row, count, found]

variable {d : Reader}

theorem row_adding (held : d.Held) (kind : Kind) (value literal : String) (start stop : Nat) :
    (d.adding kind value literal start stop).row = d.row.emit kind value literal start stop := by
  unfold Scan.emit
  rw [held.isEmpty_row]
  rfl

theorem onward_adding (held : d.Held) (kind : Kind) (value literal : String) (start stop : Nat) :
    d.Onward (d.adding kind value literal start stop) :=
  ⟨rfl, rfl, rfl, rfl, rfl, rfl, Nat.succ_le_succ held⟩

theorem emit_eq (kind : Kind) (value literal : String) (start stop : Nat) (d : Reader) :
    emit kind value literal start stop d = .ok () (d.adding kind value literal start stop) := rfl

/-- Adding a token agrees with adding it to the line. -/
theorem agrees_emit (held : d.Held) (kind : Kind) (value literal : String) (start stop : Nat) :
    d.Agrees (.ok (d.row.emit kind value literal start stop, d.capture)) (emit kind value literal start stop d) := by
  rw [← row_adding held]
  exact ⟨rfl, onward_adding held kind value literal start stop⟩

/-! ## Ordinary tokens -/

/-- A lexeme changes the brackets and the closers of the line, and nothing else. -/
theorem row_of_lexemeAt {s : Scan} {pos : Nat} {c : Char} {cs : List Char} {lexeme : Lexeme}
    (found : d.reading.lexemeAt d.defines d.row pos c cs = .ok (s, lexeme)) (visible : isBlank c = false) :
    row { d with brackets := s.brackets, closers := s.closers } = s := by
  rcases (Reading.extends_of_lexemeAt found visible).1 with ⟨tokens, gap, number⟩
  cases s
  cases tokens
  cases gap
  cases number
  rfl

theorem lexemeHere_of_error {c : Char} {cs : List Char} {fault : Fault}
    (failed : d.reading.lexemeAt d.defines d.row d.pos c cs = .error fault) :
    lexemeHere c cs d = .error fault d := by
  unfold lexemeHere
  rw [bind_get, failed]
  rfl

theorem lexemeHere_of_ok {c : Char} {cs : List Char} {s : Scan} {lexeme : Lexeme}
    (found : d.reading.lexemeAt d.defines d.row d.pos c cs = .ok (s, lexeme)) :
    lexemeHere c cs d = .ok lexeme { d with brackets := s.brackets, closers := s.closers } := by
  unfold lexemeHere
  rw [bind_get, found]
  rfl

theorem agrees_scan (held : d.Held) (skip : Nat) (cs : List Char) :
    d.Agrees ((d.reading.scan d.defines d.pos skip d.row cs).map fun s => (s, d.capture)) (scan skip cs d) := by
  induction cs generalizing d skip with
  | nil => exact ⟨rfl, held.onward rfl⟩
  | cons c cs ih =>
    cases skip with
    | succ skip =>
      have onward : d.Onward { d with pos := d.pos + 1 } := held.onward rfl
      exact (ih onward.held skip).after onward
    | zero =>
      unfold scan Reading.scan
      dsimp only
      split
      next =>
        have onward : d.Onward { d with pos := d.pos + 1, gap := true } := held.onward rfl
        exact (ih onward.held 0).after onward
      next visible =>
        split
        next => exact ⟨rfl, held.onward rfl⟩
        next =>
          cases found : d.reading.lexemeAt d.defines d.row d.pos c cs with
          | error fault =>
            rw [bind_of_error (lexemeHere_of_error found)]
            exact ⟨rfl, rfl, rfl⟩
          | ok result =>
            rcases result with ⟨s, lexeme⟩
            have marked : d.Onward { d with brackets := s.brackets, closers := s.closers } := held.onward rfl
            generalize text : String.ofList ((c :: cs).take lexeme.length) = literal
            have added := onward_adding marked.held lexeme.kind lexeme.value literal d.pos (d.pos + lexeme.length)
            have emitted := row_adding marked.held lexeme.kind lexeme.value literal d.pos (d.pos + lexeme.length)
            rw [row_of_lexemeAt found (by simpa using visible)] at emitted
            rw [bind_of_ok (lexemeHere_of_ok found), text]
            dsimp only
            rw [text, ← emitted]
            have passed := added.held.onward (e := { adding _ _ _ _ _ _ with pos := d.pos + 1 }) rfl
            exact (ih passed.held (lexeme.length - 1)).after ((marked.trans added).trans passed)

theorem agrees_scanFrom (held : d.Held) (pos : Nat) :
    d.Agrees ((d.reading.scan d.defines pos 0 d.row (d.line.drop pos)).map fun s => (s, d.capture))
      (scanFrom pos d) := by
  have onward : d.Onward { d with pos := pos } := held.onward rfl
  exact (agrees_scan onward.held 0 (d.line.drop pos)).after onward

/-! ## A line -/

theorem capture_eq_off (off : d.capturing = false) : d.capture = .off := by simp [capture, off]

theorem agrees_header (held : d.Held) (start : Nat) (trimmed mark : List Char) (kind : Kind) (what : String) :
    d.Agrees ((d.reading.header d.row start trimmed mark kind what).map fun s => (s, d.capture))
      (header start trimmed mark kind what d) := by
  unfold header Reading.header
  rw [bind_get]
  split
  · exact ⟨rfl, rfl, rfl⟩
  · exact agrees_emit held _ _ _ _ _

/-- A line that opens with a keyword.  If a block of text begins here, only the way of the next line changes. -/
theorem agrees_block (held : d.Held) (off : d.capturing = false) (start : Nat) (keyword : String) :
    d.Agrees (d.reading.block d.defines d.row start d.line keyword) (block start keyword d) := by
  have opened := onward_adding held .keyword keyword keyword start (start + keyword.length)
  have off : (d.adding .keyword keyword keyword start (start + keyword.length)).capture = .off := capture_eq_off off
  unfold block Reading.block
  dsimp only
  rw [bind_of_ok (emit_eq ..), bind_get, ← row_adding held, ← opened.reading, ← opened.defines, ← opened.line]
  refine Agrees.after opened ?_
  generalize d.adding _ _ _ _ _ = e at opened off
  split
  next =>
    split
    next =>
      refine ⟨?_, opened.held.onward rfl⟩
      simp only [capture]
      rfl
    next =>
      rw [← off]
      exact agrees_emit opened.held _ _ _ _ _
  next =>
    have ends : dropBlanks (e.line.drop (start + keyword.length)) <:+ e.line :=
      (dropWhile_suffix _).trans (drop_suffix _ _)
    generalize dropBlanks (e.line.drop (start + keyword.length)) = rest at ends
    have gapped : e.Onward { e with gap := true } := opened.held.onward rfl
    have agrees := agrees_scanFrom gapped.held (e.line.length - rest.length)
    rw [← suffix_iff_eq_drop.mp ends] at agrees
    refine Agrees.after gapped ?_
    have read : e.reading.scan e.defines (e.line.length - rest.length) 0 { e.row with gap := true } rest
        = e.reading.scan e.defines (e.line.length - rest.length) 0 (row { e with gap := true }) rest := rfl
    rw [read]
    dsimp only at agrees
    cases found : e.reading.scan e.defines (e.line.length - rest.length) 0 (row { e with gap := true }) rest with
    | error fault =>
      rw [found] at agrees
      exact agrees
    | ok s =>
      rw [found] at agrees
      dsimp only
      rw [← off]
      exact agrees

theorem agrees_labelled (held : d.Held) (kind : Kind) (value literal : String) (start stop : Nat) :
    d.Agrees ((d.reading.scan d.defines stop 0 (d.row.emit kind value literal start stop) (d.line.drop stop)).map
      fun s => (s, d.capture)) ((emit kind value literal start stop >>= fun _ => scanFrom stop) d) := by
  have added := onward_adding held kind value literal start stop
  rw [bind_of_ok (emit_eq ..), ← row_adding held]
  exact (agrees_scanFrom added.held stop).after added

theorem agrees_plainLine (held : d.Held) (off : d.capturing = false)
    (defines : d.defines = occursIn "::=".toList d.line) :
    d.Agrees (d.reading.plainLine d.row d.line) (plainLine d) := by
  unfold plainLine Reading.plainLine
  rw [bind_get, ← defines, ← capture_eq_off off]
  dsimp only
  -- The kinds of lines in the order in which they are tried.
  split
  · exact ⟨rfl, held.onward rfl⟩
  split
  · exact agrees_header held _ _ _ _ _
  split
  · exact agrees_header held _ _ _ _ _
  cases Symbol.blockKeywords.find? fun k => k.toList.isPrefixOf (trimBlanks d.line) with
  | some keyword => exact agrees_block held off _ keyword
  | none =>
    dsimp only
    split
    · exact agrees_emit held _ _ _ _ _
    cases Reading.label (dropBlanks d.line) with
    | some digits => exact agrees_labelled held _ _ _ _ _
    | none =>
      cases Reading.partLabel (dropBlanks d.line) with
      | some letters => exact agrees_labelled held _ _ _ _ _
      | none =>
        have ends : dropBlanks d.line <:+ d.line := dropWhile_suffix _
        have agrees := agrees_scanFrom held (d.line.length - (dropBlanks d.line).length)
        rw [← suffix_iff_eq_drop.mp ends] at agrees
        exact agrees

theorem agrees_capturedLine (held : d.Held) (on : d.capturing = true) :
    d.Agrees (.ok (Reading.capturedLine d.capture d.row d.line)) (capturedLine d) := by
  have raw : (d.capture == .raw) = d.captureRaw := by
    simp only [capture, on, if_true]
    cases d.captureRaw <;> rfl
  unfold capturedLine Reading.capturedLine
  rw [bind_get, raw]
  dsimp only
  split
  · exact ⟨rfl, held.onward rfl⟩
  split
  · exact agrees_emit held _ _ _ _ _
  · exact agrees_emit held _ _ _ _ _

/-- Reading a line agrees with the stream: what is found is added to what was found before. -/
def AgreesOn (d : Reader) (number : Nat) (line : List Char) : EStateM.Result Fault Reader Unit → Prop
  | .ok _ e => ∃ tokens, d.reading.readLine number d.carry line = .ok (tokens, e.carry) ∧
      e.tokens = tokens.reverse ++ d.tokens ∧ e.number = number ∧ e.line = line ∧ 0 < e.lineTokens ∧
      e.reading = d.reading ∧ e.source = d.source
  | .error fault e => d.reading.readLine number d.carry line = .error fault ∧
      e.reading = d.reading ∧ e.source = d.source

theorem agrees_content (d : Reader) (number : Nat) (line : List Char) : (d.atLine number line).Agrees
      (if d.carry.capture == .off then d.reading.plainLine { number := number, brackets := d.carry.brackets } line
        else .ok (Reading.capturedLine d.carry.capture { number := number, brackets := d.carry.brackets } line))
      (content (d.atLine number line)) := by
  have held : (d.atLine number line).Held := Nat.zero_le _
  have same : (d.atLine number line).capturing = d.capturing := rfl
  unfold content
  rw [bind_get, same]
  cases capturing : d.capturing with
  | false =>
    have off : d.carry.capture = .off := capture_eq_off capturing
    rw [off]
    exact agrees_plainLine held capturing rfl
  | true =>
    have on : (d.carry.capture == .off) = false := by
      simp only [carry, capture, capturing, if_true]
      cases d.captureRaw <;> rfl
    rw [on]
    exact agrees_capturedLine held capturing

theorem agreesOn_readLine (d : Reader) (number : Nat) (line : List Char) :
    d.AgreesOn number line (readLine number line d) := by
  have agrees := agrees_content d number line
  have begun : (modify (atLine number line) : Action Unit) d = .ok () (d.atLine number line) := rfl
  unfold readLine
  rw [bind_of_ok begun]
  cases worked : content (d.atLine number line) with
  | error fault e =>
    rw [worked] at agrees
    rw [bind_of_error worked]
    refine ⟨?_, agrees.2⟩
    unfold Reading.readLine
    dsimp only
    rw [agrees.1]
    rfl
  | ok _ e =>
    rw [worked] at agrees
    rcases agrees with ⟨outcome, onward⟩
    have emitted := row_adding onward.held .newline "\n" "" e.line.length e.line.length
    have added := onward.trans (onward_adding onward.held .newline "\n" "" e.line.length e.line.length)
    rw [bind_of_ok worked, bind_get, emit_eq]
    refine ⟨(row (e.adding .newline "\n" "" e.line.length e.line.length)).tokens.reverse, ?_, ?_,
      added.number, added.line, Nat.succ_pos _, added.reading, added.source⟩
    · have same : e.line = line := onward.line
      unfold Reading.readLine
      dsimp only
      rw [outcome, emitted, same]
      rfl
    · have earlier : (e.adding _ _ _ _ _).tokens.drop (e.adding _ _ _ _ _).lineTokens = d.tokens := added.earlier
      rw [reverse_reverse, ← earlier]
      exact (take_append_drop _ _).symm

/-! ## A source -/

/-- The lines to the end of a source: what they add comes before the final token. -/
theorem agrees_readLines (d : Reader) (number : Nat) {lines : List (List Char)} (some : lines ≠ []) :
    match readLines number lines d with
    | .ok _ e => ∃ tokens, d.reading.readLines number d.carry lines = .ok (tokens ++ [e.final e.number]) ∧
        e.tokens = tokens.reverse ++ d.tokens ∧ e.number + 1 = number + lines.length ∧ e.reading = d.reading
    | .error fault e => d.reading.readLines number d.carry lines = .error fault ∧
        e.reading = d.reading ∧ e.source = d.source := by
  induction lines generalizing d number with
  | nil => exact absurd rfl some
  | cons line rest ih =>
    have agrees := agreesOn_readLine d number line
    unfold readLines Reading.readLines
    cases worked : readLine number line d with
    | error fault e =>
      rw [worked] at agrees
      rw [bind_of_error worked, agrees.1]
      exact ⟨rfl, agrees.2⟩
    | ok _ e =>
      rw [worked] at agrees
      rcases agrees with ⟨tokens, read, added, here, within, begun, reading, source⟩
      rw [bind_of_ok worked, read]
      dsimp only
      cases rest with
      | nil =>
        refine ⟨tokens, ?_, added, by rw [here]; rfl, reading⟩
        -- The newline is a token of the line, so the final token does not start one.
        unfold final
        rw [here, within, beq_eq_false_iff_ne.mpr (Nat.ne_of_gt begun)]
        rfl
      | cons next others =>
        have onward := ih e (number + 1) (cons_ne_nil next others)
        rw [reading] at onward
        cases finished : readLines (number + 1) (next :: others) e with
        | error fault f => grind
        | ok _ f => grind

/-- Reading a source gives what the stream gives, whatever state the reader is in. -/
theorem read_eq (d : Reader) (source : String) :
    (d.read source).1 = (d.reading.tokens source).mapError (·.inSource source) ∧
      (d.read source).2.reading = d.reading := by
  have agrees := agrees_readLines (d.beginning source) 1 (areLines_sourceLines source).ne_nil
  have begun : (modify (beginning source) : Action Unit) d = .ok () (d.beginning source) := rfl
  have started : readSource source d = _ := bind_of_ok begun
  have fresh : (d.beginning source).carry = {} := rfl
  have reading : (d.beginning source).reading = d.reading := rfl
  have held : (d.beginning source).source = source := rfl
  rw [fresh, reading] at agrees
  unfold read Reading.tokens
  rw [started]
  cases worked : readLines 1 (sourceLines source) (d.beginning source) with
  | error fault e =>
    rw [worked] at agrees
    rcases agrees with ⟨stops, same, inSource⟩
    rw [bind_of_error worked, stops]
    dsimp only
    rw [inSource, held]
    exact ⟨rfl, same⟩
  | ok _ e =>
    rw [worked] at agrees
    rcases agrees with ⟨tokens, found, added, last, same⟩
    have last : e.number = (sourceLines source).length := by omega
    have nothing : (d.beginning source).tokens = [] := rfl
    rw [bind_of_ok worked, found, last]
    refine ⟨?_, same⟩
    rw [nothing, append_nil] at added
    show Except.ok (e.final _ :: e.tokens).reverse = _
    rw [reverse_cons, added, reverse_reverse]
    rfl

/-- A reader can be used for many sources in turn: whatever it has read before, with success or not, each
source gives what it gives to a reader that is new, and this is what the token stream gives. -/
theorem readAll_eq_map_fresh (d : Reader) (sources : List String) :
    d.readAll sources = sources.map (fun source => (Reader.read { reading := d.reading } source).1) ∧
      d.readAll sources = sources.map fun source => (d.reading.tokens source).mapError (·.inSource source) := by
  have streamed : d.readAll sources =
      sources.map fun source => (d.reading.tokens source).mapError (·.inSource source) := by
    induction sources generalizing d with
    | nil => rfl
    | cons source rest ih =>
      rcases read_eq d source with ⟨found, same⟩
      rw [readAll, map_cons, ← found, ← same, ← ih]
  refine ⟨streamed.trans (map_congr_left ?_), streamed⟩
  intro source _
  exact (read_eq { reading := d.reading } source).1.symm

end Reader
end Token
end Whiteboard
