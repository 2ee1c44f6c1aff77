import Whiteboard.Token.Stream

namespace Whiteboard
namespace Token

/-!
One reader for many sources in turn.  A reader works in place: it holds the source, the tokens it
has found, the line it is in, its position there and what the lines before left open.  Nothing is
cleared at the end of a source or at a fault.  What lines leave to each other is set anew where a
source begins, and what belongs to one line where the line begins.
-/

/-- A reader with its settings and all that it works with.  The last token comes first; the first
`lineTokens` of them are of the line. -/
structure Reader where
  reading : Reading
  source : String := ""
  tokens : List Token := []
  line : List Char := []
  number : Nat := 0
  pos : Nat := 0
  closers : List Nat := []
  defines : Bool := false
  gap : Bool := false
  lineTokens : Nat := 0
  brackets : Brackets := {}
  capturing : Bool := false
  captureRaw : Bool := false
  deriving Inhabited

namespace Reader

/-- Work on a reader.  A fault ends the work, and what was changed until then stays changed. -/
abbrev Action := EStateM Fault Reader

/-- The line in progress. -/
def row (d : Reader) : Scan where
  number := d.number
  tokens := d.tokens.take d.lineTokens
  gap := d.gap
  brackets := d.brackets
  closers := d.closers

def capture (d : Reader) : Capture :=
  if d.capturing then if d.captureRaw then .raw else .text else .off

/-- The reader at the front of a source. -/
def beginning (source : String) (d : Reader) : Reader :=
  { d with source := source, tokens := [], brackets := {}, capturing := false }

def atLine (number : Nat) (line : List Char) (d : Reader) : Reader :=
  { d with
    line := line
    number := number
    pos := 0
    closers := []
    defines := Text.occursIn "::=".toList line
    gap := false
    lineTokens := 0 }

/-- The reader with one more token, which covers the offsets from `start` to `stop`. -/
def adding (kind : Kind) (value literal : String) (start stop : Nat) (d : Reader) : Reader :=
  { d with
    tokens :=
      { kind := kind
        value := value
        literal := literal
        line := d.number
        column := start + 1
        endColumn := stop + 1
        spaceBefore := d.gap || (d.lineTokens == 0 && decide (0 < start))
        lineStart := d.lineTokens == 0 && kind != .newline } :: d.tokens
    lineTokens := d.lineTokens + 1
    gap := false }

def emit (kind : Kind) (value literal : String) (start stop : Nat) : Action Unit :=
  modify (adding kind value literal start stop)

/-- Finds what stands at the position, where the line goes on with `c :: cs`. -/
def lexemeHere (c : Char) (cs : List Char) : Action Lexeme := do
  let d ← get
  match d.reading.lexemeAt d.defines d.row d.pos c cs with
  | .error fault => throw fault
  | .ok (s, lexeme) =>
    set { d with brackets := s.brackets, closers := s.closers }
    return lexeme

/-- Reads ordinary tokens to the end of the line or to a comment; `skip` characters belong to the
token just read. -/
def scan (skip : Nat) : List Char → Action Unit
  | [] => pure ()
  | c :: cs =>
    match skip with
    | skip + 1 => do
      modify fun d => { d with pos := d.pos + 1 }
      scan skip cs
    | 0 =>
      if Text.isBlank c then do
        modify fun d => { d with pos := d.pos + 1, gap := true }
        scan 0 cs
      else if c == '%' then pure ()
      else do
        let lexeme ← lexemeHere c cs
        let d ← get
        emit lexeme.kind lexeme.value (String.ofList ((c :: cs).take lexeme.length)) d.pos
          (d.pos + lexeme.length)
        modify fun d => { d with pos := d.pos + 1 }
        scan (lexeme.length - 1) cs

def scanFrom (pos : Nat) : Action Unit := do
  modify fun d => { d with pos := pos }
  scan 0 ((← get).line.drop pos)

def header (start : Nat) (trimmed mark : List Char) (kind : Kind) (what : String) : Action Unit := do
  let d ← get
  if trimmed.length < 2 * mark.length || !mark.isSuffixOf trimmed then
    throw ⟨.lex (.unterminated what (String.ofList mark)), ⟨d.reading.file, d.number, start + 1⟩⟩
  else
    let title := (trimmed.drop mark.length).take (trimmed.length - 2 * mark.length)
    emit kind (String.ofList (Text.trimBlanks title)) (String.ofList trimmed) start
      (start + trimmed.length)

/-- A line that opens with a block keyword. -/
def block (start : Nat) (keyword : String) : Action Unit := do
  let stop := start + keyword.length
  emit .keyword keyword keyword start stop
  let d ← get
  let rest := Text.dropBlanks (d.line.drop stop)
  let restStart := d.line.length - rest.length
  if keyword == "TEXT:" || keyword == "PURETEXT:" || keyword == "LATEX:" then
    let raw := keyword == "LATEX:"
    if rest.isEmpty then modify fun d => { d with capturing := true, captureRaw := raw }
    else
      let text := String.ofList (if raw then rest else Text.trimBlanks rest)
      emit .text text text restStart d.line.length
  else
    modify fun d => { d with gap := true }
    scanFrom restStart

/-- A line outside of text blocks. -/
def plainLine : Action Unit := do
  let d ← get
  let rest := Text.dropBlanks d.line
  let trimmed := Text.trimBlanks d.line
  let start := d.line.length - rest.length
  if trimmed.isEmpty || trimmed.head? == some '%' then pure ()
  else if "===".toList.isPrefixOf trimmed then
    header start trimmed "===".toList .sectionHeader "section header"
  else if "**".toList.isPrefixOf trimmed then
    header start trimmed "**".toList .solutionHeader "solution marker"
  else
    match Symbol.blockKeywords.find? (fun k => k.toList.isPrefixOf trimmed) with
    | some keyword => block start keyword
    | none =>
      if Prose.isProse d.reading.rules (String.ofList trimmed) true then
        emit .text (String.ofList trimmed) (String.ofList trimmed) start (start + trimmed.length)
      else
        match Reading.label rest with
        | some digits =>
          let stop := start + digits.length + 2
          emit .label (String.ofList digits) (String.ofList (rest.take (digits.length + 2))) start stop
          scanFrom stop
        | none =>
          match Reading.partLabel rest with
          | some letters =>
            let stop := start + letters.length + 2
            emit .partLabel (String.ofList letters) (String.ofList (rest.take (letters.length + 2)))
              start stop
            scanFrom stop
          | none => scanFrom start

/-- A line inside a text block; a blank line ends the block. -/
def capturedLine : Action Unit := do
  let d ← get
  let trimmed := Text.trimBlanks d.line
  if trimmed.isEmpty then modify fun d => { d with capturing := false }
  else if d.captureRaw then
    emit .text (String.ofList d.line) (String.ofList d.line) 0 d.line.length
  else
    let start := d.line.length - (Text.dropBlanks d.line).length
    emit .text (String.ofList trimmed) (String.ofList trimmed) start (start + trimmed.length)

def content : Action Unit := do
  if (← get).capturing then capturedLine else plainLine

/-- Reads a line and ends it. -/
def readLine (number : Nat) (line : List Char) : Action Unit := do
  modify (atLine number line)
  content
  let d ← get
  emit .newline "\n" "" d.line.length d.line.length

def readLines (number : Nat) : List (List Char) → Action Unit
  | [] => pure ()
  | line :: rest => do
    readLine number line
    readLines (number + 1) rest

def final (last : Nat) (d : Reader) : Token where
  kind := .endOfInput
  line := last
  column := d.line.length + 1
  endColumn := d.line.length + 1
  lineStart := d.lineTokens == 0

/-- Reads a source to its final token. -/
def readSource (source : String) : Action (List Token) := do
  modify (beginning source)
  let lines := Text.sourceLines source
  readLines 1 lines
  modify fun d => { d with tokens := d.final lines.length :: d.tokens }
  return (← get).tokens.reverse

/-- The tokens of a source, or what is wrong with it, and the reader as it is left. -/
def read (d : Reader) (source : String) : Except Diagnostic (List Token) × Reader :=
  match readSource source d with
  | .ok tokens d => (.ok tokens, d)
  | .error fault d => (.error (fault.inSource d.source), d)

def readAll (d : Reader) : List String → List (Except Diagnostic (List Token))
  | [] => []
  | source :: rest =>
    let (result, d) := d.read source
    result :: d.readAll rest

end Reader
end Token
end Whiteboard
