import Whiteboard.Diagnostic
import Whiteboard.Token.Lexeme

namespace Whiteboard

/-!
From a source to its tokens, line by line.  Every line ends in a newline token, so a blank line
shows as two of them in a row, and the stream ends in one token of its own.  What a line leaves to
the next is small: the open bag and image brackets, and whether a block of text is being captured.
-/

namespace Token

/-- Lines of a text block are taken whole: `text` trims them, `raw` keeps them as they are. -/
inductive Capture where
  | off
  | text
  | raw
  deriving DecidableEq, Inhabited

/-- What a line leaves to the next one. -/
structure Carry where
  brackets : Brackets := {}
  capture : Capture := .off
  deriving DecidableEq, Inhabited

/-- A line in progress: its number, its tokens so far with the last one first, whether white space
was passed since, the open brackets, and the offsets of `>` that close a sequence. -/
structure Scan where
  number : Int
  tokens : List Token := []
  gap : Bool := false
  brackets : Brackets := {}
  closers : List Nat := []
  deriving Inhabited

namespace Scan

/-- Adds a token that covers the offsets from `start` to `stop`. -/
def emit (s : Scan) (kind : Kind) (value literal : String) (start stop : Nat) : Scan :=
  { s with
    tokens :=
      { kind := kind
        value := value
        literal := literal
        line := s.number
        column := start + 1
        endColumn := stop + 1
        spaceBefore := s.gap || (s.tokens.isEmpty && decide (0 < start))
        lineStart := s.tokens.isEmpty && kind != .newline } :: s.tokens
    gap := false }

/-- Does the token end an operand? -/
def endsOperand (t : Token) : Bool :=
  match t.kind with
  | .identifier | .number => true
  | .delimiter => [")", "]", "\x7d", "⟩", "]]"].contains t.value
  | _ => false

/-- Does the next symbol touch the end of an operand? -/
def isTight (s : Scan) : Bool :=
  match s.tokens with
  | last :: _ => !s.gap && endsOperand last
  | [] => false

/-- A bracket after `gendef`, or after the name of a schema, opens generic parameters. -/
def expectsGenerics (s : Scan) : Bool :=
  match s.tokens with
  | last :: earlier =>
    last.isKeyword "gendef" ||
      (last.kind == .identifier && (earlier.head?.map (·.isKeyword "schema")).getD false)
  | [] => false

/-- A trailing rule name where one may stand. -/
def justification (s : Scan) (rest : List Char) : Option Lexeme :=
  if !s.gap || s.tokens.isEmpty || s.expectsGenerics then none
  else Lexeme.justification rest

end Scan

/-- The settings of the token stream: the name of the source and the rules for prose. -/
structure Reading where
  file : String := ""
  rules : ProseRules := ProseRules.standard
  deriving Inhabited

namespace Reading

/-- A symbol or delimiter at offset `pos`.  `<` may open a sequence, and `^` tight after an operand
is a superscript. -/
def symbolAt (r : Reading) (defines : Bool) (s : Scan) (pos : Nat) (c : Char) (cs : List Char) :
    Except Fault (Scan × Lexeme) :=
  match Lexeme.longest s.brackets (c :: cs) with
  | none => .error ⟨.lex (.unexpectedCharacter c), ⟨r.file, s.number, pos + 1⟩⟩
  | some lexeme =>
    if lexeme.kind == .operator then
      if lexeme.value == "lt" then
        match Lexeme.sequenceCloser s.brackets s.isTight defines cs with
        | some offset =>
          .ok ({ s with closers := (pos + offset) :: s.closers }, ⟨.delimiter, "⟨", lexeme.length⟩)
        | none => .ok (s, lexeme)
      else if lexeme.value == "cat" && c == '^' && s.isTight then
        .ok (s, ⟨.operator, "sup", lexeme.length⟩)
      else .ok (s, lexeme)
    else if lexeme.kind == .delimiter then
      .ok ({ s with brackets := s.brackets.track lexeme.value }, lexeme)
    else .ok (s, lexeme)

/-- What stands at offset `pos`, where the line goes on with `c :: cs`. -/
def lexemeAt (r : Reading) (defines : Bool) (s : Scan) (pos : Nat) (c : Char) (cs : List Char) :
    Except Fault (Scan × Lexeme) :=
  if s.closers.contains pos then .ok (s, ⟨.delimiter, "⟩", 1⟩)
  else if c == '\\' && Lexeme.restIsBlank cs then .ok (s, ⟨.delimiter, "\\", 1⟩)
  else
    match (if c == '[' then s.justification cs else none) with
    | some lexeme => .ok (s, lexeme)
    | none =>
      if Text.isDigit c then .ok (s, Lexeme.number (c :: cs))
      else if Text.isLetter c &&
          (decide (c.toNat < 0x7F) || (Lexeme.longest s.brackets (c :: cs)).isNone) then
        .ok (s, Lexeme.word r.rules (!s.tokens.isEmpty) (c :: cs))
      else r.symbolAt defines s pos c cs

/-- Reads ordinary tokens to the end of the line or to a comment.  `pos` is the offset of the
first character, and `skip` characters belong to the token just read. -/
def scan (r : Reading) (defines : Bool) (pos skip : Nat) (s : Scan) :
    List Char → Except Fault Scan
  | [] => .ok s
  | c :: cs =>
    match skip with
    | skip + 1 => scan r defines (pos + 1) skip s cs
    | 0 =>
      if Text.isBlank c then scan r defines (pos + 1) 0 { s with gap := true } cs
      else if c == '%' then .ok s
      else
        match r.lexemeAt defines s pos c cs with
        | .error fault => .error fault
        | .ok (s, lexeme) =>
          let literal := String.ofList ((c :: cs).take lexeme.length)
          scan r defines (pos + 1) (lexeme.length - 1)
            (s.emit lexeme.kind lexeme.value literal pos (pos + lexeme.length)) cs

/-- A number in square brackets at the front, as it labels an assumption. -/
def label (rest : List Char) : Option (List Char) :=
  match rest with
  | '[' :: cs =>
    let digits := cs.takeWhile Text.isDigit
    match digits, cs.drop digits.length with
    | _ :: _, ']' :: _ => some digits
    | _, _ => none
  | _ => none

def partLabels : List String :=
  ["a", "b", "c", "d", "e", "f", "g", "h", "i", "ii", "iii", "iv", "v", "vi", "vii", "viii",
   "ix", "x"]

/-- A part label in parentheses at the front, before white space or the end of the line. -/
def partLabel (rest : List Char) : Option (List Char) :=
  match rest with
  | '(' :: cs =>
    let letters := cs.takeWhile Text.isLower
    match cs.drop letters.length with
    | ')' :: after =>
      if partLabels.contains (String.ofList letters) && (after.head?.map Text.isBlank).getD true then
        some letters
      else none
    | _ => none
  | _ => none

def header (r : Reading) (s : Scan) (start : Nat) (trimmed : List Char) (mark : List Char)
    (kind : Kind) (what : String) : Except Fault Scan :=
  if trimmed.length < 2 * mark.length || !mark.isSuffixOf trimmed then
    .error ⟨.lex (.unterminated what (String.ofList mark)), ⟨r.file, s.number, start + 1⟩⟩
  else
    let title := (trimmed.drop mark.length).take (trimmed.length - 2 * mark.length)
    .ok (s.emit kind (String.ofList (Text.trimBlanks title)) (String.ofList trimmed) start
      (start + trimmed.length))

/-- A line that opens with a block keyword: the text blocks take the rest of the line, or the
lines that follow if there is no rest; after other keywords the line is read on. -/
def block (r : Reading) (defines : Bool) (s : Scan) (start : Nat) (line : List Char)
    (keyword : String) : Except Fault (Scan × Capture) :=
  let stop := start + keyword.length
  let s := s.emit .keyword keyword keyword start stop
  let rest := Text.dropBlanks (line.drop stop)
  let restStart := line.length - rest.length
  if keyword == "TEXT:" || keyword == "PURETEXT:" || keyword == "LATEX:" then
    let raw := keyword == "LATEX:"
    if rest.isEmpty then .ok (s, if raw then .raw else .text)
    else
      let text := String.ofList (if raw then rest else Text.trimBlanks rest)
      .ok (s.emit .text text text restStart line.length, .off)
  else
    match r.scan defines restStart 0 { s with gap := true } rest with
    | .ok s => .ok (s, .off)
    | .error fault => .error fault

/-- A line outside of text blocks. -/
def plainLine (r : Reading) (s : Scan) (line : List Char) : Except Fault (Scan × Capture) :=
  let rest := Text.dropBlanks line
  let trimmed := Text.trimBlanks line
  let start := line.length - rest.length
  let defines := Text.occursIn "::=".toList line
  let off (result : Except Fault Scan) : Except Fault (Scan × Capture) :=
    result.map (fun s => (s, Capture.off))
  if trimmed.isEmpty || trimmed.head? == some '%' then .ok (s, .off)
  else if "===".toList.isPrefixOf trimmed then
    off (r.header s start trimmed "===".toList .sectionHeader "section header")
  else if "**".toList.isPrefixOf trimmed then
    off (r.header s start trimmed "**".toList .solutionHeader "solution marker")
  else
    match Symbol.blockKeywords.find? (fun k => k.toList.isPrefixOf trimmed) with
    | some keyword => r.block defines s start line keyword
    | none =>
      if Prose.isProse r.rules (String.ofList trimmed) true then
        let text := String.ofList trimmed
        .ok (s.emit .text text text start (start + trimmed.length), .off)
      else
        match label rest with
        | some digits =>
          let stop := start + digits.length + 2
          let s := s.emit .label (String.ofList digits)
            (String.ofList (rest.take (digits.length + 2))) start stop
          off (r.scan defines stop 0 s (line.drop stop))
        | none =>
          match partLabel rest with
          | some letters =>
            let stop := start + letters.length + 2
            let s := s.emit .partLabel (String.ofList letters)
              (String.ofList (rest.take (letters.length + 2))) start stop
            off (r.scan defines stop 0 s (line.drop stop))
          | none => off (r.scan defines start 0 s rest)

/-- A line inside a text block; a blank line ends the block. -/
def capturedLine (capture : Capture) (s : Scan) (line : List Char) : Scan × Capture :=
  let trimmed := Text.trimBlanks line
  if trimmed.isEmpty then (s, .off)
  else if capture == .raw then
    let text := String.ofList line
    (s.emit .text text text 0 line.length, capture)
  else
    let start := line.length - (Text.dropBlanks line).length
    let text := String.ofList trimmed
    (s.emit .text text text start (start + trimmed.length), capture)

/-- The tokens of one line in order, its newline included, and what it leaves to the next. -/
def readLine (r : Reading) (number : Nat) (carry : Carry) (line : List Char) :
    Except Fault (List Token × Carry) :=
  let s : Scan := { number := number, brackets := carry.brackets }
  let result :=
    if carry.capture == .off then r.plainLine s line
    else .ok (capturedLine carry.capture s line)
  result.map fun (s, capture) =>
    ((s.emit .newline "\n" "" line.length line.length).tokens.reverse,
      { brackets := s.brackets, capture := capture })

/-- The tokens of the lines from `number` on, and the final token. -/
def readLines (r : Reading) (number : Nat) (carry : Carry) :
    List (List Char) → Except Fault (List Token)
  | [] => .ok []
  | line :: rest =>
    match r.readLine number carry line with
    | .error fault => .error fault
    | .ok (tokens, carry) =>
      if rest.isEmpty then
        let final : Token :=
          { kind := .endOfInput
            line := number
            column := line.length + 1
            endColumn := line.length + 1 }
        .ok (tokens ++ [final])
      else
        match readLines r (number + 1) carry rest with
        | .error fault => .error fault
        | .ok more => .ok (tokens ++ more)

/-- The tokens of a source. -/
def tokens (r : Reading) (source : String) : Except Fault (List Token) :=
  r.readLines 1 {} (Text.sourceLines source)

end Reading
end Token
end Whiteboard
