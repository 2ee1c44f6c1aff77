import Whiteboard.Settings.Yaml.Scalar

namespace Whiteboard
namespace Settings
namespace Yaml

/-!
The tokens of a file.  Indentation shows as tokens that open and close the blocks.  That a node is
the key of a mapping is only known at the colon behind it, so the tokens for that are put in
before the node.
-/

inductive Token where
  | directive
  | documentStart
  | documentEnd
  | streamEnd
  | blockSequence
  | blockMapping
  | blockEnd
  | flowSequence
  | flowSequenceEnd
  | flowMapping
  | flowMappingEnd
  | blockEntry
  | flowEntry
  | key
  | value
  | reference (name : String)
  | anchor (name : String)
  | tag (name : String)
  | scalar (text : String) (quoted : Bool)
  /-- The characters here are not those of a token. -/
  | invalid
deriving DecidableEq

/-- A node that is a key if a colon follows. -/
structure Candidate where
  /-- How many tokens stand before it. -/
  position : Nat
  line : Nat
  column : Nat
  index : Nat
  /-- Nothing else can stand in its place. -/
  required : Bool

/-- What has been read. -/
structure Scan where
  cursor : Cursor
  /-- The tokens, the last one first. -/
  tokens : List Token := []
  /-- The columns of the open blocks, the innermost first. -/
  indents : List Nat := []
  candidate : Option Candidate := none
  /-- The candidates outside of the open brackets, the innermost first. -/
  outer : List (Option Candidate) := []
  keyAllowed : Bool := true

namespace Scan

def inFlow (s : Scan) : Bool :=
  !s.outer.isEmpty

/-- The first column that is inside of the innermost block. -/
def inner (s : Scan) : Nat :=
  match s.indents with
  | [] => 0
  | column :: _ => column + 1

def emit (t : Token) (s : Scan) : Scan :=
  { s with tokens := t :: s.tokens }

def insert (n : Nat) (t : Token) (s : Scan) : Scan :=
  let behind := s.tokens.length - n
  { s with tokens := s.tokens.take behind ++ t :: s.tokens.drop behind }

def advance (n : Nat) (s : Scan) : Scan :=
  { s with cursor := s.cursor.step n }

/-- Leaves the blocks that are indented to `column` or further.  Brackets keep blocks open. -/
def leave (column : Nat) (s : Scan) : Scan :=
  if s.inFlow then s
  else
    let closed := s.indents.takeWhile (fun indent => decide (column ≤ indent))
    { s with
      indents := s.indents.drop closed.length
      tokens := closed.map (fun _ => Token.blockEnd) ++ s.tokens }

/-- Opens a block at `column`, with its token behind the first `n`, unless it is open. -/
def enter (column n : Nat) (t : Token) (s : Scan) : Scan :=
  if s.inFlow || decide (column < s.inner) then s
  else { s.insert n t with indents := column :: s.indents }

/-- Gives the candidate up; none if it had to be a key. -/
def dropKey (s : Scan) : Option Scan :=
  match s.candidate with
  | some k => if k.required then none else some { s with candidate := none }
  | none => some s

/-- Takes the node that starts here for a candidate. -/
def saveKey (s : Scan) : Option Scan :=
  if !s.keyAllowed then some s
  else
    let c := s.cursor
    s.dropKey.map fun s =>
      { s with
        candidate := some
          { position := s.tokens.length, line := c.line, column := c.column, index := c.index,
            required := !s.inFlow && s.indents.head? == some c.column } }

def skipComment (s : Scan) : Scan :=
  let c := s.cursor.skip isGap
  if c.rest.head? == some '#' then { s with cursor := c.skipLine } else s

/-! ### To the next token -/

/-- The end of the comment that stands here and of those in the lines below it.  Each step takes a
comment. -/
def commentsEnd : Nat → Cursor → Cursor
  | 0, c => c
  | bound + 1, c =>
    let c := c.skipLine
    let (_, after) := c.wholeGap 0
    if after.rest.head? == some '#' then commentsEnd bound after else c

/-- The place of the next token.  A tab may only stand where no key may start.  Each step takes a
line. -/
def toToken : Nat → Scan → Scan
  | 0, s => s
  | bound + 1, s =>
    let c := s.cursor
    let c := if c.column == 0 && c.rest.head? == some '\ufeff' then c.step 1 else c
    let c := c.skip (fun ch => ch == ' ' || (ch == '\t' && (s.inFlow || !s.keyAllowed)))
    let c := if c.rest.head? == some '#' then commentsEnd c.rest.length c else c
    if c.atBreak then
      toToken bound { s with cursor := c.lineEnd.2, keyAllowed := s.keyAllowed || !s.inFlow }
    else { s with cursor := c }

/-! ### The tokens -/

/-- The version of the format that a line at the start of a document may announce. -/
def directive (s : Scan) : Option Scan :=
  (s.leave 0).dropKey.bind fun s =>
    match s.cursor.rest with
    | '%' :: 'Y' :: 'A' :: 'M' :: 'L' :: rest =>
      let c := (s.cursor.step 5).skip isGap
      let version := c.rest.takeWhile (fun ch => ch.isDigit || ch == '.')
      let after := (c.step version.length).skip isGap
      let after := if after.rest.head? == some '#' then after.skipLine else after
      let major := version.takeWhile Char.isDigit
      let minor := (version.drop major.length).drop 1
      let isOne (ds : List Char) : Bool :=
        !ds.isEmpty && ds.length ≤ 9 && Text.digitsValue ds == 1 && ds.all Char.isDigit
      if (rest.head?.map isGap).getD false && isOne major && isOne minor &&
          (after.rest.isEmpty || after.atBreak) then
        some ({ s with cursor := after.lineEnd.2, keyAllowed := false }.emit .directive)
      else none
    | _ => none

def documentMark (s : Scan) : Option Scan :=
  let t := if s.cursor.rest.head? == some '-' then Token.documentStart else Token.documentEnd
  (s.leave 0).dropKey.map fun s => { (s.emit t).advance 3 with keyAllowed := false }

def streamEnd (s : Scan) : Option Scan :=
  (s.leave 0).dropKey.map fun s => { s.emit .streamEnd with keyAllowed := false }

def openFlow (t : Token) (s : Scan) : Option Scan :=
  s.saveKey.map fun s =>
    { (s.emit t).advance 1 with
      candidate := none, outer := s.candidate :: s.outer, keyAllowed := true }

/-- A closing bracket; what it closes is the candidate again. -/
def closeFlow (t : Token) (s : Scan) : Option Scan :=
  s.dropKey.map fun s =>
    { (s.emit t).advance 1 with
      candidate := s.outer.headD none, outer := s.outer.tail, keyAllowed := false }

def flowEntry (s : Scan) : Option Scan :=
  s.dropKey.map fun s => { (s.emit .flowEntry).advance 1 with keyAllowed := true }

/-- The dash of a list. -/
def blockEntry (s : Scan) : Option Scan :=
  if !s.inFlow && !s.keyAllowed then none
  else
    (s.enter s.cursor.column s.tokens.length .blockSequence).dropKey.map fun s =>
      { (s.emit .blockEntry).advance 1 with keyAllowed := true }

/-- The question mark before a key. -/
def openKey (s : Scan) : Option Scan :=
  if !s.inFlow && !s.keyAllowed then none
  else
    (s.enter s.cursor.column s.tokens.length .blockMapping).dropKey.map fun s =>
      { (s.emit .key).advance 1 with keyAllowed := !s.inFlow }

/-- A candidate stands in one line with its colon, and at most 1024 characters before it. -/
def isNear (s : Scan) (k : Candidate) : Bool :=
  k.line == s.cursor.line && decide (s.cursor.index ≤ k.index + 1024)

def openValue (s : Scan) : Option Scan :=
  let keyless : Option Scan :=
    if !s.inFlow && !s.keyAllowed then none
    else
      let s := s.enter s.cursor.column s.tokens.length .blockMapping
      some { s with keyAllowed := !s.inFlow }
  let opened : Option Scan :=
    match s.candidate with
    | some k =>
      if s.isNear k then
        let s := (s.insert k.position .key).enter k.column k.position .blockMapping
        some { s with candidate := none, keyAllowed := false }
      else if k.required then none
      else keyless.map fun s => { s with candidate := none }
    | none => keyless
  opened.map fun s => (s.emit .value).advance 1

/-- A scalar, or a property of a node, that ends before `after`. -/
def content (t : Token) (after : Cursor) (keyAllowed : Bool) (s : Scan) : Option Scan :=
  s.saveKey.map fun s => { s.emit t with cursor := after, keyAllowed := keyAllowed }

def isNameChar (c : Char) : Bool :=
  c.isAlphanum || c == '_' || c == '-'

/-- The mark of an anchor or of a reference to one, with a name. -/
def named (make : String → Token) (s : Scan) : Option Scan :=
  let start := s.cursor.step 1
  let name := start.rest.takeWhile isNameChar
  let after := start.step name.length
  let ends := endsWord after.rest || "?:,]\x7d%@\x60".toList.contains (after.rest.headD ' ')
  if name.isEmpty || !ends then none
  else s.content (make (String.ofList name)) after false

def isUriChar (c : Char) : Bool :=
  isNameChar c || ";/?:@&=+$,.!~*'()[]".toList.contains c

/-- A tag with the standard namespace written as two marks. -/
def shortTag (cs : List Char) : String :=
  let standard := "tag:yaml.org,2002:".toList
  if standard.isPrefixOf cs then "!!" ++ String.ofList (cs.drop standard.length)
  else String.ofList cs

def tagged (s : Scan) : Option Scan :=
  let c := s.cursor
  let read : Option (String × Cursor) :=
    match c.rest with
    | '!' :: '<' :: rest =>
      let uri := rest.takeWhile isUriChar
      let after := c.step (2 + uri.length)
      if !uri.isEmpty && after.rest.head? == some '>' then some (shortTag uri, after.step 1) else none
    | '!' :: '!' :: rest =>
      let name := rest.takeWhile isUriChar
      if name.isEmpty then none
      else some (String.ofList ('!' :: '!' :: name), c.step (2 + name.length))
    | _ :: rest =>
      let handle := rest.takeWhile isNameChar
      let name := rest.takeWhile isUriChar
      if (rest.drop handle.length).head? == some '!' then none
      else some (String.ofList ('!' :: name), c.step (1 + name.length))
    | [] => none
  match read with
  | some (tag, after) => if endsWord after.rest then s.content (.tag tag) after false else none
  | none => none

def blockText (s : Scan) : Option Scan :=
  s.dropKey.bind fun s =>
    (s.cursor.blockScalar s.inner).map fun (text, after) =>
      { s.emit (.scalar (String.ofList text) true) with cursor := after, keyAllowed := true }

def quotedText (s : Scan) : Option Scan :=
  match s.cursor.quoted with
  | some (text, after) => s.content (.scalar (String.ofList text) true) after false
  | none => none

def plainText (s : Scan) : Option Scan :=
  match s.cursor.plain s.inFlow s.inner with
  | some (text, broken, after) =>
    (s.content (.scalar (String.ofList text) false) after broken).map fun s =>
      if broken then s else s.skipComment
  | none => none

/-- Can a plain scalar start with `ch` before `cs`? -/
def startsPlain (flow : Bool) (ch : Char) (cs : List Char) : Bool :=
  !(endsWord [ch] || "-?:,[]\x7b\x7d#&*!|>'\"%@\x60".toList.contains ch) ||
    (ch == '-' && !(cs.head?.map isGap).getD false) ||
    (!flow && (ch == '?' || ch == ':') && !endsWord cs)

def token (ch : Char) (cs : List Char) (s : Scan) : Option Scan :=
  let indicator := s.inFlow || endsWord cs
  if ch == '-' && endsWord cs then s.blockEntry
  else if !s.inFlow && (ch == '|' || ch == '>') then s.blockText
  else if ch == '[' then (s.openFlow .flowSequence).map skipComment
  else if ch == '\x7b' then (s.openFlow .flowMapping).map skipComment
  else if ch == ']' then (s.closeFlow .flowSequenceEnd).map skipComment
  else if ch == '\x7d' then (s.closeFlow .flowMappingEnd).map skipComment
  else if ch == ',' then s.flowEntry.map skipComment
  else if ch == '?' && indicator then s.openKey.map skipComment
  else if ch == ':' && indicator then s.openValue.map skipComment
  else if ch == '*' then (s.named .reference).map skipComment
  else if ch == '&' then (s.named .anchor).map skipComment
  else if ch == '!' then s.tagged.map skipComment
  else if ch == '\'' || ch == '"' then s.quotedText.map skipComment
  else if startsPlain s.inFlow ch cs then s.plainText
  else none

/-- Reads one token; none if there is none. -/
def next (s : Scan) : Option Scan :=
  let s := s.toToken (s.cursor.rest.length + 1)
  let s := s.leave (s.cursor.column + 1)
  match s.cursor.rest with
  | [] => s.streamEnd
  | ch :: cs =>
    if s.cursor.column == 0 && ch == '%' then s.directive
    else if s.cursor.atDocumentMark then s.documentMark
    else s.token ch cs

/-- The tokens of a file, the first one first.  Each takes a character. -/
def all : Nat → Scan → List Token
  | 0, s => (Token.invalid :: s.tokens).reverse
  | bound + 1, s =>
    match s.next with
    | none => (Token.invalid :: s.tokens).reverse
    | some s => if s.tokens.head? == some .streamEnd then s.tokens.reverse else all bound s

end Scan

def tokens (cs : List Char) : List Token :=
  Scan.all (cs.length + 1) { cursor := { rest := cs } }

end Yaml
end Settings
end Whiteboard
