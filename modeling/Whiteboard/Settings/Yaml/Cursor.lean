namespace Whiteboard
namespace Settings
namespace Yaml

/-!
A place in the characters of a file, with the line and the column it stands in, and the gaps of
blanks and line breaks between the words of a scalar.
-/

/-- The characters a file may hold. -/
def isAllowed (c : Char) : Bool :=
  let n := c.toNat
  n == 0x9 || n == 0xA || n == 0xD || (0x20 ≤ n && n ≤ 0x7E) || n == 0x85 ||
    (0xA0 ≤ n && n != 0xFFFE && n != 0xFFFF)

def isGap (c : Char) : Bool :=
  c == ' ' || c == '\t'

def isBreak (c : Char) : Bool :=
  c == '\n' || c == '\r' || c == '\u0085' || c == '\u2028' || c == '\u2029'

/-- Do the characters start with a gap, a line break or the end of the file? -/
def endsWord (cs : List Char) : Bool :=
  match cs with
  | [] => true
  | c :: _ => isGap c || isBreak c

/-- What is left of a file, and where that starts. -/
structure Cursor where
  rest : List Char
  line : Nat := 0
  column : Nat := 0
  index : Nat := 0

namespace Cursor

def step (c : Cursor) (n : Nat) : Cursor :=
  { c with rest := c.rest.drop n, column := c.column + n, index := c.index + n }

def skip (p : Char → Bool) (c : Cursor) : Cursor :=
  c.step (c.rest.takeWhile p).length

def skipLine (c : Cursor) : Cursor :=
  c.skip (fun ch => !isBreak ch)

def atBreak (c : Cursor) : Bool :=
  (c.rest.head?.map isBreak).getD false

def nextLine (c : Cursor) (n : Nat) : Cursor :=
  { rest := c.rest.drop n, line := c.line + 1, column := 0, index := c.index + n }

/-- The line break here, if there is one, and the place after it.  The breaks of line and
paragraph stand for themselves, all others for a line feed. -/
def lineEnd (c : Cursor) : List Char × Cursor :=
  match c.rest with
  | '\r' :: '\n' :: _ => (['\n'], c.nextLine 2)
  | ch :: _ =>
    if ch == '\u2028' || ch == '\u2029' then ([ch], c.nextLine 1)
    else if isBreak ch then (['\n'], c.nextLine 1)
    else ([], c)
  | [] => ([], c)

/-- Does a mark of the start or the end of a document stand here? -/
def atDocumentMark (c : Cursor) : Bool :=
  c.column == 0 &&
    match c.rest with
    | '-' :: '-' :: '-' :: rest => endsWord rest
    | '.' :: '.' :: '.' :: rest => endsWord rest
    | _ => false

end Cursor

/-- The blanks and line breaks between two words. -/
structure Gap where
  /-- The blanks, if the words stand in one line. -/
  blanks : List Char := []
  /-- The first line break. -/
  first : List Char := []
  /-- The line breaks after it. -/
  more : List Char := []
  broken : Bool := false
  /-- Whether a tab indents a line. -/
  tabbed : Bool := false

/-- What stands for a gap in the value.  A single line feed is folded into a space, and the first
of several is left out. -/
def Gap.text (g : Gap) : List Char :=
  if !g.broken then g.blanks
  else if g.first.head? == some '\n' then (if g.more.isEmpty then [' '] else g.more)
  else g.first ++ g.more

/-- The gap that goes on here, and the place after it; `indent` is the column up to which no tab
may indent a line.  Each step takes a character. -/
def Cursor.gap (indent : Nat) : Nat → Gap → Cursor → Gap × Cursor
  | 0, g, c => (g, c)
  | bound + 1, g, c =>
    match c.rest with
    | [] => (g, c)
    | ch :: _ =>
      if isGap ch then
        if g.broken then
          let tabbed := g.tabbed || (ch == '\t' && decide (c.column < indent))
          gap indent bound { g with tabbed := tabbed } (c.step 1)
        else gap indent bound { g with blanks := g.blanks ++ [ch] } (c.step 1)
      else if isBreak ch then
        let (b, c) := c.lineEnd
        if g.broken then gap indent bound { g with more := g.more ++ b } c
        else gap indent bound { g with blanks := [], first := b, broken := true } c
      else (g, c)

/-- The gap here, and the place after it. -/
def Cursor.wholeGap (c : Cursor) (indent : Nat) : Gap × Cursor :=
  c.gap indent c.rest.length {}

end Yaml
end Settings
end Whiteboard
