import Whiteboard.Settings.Yaml.Cursor
import Whiteboard.Text.Unquoted

namespace Whiteboard
namespace Settings
namespace Yaml

/-!
The scalars of a file as they are written: plain, quoted, or as a block of lines.
-/

namespace Cursor

/-! ### Plain scalars -/

/-- The characters up to the end of a word.  Inside of brackets the marks of lists and mappings
end it too. -/
def plainWord (flow : Bool) : List Char → List Char
  | [] => []
  | ch :: cs =>
    if isGap ch || isBreak ch || (ch == ':' && endsWord cs) ||
        (flow && ",?[]\x7b\x7d".toList.contains ch) then []
    else ch :: plainWord flow cs

/-- The words of a plain scalar that go on here after a gap: the text, whether a line break
follows it, and the place after that.  Outside of brackets a line goes on only from column
`indent`.  Each word takes a character. -/
def plainWords (flow : Bool) (indent : Nat) :
    Nat → List Char → Gap → Cursor → Option (List Char × Bool × Cursor)
  | 0, _, _, _ => none
  | bound + 1, text, before, c =>
    let word := if c.atDocumentMark || c.rest.head? == some '#' then [] else plainWord flow c.rest
    if word.isEmpty then some (text, before.broken, c)
    else
      let text := text ++ before.text ++ word
      let (g, after) := (c.step word.length).wholeGap indent
      if g.tabbed then none
      else if !flow && g.broken && decide (after.column < indent) then some (text, g.broken, after)
      else if !g.broken && g.blanks.isEmpty then some (text, false, after)
      else plainWords flow indent bound text g after

/-- A plain scalar: its text, whether a line break follows it, and the place after that. -/
def plain (flow : Bool) (indent : Nat) (c : Cursor) : Option (List Char × Bool × Cursor) :=
  c.plainWords flow indent (c.rest.length + 1) [] {}

/-! ### Quoted scalars -/

/-- The text up to the single quote that closes it.  A doubled quote stands for one.  Each step
takes a character. -/
def singleQuoted : Nat → List Char → Cursor → Option (List Char × Cursor)
  | 0, _, _ => none
  | bound + 1, text, c =>
    if c.atDocumentMark then none
    else
      match c.rest with
      | [] => none
      | '\'' :: '\'' :: _ => singleQuoted bound (text ++ ['\'']) (c.step 2)
      | '\'' :: _ => some (text, c.step 1)
      | ch :: _ =>
        if isGap ch || isBreak ch then
          let (g, after) := c.wholeGap 0
          singleQuoted bound (text ++ g.text) after
        else singleQuoted bound (text ++ [ch]) (c.step 1)

def letterEscape (ch : Char) : Option Char :=
  match ch with
  | '0' => some '\x00'
  | 'a' => some '\x07'
  | '\t' => some '\t'
  | 'v' => some '\x0b'
  | 'e' => some '\x1b'
  | ' ' => some ' '
  | '\'' => some '\''
  | 'N' => some '\u0085'
  | '_' => some '\u00a0'
  | 'L' => some '\u2028'
  | 'P' => some '\u2029'
  | ch => Text.simpleEscape ch

def codeLength (ch : Char) : Option Nat :=
  match ch with
  | 'x' => some 2
  | 'u' => some 4
  | 'U' => some 8
  | _ => none

/-- The text up to the double quote that closes it.  A backslash takes the meaning from a line
break.  Each step takes a character. -/
def doubleQuoted : Nat → List Char → Cursor → Option (List Char × Cursor)
  | 0, _, _ => none
  | bound + 1, text, c =>
    if c.atDocumentMark then none
    else
      match c.rest with
      | [] => none
      | '"' :: _ => some (text, c.step 1)
      | '\\' :: [] => none
      | '\\' :: ch :: cs =>
        if isBreak ch then
          let (g, after) := (c.step 1).lineEnd.2.gap 0 cs.length { broken := true }
          doubleQuoted bound (text ++ g.more) after
        else
          match codeLength ch with
          | some n =>
            match Text.codePoint n cs with
            | some decoded => doubleQuoted bound (text ++ [decoded]) (c.step (n + 2))
            | none => none
          | none =>
            match letterEscape ch with
            | some decoded => doubleQuoted bound (text ++ [decoded]) (c.step 2)
            | none => none
      | ch :: _ =>
        if isGap ch || isBreak ch then
          let (g, after) := c.wholeGap 0
          doubleQuoted bound (text ++ g.text) after
        else doubleQuoted bound (text ++ [ch]) (c.step 1)

def quoted (c : Cursor) : Option (List Char × Cursor) :=
  match c.rest with
  | '\'' :: rest => singleQuoted (rest.length + 1) [] (c.step 1)
  | '"' :: rest => doubleQuoted (rest.length + 1) [] (c.step 1)
  | _ => none

end Cursor

/-! ### Blocks of lines -/

/-- What becomes of the line breaks at the end of a block: all but the first are left out, or all
of them, or none. -/
inductive Chomp where
  | clip
  | strip
  | keep

/-- What stands behind the mark of a block: how it ends, and by how much its lines are indented,
if that is said. -/
structure BlockHeader where
  chomp : Chomp := .clip
  increment : Nat := 0

namespace Cursor

/-- How a block ends, if that is said here. -/
def chomp (c : Cursor) : Option (Chomp × Cursor) :=
  match c.rest with
  | '+' :: _ => some (.keep, c.step 1)
  | '-' :: _ => some (.strip, c.step 1)
  | _ => none

/-- How far a block is indented, zero if that is not said here; a written zero is refused. -/
def increment (c : Cursor) : Option (Nat × Cursor) :=
  match c.rest with
  | ch :: _ =>
    if ch == '0' then none
    else if ch.isDigit then some (ch.toNat - '0'.toNat, c.step 1)
    else some (0, c)
  | [] => some (0, c)

/-- The rest of the line that opens a block, and the start of the next line. -/
def blockHeader (c : Cursor) : Option (BlockHeader × Cursor) := do
  let (header, c) ←
    match c.chomp with
    | some (chomp, c) => (c.increment).map fun (n, c) => (BlockHeader.mk chomp n, c)
    | none =>
      (c.increment).map fun (n, c) =>
        if n == 0 then (BlockHeader.mk .clip 0, c)
        else
          match c.chomp with
          | some (chomp, c) => (BlockHeader.mk chomp n, c)
          | none => (BlockHeader.mk .clip n, c)
  let c := c.skip isGap
  let c := if c.rest.head? == some '#' then c.skipLine else c
  if c.rest.isEmpty then some (header, c)
  else if c.atBreak then some (header, c.lineEnd.2)
  else none

/-- The line breaks of the empty lines here, and the place where the next line of a block starts.
While the indentation is not known, as zero says, all spaces belong to it and the widest is kept.
No tab may stand in it.  Each step takes a line. -/
def blockBreaks (indent : Nat) : Nat → Nat → List Char → Cursor → Option (Nat × List Char × Cursor)
  | 0, _, _, _ => none
  | bound + 1, widest, breaks, c =>
    let spaces := (c.rest.takeWhile (· == ' ')).length
    let c := c.step (if indent == 0 then spaces else min spaces (indent - c.column))
    let widest := max widest c.column
    if (indent == 0 || decide (c.column < indent)) && c.rest.head? == some '\t' then none
    else if c.atBreak then
      let (b, after) := c.lineEnd
      blockBreaks indent bound widest (breaks ++ b) after
    else some (widest, breaks, c)

/-- The lines of a block that go on here: `lead` and `breaks` are the line breaks before them, and
`blank` says whether the last line started with a gap.  The result holds the text, and the line
breaks after it.  Lines that are not kept apart are joined by spaces, except next to a line that
starts with a gap. -/
def blockLines (literal : Bool) (indent : Nat) :
    Nat → (text lead breaks : List Char) → Bool → Cursor →
      Option (List Char × List Char × List Char × Cursor)
  | 0, _, _, _, _, _ => none
  | bound + 1, text, lead, breaks, blank, c =>
    if c.column != indent || c.rest.isEmpty then some (text, lead, breaks, c)
    else
      let startsBlank := (c.rest.head?.map isGap).getD false
      let joint :=
        if !literal && lead.head? == some '\n' && !blank && !startsBlank then
          if breaks.isEmpty then [' '] else breaks
        else lead ++ breaks
      let line := c.rest.takeWhile (fun ch => !isBreak ch)
      let (lead, c) := (c.step line.length).lineEnd
      match c.blockBreaks indent (c.rest.length + 1) 0 [] with
      | none => none
      | some (_, breaks, c) =>
        blockLines literal indent bound (text ++ joint ++ line) lead breaks startsBlank c

/-- A block of lines whose mark stands here; `outer` is the column its mapping or list is indented
to, plus one. -/
def blockScalar (outer : Nat) (c : Cursor) : Option (List Char × Cursor) := do
  let literal := c.rest.head? == some '|'
  let (header, c) ← (c.step 1).blockHeader
  let told := if header.increment == 0 then 0 else (outer - 1) + header.increment
  let (widest, breaks, c) ← c.blockBreaks told (c.rest.length + 1) 0 []
  let indent := if told == 0 then max widest (max outer 1) else told
  let (text, lead, breaks, c) ←
    c.blockLines literal indent (c.rest.length + 1) [] [] breaks false
  match header.chomp with
  | .strip => some (text, c)
  | .clip => some (text ++ lead, c)
  | .keep => some (text ++ lead ++ breaks, c)

end Cursor

end Yaml
end Settings
end Whiteboard
