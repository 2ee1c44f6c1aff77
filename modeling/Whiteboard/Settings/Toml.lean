import Whiteboard.Settings.Toml.Scalar
import Whiteboard.Settings.Toml.Tables

namespace Whiteboard
namespace Settings
namespace Toml

/-!
Settings files in TOML: headers of tables, and keys with their values.
-/

/-- A file holds no control characters, and a carriage return only before a line feed. -/
def isAllowed : List Char → Bool
  | [] => true
  | c :: cs =>
    let n := c.toNat
    (if c == '\r' then cs.head? == some '\n'
     else c == '\t' || c == '\n' || (0x20 ≤ n && n != 0x7F)) && isAllowed cs

def isBareKey (c : Char) : Bool :=
  c.isAlphanum || c == '_' || c == '-'

def keyName (cs : List Char) : Option (String × List Char) :=
  match cs with
  | '"' :: rest => (basicText (rest.length + 1) rest).map fun (s, after) => (String.ofList s, after)
  | '\'' :: rest => (literalText rest).map fun (s, after) => (String.ofList s, after)
  | cs =>
    let bare := cs.takeWhile isBareKey
    if bare.isEmpty then none else some (String.ofList bare, cs.drop bare.length)

/-- Names divided by dots, and what follows them.  Each takes a character. -/
def path : Nat → List Char → Option (List String × List Char)
  | 0, _ => none
  | bound + 1, cs => do
    let (name, rest) ← keyName (cs.dropWhile isGap)
    match rest.dropWhile isGap with
    | '.' :: rest => (path bound rest).map fun (names, after) => (name :: names, after)
    | rest => some ([name], rest)

def key (cs : List Char) : Option (List String × List Char) := do
  let (names, rest) ← path (cs.length + 1) cs
  match rest with
  | '=' :: rest => some (names, rest.dropWhile isGap)
  | _ => none

/-- What follows the white space, line breaks and comments here.  Each step takes a comment. -/
def skipLines : Nat → List Char → List Char
  | 0, cs => cs
  | bound + 1, cs =>
    match cs.dropWhile (fun c => isGap c || isNewline c) with
    | '#' :: rest => skipLines bound (rest.dropWhile (fun c => !isNewline c))
    | rest => rest

/-- The fields of a table with a value put at a path; none if something else stands in the way. -/
def putAt (t : Tree) : List String → List (String × Tree) → Option (List (String × Tree))
  | [], fields => some fields
  | [name], fields => some (setField name t fields)
  | name :: names, fields =>
    match fields.lookup name with
    | none => (putAt t names []).map fun inner => setField name (.section inner) fields
    | some (.section inner) =>
      (putAt t names inner).map fun inner => setField name (.section inner) fields
    | some _ => none

def isList (t : Tree) : Bool :=
  match t with
  | .list _ => true
  | _ => false

mutual

/-- The value at `name` in the open table, or an element of it; and what follows. -/
def value (name : String) (element : Bool) :
    Nat → List Char → Tables → Option (Tree × List Char × Tables)
  | 0, _, _ => none
  | bound + 1, cs, ts =>
    match cs with
    | '[' :: rest => elements name [] bound rest (ts.noteList (ts.context ++ [name]) true)
    | '\x7b' :: rest => do
      let path := ts.context ++ [name]
      let marked := ts.markImplicit path
      let opened ← if element then marked.openElement path else marked.openTable path
      let (t, after, inner) ← inlineFields path [] bound (rest.dropWhile isGap) opened
      some (t, after, { inner with context := ts.context })
    | cs => (scalar cs).map fun (x, after) => (.scalar x, after, ts)

def elements (name : String) (found : List Tree) :
    Nat → List Char → Tables → Option (Tree × List Char × Tables)
  | 0, _, _ => none
  | bound + 1, cs, ts =>
    match skipLines (cs.length + 1) cs with
    | ']' :: rest => some (.list found.reverse, rest, ts)
    | cs => do
      let (t, rest, ts) ← value name true bound cs ts
      match skipLines (rest.length + 1) rest with
      | ',' :: rest => elements name (t :: found) bound rest ts
      | ']' :: rest => some (.list (t :: found).reverse, rest, ts)
      | _ => none

/-- The fields of a table in braces, in one line and without a comma at the end. -/
def inlineFields (context : List String) (found : List (String × Tree)) :
    Nat → List Char → Tables → Option (Tree × List Char × Tables)
  | 0, _, _ => none
  | bound + 1, cs, ts =>
    match cs with
    | '\x7d' :: rest => some (.section found, rest, ts)
    | cs => do
      let (names, rest) ← key cs
      let ts ← ts.openNames names.dropLast
      let name := names.getLast?.getD ""
      let (t, rest, ts) ← value name false bound rest ts
      let ts ← ts.setValue name t
      let ts := { ts.noteList (ts.context ++ [name]) (isList t) with context := context }
      let found ← putAt t names found
      match rest.dropWhile isGap with
      | '\x7d' :: rest => some (.section found, rest, ts)
      | ',' :: rest =>
        let rest := rest.dropWhile isGap
        if rest.head? == some '\x7d' then none else inlineFields context found bound rest ts
      | _ => none

end

def keyValue (cs : List Char) (ts : Tables) : Option (List Char × Tables) := do
  let context := ts.context
  let (names, rest) ← key cs
  let ts ← ts.openNames names.dropLast
  let name := names.getLast?.getD ""
  let (t, rest, ts) ← value name false (2 * rest.length + 2) rest ts
  let ts ← ts.setValue name t
  some (rest, { ts.noteList (ts.context ++ [name]) (isList t) with context := context })

def item (cs : List Char) (ts : Tables) : Option (List Char × Tables) :=
  match cs with
  | '[' :: '[' :: rest => do
    let (names, rest) ← path (rest.length + 1) rest
    match rest with
    | ']' :: ']' :: rest => (ts.openElement names).map fun ts => (rest, ts.noteList names false)
    | _ => none
  | '[' :: rest => do
    let (names, rest) ← path (rest.length + 1) rest
    match rest with
    | ']' :: rest => (ts.openTable names).map fun ts => (rest, ts.noteList names false)
    | _ => none
  | cs => keyValue cs ts

def items : Nat → List Char → Tables → Option Tables
  | 0, _, _ => none
  | bound + 1, cs, ts =>
    match skipLines (cs.length + 1) cs with
    | [] => some ts
    | cs => do
      let (rest, ts) ← item cs ts
      match rest.dropWhile isGap with
      | [] => some ts
      | c :: rest => if c == '#' || isNewline c then items bound (c :: rest) ts else none

def read (source : String) : Option Tree :=
  let cs := source.toList
  let cs := if cs.head? == some '\ufeff' then cs.drop 1 else cs
  if isAllowed cs then (items (cs.length + 1) cs {}).map fun ts => .section ts.fields else none

end Toml
end Settings
end Whiteboard
