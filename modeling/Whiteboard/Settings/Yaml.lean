import Whiteboard.Settings.Yaml.Plain
import Whiteboard.Settings.Yaml.Token

namespace Whiteboard
namespace Settings
namespace Yaml

/-!
Settings files in YAML: the tree that the tokens of the first document build.
-/

/-- The tokens that are left, and the nodes that have a name. -/
structure Source where
  tokens : List Token
  anchors : List (String × Tree) := []

namespace Source

def peek (p : Source) : Token :=
  p.tokens.headD .invalid

def skip (p : Source) : Source :=
  { p with tokens := p.tokens.tail }

def isAt (p : Source) (ts : List Token) : Bool :=
  ts.contains p.peek

end Source

structure Properties where
  anchor : Option String := none
  tag : Option String := none

def properties (p : Source) : Properties × Source :=
  match p.tokens with
  | .anchor name :: .tag tag :: rest => (⟨some name, some tag⟩, { p with tokens := rest })
  | .tag tag :: .anchor name :: rest => (⟨some name, some tag⟩, { p with tokens := rest })
  | .anchor name :: rest => (⟨some name, none⟩, { p with tokens := rest })
  | .tag tag :: rest => (⟨none, some tag⟩, { p with tokens := rest })
  | _ => ({}, p)

/-- The leaf of a scalar under a tag. -/
def leaf (tag : Option String) (text : String) (quoted : Bool) : Option Tree :=
  (taggedMeaning (tag.getD "") text quoted).map fun m => .scalar ⟨text, m⟩

/-- A node that is not written. -/
def emptyLeaf : Tree :=
  .scalar ⟨"", .absent⟩

/-- A key of a mapping: the node, and whether other mappings are to be merged in under it. -/
structure Field where
  key : Tree
  merges : Bool
  value : Tree

def keysOf (fields : List Field) : Option (List Scalar) :=
  fields.mapM fun f =>
    match f.key with
    | .scalar x => some x
    | _ => none

/-- The fields that a value merges in: those of a mapping, or of all mappings in a list. -/
def mergedFields (t : Tree) : Option (List (String × Tree)) :=
  match t with
  | .section fields => some fields
  | .list elements =>
    (elements.mapM fun (e : Tree) =>
      match e with
      | .section fields => some fields
      | _ => none).map List.flatten
  | _ => none

/-- The fields without those whose name came before. -/
def firstOfEach : List (String × Tree) → List (String × Tree)
  | [] => []
  | f :: fs => f :: (firstOfEach fs).filter (fun g => g.1 != f.1)

/-- A mapping.  Keys are scalars that differ; a field whose key is absent is left out, and fields
that are merged in stand behind the others. -/
def mapping (fields : List Field) : Option Tree := do
  let keys ← keysOf fields
  let names := keys.map Scalar.raw
  if names.eraseDups.length != names.length then none
  else
    let own := (keys.zip fields).filterMap fun (x, f) =>
      if f.merges || x.isAbsent then none else some (x.raw, f.value)
    let merged ← (fields.filter Field.merges).mapM fun f => mergedFields f.value
    some (.section (firstOfEach (own ++ merged.flatten)))

/-- Does a plain mark of a merge stand here? -/
def atMerge (p : Source) : Bool :=
  match p.tokens with
  | .scalar text quoted :: _ => text == "<<" && !quoted
  | _ => false

mutual

/-- The node here.  `block` says whether it may be a block, `dashes` whether it may be a list
whose dashes stand in the column of the mapping around it. -/
def node : Nat → (block dashes : Bool) → Source → Option (Tree × Source)
  | 0, _, _, _ => none
  | bound + 1, block, dashes, p =>
    match p.peek with
    | .reference name => (p.anchors.lookup name).map fun t => (t, p.skip)
    | _ => do
      let (props, p) := properties p
      let (t, p) ←
        match p.peek with
        | .blockEntry => if dashes then entries bound false [] p else unwritten props p
        | .scalar text quoted => (leaf props.tag text quoted).map fun t => (t, p.skip)
        | .flowSequence => elements bound true [] p.skip
        | .flowMapping => pairs bound true [] p.skip
        | .blockSequence => if block then entries bound true [] p.skip else unwritten props p
        | .blockMapping => if block then blockFields bound [] p.skip else unwritten props p
        | _ => unwritten props p
      match props.anchor with
      | some name => some (t, { p with anchors := (name, t) :: p.anchors })
      | none => some (t, p)

/-- A node of which only the properties are written. -/
def unwritten (props : Properties) (p : Source) : Option (Tree × Source) :=
  if props.anchor.isSome || props.tag.isSome then (leaf props.tag "" false).map fun t => (t, p)
  else none

/-- The node here, or an empty one before any of the tokens `ends`. -/
def nodeUnless (ends : List Token) : Nat → (block dashes : Bool) → Source → Option (Tree × Source)
  | 0, _, _, _ => none
  | bound + 1, block, dashes, p =>
    if p.isAt ends then some (emptyLeaf, p) else node bound block dashes p

/-- The value after a key, empty if no colon stands here. -/
def valueUnless (ends : List Token) : Nat → Bool → Source → Option (Tree × Source)
  | 0, _, _ => none
  | bound + 1, block, p =>
    if p.peek == .value then nodeUnless ends bound block block p.skip else some (emptyLeaf, p)

/-- The elements of a list with dashes.  Only one that is a block of its own has an end. -/
def entries : Nat → Bool → List Tree → Source → Option (Tree × Source)
  | 0, _, _, _ => none
  | bound + 1, closed, found, p =>
    match p.peek with
    | .blockEntry => do
      let ends := if closed then [.blockEntry, .blockEnd] else [.blockEntry, .key, .value, .blockEnd]
      let (t, p) ← nodeUnless ends bound true false p.skip
      entries bound closed (t :: found) p
    | t =>
      if !closed then some (.list found.reverse, p)
      else if t == .blockEnd then some (.list found.reverse, p.skip)
      else none

def blockFields : Nat → List Field → Source → Option (Tree × Source)
  | 0, _, _ => none
  | bound + 1, found, p =>
    match p.peek with
    | .key => do
      let ends := [.key, .value, .blockEnd]
      let (k, after) ← nodeUnless ends bound true true p.skip
      let (v, rest) ← valueUnless ends bound true after
      blockFields bound (⟨k, atMerge p.skip, v⟩ :: found) rest
    | .blockEnd => (mapping found.reverse).map fun t => (t, p.skip)
    | _ => none

/-- The elements of a list in brackets.  A key and a value alone make a mapping. -/
def elements : Nat → Bool → List Tree → Source → Option (Tree × Source)
  | 0, _, _, _ => none
  | bound + 1, first, found, p =>
    if p.peek == .flowSequenceEnd then some (.list found.reverse, p.skip)
    else if !first && p.peek != .flowEntry then none
    else
      let p := if first then p else p.skip
      match p.peek with
      | .flowSequenceEnd => some (.list found.reverse, p.skip)
      | .key => do
        let ends := [.flowEntry, .flowSequenceEnd]
        let (k, after) ← nodeUnless (.value :: ends) bound false false p.skip
        let (v, rest) ← valueUnless ends bound false after
        let t ← mapping [⟨k, atMerge p.skip, v⟩]
        elements bound false (t :: found) rest
      | _ => do
        let (t, p) ← node bound false false p
        elements bound false (t :: found) p

/-- The fields of a mapping in braces.  A key alone has an empty value. -/
def pairs : Nat → Bool → List Field → Source → Option (Tree × Source)
  | 0, _, _, _ => none
  | bound + 1, first, found, p =>
    if p.peek == .flowMappingEnd then (mapping found.reverse).map fun t => (t, p.skip)
    else if !first && p.peek != .flowEntry then none
    else
      let p := if first then p else p.skip
      match p.peek with
      | .flowMappingEnd => (mapping found.reverse).map fun t => (t, p.skip)
      | .key => do
        let ends := [.flowEntry, .flowMappingEnd]
        let (k, after) ← nodeUnless (.value :: ends) bound false false p.skip
        let (v, rest) ← valueUnless ends bound false after
        pairs bound false (⟨k, atMerge p.skip, v⟩ :: found) rest
      | _ => do
        let (k, after) ← node bound false false p
        pairs bound false (⟨k, atMerge p, emptyLeaf⟩ :: found) after

end

/-- The tree of the first document.  A token that is not valid closely behind it counts too. -/
def document (ts : List Token) : Option Tree :=
  let bound := 4 * ts.length + 4
  let found :=
    match ts with
    | .streamEnd :: _ => none
    | .directive :: .documentStart :: rest => content bound rest
    | .documentStart :: rest => content bound rest
    | ts => node bound true false ⟨ts, []⟩
  found.bind fun (t, p) => if (p.tokens.take 3).contains .invalid then none else some t
where
  content (bound : Nat) (ts : List Token) : Option (Tree × Source) :=
    nodeUnless [.directive, .documentStart, .documentEnd, .streamEnd] bound true false ⟨ts, []⟩

def read (source : String) : Option Tree :=
  let cs := source.toList
  if !cs.all isAllowed then none
  else document (tokens (if cs.head? == some '\ufeff' then cs.drop 1 else cs))

end Yaml
end Settings
end Whiteboard
