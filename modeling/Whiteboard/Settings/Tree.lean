import Whiteboard.Settings.Schema

namespace Whiteboard
namespace Settings

/-!
Settings as they stand in a file: a tree of sections and lists whose leaves are scalars.  The
formats of files differ in what they let a scalar stand for.
-/

/-- What a scalar means; a moment is a date, a time of day or both. -/
inductive Meaning where
  | absent
  | bool (value : Bool)
  | int (value : Int)
  | real (value : Float)
  | text
  | moment

/-- A scalar with the characters it was written with. -/
structure Scalar where
  raw : String
  meaning : Meaning

/-- A value in a file.  A list of tables is one whose elements are opened one by one, and is no
list of values. -/
inductive Tree where
  | scalar (value : Scalar)
  | list (elements : List Tree)
  | tables (elements : List Tree)
  | section (fields : List (String × Tree))

instance : Inhabited Tree := ⟨.section []⟩

/-- What a format lets a scalar stand for, whether an integer that stands for a real must lie where
doubles hold every integer, whether names that are not known are refused, and whether the case of
a name counts. -/
structure Leniency where
  textFromAny : Bool
  intFromReal : Bool
  wordsForBool : Bool
  durationFromInt : Bool
  exactReals : Bool
  refusesUnknown : Bool
  foldsCase : Bool

namespace Leniency

/-- Scalars are written plainly, so every one of them is also a text. -/
def plain : Leniency where
  textFromAny := true
  intFromReal := true
  wordsForBool := true
  durationFromInt := false
  exactReals := false
  refusesUnknown := true
  foldsCase := false

/-- Scalars show their type; a number may stand for a length of time. -/
def typed : Leniency where
  textFromAny := false
  intFromReal := false
  wordsForBool := false
  durationFromInt := true
  exactReals := true
  refusesUnknown := false
  foldsCase := true

end Leniency

namespace Scalar

def toText (l : Leniency) (x : Scalar) : Option String :=
  match x.meaning with
  | .text => some x.raw
  | .absent => none
  | .moment => none
  | _ => if l.textFromAny then some x.raw else none

/-- An integer; a fraction is dropped.  The reals below the words, and the first one above them,
give the least word; all others above are refused. -/
def toInt (l : Leniency) (x : Scalar) : Option Int :=
  match x.meaning with
  | .int n => if Text.inWord n then some n else none
  | .real r =>
    if !l.intFromReal then none
    else if r < 9223372036854775808.0 then some r.toInt64.toInt
    else if r == 9223372036854775808.0 then some (-9223372036854775808)
    else none
  | _ => none

def toDuration (l : Leniency) (x : Scalar) : Option Int :=
  match x.meaning with
  | .text => Duration.read x.raw
  | .int n => if l.durationFromInt && Text.inWord n then some n else none
  | _ => none

def toBool (l : Leniency) (x : Scalar) : Option Bool :=
  match x.meaning with
  | .bool b => some b
  | .text =>
    if !l.wordsForBool then none
    else if ["y", "Y", "yes", "on"].contains x.raw then some true
    else if ["n", "N", "no", "off"].contains x.raw then some false
    else none
  | _ => none

def toReal (l : Leniency) (x : Scalar) : Option Float :=
  match x.meaning with
  | .int n =>
    if l.exactReals && decide (0x1FFFFFFFFFFFFF < n.natAbs) then none else Text.nearestDoubleInt n
  | .real r => some r
  | _ => none

def isAbsent (x : Scalar) : Bool :=
  match x.meaning with
  | .absent => true
  | _ => false

end Scalar

/-- The scalars of a list without those that are absent; none if an element is no scalar. -/
def presentScalars : List Tree → Option (List Scalar)
  | [] => some []
  | .scalar x :: rest =>
    (presentScalars rest).map fun xs => if x.isAbsent then xs else x :: xs
  | _ :: _ => none

/-- The settings with one field set from a leaf; `none` if the leaf does not fit the field.  An
absent value leaves a field as it is, but empties a list. -/
def Slot.assign (l : Leniency) (slot : Slot) (t : Tree) (s : Settings) : Option Settings :=
  match t with
  | .section _ => none
  | .tables _ => none
  | .list elements =>
    match slot with
    | .texts f => do
      let xs ← presentScalars elements
      (xs.mapM (Scalar.toText l)).map (f.set · s)
    | .reals f => do
      let xs ← presentScalars elements
      (xs.mapM (Scalar.toReal l)).map (f.set · s)
    | _ => none
  | .scalar x =>
    match slot with
    | .text f => if x.isAbsent then some s else (x.toText l).map (f.set · s)
    | .int f => if x.isAbsent then some s else (x.toInt l).map (f.set · s)
    | .duration f => if x.isAbsent then some s else (x.toDuration l).map (f.set · s)
    | .bool f => if x.isAbsent then some s else (x.toBool l).map (f.set · s)
    | .real f => if x.isAbsent then some s else (x.toReal l).map (f.set · s)
    | .texts f => if x.isAbsent then some (f.set [] s) else none
    | .reals f => if x.isAbsent then some (f.set [] s) else none

/-- The letter that a character is another case of: besides the capitals the long s and the sign
for kelvin. -/
def foldLetter (c : Char) : Char :=
  if c == '\u017f' then 's' else if c == '\u212a' then 'k' else c.toLower

/-- Is `name` the name `known`? -/
def Leniency.sameName (l : Leniency) (known name : String) : Bool :=
  known == name || (l.foldsCase && known == name.map foldLetter)

/-- The entries below a section, with what is left of their paths. -/
def below (l : Leniency) (name : String) (entries : List Entry) : List Entry :=
  entries.filterMap fun e =>
    match e.path with
    | first :: second :: rest =>
      if l.sameName first name then some { e with path := second :: rest } else none
    | _ => none

mutual

/-- The settings with the fields of a section laid over them; `none` if a field does not fit. -/
def overlay (l : Leniency) (entries : List Entry) (name : String) (t : Tree) (s : Settings) :
    Option Settings :=
  match entries.find? (fun e =>
      match e.path with
      | [last] => l.sameName last name
      | _ => false) with
  | some e => e.slot.assign l t s
  | none =>
    match below l name entries, t with
    | [], _ => if l.refusesUnknown then none else some s
    | inner, .section fields => overlayAll l inner fields s
    | _, .scalar x => if x.isAbsent then some s else none
    | _, .list _ => none
    | _, .tables _ => none

def overlayAll (l : Leniency) (entries : List Entry) (fields : List (String × Tree))
    (s : Settings) : Option Settings :=
  match fields with
  | [] => some s
  | (name, t) :: rest => (overlay l entries name t s).bind (overlayAll l entries rest)

end

def laidUnder (s : Settings) (l : Leniency) (t : Tree) : Option Settings :=
  match t with
  | .section fields => overlayAll l schema fields s
  | .scalar x => if x.isAbsent then some s else none
  | .list _ => none
  | .tables _ => none

end Settings
end Whiteboard
