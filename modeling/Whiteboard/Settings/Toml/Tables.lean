import Whiteboard.Settings.Tree

namespace Whiteboard
namespace Settings
namespace Toml

/-!
The tables of a file while it is read.  A table that only stands in the paths of others may be
opened once more, and so may a list of values be set again; every other name is used once.
-/

/-- The tables so far. -/
structure Tables where
  fields : List (String × Tree) := []
  /-- The path of the open table. -/
  context : List String := []
  /-- The paths of what has not been defined for its own sake. -/
  implicit : List (List String) := []
  /-- The paths of the lists of values. -/
  lists : List (List String) := []

def replaceField (name : String) (t : Tree) (fields : List (String × Tree)) : List (String × Tree) :=
  fields.map fun f => if f.1 == name then (name, t) else f

def setField (name : String) (t : Tree) (fields : List (String × Tree)) : List (String × Tree) :=
  if fields.any (fun f => f.1 == name) then replaceField name t fields else fields ++ [(name, t)]

/-- The fields of the table at a path.  Of a list of tables the last is meant. -/
def fieldsAt : List String → List (String × Tree) → Option (List (String × Tree))
  | [], fields => some fields
  | name :: path, fields =>
    match fields.lookup name with
    | some (.section inner) => fieldsAt path inner
    | some (.tables elements) =>
      match elements.getLast? with
      | some (.section inner) => fieldsAt path inner
      | _ => none
    | _ => none

def changeAt (change : List (String × Tree) → List (String × Tree)) :
    List String → List (String × Tree) → List (String × Tree)
  | [], fields => change fields
  | name :: path, fields =>
    match fields.lookup name with
    | some (.section inner) => replaceField name (.section (changeAt change path inner)) fields
    | some (.tables elements) =>
      match elements.getLast? with
      | some (.section inner) =>
        let last := Tree.section (changeAt change path inner)
        replaceField name (.tables (elements.dropLast ++ [last])) fields
      | _ => fields
    | _ => fields

namespace Tables

def markImplicit (path : List String) (ts : Tables) : Tables :=
  { ts with implicit := path :: ts.implicit }

def unmark (path : List String) (ts : Tables) : Tables :=
  { ts with implicit := ts.implicit.filter (· != path) }

/-- Notes whether a list of values stands at a path. -/
def noteList (path : List String) (isList : Bool) (ts : Tables) : Tables :=
  let others := ts.lists.filter (· != path)
  { ts with lists := if isList then path :: others else others }

/-- Puts a value at a name in the open table; none if the name is taken.  A list of values gives
way, and what is implicit is kept but may not be set once more. -/
def setValue (name : String) (t : Tree) (ts : Tables) : Option Tables := do
  let path := ts.context ++ [name]
  let here ← fieldsAt ts.context ts.fields
  let changed := { ts with fields := changeAt (setField name t) ts.context ts.fields }
  if !here.any (fun f => f.1 == name) then some changed
  else if ts.lists.contains path then some (changed.unmark path)
  else if ts.implicit.contains path then some (ts.unmark path)
  else none

/-- Makes the tables on a path that are missing; `above` is the path to its start.  None if
something else stands in the way. -/
def makeParents (above : List String) : List String → Tables → Option Tables
  | [], ts => some ts
  | name :: path, ts => do
    let here ← fieldsAt above ts.fields
    let next := above ++ [name]
    if here.any (fun f => f.1 == name) then makeParents next path ts
    else
      let added := changeAt (setField name (.section [])) above ts.fields
      makeParents next path ({ ts with fields := added }.markImplicit next)

def openTable (path : List String) (ts : Tables) : Option Tables := do
  let parents := path.dropLast
  let ts ← makeParents [] parents ts
  let ts ← { ts with context := parents }.setValue (path.getLast?.getD "") (.section [])
  some { ts with context := path }

def openElement (path : List String) (ts : Tables) : Option Tables := do
  let parents := path.dropLast
  let name := path.getLast?.getD ""
  let ts ← makeParents [] parents ts
  let here ← fieldsAt parents ts.fields
  let elements ←
    match here.lookup name with
    | none => some []
    | some (.tables elements) => some elements
    | some _ => none
  let more := Tree.tables (elements ++ [.section []])
  some { ts with fields := changeAt (setField name more) parents ts.fields, context := path }

def openNames : List String → Tables → Option Tables
  | [], ts => some ts
  | name :: names, ts =>
    let path := ts.context ++ [name]
    ((ts.markImplicit path).openTable path).bind (openNames names)

end Tables

end Toml
end Settings
end Whiteboard
