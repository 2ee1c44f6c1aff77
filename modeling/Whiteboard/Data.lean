namespace Whiteboard

/-!
Plain data, as it is exchanged with other programs: the tree of a document without its places.
-/

/-- Plain data.  The order of the fields of a record carries no meaning; a number that is not an
integer is kept as it is written. -/
inductive Data where
  | null
  | bool (value : Bool)
  | int (value : Int)
  | number (written : String)
  | text (value : String)
  | list (elements : List Data)
  | record (fields : List (String × Data))
  deriving Inhabited

namespace Data

/-- A text field, left out if it is empty. -/
def textField (name : String) (value : String) : List (String × Data) :=
  if value.isEmpty then [] else [(name, .text value)]

/-- A flag, left out if it is not set. -/
def boolField (name : String) (value : Bool) : List (String × Data) :=
  if value then [(name, .bool true)] else []

/-- A number, left out if it is zero. -/
def intField (name : String) (value : Int) : List (String × Data) :=
  if value == 0 then [] else [(name, .int value)]

/-- A list, left out if it is empty. -/
def listField (name : String) (elements : List Data) : List (String × Data) :=
  if elements.isEmpty then [] else [(name, .list elements)]

/-- A list of texts, left out if it is empty. -/
def textsField (name : String) (values : List String) : List (String × Data) :=
  listField name (values.map .text)

/-- A part that may be missing. -/
def partField (name : String) (value : Data) : List (String × Data) :=
  match value with
  | .null => []
  | d => [(name, d)]

end Data
end Whiteboard
