import Whiteboard.Data.Json
import Whiteboard.Failure
import Whiteboard.Text.Case

namespace Whiteboard

/-!
The forms in which results are printed.
-/

/-- A printed form of plain data. -/
inductive OutputFormat where
  | text
  | json
  deriving DecidableEq, Inhabited

namespace OutputFormat

def ofName (name : String) : OutputFormat :=
  if name == "json" then json else text

/-- The format asked for among the allowed ones; case and white space around it do not count, and
the first one is meant if none is named. -/
def choose (name : String) (allowed : List String) : Except Failure String :=
  let key := Text.lowerText (Text.trim name)
  let refused : Except Failure String :=
    .error (.flag "format" name ("must be one of " ++ Text.joinWith ", " allowed))
  match allowed with
  | [] => refused
  | first :: _ =>
    if key.isEmpty then .ok first else if allowed.contains key then .ok key else refused

/-- A text that ends with a line feed. -/
def endLine (s : String) : String :=
  if s.toList.getLast? == some '\n' then s else s.push '\n'

def print (f : OutputFormat) (d : Data) : String :=
  match f with
  | text => endLine d.plainText
  | json => Json.indented d

/-- The printed form as it is written to a stream: it ends with a line feed. -/
def printLine (f : OutputFormat) (d : Data) : String :=
  match f with
  | text => endLine d.plainText
  | json => Json.indented d ++ "\n"

end OutputFormat
end Whiteboard
