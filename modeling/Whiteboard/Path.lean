import Whiteboard.Text.Case
import Whiteboard.Text.Lines

namespace Whiteboard
namespace Path

/-!
Paths as text, with slashes between their parts.
-/

def parts (path : String) : List String :=
  (Text.splitWhere (· == '/') path.toList).map String.ofList

def isRooted (path : String) : Bool :=
  path.toList.head? == some '/'

/-- Adds a part to the parts before it, the nearest first: `..` takes one back, but not above a
root. -/
def addPart (rooted : Bool) (seen : List String) (part : String) : List String :=
  if part.isEmpty || part == "." then seen
  else if part == ".." then
    match seen with
    | [] => if rooted then [] else [".."]
    | before :: rest => if before == ".." then ".." :: seen else rest
  else part :: seen

/-- The parts that are left after `.` and `..` were worked out. -/
def cleanParts (path : String) : List String :=
  ((parts path).foldl (addPart (isRooted path)) []).reverse

/-- The shortest path to the same place; the empty path is `.`. -/
def clean (path : String) : String :=
  let joined := Text.joinWith "/" (cleanParts path)
  if isRooted path then "/" ++ joined else if joined.isEmpty then "." else joined

/-- Joins two paths; an empty one does not count. -/
def join (a b : String) : String :=
  if a.isEmpty && b.isEmpty then ""
  else if a.isEmpty then clean b
  else if b.isEmpty then clean a
  else clean (a ++ "/" ++ b)

/-- The last part; slashes at the end do not count. -/
def base (path : String) : String :=
  if path.isEmpty then "."
  else
    let cs := Text.dropTrailing (· == '/') path.toList
    if cs.isEmpty then "/"
    else String.ofList (cs.reverse.takeWhile (· != '/')).reverse

def dir (path : String) : String :=
  clean (String.ofList (path.toList.reverse.dropWhile (· != '/')).reverse)

/-- From the last dot of the last part on; empty if there is none. -/
def extension (path : String) : String :=
  let last := (path.toList.reverse.takeWhile (· != '/'))
  if last.contains '.' then String.ofList ('.' :: (last.takeWhile (· != '.')).reverse) else ""

def stem (path : String) : String :=
  String.ofList (path.toList.take (path.length - (extension path).length))

/-- Is a path the other one, or below it?  Both have to be clean. -/
def isWithin (path root : String) : Bool :=
  (cleanParts root).isPrefixOf (cleanParts path) && isRooted path == isRooted root

end Path
end Whiteboard
