import Whiteboard.Failure
import Whiteboard.Path

namespace Whiteboard

/-!
Sources from the history of a repository.
-/

/-- A commit with all files at that time; its name is a long number that tells it from others. -/
structure Commit where
  author : String
  email : String
  time : Int
  message : String
  tag : String := ""
  files : List (String × String) := []
  name : String := ""

/-- The files after some are written and some are removed. -/
def Commit.changed (files : List (String × String)) (changes : List (String × Option String)) :
    List (String × String) :=
  changes.foldl (fun files (name, content) =>
    let others := files.filter fun f => f.1 != name
    match content with
    | some text => (name, text) :: others
    | none => others) files

def Commit.shortName (name : String) : String :=
  String.ofList (name.toList.take 7)

/-- A repository: where it lies seen from the place of work, its full path, its commits, and the
position among them that a revision names. -/
structure Repository where
  place : String
  root : String
  commits : List Commit
  position : String → Option Nat

namespace Repository

/-- Opens the repository that a path lies in. -/
def openAt (r : Repository) (path : String) : Except Failure Repository :=
  if (Path.cleanParts r.place).isPrefixOf (Path.cleanParts path) && !r.commits.isEmpty then .ok r
  else .error (.stated ("failed to open git repository at " ++ path))

/-- The commit of a revision; none is named by the head. -/
def resolve (r : Repository) (rev : String) : Except Failure Commit :=
  let rev := if rev.isEmpty then "HEAD" else rev
  match (r.position rev).bind (r.commits[·]?) with
  | some c => .ok c
  | none => .error (.stated ("failed to resolve revision " ++ Text.quoted rev))

def relative (r : Repository) (path : String) : Except Failure String :=
  let root := Path.cleanParts (if Path.isRooted path then r.root else r.place)
  let parts := Path.cleanParts path
  if root.isPrefixOf parts then
    let below := parts.drop root.length
    .ok (if below.isEmpty then "." else Text.joinWith "/" below)
  else .error (.stated (path ++ " is outside the repository at " ++ r.root))

/-- Why a file could not be read; that it does not exist is told apart. -/
inductive ReadFault where
  | missing (path rev : String)
  | other (f : Failure)

def ReadFault.toFailure : ReadFault → Failure
  | missing path rev => .within (path ++ " at " ++ rev) (.stated "file not found at revision")
  | other f => f

def ReadFault.isMissing : ReadFault → Bool
  | missing _ _ => true
  | other _ => false

/-- The text of a file at a revision, and the commit. -/
def read (r : Repository) (rev path : String) : Except ReadFault (String × Commit) := do
  let name ← (r.relative path).mapError .other
  let c ← (r.resolve rev).mapError .other
  match c.files.lookup name with
  | some text => return (text, c)
  | none => throw (.missing name rev)

/-- Does a path have one of some extensions, in any case?  No extensions allow every path. -/
def hasExtension (extensions : List String) (path : String) : Bool :=
  extensions.isEmpty ||
    extensions.any fun e => Text.lowerText (Path.extension path) == Text.lowerText e

/-- The files that are new or different at the second revision, in order. -/
def changedFiles (r : Repository) (since upTo : String) (extensions : List String) :
    Except Failure (List String) := do
  let old ← r.resolve since
  let new ← r.resolve upTo
  let changed := new.files.filter fun (name, text) =>
    old.files.lookup name != some text && hasExtension extensions name
  return (changed.map (·.1)).mergeSort fun a b => decide (a ≤ b)

end Repository
end Whiteboard
