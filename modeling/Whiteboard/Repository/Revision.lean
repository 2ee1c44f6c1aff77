import Whiteboard.Repository
import Whiteboard.Text.Integer

namespace Whiteboard

/-!
Revisions of a history: commits one after the other on a branch, some of them with tags.
-/

/-- One step back in history: to an ancestor, or to one of the parents. -/
inductive Revision.Step where
  | ancestor (n : Nat)
  | parent (n : Nat)

/-- A name of a commit with steps back from it. -/
structure Revision where
  base : String
  steps : List Revision.Step

namespace Revision

/-- The steps written after a name: `~` or `^`, each with a number or for one. -/
def readSteps : Nat → List Char → Option (List Step)
  | _, [] => some []
  | 0, _ => none
  | bound + 1, c :: cs =>
    let digits := cs.takeWhile Char.isDigit
    let n := if digits.isEmpty then 1 else (Text.readNat digits).getD 0
    let more := readSteps bound (cs.drop digits.length)
    if c == '~' then more.map (.ancestor n :: ·)
    else if c == '^' then more.map (.parent n :: ·)
    else none

def read (s : String) : Option Revision :=
  let inName (c : Char) : Bool := c != '~' && c != '^'
  let cs := s.toList
  (readSteps cs.length (cs.dropWhile inName)).map fun steps =>
    ⟨String.ofList (cs.takeWhile inName), steps⟩

/-- Takes a step from the commit at a position; every commit but the first has one parent. -/
def Step.take (position : Nat) : Step → Option Nat
  | ancestor n => if n ≤ position then some (position - n) else none
  | parent n => if n ≤ 1 && n ≤ position then some (position - n) else none

/-- The position of the commit with a name, the oldest first. -/
def named (commits : List Commit) (branch name : String) : Option Nat :=
  let head : Option Nat := if commits.isEmpty then none else some (commits.length - 1)
  let tagged (name : String) : Option Nat :=
    if name.isEmpty then none else commits.findIdx? fun c => c.tag == name
  let onBranch (name : String) : Option Nat := if name == branch then head else none
  let below (start : String) (find : String → Option Nat) : Option Nat :=
    if start.toList.isPrefixOf name.toList then
      find (String.ofList (name.toList.drop start.length))
    else none
  if name == "HEAD" || name == "@" then head
  else
    below "refs/tags/" tagged <|> below "refs/heads/" onBranch <|> below "tags/" tagged <|>
      below "heads/" onBranch <|> tagged name <|> onBranch name

/-- The position of the commit that a revision names. -/
def position (commits : List Commit) (branch rev : String) : Option Nat := do
  let revision ← read rev
  let start ← named commits branch revision.base
  revision.steps.foldlM Step.take start

end Revision

/-- A repository with one branch. -/
def Repository.ofHistory (place root : String) (commits : List Commit)
    (branch : String := "master") : Repository where
  place := place
  root := root
  commits := commits
  position := Revision.position commits branch

end Whiteboard
