import Whiteboard.Path

namespace Whiteboard

/-!
Files and directories as a value.  A place is the parts of a clean path, with `/` as the first if the
path starts at the root; other paths start where the work is done.  Paths are followed part by part,
so that each part before the last has to be a directory.
-/

/-- The texts of files, and the directories besides those where paths start. -/
structure Files where
  texts : List (List String × String) := []
  dirs : List (List String) := []

namespace Files

/-- Why a path cannot be used. -/
inductive Fault where
  | missing
  | notDirectory
  | isDirectory
  deriving DecidableEq

def Fault.message : Fault → String
  | missing => "no such file or directory"
  | notDirectory => "not a directory"
  | isDirectory => "is a directory"

def above (place : List String) : List (List String) :=
  (List.range place.length).map fun n => place.take n

/-- The place of a path, if all directories on its way exist. -/
def placeOf (path : String) : List String :=
  if Path.isRooted path then "/" :: Path.cleanParts path else Path.cleanParts path

def pathOf (place : List String) : String :=
  match place with
  | "/" :: rest => "/" ++ Text.joinWith "/" rest
  | place => Text.joinWith "/" place

/-- Adds a directory and those above it. -/
def addDir (fs : Files) (path : String) : Files :=
  { fs with dirs := above (placeOf path) ++ placeOf path :: fs.dirs }

def addText (fs : Files) (path text : String) : Files :=
  { texts := fs.texts ++ [(placeOf path, text)], dirs := above (placeOf path) ++ fs.dirs }

def ofTexts (texts : List (String × String)) : Files :=
  texts.foldl (fun fs (path, text) => fs.addText path text) {}

def isFile (fs : Files) (place : List String) : Bool :=
  fs.texts.any fun f => f.1 == place

/-- A place where paths start, or one above it. -/
def isStart (place : List String) : Bool :=
  place == ["/"] || place.all (· == "..")

def isDir (fs : Files) (place : List String) : Bool :=
  isStart place || fs.dirs.contains place

/-- The place above a place; the root is above itself. -/
def parent (place : List String) : List String :=
  if place == ["/"] then place else if isStart place then ".." :: place else place.dropLast

/-- Follows the parts of a path from a directory to the place it names; nothing has to be at that
place yet. -/
def follow (fs : Files) (at_ : List String) : List String → Except Fault (List String)
  | [] => .ok at_
  | part :: rest =>
    if fs.isDir at_ then
      if part.isEmpty || part == "." then follow fs at_ rest
      else if part == ".." then follow fs (parent at_) rest
      else follow fs (at_ ++ [part]) rest
    else if fs.isFile at_ then .error .notDirectory
    else .error .missing

def locate (fs : Files) (path : String) : Except Fault (List String) :=
  if path.isEmpty then .error .missing
  else fs.follow (if Path.isRooted path then ["/"] else []) (Path.parts path)

def read (fs : Files) (path : String) : Except String String :=
  let refused (action : String) (f : Fault) : Except String String :=
    .error (action ++ " " ++ path ++ ": " ++ f.message)
  match fs.locate path with
  | .error f => refused "open" f
  | .ok place =>
    match fs.texts.lookup place with
    | some text => .ok text
    | none => if fs.isDir place then refused "read" .isDirectory else refused "open" .missing

/-- Makes the directories of a clean path, from the outermost to itself.  Names the first that is a
file. -/
def makeDirs (fs : Files) (path : String) : Except String Files :=
  match (above (placeOf path) ++ [placeOf path]).find? fs.isFile with
  | some file => .error ("mkdir " ++ pathOf file ++ ": " ++ Fault.notDirectory.message)
  | none => .ok (fs.addDir path)

def write (fs : Files) (path text : String) : Except String Files :=
  let refused (f : Fault) : Except String Files :=
    .error ("open " ++ path ++ ": " ++ f.message)
  match fs.locate path with
  | .error f => refused f
  | .ok place =>
    if fs.isDir place then refused .isDirectory
    else if !fs.isDir (parent place) then refused .missing
    else .ok { fs with texts := (place, text) :: fs.texts.filter fun f => f.1 != place }

/-- The files that are new or different, with their paths. -/
def changes (before after : Files) : List (String × String) :=
  (after.texts.filter fun (place, text) => before.texts.lookup place != some text).map
    fun (place, text) => (pathOf place, text)

end Files
end Whiteboard
