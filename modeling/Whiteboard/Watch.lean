import Whiteboard.Failure
import Whiteboard.Path

namespace Whiteboard
namespace Watch

/-!
Watching files: which changes of files and directories are reported.  Directories are watched one
by one; hidden ones are left out when a tree is added.
-/

/-- A place as the parts of its clean path. -/
abbrev Place := List String

def Place.ofPath (path : String) : Place :=
  Path.cleanParts path

def Place.path (p : Place) : String :=
  if p.isEmpty then "." else Text.joinWith "/" p

def Place.parent (p : Place) : Place :=
  p.dropLast

def isHidden (name : String) : Bool :=
  name.toList.head? == some '.'

structure World where
  files : List Place
  dirs : List Place

namespace World

def above (p : Place) : List Place :=
  (List.range p.length).map fun n => p.take n

/-- The files at some paths, with the directories that they need. -/
def ofFiles (paths : List String) : World :=
  let files := paths.map Place.ofPath
  { files := files, dirs := ([] :: files.flatMap above).eraseDups }

def isFile (w : World) (p : Place) : Bool := w.files.contains p

def isDir (w : World) (p : Place) : Bool := w.dirs.contains p

def without (w : World) (p : Place) : World where
  files := w.files.filter fun f => !p.isPrefixOf f
  dirs := w.dirs.filter fun d => !p.isPrefixOf d

/-- The directories that are missing up to a place, the outermost first. -/
def missingDirs (w : World) (p : Place) : List Place :=
  (above p ++ [p]).filter fun d => !w.isDir d

/-- Moves a place and everything below it. -/
def moved (w : World) (source target : Place) : World :=
  let move (p : Place) : Place :=
    if source.isPrefixOf p then target ++ p.drop source.length else p
  let cleared := w.files.filter (· != target)
  { files := cleared.map move, dirs := w.dirs.map move }

end World

inductive Change where
  | write (p : Place)
  | makeDir (p : Place)
  | remove (p : Place)
  | setMode (p : Place)
  | rename (source target : Place)

/-- A place that came to be or was written, as seen in the directory it lies in. -/
inductive Event where
  | created (p : Place)
  | written (p : Place)

def Event.place : Event → Place
  | created p => p
  | written p => p

/-- The world after a change, and the events of the change.  Of several new directories only the
outermost is seen to appear, and nothing is seen inside it.  What goes away is not reported. -/
def World.apply (w : World) : Change → World × List Event
  | .write p =>
    match w.missingDirs p.parent with
    | [] =>
      if w.isFile p then (w, [.written p])
      else ({ w with files := p :: w.files }, [.created p])
    | missing@(outermost :: _) =>
      ({ files := p :: w.files, dirs := missing ++ w.dirs }, [.created outermost])
  | .makeDir p =>
    match w.missingDirs p with
    | [] => (w, [])
    | missing@(outermost :: _) => ({ w with dirs := missing ++ w.dirs }, [.created outermost])
  | .remove p => (w.without p, [])
  | .setMode _ => (w, [])
  | .rename source target =>
    if w.isFile source || w.isDir source then (w.moved source target, [.created target]) else (w, [])

/-- What is watched: single files, trees, and the directories in which events are seen. -/
structure Watcher where
  extensions : List String
  files : List Place := []
  roots : List Place := []
  watched : List Place := []

namespace Watcher

/-- The directories of a tree; no hidden one below its root. -/
def treeDirs (w : World) (root : Place) : List Place :=
  w.dirs.filter fun d => root.isPrefixOf d && (d.drop root.length).all fun name => !isHidden name

def addTree (x : Watcher) (w : World) (root : Place) : Watcher :=
  { x with roots := root :: x.roots, watched := treeDirs w root ++ x.watched }

def add (x : Watcher) (w : World) (path : String) : Except Failure Watcher :=
  let p := Place.ofPath path
  if w.isDir p then .ok (x.addTree w p)
  else if w.isFile p then .ok { x with files := p :: x.files, watched := p.parent :: x.watched }
  else .error (.stated ("cannot watch " ++ Text.quoted path))

def inTree (x : Watcher) (p : Place) : Bool :=
  x.roots.any fun root => root.isPrefixOf p

/-- Is a file of interest?  Either it was named, or it is a file of a tree that is not hidden and
has one of the extensions. -/
def isOfInterest (x : Watcher) (p : Place) : Bool :=
  x.files.contains p ||
    (!isHidden (p.getLast?.getD "") && x.inTree p &&
      x.extensions.any fun e => Text.lowerText (Path.extension p.path) == Text.lowerText e)

/-- Follows an event in the world it led to: a new directory of a tree is watched from now on, and
a file of interest is reported. -/
def notice (x : Watcher) (w : World) (e : Event) : Watcher × List Place :=
  let p := e.place
  if !x.watched.contains p.parent then (x, [])
  else if w.isDir p && x.inTree p then (x.addTree w p, [])
  else if x.isOfInterest p then (x, [p])
  else (x, [])

/-- Directories that moved or went away are no longer watched. -/
def forget (x : Watcher) : Change → Watcher
  | .remove p => { x with watched := x.watched.filter fun d => !p.isPrefixOf d }
  | .rename p _ => { x with watched := x.watched.filter fun d => !p.isPrefixOf d }
  | _ => x

def follow (x : Watcher) (w : World) (c : Change) : Watcher × World × List Place :=
  let (after, events) := w.apply c
  let (x, reported) := events.foldl (fun (x, seen) e =>
    let (x, more) := Watcher.notice x after e
    (x, seen ++ more)) (x.forget c, [])
  (x, after, reported)

/-- The paths that a series of changes reports, each once and in order. -/
def reports (x : Watcher) (w : World) (changes : List Change) : List String :=
  let (_, _, seen) := changes.foldl (fun (x, w, seen) c =>
    let (x, w, more) := Watcher.follow x w c
    (x, w, seen ++ more)) (x, w, ([] : List Place))
  ((seen.map Place.path).eraseDups).mergeSort fun a b => decide (a ≤ b)

/-- A watcher with nothing to watch yet; without extensions it takes the usual ones. -/
def new (extensions : List String) : Watcher where
  extensions := if extensions.isEmpty then [".txt", ".zed"] else extensions

end Watcher

/-- A watcher runs once only. -/
def alreadyRunning : Failure :=
  .stated "watcher already running"

/-- A watcher needs someone to report to. -/
def noHandler : Failure :=
  .stated "watch handler is nil"

end Watch
end Whiteboard
