import Whiteboard.Document

namespace Whiteboard

/-!
From a sequence of headings and items to a document.  A heading closes every open heading at its
level or deeper, and an item stands under the innermost heading that is open.
-/

/-- What a document is read as, line after line. -/
inductive Entry where
  | heading (level : Heading) (title : String) (loc : Location)
  | item (i : Item)
  deriving Inhabited

/-- Sections are outermost, parts innermost. -/
def Heading.rank : Heading → Nat
  | .section => 1
  | .solution => 2
  | .part => 3

structure OpenHeading where
  level : Heading
  title : String
  loc : Location
  items : List Item := []
  deriving Inhabited

def OpenHeading.close (h : OpenHeading) : Item :=
  .heading h.level h.title h.items h.loc

/-- A document in progress: its finished items, and the open headings with the innermost first. -/
structure Headings where
  done : List Item := []
  stack : List OpenHeading := []
  deriving Inhabited

namespace Headings

def add (o : Headings) (items : List Item) : Headings :=
  match o.stack with
  | [] => { o with done := o.done ++ items }
  | h :: rest => { o with stack := { h with items := h.items ++ items } :: rest }

/-- Closes every heading at the given rank or deeper; `carried` is what the heading closed last
leaves to the one around it. -/
def closeTo (rank : Nat) (done : List Item) : List OpenHeading → List Item → Headings
  | [], carried => ⟨done ++ carried, []⟩
  | h :: rest, carried =>
    let h := { h with items := h.items ++ carried }
    if h.level.rank < rank then ⟨done, h :: rest⟩
    else closeTo rank done rest [h.close]

def step (o : Headings) : Entry → Headings
  | .item i => o.add [i]
  | .heading level title loc =>
    let o := closeTo level.rank o.done o.stack []
    { o with stack := { level := level, title := title, loc := loc } :: o.stack }

end Headings

def Document.ofEntries (entries : List Entry) : Document :=
  let o := entries.foldl Headings.step {}
  (Headings.closeTo 1 o.done o.stack []).done

end Whiteboard
