import Whiteboard.Proofs.Expr.Relocated

namespace Whiteboard

/-!
# A source under another name

The name of a source is part of every place in it.  `inFile` moves data to a file of another name: its
places keep line and column.  A reader that works on the source under both names finds the same data,
up to this change.  Gaps of a tree have no place and stay as they are.
-/

/-! ## Data with places -/

def Location.inFile (f : String) (l : Location) : Location := { l with file := f }

namespace Expr

abbrev inFile (f : String) (e : Expr) : Expr := e.relocate (Location.inFile f)

abbrev listInFile (f : String) (es : List Expr) : List Expr := listRelocate (Location.inFile f) es

abbrev groupsInFile (f : String) (gs : List (Binding Expr)) : List (Binding Expr) :=
  groupsRelocate (Location.inFile f) gs

@[simp] theorem isHole_inFile (f : String) (e : Expr) : (e.inFile f).isHole = e.isHole := by
  cases e <;> rfl

@[simp] theorem isEmpty_listInFile (f : String) (es : List Expr) : (listInFile f es).isEmpty = es.isEmpty := by
  cases es <;> rfl

end Expr

def EquivStep.inFile (f : String) (s : EquivStep) : EquivStep :=
  { s with expr := s.expr.inFile f, loc := s.loc.inFile f }

def ProofStep.inFile (f : String) (s : ProofStep) : ProofStep :=
  { s with expr := s.expr.inFile f, loc := s.loc.inFile f }

namespace ProofTree

mutual

def inFile (f : String) : ProofTree → ProofTree
  | hole => hole
  | node step premises => node (step.inFile f) (listInFile f premises)

def listInFile (f : String) : List ProofTree → List ProofTree
  | [] => []
  | t :: rest => t.inFile f :: listInFile f rest

end

theorem listInFile_eq (f : String) (ts : List ProofTree) : listInFile f ts = ts.map (inFile f) := by
  induction ts with
  | nil => rfl
  | cons t rest ih => rw [listInFile, List.map_cons, ih]

end ProofTree

def Branch.inFile (f : String) (b : Branch) : Branch := { b with param := b.param.inFile f, loc := b.loc.inFile f }

def Declaration.inFile (f : String) (d : Declaration) : Declaration :=
  { d with type := d.type.inFile f, inclusion := d.inclusion.inFile f, loc := d.loc.inFile f }

def Predicate.inFile (f : String) (p : Predicate) : Predicate := { p with expr := p.expr.inFile f }

def ZedLine.inFile (f : String) (l : ZedLine) : ZedLine :=
  { l with decl := l.decl.map (Declaration.inFile f), expr := l.expr.inFile f }

def Segment.inFile (f : String) (s : Segment) : Segment := { s with math := s.math.inFile f }

namespace Item

mutual

def inFile (f : String) : Item → Item
  | hole => hole
  | heading level title items loc => heading level title (listInFile f items) (loc.inFile f)
  | truthTable header rows loc => truthTable (header.map (Expr.inFile f)) rows (loc.inFile f)
  | equivChain steps loc => equivChain (steps.map (EquivStep.inFile f)) (loc.inFile f)
  | proof root loc => proof (root.map (ProofTree.inFile f)) (loc.inFile f)
  | givenType names loc => givenType names (loc.inFile f)
  | freeType name branches loc => freeType name (branches.map (Branch.inFile f)) (loc.inFile f)
  | abbreviation name generics body loc => abbreviation name generics (body.inFile f) (loc.inFile f)
  | box kind name generics declarations predicates loc =>
    box kind name generics (declarations.map (Declaration.inFile f)) (predicates.map (Predicate.inFile f))
      (loc.inFile f)
  | zedBlock lines loc => zedBlock (lines.map (ZedLine.inFile f)) (loc.inFile f)
  | text kind segments loc => text kind (segments.map (Segment.inFile f)) (loc.inFile f)
  | formula expr loc => formula (expr.inFile f) (loc.inFile f)
  | pageBreak loc => pageBreak (loc.inFile f)

def listInFile (f : String) : List Item → List Item
  | [] => []
  | i :: rest => i.inFile f :: listInFile f rest

end

theorem listInFile_eq (f : String) (items : List Item) : listInFile f items = items.map (inFile f) := by
  induction items with
  | nil => rfl
  | cons i rest ih => rw [listInFile, List.map_cons, ih]

end Item

def Entry.inFile (f : String) : Entry → Entry
  | heading level title loc => heading level title (loc.inFile f)
  | item i => item (i.inFile f)

def Warning.inFile (f : String) (w : Warning) : Warning := { w with loc := w.loc.inFile f }

def Rendered.inFile (f : String) (r : Rendered) : Rendered := { r with warnings := r.warnings.map (Warning.inFile f) }

end Whiteboard
