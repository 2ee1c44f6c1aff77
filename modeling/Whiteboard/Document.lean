import Whiteboard.Expr

namespace Whiteboard

/-!
Documents: headings with what stands under them, paragraphs, boxed declarations, proofs and
tables.
-/

inductive Heading where
  | section
  | solution
  | part
  deriving DecidableEq, Inhabited

def Heading.name : Heading → String
  | .section => "section"
  | .solution => "solution"
  | .part => "part"

/-- One line of an equivalence chain; the first has no connective. -/
structure EquivStep where
  connective : String := ""
  expr : Expr := .hole
  justification : String := ""
  loc : Location := {}
  deriving Inhabited

/-- One line of a proof.  An assumption has a label that a later step may discharge, a sibling is
a premise of the next step at its column, and a case is a branch of a case analysis. -/
structure ProofStep where
  expr : Expr := .hole
  justification : String := ""
  label : Int := 0
  isAssumption : Bool := false
  isSibling : Bool := false
  isCase : Bool := false
  discharge : List Int := []
  loc : Location := {}
  deriving Inhabited

/-- A proof step with the derivations of its premises, in source order.  `hole` is a missing step. -/
inductive ProofTree where
  | hole
  | node (step : ProofStep) (premises : List ProofTree)
  deriving Inhabited

namespace ProofTree

def step : ProofTree → ProofStep
  | hole => {}
  | node step _ => step

def premises : ProofTree → List ProofTree
  | hole => []
  | node _ premises => premises

mutual

def depth : ProofTree → Nat
  | hole => 0
  | node _ premises => deepest premises + 1

def deepest : List ProofTree → Nat
  | [] => 0
  | t :: rest => max t.depth (deepest rest)

end

end ProofTree

structure Branch where
  name : String := ""
  param : Expr := .hole
  loc : Location := {}
  deriving Inhabited

inductive BoxKind where
  | axdef
  | schema
  | gendef
  | other (name : String)
  deriving DecidableEq, Inhabited

namespace BoxKind

def name : BoxKind → String
  | axdef => "axdef"
  | schema => "schema"
  | gendef => "gendef"
  | other name => name

def ofName (s : String) : BoxKind :=
  if s == "axdef" then axdef else if s == "schema" then schema else if s == "gendef" then gendef
  else other s

end BoxKind

structure Declaration where
  names : List String := []
  type : Expr := .hole
  inclusion : Expr := .hole
  loc : Location := {}
  deriving Inhabited

/-- One predicate of a box; `also` marks a blank line before it. -/
structure Predicate where
  expr : Expr := .hole
  also : Bool := false
  deriving Inhabited

/-- One line of a zed block, a declaration or a predicate. -/
structure ZedLine where
  decl : Option Declaration := none
  expr : Expr := .hole
  also : Bool := false
  deriving Inhabited

/-- The flavours of text: prose with formulas, plain text, and text passed on as it is. -/
inductive TextKind where
  | prose
  | pure
  | latex
  | other (name : String)
  deriving DecidableEq, Inhabited

namespace TextKind

def name : TextKind → String
  | prose => "prose"
  | pure => "puretext"
  | latex => "latex"
  | other name => name

def ofName (s : String) : TextKind :=
  if s == "prose" then prose else if s == "puretext" then pure else if s == "latex" then latex
  else other s

end TextKind

/-- A run of prose, or a formula where `math` is no gap. -/
structure Segment where
  text : String := ""
  math : Expr := .hole
  deriving Inhabited

/-- What a document consists of.  `hole` is a missing item. -/
inductive Item where
  | hole
  | heading (level : Heading) (title : String) (items : List Item) (loc : Location)
  | truthTable (header : List Expr) (rows : List (List String)) (loc : Location)
  | equivChain (steps : List EquivStep) (loc : Location)
  | proof (root : Option ProofTree) (loc : Location)
  | givenType (names : List String) (loc : Location)
  | freeType (name : String) (branches : List Branch) (loc : Location)
  | abbreviation (name : String) (generics : List String) (body : Expr) (loc : Location)
  | box (kind : BoxKind) (name : String) (generics : List String)
      (declarations : List Declaration) (predicates : List Predicate) (loc : Location)
  | zedBlock (lines : List ZedLine) (loc : Location)
  | text (kind : TextKind) (segments : List Segment) (loc : Location)
  | formula (expr : Expr) (loc : Location)
  | pageBreak (loc : Location)
  deriving Inhabited

namespace Item

/-- The name of a variant; a missing item has none. -/
def kindName : Item → String
  | hole => ""
  | heading level .. => level.name
  | truthTable .. => "truth table"
  | equivChain .. => "equivalence chain"
  | proof .. => "proof tree"
  | givenType .. => "given type"
  | freeType .. => "free type"
  | abbreviation .. => "abbreviation"
  | box .. => "box"
  | zedBlock .. => "zed block"
  | text .. => "text block"
  | formula .. => "expression"
  | pageBreak .. => "page break"

def kindNames : List String :=
  ["section", "solution", "part", "truth table", "equivalence chain", "proof tree",
   "given type", "free type", "abbreviation", "box", "zed block", "text block", "expression",
   "page break"]

def loc : Item → Location
  | hole => {}
  | heading _ _ _ loc => loc
  | truthTable _ _ loc => loc
  | equivChain _ loc => loc
  | proof _ loc => loc
  | givenType _ loc => loc
  | freeType _ _ loc => loc
  | abbreviation _ _ _ loc => loc
  | box _ _ _ _ _ loc => loc
  | zedBlock _ loc => loc
  | text _ _ loc => loc
  | formula _ loc => loc
  | pageBreak loc => loc

end Item

abbrev Document := List Item

/-- The name of the `n`-th variant of nodes, expressions before items. -/
def nodeKindName (n : Int) : String :=
  if n < 0 then "unknown" else (Expr.kindNames ++ Item.kindNames).getD n.toNat "unknown"

end Whiteboard
