import Whiteboard.Proofs.Derivation.Soundness
import Whiteboard.Proofs.Expr.Formed

namespace Whiteboard

open Whiteboard.Expr (IsName)

/-!
# The shape of documents

What is known of an expression that was read is extended to documents: every name is a name of the notation, every
expression is whole, no block is empty, tables are rectangular, and formulas stand in prose only.  A proof has the
steps of its lines, so what is true of the lines is true of the proof.
-/

/-- A declaration includes a schema, or has names and their type. -/
def Declaration.Whole (d : Declaration) : Prop :=
  d.inclusion.Whole ∨ (d.inclusion.isHole = true ∧ d.names ≠ [] ∧ (∀ n ∈ d.names, IsName n) ∧ d.type.Whole)

def Branch.Whole (b : Branch) : Prop := IsName b.name ∧ (b.param.isHole = false → b.param.Whole)

/-- A line of a zed block is a declaration or a predicate. -/
def ZedLine.Whole (l : ZedLine) : Prop :=
  match l.decl with
  | some d => d.Whole
  | none => l.expr.Whole

/-- A step of a chain of equivalences has an expression and, if any, a connective of the table. -/
def EquivStep.Whole (s : EquivStep) : Prop :=
  s.expr.Whole ∧ (s.connective = "" ∨ (Symbol.lookup s.connective).isSome = true)

/-- A formula stands in prose only. -/
def Segment.Whole (kind : TextKind) (s : Segment) : Prop := s.math.isHole = false → kind = .prose ∧ s.math.Whole

theorem Segment.whole_text (kind : TextKind) (text : String) : Segment.Whole kind ⟨text, .hole⟩ :=
  fun present => by cases present

/-- The header of a box is known, and a schema has a name. -/
def BoxKind.Names (name : String) : BoxKind → Prop
  | .schema => IsName name
  | .axdef | .gendef => True
  | .other _ => False

/-- Every step of a proof has the property. -/
inductive ProofTree.All (P : ProofStep → Prop) : ProofTree → Prop
  | node {step : ProofStep} {premises : List ProofTree} :
      P step → (∀ t ∈ premises, All P t) → All P (.node step premises)

/-- The shape of the items that are read.  Only where text may be passed on as it is, there is text of
this kind. -/
inductive Item.Whole (verbatim : Prop) : Item → Prop
  | heading {level title items loc} : (∀ i ∈ items, Whole verbatim i) → Whole verbatim (.heading level title items loc)
  | truthTable {header rows loc} : header ≠ [] → (∀ e ∈ header, e.Whole) →
      (∀ row ∈ rows, row.length = header.length) → Whole verbatim (.truthTable header rows loc)
  | equivChain {steps loc} : steps ≠ [] → (∀ s ∈ steps, s.Whole) → Whole verbatim (.equivChain steps loc)
  | proof {root loc} : root.All (fun step => step.expr.Whole) → Whole verbatim (.proof (some root) loc)
  | givenType {names loc} : names ≠ [] → (∀ n ∈ names, IsName n) → Whole verbatim (.givenType names loc)
  | freeType {name branches loc} : IsName name → branches ≠ [] → (∀ b ∈ branches, b.Whole) →
      Whole verbatim (.freeType name branches loc)
  | abbreviation {name generics body loc} : IsName name → (∀ n ∈ generics, IsName n) → body.Whole →
      Whole verbatim (.abbreviation name generics body loc)
  | box {kind name generics declarations predicates loc} : kind.Names name → (∀ n ∈ generics, IsName n) →
      (∀ d ∈ declarations, d.Whole) → (∀ p ∈ predicates, p.expr.Whole) →
      Whole verbatim (.box kind name generics declarations predicates loc)
  | zedBlock {lines loc} : (∀ l ∈ lines, l.Whole) → Whole verbatim (.zedBlock lines loc)
  | text {kind segments loc} : (kind = .latex → verbatim) → (∀ s ∈ segments, s.Whole kind) →
      Whole verbatim (.text kind segments loc)
  | formula {expr loc} : expr.Whole → Whole verbatim (.formula expr loc)
  | pageBreak {loc} : Whole verbatim (.pageBreak loc)

/-! ## Proofs -/

namespace Derivation

/-- What is true of the lines of a proof is true of its steps. -/
theorem Indented.Fits.all {P : ProofStep → Prop} {t : Indented} (fits : t.Fits)
    (each : ∀ l ∈ t.lines, P l.step) : t.tree.All P := by
  induction fits with
  | @node line siblings premises column siblingsFit _ premisesFit _ _ ih =>
    have spelled := lines_node line (fun t member => (siblingsFit t member).1)
      (fun t member => (premisesFit t member).1)
    rw [spelled, allLines_eq_flatMap, allLines_eq_flatMap] at each
    rw [tree_node, trees_eq_map]
    refine .node (each line (by simp)) (List.forall_mem_map.mpr fun t member => ih t member fun l inLine => ?_)
    rcases List.mem_append.mp member with above | below
    · exact each l (List.mem_append_left _ (List.mem_flatMap.mpr ⟨t, above, inLine⟩))
    · exact each l (List.mem_append_right _ (List.mem_cons_of_mem line (List.mem_flatMap.mpr ⟨t, below, inLine⟩)))

theorem all_of_build {P : ProofStep → Prop} {lines : List Line} {tree : ProofTree}
    (each : ∀ l ∈ lines, P l.step) (built : build lines = .ok tree) : tree.All P := by
  rcases indented_of_build built with ⟨t, fits, _, rfl, rfl⟩
  exact fits.all each

end Derivation

end Whiteboard
