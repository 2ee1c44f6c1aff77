import Mathlib.Data.List.Basic
import Whiteboard.Document.Outline
import Whiteboard.Proofs.Document.Walk

namespace Whiteboard

open List

/-!
# Plain data has a record for every node

In the plain data of a document a record with a kind stands for a node.  Read from the front, the kinds are
those of the nodes in the order of a walk, so that a walk and the data agree on how many nodes there are of
each kind.  Steps, branches, declarations and the like are records without a kind.
-/

/-! ## Kinds in plain data -/

namespace Data

/-- The kind of a record with the given fields, if it has one. -/
def ownKind (fields : List (String × Data)) : List String :=
  match fields.lookup "kind" with
  | some (.text kind) => [kind]
  | _ => []

mutual

/-- The kinds of all records, each before those inside it. -/
def kinds : Data → List String
  | .list elements => kindsOfAll elements
  | .record fields => ownKind fields ++ kindsOfFields fields
  | _ => []

def kindsOfAll : List Data → List String
  | [] => []
  | d :: rest => d.kinds ++ kindsOfAll rest

def kindsOfFields : List (String × Data) → List String
  | [] => []
  | (_, d) :: rest => d.kinds ++ kindsOfFields rest

end

@[simp] theorem kinds_null : null.kinds = [] := rfl

@[simp] theorem kinds_bool (value : Bool) : (bool value).kinds = [] := rfl

@[simp] theorem kinds_int (value : Int) : (int value).kinds = [] := rfl

@[simp] theorem kinds_text (value : String) : (text value).kinds = [] := rfl

theorem kinds_record (fields : List (String × Data)) :
    (record fields).kinds = ownKind fields ++ kindsOfFields fields := rfl

theorem kindsOfAll_eq (elements : List Data) : kindsOfAll elements = elements.flatMap kinds := by
  induction elements with
  | nil => rfl
  | cons d rest ih => exact congrArg (d.kinds ++ ·) ih

theorem kinds_list (elements : List Data) : (list elements).kinds = elements.flatMap kinds := kindsOfAll_eq elements

attribute [simp] kindsOfFields

@[simp] theorem kindsOfFields_append (front back : List (String × Data)) :
    kindsOfFields (front ++ back) = kindsOfFields front ++ kindsOfFields back := by
  induction front with
  | nil => simp
  | cons field rest ih => rw [cons_append, kindsOfFields, kindsOfFields, ih, append_assoc]

@[simp] theorem kindsOfFields_textField (name value : String) : kindsOfFields (textField name value) = [] := by
  unfold textField
  split
  · simp
  · simp

@[simp] theorem kindsOfFields_boolField (name : String) (value : Bool) : kindsOfFields (boolField name value) = [] := by
  cases value <;> simp [boolField]

@[simp] theorem kindsOfFields_intField (name : String) (value : Int) : kindsOfFields (intField name value) = [] := by
  unfold intField
  split
  · simp
  · simp

@[simp] theorem kindsOfFields_listField (name : String) (elements : List Data) :
    kindsOfFields (listField name elements) = elements.flatMap kinds := by
  cases elements <;> simp [listField, kinds_list]

@[simp] theorem kindsOfFields_partField (name : String) (value : Data) :
    kindsOfFields (partField name value) = value.kinds := by
  cases value <;> simp [partField]

@[simp] theorem kindsOfFields_textsField (name : String) (values : List String) :
    kindsOfFields (textsField name values) = [] := by
  simp [textsField, flatMap_map]

@[simp] theorem kinds_record_kind (kind : String) (fields : List (String × Data)) :
    (record (("kind", .text kind) :: fields)).kinds = kind :: kindsOfFields fields := by
  simp [kinds_record, ownKind]

/-! Records without a kind. -/

/-- No field tells a kind. -/
def Unkinded (fields : List (String × Data)) : Prop := ∀ field ∈ fields, field.1 ≠ "kind"

@[simp] theorem unkinded_append {front back : List (String × Data)} :
    Unkinded (front ++ back) ↔ Unkinded front ∧ Unkinded back :=
  forall_mem_append

@[simp] theorem unkinded_cons {field : String × Data} {rest : List (String × Data)} :
    Unkinded (field :: rest) ↔ field.1 ≠ "kind" ∧ Unkinded rest :=
  forall_mem_cons

@[simp] theorem unkinded_nil : Unkinded [] := fun _ member => absurd member not_mem_nil

variable {name : String}

section
variable (apart : name ≠ "kind")
include apart

@[simp] theorem unkinded_textField (value : String) : Unkinded (textField name value) := by
  unfold textField
  split
  · exact unkinded_nil
  · simpa using apart

@[simp] theorem unkinded_boolField (value : Bool) : Unkinded (boolField name value) := by
  unfold boolField
  split
  · simpa using apart
  · exact unkinded_nil

@[simp] theorem unkinded_intField (value : Int) : Unkinded (intField name value) := by
  unfold intField
  split
  · exact unkinded_nil
  · simpa using apart

@[simp] theorem unkinded_listField (elements : List Data) : Unkinded (listField name elements) := by
  unfold listField
  split
  · exact unkinded_nil
  · simpa using apart

@[simp] theorem unkinded_textsField (values : List String) : Unkinded (textsField name values) :=
  unkinded_listField apart _

@[simp] theorem unkinded_partField (value : Data) : Unkinded (partField name value) := by
  unfold partField
  split
  · exact unkinded_nil
  · simpa using apart

end

theorem Unkinded.kinds_eq {fields : List (String × Data)} (unkinded : Unkinded fields) :
    (record fields).kinds = kindsOfFields fields := by
  have none : fields.lookup "kind" = none := by
    rw [lookup_eq_none_iff]
    intro field member
    simpa using Ne.symm (unkinded field member)
  rw [kinds_record, ownKind, none]
  rfl

end Data

/-! ## Expressions -/

namespace Expr

theorem allToData_eq (es : List Expr) : allToData es = es.map toData := by
  induction es with
  | nil => rfl
  | cons e rest ih => rw [allToData, map_cons, ih]

theorem kinds_bindingsToData (bindings : List (Binding Expr)) :
    (bindingsToData bindings).flatMap Data.kinds = bindings.flatMap fun b => b.domain.toData.kinds := by
  induction bindings with
  | nil => rfl
  | cons b rest ih =>
    have unkinded : Data.Unkinded (Data.textsField "names" b.names ++ Data.partField "domain" b.domain.toData) := by
      simp
    rw [bindingsToData, flatMap_cons, flatMap_cons, unkinded.kinds_eq, ih]
    simp

/-- The record of an expression has its kind, and holds the records of its slots. -/
theorem kinds_toData_cons {e : Expr} (present : e.isHole = false) :
    e.toData.kinds = e.kindName :: e.slots.flatMap fun slot => slot.toData.kinds := by
  cases e with
  | hole => cases present
  | _ => simp [toData, kindName, slots, allToData_eq, kinds_bindingsToData, flatMap_map]

/-- The kinds in the data of an expression are those of its nodes in the order of a walk. -/
theorem kinds_toData (e : Expr) : e.toData.kinds = e.nodes.map Node.kindName := by
  induction e using slotInduction with
  | step e each =>
    cases missing : e.isHole with
    | true =>
      cases e with
      | hole => rfl
      | _ => cases missing
    | false =>
      rw [kinds_toData_cons missing, nodes_eq_cons missing, map_cons, map_flatMap]
      exact congrArg _ (flatMap_congr each)

theorem kindName_ne_empty {e : Expr} (present : e.isHole = false) : e.kindName ≠ "" := by
  cases e with
  | hole => cases present
  | _ => simp [kindName]

theorem node_ne_empty {e : Expr} : ∀ n ∈ e.nodes, n.kindName ≠ "" := by
  induction e using slotInduction with
  | step e each =>
    cases missing : e.isHole with
    | true =>
      cases e with
      | hole => simp [nodes, walk]
      | _ => cases missing
    | false =>
      intro n member
      rw [nodes_eq_cons missing, mem_cons, mem_flatMap] at member
      rcases member with rfl | ⟨slot, within, member⟩
      · exact kindName_ne_empty missing
      · exact each slot within n member

end Expr

/-! ## The parts of items -/

namespace ProofTree

mutual

theorem kinds_toData : (t : ProofTree) → t.toData.kinds = t.exprs.flatMap fun e => e.toData.kinds
  | hole => rfl
  | node step premises => by
    rw [toData, Data.Unkinded.kinds_eq (by simp)]
    simp [exprs, kinds_allToData premises, flatMap_map]

theorem kinds_allToData : (ts : List ProofTree) →
    (allToData ts).flatMap Data.kinds = (exprsOfAll ts).flatMap fun e => e.toData.kinds
  | [] => rfl
  | t :: rest => by simp [allToData, exprsOfAll, kinds_toData t, kinds_allToData rest]

end

end ProofTree

theorem EquivStep.kinds_toData (s : EquivStep) : s.toData.kinds = s.expr.toData.kinds := by
  rw [EquivStep.toData, Data.Unkinded.kinds_eq (by simp)]
  simp

theorem Branch.kinds_toData (b : Branch) : b.toData.kinds = b.param.toData.kinds := by
  rw [Branch.toData, Data.Unkinded.kinds_eq (by simp)]
  simp

theorem Declaration.kinds_toData (d : Declaration) : d.toData.kinds = d.exprs.flatMap fun e => e.toData.kinds := by
  rw [Declaration.toData, Data.Unkinded.kinds_eq (by simp)]
  simp [Declaration.exprs]

theorem Predicate.kinds_toData (p : Predicate) : p.toData.kinds = p.expr.toData.kinds := by
  rw [Predicate.toData, Data.Unkinded.kinds_eq (by simp)]
  simp

theorem ZedLine.kinds_toData (l : ZedLine) :
    l.toData.kinds = ((l.decl.map Declaration.exprs).getD [] ++ [l.expr]).flatMap fun e => e.toData.kinds := by
  rcases l with ⟨_ | d, expr, also⟩
  · rw [ZedLine.toData, Data.Unkinded.kinds_eq (by simp)]
    simp
  · rw [ZedLine.toData, Data.Unkinded.kinds_eq (by simp)]
    simp [Declaration.kinds_toData]

theorem Segment.kinds_toData (s : Segment) : s.toData.kinds = s.math.toData.kinds := by
  rw [Segment.toData, Data.Unkinded.kinds_eq (by simp)]
  simp

/-! ## Items -/

namespace Item

theorem allToData_eq (is : List Item) : allToData is = is.map toData := by
  induction is with
  | nil => rfl
  | cons i rest ih => rw [allToData, map_cons, ih]

theorem kinds_rowToData (row : List String) : (rowToData row).kinds = [] := by
  unfold rowToData
  split
  · rfl
  · simp [Data.kinds_list, flatMap_map]

/-- The record of an item has its kind, and holds the records of the items under it and of its expressions. -/
theorem kinds_toData_cons {i : Item} (present : i ≠ hole) : i.toData.kinds = i.kindName ::
      ((i.under.flatMap fun sub => sub.toData.kinds) ++ i.exprs.flatMap fun e => e.toData.kinds) := by
  cases i with
  | hole => exact absurd rfl present
  | proof root =>
    cases root <;> simp [toData, kindName, under, exprs, ProofTree.kinds_toData]
  | _ =>
    simp [toData, kindName, under, exprs, allToData_eq, Expr.allToData_eq, flatMap_map, flatMap_assoc,
      kinds_rowToData, EquivStep.kinds_toData, Branch.kinds_toData, Declaration.kinds_toData,
      Predicate.kinds_toData, ZedLine.kinds_toData, Segment.kinds_toData]

theorem kindName_ne_empty {i : Item} (present : i ≠ hole) : i.kindName ≠ "" := by
  cases i with
  | hole => exact absurd rfl present
  | heading level => cases level <;> simp [kindName, Heading.name]
  | _ => simp [kindName]

/-- The kinds in the data of an item are those of its nodes, of which a missing item has none. -/
theorem kinds_toData (i : Item) : i.toData.kinds = (i.nodes.map Node.kindName).filter (· != "") := by
  induction i using underInduction with
  | step i each =>
    have ofExprs : ∀ e : Expr, ((e.nodes.map Node.kindName).filter (· != "")) = e.toData.kinds := by
      intro e
      rw [Expr.kinds_toData, filter_eq_self, forall_mem_map]
      intro n member
      simpa using Expr.node_ne_empty n member
    by_cases missing : i = hole
    · subst missing
      rfl
    · have own : (Node.item i).kindName ≠ "" := kindName_ne_empty missing
      rw [kinds_toData_cons missing, nodes_eq_cons, map_cons, filter_cons_of_pos (by simpa using own)]
      simp only [map_append, filter_append, map_flatMap, filter_flatMap, ofExprs]
      exact congrArg _ (congrArg (· ++ _) (flatMap_congr each))

end Item

/-! ## Documents -/

namespace Document

theorem kinds_toData (doc : Document) :
    Data.kindsOfAll doc.toData = (doc.nodes.map Node.kindName).filter (· != "") := by
  rw [Data.kindsOfAll_eq, toData, Item.allToData_eq, nodes_eq_flatMap, flatMap_map, map_flatMap, filter_flatMap]
  exact flatMap_congr fun i _ => i.kinds_toData

end Document

theorem countKind_eq_count (name : String) (nodes : List Node) :
    countKind name nodes = (nodes.map Node.kindName).count name := by
  rw [countKind, ← countP_eq_length_filter, count_eq_countP, countP_map]
  rfl

/-- A visitor that never stops is handed the nodes of the document one after the other, and of each kind there
are as many nodes as the data has records of that kind. -/
theorem walk_visits_recorded_nodes (doc : Document) {name : String} (named : name ≠ "") :
    (∀ {σ ε : Type} (visit : σ → Node → Walked σ ε), (∀ s n, (visit s n).2 = none) →
      ∀ s, doc.walk visit s = (doc.nodes.foldl (fun s n => (visit s n).1) s, none)) ∧
    countKind name doc.nodes = (Data.kindsOfAll doc.toData).count name := by
  constructor
  · intro σ ε visit unstopped s
    rw [Document.walk_eq_visitAll, visitAll_of_unstopped unstopped]
  · rw [countKind_eq_count, Document.kinds_toData, count_filter (by simpa using named)]

/-- A section with a formula, a proof one of whose premises is missing, and a box. -/
def mixedDocument : Document :=
  let name s := Expr.literal .identifier s {}
  let positive := Expr.binary "gt" ">" (name "x") (.literal .number "0" {}) false false {}
  [.heading .section "Intro" [.formula (.quantifier "forall" "forall" [⟨["x"], name "N", {}⟩] .hole positive {}) {},
    .proof (some (.node { expr := name "q" } [.node { expr := name "p" } [], .hole])) {},
    .box .schema "S" [] [{ names := ["y"], type := name "Z" }] [{ expr := positive }] {}] {}]

theorem mixedDocument_literals : "literal" ≠ "" ∧
    mixedDocument.walk (fun n node => (if node.kindName = "literal" then n + 1 else n, (none : Option Unit))) 0 =
      (8, none) ∧
    (Data.kindsOfAll mixedDocument.toData).count "literal" = 8 := by
  have named : "literal" ≠ "" := by decide
  rcases walk_visits_recorded_nodes mixedDocument named with ⟨visited, counted⟩
  refine ⟨named, ?_, ?_⟩
  · rw [visited _ fun _ _ => rfl]
    decide
  · rw [← counted]
    decide

end Whiteboard
