import Whiteboard.Document.Walk

namespace Whiteboard

open List hiding set

/-!
# The nodes that a walk visits

A walk hands its visitor the nodes of a tree one by one, and goes on from each as long as the visitor lets it.
So every walk over a tree is a run of its visitor along one list of nodes, the list that a visitor that only
collects gets to see.  A node of an expression is followed by the nodes of its slots, and an item by the nodes
of the items under it and of its expressions.
-/

/-! ## Runs of a visitor -/

section
variable {σ ε : Type}

/-- Hands the visitor the nodes one by one until it stops. -/
def visitAll (visit : σ → Node → Walked σ ε) (s : σ) : List Node → Walked σ ε
  | [] => (s, none)
  | n :: rest => (visit s n).andThen fun s => visitAll visit s rest

@[simp] theorem Walked.andThen_none (s : σ) (next : σ → Walked σ ε) : Walked.andThen (s, none) next = next s := rfl

@[simp] theorem Walked.andThen_assoc (w : Walked σ ε) (next later : σ → Walked σ ε) :
    (w.andThen next).andThen later = w.andThen fun s => (next s).andThen later := by
  rcases w with ⟨s, _ | reason⟩
  · rfl
  · rfl

@[simp] theorem Walked.andThen_done (w : Walked σ ε) : (w.andThen fun s => (s, none)) = w := by
  rcases w with ⟨s, _ | reason⟩
  · rfl
  · rfl

theorem visitAll_append (visit : σ → Node → Walked σ ε) (s : σ) (front back : List Node) :
    visitAll visit s (front ++ back) = (visitAll visit s front).andThen fun s => visitAll visit s back := by
  induction front generalizing s with
  | nil => rfl
  | cons n rest ih => simp [visitAll, ih]

/-- A visitor that never stops gets to see all nodes. -/
theorem visitAll_of_unstopped {visit : σ → Node → Walked σ ε} (unstopped : ∀ s n, (visit s n).2 = none) (s : σ)
    (nodes : List Node) : visitAll visit s nodes = (nodes.foldl (fun s n => (visit s n).1) s, none) := by
  induction nodes generalizing s with
  | nil => rfl
  | cons n rest ih =>
    have goesOn : visit s n = ((visit s n).1, none) := Prod.ext rfl (unstopped s n)
    rw [visitAll, goesOn, Walked.andThen_none, ih, foldl_cons]

end

theorem visitAll_collectNodes (seen nodes : List Node) :
    visitAll collectNodes seen nodes = (nodes.reverse ++ seen, none) := by
  have collected : nodes.foldl (fun s n => n :: s) seen = nodes.reverse ++ seen := by simp_all
  rw [visitAll_of_unstopped (fun _ _ => rfl)]
  exact Prod.ext collected rfl

/-- A walk, whatever its visitor, is a run along the list. -/
def Traces (walk : ∀ σ ε : Type, (σ → Node → Walked σ ε) → σ → Walked σ ε) (nodes : List Node) : Prop :=
  ∀ σ ε visit s, walk σ ε visit s = visitAll visit s nodes

namespace Traces

variable {first second : ∀ σ ε : Type, (σ → Node → Walked σ ε) → σ → Walked σ ε} {front back : List Node}

theorem nil : Traces (fun _ _ _ s => (s, none)) [] := fun _ _ _ _ => rfl

theorem single (n : Node) : Traces (fun _ _ visit s => visit s n) [n] := by
  intro σ ε visit s
  rw [visitAll]
  exact (Walked.andThen_done _).symm

theorem andThen (traces : Traces first front) (onward : Traces second back) :
    Traces (fun σ ε visit s => (first σ ε visit s).andThen (second σ ε visit)) (front ++ back) := by
  intro σ ε visit s
  dsimp only
  rw [visitAll_append, traces]
  exact congrArg _ (funext (onward σ ε visit))

/-- There is one such list at most. -/
theorem eq_collected (traces : Traces first front) : (first _ _ collectNodes []).1.reverse = front := by
  rw [traces, visitAll_collectNodes]
  simp

end Traces

/-! ## Expressions -/

namespace Expr

section
variable {P : Expr → Prop}

mutual

theorem slotInduction (step : ∀ e : Expr, (∀ slot ∈ e.slots, P slot) → P e) : (e : Expr) → P e
  | hole => step _ (by simp [slots])
  | literal .. => step _ (by simp [slots])
  | unary _ _ operand _ _ => step _ (by simpa [slots] using slotInduction step operand)
  | binary _ _ left right _ _ _ => step _ (by simp [slots, slotInduction step left, slotInduction step right])
  | quantifier _ _ bindings constraint body _ => step _ (by
      have domains := slotInduction_domains step bindings
      simpa [slots, or_imp, forall_and, slotInduction step constraint, slotInduction step body] using domains)
  | comprehension bindings predicate result _ => step _ (by
      have domains := slotInduction_domains step bindings
      simpa [slots, or_imp, forall_and, slotInduction step predicate, slotInduction step result] using domains)
  | collection _ elements _ => step _ (slotInduction_all step elements)
  | tuple elements _ => step _ (slotInduction_all step elements)
  | projection target _ _ => step _ (by simpa [slots] using slotInduction step target)
  | range low high _ => step _ (by simp [slots, slotInduction step low, slotInduction step high])
  | conditional condition yes no _ =>
    step _ (by simp [slots, slotInduction step condition, slotInduction step yes, slotInduction step no])
  | application target args _ _ =>
    step _ (forall_mem_cons.mpr ⟨slotInduction step target, slotInduction_all step args⟩)
  | instantiation base params _ =>
    step _ (forall_mem_cons.mpr ⟨slotInduction step base, slotInduction_all step params⟩)
  | image relation set _ => step _ (by simp [slots, slotInduction step relation, slotInduction step set])
  | script base super sub _ =>
    step _ (by simp [slots, slotInduction step base, slotInduction step super, slotInduction step sub])

theorem slotInduction_all (step : ∀ e : Expr, (∀ slot ∈ e.slots, P slot) → P e) : (es : List Expr) → ∀ e ∈ es, P e
  | [] => fun _ member => absurd member not_mem_nil
  | e :: rest => forall_mem_cons.mpr ⟨slotInduction step e, slotInduction_all step rest⟩

theorem slotInduction_domains (step : ∀ e : Expr, (∀ slot ∈ e.slots, P slot) → P e) :
    (bindings : List (Binding Expr)) → ∀ b ∈ bindings, P b.domain
  | [] => fun _ member => absurd member not_mem_nil
  | ⟨_, domain, _⟩ :: rest =>
    forall_mem_cons.mpr ⟨slotInduction step domain, slotInduction_domains step rest⟩

end
end

section
variable {σ ε : Type} (visit : σ → Node → Walked σ ε)

theorem walkAll_append (s : σ) (front back : List Expr) :
    walkAll visit s (front ++ back) = (walkAll visit s front).andThen fun s => walkAll visit s back := by
  induction front generalizing s with
  | nil => rfl
  | cons e rest ih => simp [walkAll, ih]

theorem walkBindings_eq (s : σ) (bindings : List (Binding Expr)) :
    walkBindings visit s bindings = walkAll visit s (bindings.map (·.domain)) := by
  induction bindings generalizing s with
  | nil => rfl
  | cons b rest ih => simp [walkBindings, walkAll, ih]

/-- A walk visits an expression and then its slots. -/
theorem walk_eq_slots {e : Expr} (present : e.isHole = false) (s : σ) :
    e.walk visit s = (visit s (.expr e)).andThen fun s => walkAll visit s e.slots := by
  cases e with
  | hole => cases present
  | _ => simp [walk, slots, walkAll, walkAll_append, walkBindings_eq]

end

theorem traces_walkAll {es : List Expr} (each : ∀ e ∈ es, Traces (fun _ _ visit s => e.walk visit s) e.nodes) :
    Traces (fun _ _ visit s => walkAll visit s es) (es.flatMap Expr.nodes) := by
  induction es with
  | nil => exact .nil
  | cons e rest ih =>
    rcases forall_mem_cons.mp each with ⟨here, there⟩
    exact here.andThen (ih there)

theorem traces_cons {e : Expr} (present : e.isHole = false)
    (each : ∀ slot ∈ e.slots, Traces (fun _ _ visit s => slot.walk visit s) slot.nodes) :
    Traces (fun _ _ visit s => e.walk visit s) (.expr e :: e.slots.flatMap Expr.nodes) := by
  intro σ ε visit s
  dsimp only
  rw [walk_eq_slots visit present]
  exact (Traces.single (.expr e)).andThen (traces_walkAll each) σ ε visit s

/-- Every walk over an expression is a run along its nodes. -/
theorem traces_walk (e : Expr) : Traces (fun _ _ visit s => e.walk visit s) e.nodes := by
  induction e using slotInduction with
  | step e each =>
    cases missing : e.isHole with
    | true =>
      cases e with
      | hole => exact .nil
      | _ => cases missing
    | false =>
      have traces := traces_cons missing each
      rw [Expr.nodes, traces.eq_collected]
      exact traces

/-- An expression comes before the nodes of its slots. -/
theorem nodes_eq_cons {e : Expr} (present : e.isHole = false) : e.nodes = .expr e :: e.slots.flatMap Expr.nodes :=
  (traces_cons present fun slot _ => traces_walk slot).eq_collected

end Expr

/-! ## Items -/

namespace Item

/-- The items under a heading. -/
def under : Item → List Item
  | heading _ _ items _ => items
  | _ => []

section
variable {P : Item → Prop}

mutual

theorem underInduction (step : ∀ i : Item, (∀ sub ∈ i.under, P sub) → P i) : (i : Item) → P i
  | heading _ _ items _ => step _ (underInduction_all step items)
  | hole | truthTable .. | equivChain .. | proof .. | givenType .. | freeType .. | abbreviation .. | box ..
  | zedBlock .. | text .. | formula .. | pageBreak .. => step _ fun _ member => absurd member not_mem_nil

theorem underInduction_all (step : ∀ i : Item, (∀ sub ∈ i.under, P sub) → P i) : (is : List Item) → ∀ i ∈ is, P i
  | [] => fun _ member => absurd member not_mem_nil
  | i :: rest => forall_mem_cons.mpr ⟨underInduction step i, underInduction_all step rest⟩

end
end

section
variable {σ ε : Type} (visit : σ → Node → Walked σ ε)

/-- A walk visits an item, then the items under it, then its expressions. -/
theorem walk_eq_under (i : Item) (s : σ) : i.walk visit s = (visit s (.item i)).andThen fun s =>
      (walkAll visit s i.under).andThen fun s => Expr.walkAll visit s i.exprs := by
  cases i with
  | heading => simp [walk, under, exprs, Expr.walkAll]
  | _ => simp [walk, under, walkAll]

end

/-- The nodes of an item in the order of a walk. -/
def nodes (i : Item) : List Node := (i.walk collectNodes []).1.reverse

theorem traces_walkAll {is : List Item} (each : ∀ i ∈ is, Traces (fun _ _ visit s => i.walk visit s) i.nodes) :
    Traces (fun _ _ visit s => walkAll visit s is) (is.flatMap Item.nodes) := by
  induction is with
  | nil => exact .nil
  | cons i rest ih =>
    rcases forall_mem_cons.mp each with ⟨here, there⟩
    exact here.andThen (ih there)

theorem traces_cons {i : Item} (each : ∀ sub ∈ i.under, Traces (fun _ _ visit s => sub.walk visit s) sub.nodes) :
    Traces (fun _ _ visit s => i.walk visit s)
      (.item i :: (i.under.flatMap Item.nodes ++ i.exprs.flatMap Expr.nodes)) := by
  have exprs := Expr.traces_walkAll fun e (_ : e ∈ i.exprs) => e.traces_walk
  intro σ ε visit s
  dsimp only
  rw [walk_eq_under]
  exact (Traces.single (.item i)).andThen ((traces_walkAll each).andThen exprs) σ ε visit s

theorem traces_walk (i : Item) : Traces (fun _ _ visit s => i.walk visit s) i.nodes := by
  induction i using underInduction with
  | step i each =>
    have traces := traces_cons each
    rw [Item.nodes, traces.eq_collected]
    exact traces

/-- An item comes before the nodes of the items under it, and these before the nodes of its expressions. -/
theorem nodes_eq_cons (i : Item) : i.nodes = .item i :: (i.under.flatMap Item.nodes ++ i.exprs.flatMap Expr.nodes) :=
  (traces_cons fun sub _ => traces_walk sub).eq_collected

end Item

/-! ## Documents -/

namespace Document

theorem nodes_eq_flatMap (doc : Document) : doc.nodes = doc.flatMap Item.nodes :=
  (Item.traces_walkAll fun i _ => i.traces_walk).eq_collected

/-- Every walk over a document is a run along its nodes. -/
theorem walk_eq_visitAll {σ ε : Type} (doc : Document) (visit : σ → Node → Walked σ ε) (s : σ) :
    doc.walk visit s = visitAll visit s doc.nodes := by
  rw [nodes_eq_flatMap]
  exact Item.traces_walkAll (fun i _ => i.traces_walk) σ ε visit s

end Document

/-! ## Walks that are stopped -/

section
variable {σ ε : Type} (visit : σ → Node → Walked σ ε) (reason : ε)

/-- Handed the nodes one by one, the visitor goes on up to the `n`-th of them and stops there for the reason. -/
def StopsAt (n : Nat) (s : σ) : List Node → Prop
  | [] => True
  | m :: rest => (visit s m).2 = (if n = 1 then some reason else none) ∧ (n ≠ 1 → StopsAt (n - 1) (visit s m).1 rest)

/-- The visitor with a list of the nodes that it was handed, the last of which comes first. -/
def logging (s : σ × List Node) (m : Node) : Walked (σ × List Node) ε :=
  (((visit s.1 m).1, m :: s.2), (visit s.1 m).2)

variable {visit reason}

theorem StopsAt.logging {n : Nat} {s : σ} {nodes : List Node} (stops : StopsAt visit reason n s nodes)
    (log : List Node) : StopsAt (logging visit) reason n (s, log) nodes := by
  induction nodes generalizing n s log with
  | nil => trivial
  | cons m rest ih => exact ⟨stops.1, fun later => ih (stops.2 later) (m :: log)⟩

/-- The log of the nodes that were gone through. -/
theorem foldl_logging (s : σ) (log nodes : List Node) :
    nodes.foldl (fun s m => (logging visit s m).1) (s, log) =
      (nodes.foldl (fun s m => (visit s m).1) s, nodes.reverse ++ log) := by
  induction nodes generalizing s log with
  | nil => rfl
  | cons m rest ih =>
    rw [foldl_cons, foldl_cons, logging, ih]
    simp

/-- A run ends at the node where the visitor stops, or with the nodes. -/
theorem visitAll_of_stopsAt {n : Nat} (positive : 1 ≤ n) {s : σ} {nodes : List Node}
    (stops : StopsAt visit reason n s nodes) :
    visitAll visit s nodes = ((nodes.take n).foldl (fun s m => (visit s m).1) s,
      if n ≤ nodes.length then some reason else none) := by
  induction nodes generalizing n s with
  | nil =>
    rw [take_nil, if_neg (by simp; omega)]
    rfl
  | cons m rest ih =>
    obtain ⟨here, later⟩ := stops
    by_cases last : n = 1
    · subst last
      have stopped : visit s m = ((visit s m).1, some reason) := Prod.ext rfl here
      rw [visitAll, stopped, if_pos (by simp)]
      simp [Walked.andThen]
    · obtain ⟨k, rfl⟩ : ∃ k, n = k + 1 := ⟨n - 1, by omega⟩
      rw [if_neg last] at here
      have goesOn : visit s m = ((visit s m).1, none) := Prod.ext rfl here
      rw [visitAll, goesOn, Walked.andThen_none, ih (by omega) (later last), take_succ_cons, foldl_cons]
      simp

end

/-- A visitor that stops at the `n`-th node makes the walk stop for its reason, after just the first `n` nodes; in a
document of fewer nodes it is handed all of them and the walk comes to its end. -/
theorem stopped_walk_visits_front {σ ε : Type} (doc : Document) {visit : σ → Node → Walked σ ε} {reason : ε} {n : Nat}
    (positive : 1 ≤ n) {s : σ} (stops : StopsAt visit reason n s doc.nodes) :
    (doc.walk visit s).2 = (if n ≤ doc.nodes.length then some reason else none) ∧
      (doc.walk (logging visit) (s, [])).2 = (doc.walk visit s).2 ∧
      (doc.walk (logging visit) (s, [])).1.2.reverse = doc.nodes.take n := by
  rw [Document.walk_eq_visitAll, Document.walk_eq_visitAll, visitAll_of_stopsAt positive stops,
    visitAll_of_stopsAt positive (stops.logging []), foldl_logging]
  simp

/-- A visitor that counts the nodes and stops at the third. -/
theorem third_node_stops :
    let doc : Document := [.heading .section "S" [.formula (.literal .number "1" {}) {}] {}, .pageBreak {}]
    let visit : Nat → Node → Walked Nat String := fun k _ => (k + 1, if k = 2 then some "enough" else none)
    StopsAt visit "enough" 3 0 doc.nodes ∧ (doc.walk visit 0).2 = some "enough" ∧
      (doc.walk (logging visit) (0, [])).1.2.reverse.map Node.kindName = ["section", "expression", "literal"] := by
  intro doc visit
  have stops : StopsAt visit "enough" 3 0 doc.nodes := by
    refine ⟨rfl, fun _ => ⟨rfl, fun _ => ⟨rfl, fun other => absurd rfl other⟩⟩⟩
  obtain ⟨stopped, _, seen⟩ := stopped_walk_visits_front doc (by decide) stops
  refine ⟨stops, stopped.trans (by decide), ?_⟩
  rw [seen]
  decide

end Whiteboard
