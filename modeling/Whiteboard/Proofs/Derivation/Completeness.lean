import Whiteboard.Proofs.Derivation.Indented

namespace Whiteboard

open List
namespace Derivation

open Indented (trees allLines trees_append)

/-!
# Every proof can be read back from its lines

The lines of a proof are added to a state that is ready for them: it can be closed down to their column,
and nothing waits further to the right.  Afterwards the steps along the right edge of the proof are still
open.  `Spine` describes them, and closing them gives the proof.
-/

variable {column : Int} {t : Indented} {st stack frames : List OpenStep} {w v waiting : List Waiting}
  {ts : List ProofTree}

/-- The state can take a line at the column, and is closed to `st` and `w` for it. -/
structure Ready (column : Int) (stack : List OpenStep) (waiting : List Waiting) (st : List OpenStep)
    (w : List Waiting) : Prop where
  matched : isUnmatched column stack = false
  used : ∀ g ∈ waiting, g.column ≤ column
  closed : closeTo column waiting none stack [] = ⟨st, w, none⟩
  below : ∀ o ∈ st.head?, o.column < column

/-- The steps of a proof that are open when its last line was added, the innermost first. -/
inductive Spine : Indented → List OpenStep → Prop
  | last {line : Line} {premises : List Indented} :
      Spine (.node line premises) [⟨line.column, line.step, trees premises⟩]
  | deeper {line : Line} {premises : List Indented} {child : Indented} {frames : List OpenStep} :
      Spine child frames → child.isSibling = false → line.column < child.column →
      Spine (.node line (premises ++ [child])) (frames ++ [⟨line.column, line.step, trees premises⟩])

/-! ## Closing -/

theorem closeTo_of_below (below : ∀ o ∈ st.head?, o.column < column) (w : List Waiting) :
    closeTo column w none st [] = ⟨st, w, none⟩ := by
  cases st with
  | nil => rfl
  | cons o rest =>
    have less : o.column < column := below o rfl
    simp [closeTo, less]

theorem closeTo_carried {o : OpenStep} (below : o.column < column) (w : List Waiting) (rest : List OpenStep)
    (ts : List ProofTree) :
    closeTo column w none (o :: rest) ts = ⟨⟨o.column, o.step, o.premises ++ ts⟩ :: rest, w, none⟩ := by
  simp [closeTo, below]

/-- Closing the open steps of a proof hands it to the step around it, or to the siblings that wait. -/
theorem Spine.closeTo (spine : Spine t frames) (least : column ≤ t.column) (w : List Waiting) (st : List OpenStep) :
    closeTo column w none (frames ++ st) [] =
      if t.isSibling then Derivation.closeTo column (wait t.column t.tree w) none st []
      else Derivation.closeTo column w none st [t.tree] := by
  induction spine generalizing column w st with
  | @last line premises =>
    have reached : ¬ line.column < column := Int.not_lt.mpr least
    simp only [cons_append, nil_append, Derivation.closeTo, append_nil, if_neg reached]
    rfl
  | @deeper line premises child frames _ plain right ih =>
    have reached : ¬ line.column < column := Int.not_lt.mpr least
    have deep : column ≤ child.column := Int.le_trans least (Int.le_of_lt right)
    rw [append_assoc, ih deep, plain]
    simp only [cons_append, nil_append, Derivation.closeTo, if_neg reached, Bool.false_eq_true, if_false]
    rw [Indented.tree_node, trees_append]
    rfl

theorem Spine.columns (spine : Spine t frames) :
    (∀ o ∈ frames, t.column ≤ o.column) ∧ ∃ o ∈ frames, o.column = t.column := by
  induction spine with
  | last =>
    refine ⟨?_, _, mem_singleton_self _, rfl⟩
    intro o member
    rw [mem_singleton.mp member]
    exact Int.le_refl _
  | @deeper line premises child frames _ _ right ih =>
    constructor
    · intro o member
      rcases mem_append.mp member with above | last
      · exact Int.le_trans (Int.le_of_lt right) (ih.1 o above)
      · rw [mem_singleton.mp last]
        exact Int.le_refl _
    · exact ⟨_, mem_append_right _ (mem_singleton_self _), rfl⟩

/-- A line at the column of an open proof returns to it. -/
theorem Spine.matched (spine : Spine t frames) (st : List OpenStep) : isUnmatched t.column (frames ++ st) = false := by
  rcases spine.columns with ⟨least, o, member, same⟩
  have closed : o ∈ (frames ++ st).takeWhile fun o => decide (t.column ≤ o.column) := by simp_all
  have found : ((frames ++ st).takeWhile fun o => decide (t.column ≤ o.column)).any
      (fun o => o.column == t.column) = true :=
    any_eq_true.mpr ⟨o, closed, by simp [same]⟩
  simp [isUnmatched, found]

theorem isUnmatched_of_below (below : ∀ o ∈ st.head?, o.column < column) : isUnmatched column st = false := by
  cases st with
  | nil => rfl
  | cons o rest =>
    have less : o.column < column := below o rfl
    simp [isUnmatched, Int.not_le.mpr less]

theorem ready_of_below (below : ∀ o ∈ st.head?, o.column < column) (used : ∀ g ∈ w, g.column < column) :
    Ready column st w st w where
  matched := isUnmatched_of_below below
  used g member := Int.le_of_lt (used g member)
  closed := closeTo_of_below below w
  below := below

/-- After a premise its step is ready for the next one. -/
theorem Spine.ready (spine : Spine t frames) (plain : t.isSibling = false) {o : OpenStep}
    (below : o.column < t.column) (st : List OpenStep) (used : ∀ g ∈ w, g.column < t.column) :
    Ready t.column (frames ++ o :: st) w (⟨o.column, o.step, o.premises ++ [t.tree]⟩ :: st) w where
  matched := spine.matched (o :: st)
  used g member := Int.le_of_lt (used g member)
  closed := by
    rw [spine.closeTo (Int.le_refl _), plain, if_neg (by simp), closeTo_carried below]
  below := by
    rintro _ ⟨⟩
    exact below

/-- After a sibling the next line at its column may come, and the sibling waits for it. -/
theorem Spine.ready_sibling (spine : Spine t frames) (sibling : t.isSibling = true)
    (below : ∀ o ∈ st.head?, o.column < t.column) (used : ∀ g ∈ w, g.column < t.column) (number : Int)
    (ts : List ProofTree) :
    Ready t.column (frames ++ st) (⟨t.column, number, ts⟩ :: w) st (⟨t.column, number, ts ++ [t.tree]⟩ :: w) where
  matched := spine.matched st
  used := forall_mem_cons.mpr ⟨Int.le_refl _, fun g member => Int.le_of_lt (used g member)⟩
  closed := by
    rw [spine.closeTo (Int.le_refl _), if_pos sibling]
    simp only [wait, beq_self_eq_true, if_true]
    exact closeTo_of_below below _
  below := below

/-! ## Adding lines -/

/-- The siblings `ts` wait at the column in front of `w`; there may be none. -/
def Holding (column : Int) (v : List Waiting) (ts : List ProofTree) (w : List Waiting) : Prop :=
  (∃ number, v = ⟨column, number, ts⟩ :: w) ∨ (ts = [] ∧ v = w ∧ ∀ g ∈ w, g.column < column)

theorem Ready.unused (ready : Ready column stack waiting st w) :
    waiting.reverse.find? (fun g => decide (column < g.column)) = none := by
  apply List.find?_eq_none.mpr
  intro g member
  have bound := ready.used g (mem_reverse.mp member)
  simpa using bound

theorem add_sibling {l : Line} (ready : Ready l.column stack waiting st v) (holding : Holding l.column v ts w)
    (sibling : l.step.isSibling = true) :
    ∃ number, add ⟨stack, waiting, none⟩ l.column l.number l.step =
      .ok ⟨⟨l.column, l.step, []⟩ :: st, ⟨l.column, number, ts⟩ :: w, none⟩ := by
  simp only [add, ready.matched, ready.unused, ready.closed, sibling, Bool.false_eq_true, if_false, if_true]
  rcases holding with ⟨number, rfl⟩ | ⟨rfl, rfl, used⟩
  · exact ⟨number, by simp⟩
  · refine ⟨l.number, ?_⟩
    cases v with
    | nil => rfl
    | cons g rest => grind

theorem add_plain {l : Line} (ready : Ready l.column stack waiting st v) (holding : Holding l.column v ts w)
    (plain : l.step.isSibling = false) :
    add ⟨stack, waiting, none⟩ l.column l.number l.step = .ok ⟨⟨l.column, l.step, ts⟩ :: st, w, none⟩ := by
  simp only [add, ready.matched, ready.unused, ready.closed, plain, Bool.false_eq_true, if_false]
  rcases holding with ⟨number, rfl⟩ | ⟨rfl, rfl, used⟩
  · simp
  · grind

/-- The lines of a proof that is no sibling can be added wherever a line at its column can. -/
def Rebuilds (t : Indented) : Prop :=
  ∀ {stack st : List OpenStep} {waiting w : List Waiting}, Ready t.column stack waiting st w →
    (∀ g ∈ w, g.column < t.column) →
    ∃ frames, run ⟨stack, waiting, none⟩ t.lines = .ok ⟨frames ++ st, w, none⟩ ∧ Spine t frames

/-- The lines of a sibling can be added after those that wait for the same step. -/
def RebuildsSibling (t : Indented) : Prop :=
  ∀ {stack st : List OpenStep} {waiting v w : List Waiting} {ts : List ProofTree},
    Ready t.column stack waiting st v → Holding t.column v ts w → (∀ g ∈ w, g.column < t.column) →
    ∃ number frames, run ⟨stack, waiting, none⟩ t.lines =
        .ok ⟨frames ++ st, ⟨t.column, number, ts⟩ :: w, none⟩ ∧ Spine t frames

theorem run_premises {line : Line} (right : line.column < column) (used : ∀ g ∈ w, g.column < column)
    {premises : List Indented} (plain : ∀ t ∈ premises, t.isSibling = false ∧ t.column = column)
    (each : ∀ t ∈ premises, Rebuilds t) {done : List Indented} (spine : Spine (.node line done) frames)
    (ready : Ready column (frames ++ st) w (⟨line.column, line.step, trees done⟩ :: st) w) :
    ∃ frames', run ⟨frames ++ st, w, none⟩ (allLines premises) = .ok ⟨frames' ++ st, w, none⟩ ∧
      Spine (.node line (done ++ premises)) frames' := by
  induction premises generalizing done frames with
  | nil =>
    refine ⟨frames, rfl, ?_⟩
    rw [append_nil]
    exact spine
  | cons t rest ih =>
    rcases plain t mem_cons_self with ⟨noSibling, same⟩
    rw [← same] at ready right used
    rcases each t mem_cons_self ready used with ⟨above, added, opened⟩
    have deeper : Spine (.node line (done ++ [t])) (above ++ [⟨line.column, line.step, trees done⟩]) :=
      .deeper opened noSibling right
    have next := opened.ready noSibling (o := ⟨line.column, line.step, trees done⟩) right st used
    rw [← Indented.trees_singleton, ← trees_append, same] at next
    have others : ∀ u ∈ rest, u.isSibling = false ∧ u.column = column :=
      fun u member => plain u (mem_cons_of_mem t member)
    rw [same] at right used
    rcases ih others (fun u member => each u (mem_cons_of_mem t member)) deeper
      (by rw [append_assoc]; exact next) with ⟨frames', finished, whole⟩
    refine ⟨frames', ?_, ?_⟩
    · rw [allLines, run_append, added]
      rw [append_assoc] at finished
      exact finished
    · rw [append_assoc] at whole
      exact whole

theorem run_siblings (used : ∀ g ∈ w, g.column < column) {siblings : List Indented}
    (sibling : ∀ t ∈ siblings, t.isSibling = true ∧ t.column = column) (each : ∀ t ∈ siblings, RebuildsSibling t)
    (ready : Ready column stack waiting st v) (holding : Holding column v ts w) :
    ∃ stack' waiting' v', run ⟨stack, waiting, none⟩ (allLines siblings) = .ok ⟨stack', waiting', none⟩ ∧
      Ready column stack' waiting' st v' ∧ Holding column v' (ts ++ trees siblings) w := by
  induction siblings generalizing stack waiting v ts with
  | nil =>
    refine ⟨stack, waiting, v, rfl, ready, ?_⟩
    rw [trees, append_nil]
    exact holding
  | cons t rest ih =>
    rcases sibling t mem_cons_self with ⟨isSibling, same⟩
    subst same
    rcases each t mem_cons_self ready holding used with ⟨number, frames, added, spine⟩
    have next := spine.ready_sibling isSibling ready.below used number ts
    rcases ih (fun u member => sibling u (mem_cons_of_mem t member))
      (fun u member => each u (mem_cons_of_mem t member)) next (.inl ⟨number, rfl⟩) with
      ⟨stack', waiting', v', finished, after, held⟩
    refine ⟨stack', waiting', v', ?_, after, ?_⟩
    · rw [allLines, run_append, added]
      exact finished
    · rw [trees, ← singleton_append, ← append_assoc]
      exact held

theorem Indented.Fits.rebuilds (fits : t.Fits) :
    (t.isSibling = false → Rebuilds t) ∧ (t.isSibling = true → RebuildsSibling t) := by
  induction fits with
  | @node line siblings premises column siblingsFit single premisesFit right _ ih =>
    have spelled := Indented.lines_node line (fun t member => (siblingsFit t member).1)
      (fun t member => (premisesFit t member).1)
    have eachSibling : ∀ t ∈ siblings, RebuildsSibling t := fun t member =>
      (ih t (mem_append_left _ member)).2 (siblingsFit t member).1
    have eachPremise : ∀ t ∈ premises, Rebuilds t := fun t member =>
      (ih t (mem_append_right _ member)).1 (premisesFit t member).1
    -- once its own line is there, a step takes its premises in either case
    have below {st : List OpenStep} {w : List Waiting} (used : ∀ g ∈ w, g.column ≤ line.column) :
        ∃ frames, run ⟨⟨line.column, line.step, trees siblings⟩ :: st, w, none⟩ (allLines premises) =
            .ok ⟨frames ++ st, w, none⟩ ∧ Spine (.node line (siblings ++ premises)) frames := by
      have farther : ∀ g ∈ w, g.column < column := fun g member => Int.lt_of_le_of_lt (used g member) right
      refine run_premises right farther premisesFit eachPremise .last (ready_of_below ?_ farther)
      rintro _ ⟨⟩
      exact right
    constructor
    · intro plain stack st waiting w ready used
      rcases run_siblings used siblingsFit eachSibling ready (.inr ⟨rfl, rfl, used⟩) with
        ⟨stack', waiting', v', added, after, held⟩
      rcases @below st w (fun g member => Int.le_of_lt (used g member)) with ⟨frames, finished, spine⟩
      refine ⟨frames, ?_, spine⟩
      rw [spelled, run_append, added]
      show run _ (line :: allLines premises) = _
      rw [run_cons, add_plain (l := line) after held plain]
      exact finished
    · intro isSibling stack st waiting v w ts ready holding used
      rcases add_sibling (l := line) ready holding isSibling with ⟨number, added⟩
      cases single isSibling
      rcases @below st (⟨line.column, number, ts⟩ :: w) (forall_mem_cons.mpr
        ⟨Int.le_refl _, fun g member => Int.le_of_lt (used g member)⟩) with ⟨frames, finished, spine⟩
      refine ⟨number, frames, ?_, spine⟩
      rw [spelled]
      show run _ (line :: allLines premises) = _
      rw [run_cons, added]
      exact finished

/-- A proof whose columns are in order is what its lines make. -/
theorem build_lines (fits : t.Fits) (plain : t.isSibling = false) : build t.lines = .ok t.tree := by
  have start : Ready t.column [] [] [] [] := ready_of_below (by simp) (by simp)
  rcases fits.rebuilds.1 plain start (by simp) with ⟨frames, added, spine⟩
  have closed := spine.closeTo (Int.le_refl _) [] []
  rw [plain, if_neg (by simp), append_nil] at closed
  have outermost : ∃ front o, frames = front ++ [o] ∧ o.column = t.column := by
    cases spine with
    | last => exact ⟨[], _, rfl, rfl⟩
    | deeper => exact ⟨_, _, rfl, rfl⟩
  rcases outermost with ⟨front, o, rfl, same⟩
  unfold build
  rw [append_nil] at added
  rw [show ({} : State) = ⟨[], [], none⟩ from rfl, added]
  show finish ⟨front ++ [o], [], none⟩ = _
  simp only [finish, List.getLast?_append, List.getLast?_singleton, Option.some_or, same, closed]
  rfl

end Derivation
end Whiteboard
