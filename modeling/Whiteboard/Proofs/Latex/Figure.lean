import Whiteboard.Proofs.Document.Acceptance

namespace Whiteboard

open List hiding set
namespace Latex

/-!
# What an inference figure shows of a proof

A figure has one inference for each step of the proof, and the inferences of the premises above it in order.
A step says more than its formula: the label of an assumption, a justification, the labels that it discharges,
and that it is a case.  `Depicts` compares a proof with a figure step by step, and `Notes.shown` says what
becomes of a step in the text.  Nothing but a case under an inference is marked as one, it shows its formula
and no more, and an assumption that stands alone shows nothing that it discharges.
-/

/-- What stands with a formula in a figure. -/
structure Notes where
  label : Option Int := none
  reason : Option String := none
  discharge : List Int := []
  isCase : Bool := false

/-- All that a step says besides its formula. -/
def Notes.ofStep (step : ProofStep) : Notes where
  label := if step.isAssumption then some step.label else none
  reason := if step.justification.isEmpty then none else some (justification step.justification)
  discharge := step.discharge
  isCase := step.isCase

/-- An inference figure: a conclusion under its premises, or a case with the derivation that rests on it. -/
inductive Figure where
  | inference (formula : String) (label : Option Int) (reason : Option String) (discharge : List Int)
      (premises : List Figure)
  | branch (formula : String) (steps : List Figure)

namespace Figure

def formula : Figure → String
  | inference formula .. => formula
  | branch formula _ => formula

def notes : Figure → Notes
  | inference _ label reason discharge _ => ⟨label, reason, discharge, false⟩
  | branch .. => { isCase := true }

def premises : Figure → List Figure
  | inference _ _ _ _ premises => premises
  | branch _ steps => steps

mutual

/-- The height of a figure; a conclusion without premises has height one. -/
def height : Figure → Nat
  | inference _ _ _ _ premises => tallest premises + 1
  | branch _ steps => tallest steps + 1

def tallest : List Figure → Nat
  | [] => 0
  | f :: rest => max f.height (tallest rest)

end

theorem height_eq_succ (f : Figure) : f.height = tallest f.premises + 1 := by
  cases f with
  | inference => rw [height, premises]
  | branch => rw [height, premises]

/-- What separates premises; among them cases need the more room the taller the figure is. -/
def gap (premises : List Figure) : String :=
  if premises.any (·.notes.isCase) then " & \\hskip " ++ toString (tallest premises + 1) ++ "em " else " & "

/-- What stands beside the line of an inference. -/
def beside (reason : Option String) (discharge : List Int) : String :=
  if reason.isNone && discharge.isEmpty then ""
  else
    let labels := if discharge.isEmpty then "" else "^" ++ braced (",".intercalate (discharge.map toString))
    "[" ++ reason.getD "" ++ labels ++ "]"

/-- A formula, in brackets if it has a label. -/
def labelled (formula : String) : Option Int → String
  | some label => "[" ++ formula ++ "]^" ++ braced (toString label)
  | none => formula

/-- A formula that is marked as a case. -/
def marked (formula : String) : String := "[" ++ command "mbox" "case" ++ "~" ++ formula ++ "]"

mutual

/-- A figure as text.  A conclusion with nothing above it and nothing beside it needs no line. -/
def text : Figure → String
  | inference formula label reason discharge premises =>
    if premises.isEmpty && reason.isNone && discharge.isEmpty then labelled formula label
    else "\\infer" ++ beside reason discharge ++ braced (labelled formula label) ++
      braced ((gap premises).intercalate (texts premises))
  | branch formula steps =>
    if steps.isEmpty then marked formula
    else "\\deduce" ++ braced (" \\quad ".intercalate (texts steps)) ++ braced (marked formula)

def texts : List Figure → List String
  | [] => []
  | f :: rest => f.text :: texts rest

end

theorem texts_eq_map (figures : List Figure) : texts figures = figures.map text := by
  induction figures with
  | nil => rfl
  | cons f rest ih => rw [texts, ih, map_cons]

end Figure

mutual

/-- The figure has the shape of the proof, and in each place the formula of the step and the notes that `told`
gives for it.  A case is set as a branch where it is the premise of an inference. -/
inductive Depicts (st : Style) (told : Bool → ProofStep → List ProofTree → Notes) : Bool → ProofTree → Figure → Prop
  | node {asBranch : Bool} {step : ProofStep} {premises : List ProofTree} {figure : Figure} :
      expr st {} step.expr = .ok figure.formula →
      figure.notes = told asBranch step premises →
      DepictsAll st told (!asBranch) premises figure.premises →
      Depicts st told asBranch (.node step premises) figure

inductive DepictsAll (st : Style) (told : Bool → ProofStep → List ProofTree → Notes) :
    Bool → List ProofTree → List Figure → Prop
  | nil {branching : Bool} : DepictsAll st told branching [] []
  | cons {branching : Bool} {t : ProofTree} {f : Figure} {ts : List ProofTree} {fs : List Figure} :
      Depicts st told (branching && t.step.isCase) t f → DepictsAll st told branching ts fs →
      DepictsAll st told branching (t :: ts) (f :: fs)

end

/-! ## What becomes of a step -/

/-- The notes of a step in the text.  A branch is marked and has no other note; elsewhere only the mark of a
case is missing, and what a step that stands alone discharges. -/
def Notes.shown (asBranch : Bool) (step : ProofStep) (premises : List ProofTree) : Notes :=
  if asBranch then { isCase := true }
  else { Notes.ofStep step with
    discharge := if standsAlone step premises then [] else step.discharge
    isCase := false }

variable {st : Style}

theorem Depicts.isCase_eq {asBranch : Bool} {t : ProofTree} {f : Figure}
    (depicts : Depicts st Notes.shown asBranch t f) : f.notes.isCase = asBranch := by
  cases depicts with
  | node _ noted _ =>
    rw [noted]
    cases asBranch with
    | false => rfl
    | true => rfl

theorem DepictsAll.any_isCase {ts : List ProofTree} {fs : List Figure}
    (depicts : DepictsAll st Notes.shown true ts fs) :
    fs.any (·.notes.isCase) = ts.any (·.step.isCase) := by
  induction ts generalizing fs with
  | nil =>
    cases depicts
    rfl
  | cons t ts ih =>
    cases depicts with
    | cons first others =>
      rw [any_cons, any_cons, first.isCase_eq, ih others, Bool.true_and]

variable {told : Bool → ProofStep → List ProofTree → Notes}

mutual

theorem Depicts.height_eq :
    ∀ {t : ProofTree} {asBranch : Bool} {f : Figure}, Depicts st told asBranch t f → f.height = t.depth
  | .node _ _, _, f, .node _ _ above => by
    rw [f.height_eq_succ, ProofTree.depth, above.tallest_eq]

theorem DepictsAll.tallest_eq : ∀ {ts : List ProofTree} {branching : Bool} {fs : List Figure},
      DepictsAll st told branching ts fs → Figure.tallest fs = ProofTree.deepest ts
  | [], _, _, .nil => rfl
  | _ :: _, _, _, .cons first others => by
    rw [Figure.tallest, ProofTree.deepest, first.height_eq, others.tallest_eq]

end

theorem gap_eq_premiseGap {premises : List ProofTree} {figures : List Figure} (step : ProofStep)
    (depicts : DepictsAll st Notes.shown true premises figures) :
    Figure.gap figures = premiseGap (.node step premises) := by
  rw [Figure.gap, premiseGap, depicts.any_isCase, depicts.tallest_eq, ProofTree.depth]
  rfl

theorem DepictsAll.isEmpty_eq {branching : Bool}
    {ts : List ProofTree} {fs : List Figure} (depicts : DepictsAll st told branching ts fs) :
    fs.isEmpty = ts.isEmpty := by
  cases depicts with
  | nil => rfl
  | cons _ _ => rfl

/-! ## The text of a proof is the text of its figure -/

/-- The figure of a step with its formula and the figures of its premises. -/
def Figure.ofStep (asBranch : Bool) (step : ProofStep) (premises : List ProofTree) (formula : String)
    (above : List Figure) : Figure :=
  if asBranch then .branch formula above
  else
    let notes := Notes.shown false step premises
    .inference formula notes.label notes.reason notes.discharge above

theorem depicts_ofStep {asBranch : Bool} {step : ProofStep} {premises : List ProofTree}
    {formula : String} {above : List Figure} (set : expr st {} step.expr = .ok formula)
    (depicts : DepictsAll st Notes.shown (!asBranch) premises above) :
    Depicts st Notes.shown asBranch (.node step premises) (.ofStep asBranch step premises formula above) := by
  cases asBranch with
  | false => exact .node set rfl depicts
  | true => exact .node set rfl depicts

theorem labelled_eq_conclusion (step : ProofStep) (formula : String) :
    Figure.labelled formula (Notes.ofStep step).label = conclusion step formula := by
  cases assumed : step.isAssumption with
  | false => simp [Notes.ofStep, conclusion, assumed, Figure.labelled]
  | true => simp [Notes.ofStep, conclusion, assumed, Figure.labelled]

theorem beside_eq_rule (step : ProofStep) : Figure.beside (Notes.ofStep step).reason step.discharge = rule step := by
  have unreasoned : justification "" = "" := by cbv
  cases reasoned : step.justification.isEmpty with
  | false => simp [Notes.ofStep, rule, reasoned, Figure.beside]
  | true =>
    rw [String.isEmpty_iff] at reasoned
    simp [Notes.ofStep, rule, Figure.beside, reasoned, unreasoned]

/-- A figure shows nothing above and nothing beside exactly the steps that stand alone. -/
theorem bare_eq_standsAlone (step : ProofStep) (premises : List ProofTree) :
    (premises.isEmpty && (Notes.shown false step premises).reason.isNone &&
        (Notes.shown false step premises).discharge.isEmpty) = standsAlone step premises := by
  have unreasoned : (Notes.shown false step premises).reason.isNone = step.justification.isEmpty := by
    cases reasoned : step.justification.isEmpty with
    | false => simp [Notes.shown, Notes.ofStep, reasoned]
    | true => simp [Notes.shown, Notes.ofStep, reasoned]
  have discharges : (Notes.shown false step premises).discharge =
      if standsAlone step premises then [] else step.discharge := rfl
  rw [unreasoned, discharges]
  unfold standsAlone
  cases premises.isEmpty with
  | false => rfl
  | true => grind

/-- A step that does not stand alone is set under a line with its rule beside it. -/
theorem text_ofStep_false {step : ProofStep} {premises : List ProofTree} {above : List Figure} (formula : String)
    (same : above.isEmpty = premises.isEmpty) :
    (Figure.ofStep false step premises formula above).text = if standsAlone step premises then conclusion step formula
      else "\\infer" ++ rule step ++ braced (conclusion step formula) ++
        braced ((Figure.gap above).intercalate (above.map Figure.text)) := by
  have label : (Notes.shown false step premises).label = (Notes.ofStep step).label := rfl
  rw [Figure.ofStep, if_neg Bool.false_ne_true, Figure.text, Figure.texts_eq_map, same, bare_eq_standsAlone,
    label, labelled_eq_conclusion]
  cases alone : standsAlone step premises with
  | true => rfl
  | false =>
    have discharges : (Notes.shown false step premises).discharge = step.discharge := by
      simp [Notes.shown, alone]
    rw [discharges, ← beside_eq_rule]
    rfl

theorem text_ofStep_true (step : ProofStep) (premises : List ProofTree) (above : List Figure) (formula : String) :
    (Figure.ofStep true step premises formula above).text = if above.isEmpty then Figure.marked formula
      else "\\deduce" ++ braced (" \\quad ".intercalate (above.map Figure.text)) ++ braced (Figure.marked formula) := by
  rw [Figure.ofStep, if_pos rfl, Figure.text, Figure.texts_eq_map]

/-- As a step and as a branch, the text of a proof is the text of a figure that shows it. -/
def Drawn (st : Style) (t : ProofTree) : Prop :=
  (∃ f, proofTree st t = .ok f.text ∧ Depicts st Notes.shown false t f) ∧
    ∃ f, caseBranch st t = .ok f.text ∧ Depicts st Notes.shown true t f

theorem drawn_proofPremises {premises : List ProofTree} (each : ∀ t ∈ premises, Drawn st t) :
    ∃ fs, proofPremises st premises = .ok (fs.map Figure.text) ∧ DepictsAll st Notes.shown true premises fs := by
  induction premises with
  | nil => exact ⟨[], by rw [proofPremises, map_nil], .nil⟩
  | cons t rest ih =>
    rcases forall_mem_cons.mp each with ⟨here, there⟩
    rcases ih there with ⟨fs, others, depictsAll⟩
    cases kind : t.step.isCase with
    | false =>
      rcases here.1 with ⟨f, drawn, depicts⟩
      refine ⟨f :: fs, ?_, .cons (by rwa [kind]) depictsAll⟩
      rw [proofPremises, kind, if_neg Bool.false_ne_true, drawn, others]
      rfl
    | true =>
      rcases here.2 with ⟨f, drawn, depicts⟩
      refine ⟨f :: fs, ?_, .cons (by rwa [kind]) depictsAll⟩
      rw [proofPremises, kind, if_pos rfl, drawn, others]
      rfl

theorem drawn_proofSteps {premises : List ProofTree} (each : ∀ t ∈ premises, Drawn st t) :
    ∃ fs, proofSteps st premises = .ok (fs.map Figure.text) ∧ DepictsAll st Notes.shown false premises fs := by
  induction premises with
  | nil => exact ⟨[], by rw [proofSteps, map_nil], .nil⟩
  | cons t rest ih =>
    rcases forall_mem_cons.mp each with ⟨⟨⟨f, drawn, depicts⟩, _⟩, there⟩
    rcases ih there with ⟨fs, others, depictsAll⟩
    refine ⟨f :: fs, ?_, .cons depicts depictsAll⟩
    rw [proofSteps, drawn, others]
    rfl

theorem drawn_of_all {t : ProofTree} (all : t.All fun step => step.expr.Whole) (st : Style) : Drawn st t := by
  induction all with
  | @node step premises whole _ ih =>
    have set := whole.complete.written st {}
    constructor
    · rcases drawn_proofPremises ih with ⟨above, drawn, depicts⟩
      refine ⟨.ofStep false step premises _ above, ?_, depicts_ofStep set depicts⟩
      rw [text_ofStep_false _ depicts.isEmpty_eq, gap_eq_premiseGap step depicts, proofTree, set]
      dsimp only [bind, Except.bind]
      rw [drawn]
      split
      · rfl
      · rfl
    · rcases drawn_proofSteps ih with ⟨above, drawn, depicts⟩
      refine ⟨.ofStep true step premises _ above, ?_, depicts_ofStep set depicts⟩
      rw [text_ofStep_true, depicts.isEmpty_eq, caseBranch, set]
      dsimp only [bind, Except.bind]
      rw [drawn]
      split
      · rfl
      · rfl

/-! ## Proofs of which nothing is lost -/

/-- Neither the step nor a premise of it says anything that the text does not show: every case is the premise
of an inference and says no more than its formula, and no assumption discharges labels on its own. -/
inductive Unabridged : Bool → ProofTree → Prop
  | step {step : ProofStep} {premises : List ProofTree} : step.isCase = false →
      (step.isAssumption = true → step.justification = "" → premises = [] → step.discharge = []) →
      (∀ t ∈ premises, Unabridged t.step.isCase t) → Unabridged false (.node step premises)
  | branch {step : ProofStep} {premises : List ProofTree} : step.isCase = true →
      step.isAssumption = false → step.justification = "" → step.discharge = [] →
      (∀ t ∈ premises, Unabridged false t) → Unabridged true (.node step premises)

theorem shown_false_eq_ofStep_iff (step : ProofStep) (premises : List ProofTree) :
    Notes.shown false step premises = .ofStep step ↔ step.isCase = false ∧
      (step.isAssumption = true → step.justification = "" → premises = [] → step.discharge = []) := by
  have parts : Notes.shown false step premises = .ofStep step ↔
      (if standsAlone step premises then [] else step.discharge) = step.discharge ∧ false = step.isCase := by
    simp [Notes.shown, Notes.ofStep]
  have alone : standsAlone step premises = true ↔
      premises = [] ∧ step.justification = "" ∧ (step.isAssumption = true ∨ step.discharge = []) := by
    simp [standsAlone, and_assoc]
  rw [parts, and_comm, eq_comm]
  apply and_congr_right
  intro _
  constructor
  · grind
  · grind

theorem shown_true_eq_ofStep_iff (step : ProofStep) (premises : List ProofTree) :
    Notes.shown true step premises = .ofStep step ↔ step.isCase = true ∧ step.isAssumption = false ∧
      step.justification = "" ∧ step.discharge = [] := by
  constructor
  · intro kept
    simp only [Notes.shown, Notes.ofStep, if_true, Notes.mk.injEq] at kept
    rcases kept with ⟨label, reason, discharge, marked⟩
    refine ⟨marked.symm, ?_, ?_, discharge.symm⟩
    · simpa using label
    · simpa using reason
  · rintro ⟨marked, unassumed, unreasoned, none⟩
    simp [Notes.shown, Notes.ofStep, marked, unassumed, unreasoned, none]

theorem unabridged_node_iff (asBranch : Bool) (step : ProofStep) (premises : List ProofTree) :
    Unabridged asBranch (.node step premises) ↔ Notes.shown asBranch step premises = .ofStep step ∧
      ∀ t ∈ premises, Unabridged (!asBranch && t.step.isCase) t := by
  cases asBranch with
  | false =>
    rw [shown_false_eq_ofStep_iff]
    constructor
    · rintro (⟨plain, nothing, above⟩ | _)
      exact ⟨⟨plain, nothing⟩, above⟩
    · rintro ⟨⟨plain, nothing⟩, above⟩
      exact .step plain nothing above
  | true =>
    rw [shown_true_eq_ofStep_iff]
    constructor
    · rintro (_ | ⟨marked, unassumed, unreasoned, none, above⟩)
      exact ⟨⟨marked, unassumed, unreasoned, none⟩, above⟩
    · rintro ⟨⟨marked, unassumed, unreasoned, none⟩, above⟩
      exact .branch marked unassumed unreasoned none above

mutual

/-- The figure shows all that the steps say just if there is nothing that it would not show. -/
theorem Depicts.whole_iff : ∀ {t : ProofTree} {asBranch : Bool} {f : Figure}, Depicts st Notes.shown asBranch t f →
      (Depicts st (fun _ step _ => .ofStep step) asBranch t f ↔ Unabridged asBranch t)
  | .node step premises, asBranch, f, .node set noted above => by
    rw [unabridged_node_iff, ← noted, ← above.whole_iff]
    constructor
    · rintro (⟨_, told, toldAbove⟩)
      exact ⟨told, toldAbove⟩
    · rintro ⟨told, toldAbove⟩
      exact .node set told toldAbove

theorem DepictsAll.whole_iff : ∀ {ts : List ProofTree} {branching : Bool} {fs : List Figure},
    DepictsAll st Notes.shown branching ts fs → (DepictsAll st (fun _ step _ => .ofStep step) branching ts fs ↔
        ∀ t ∈ ts, Unabridged (branching && t.step.isCase) t)
  | [], _, _, .nil => by simp [DepictsAll.nil]
  | t :: ts, branching, f :: fs, .cons first others => by
    rw [forall_mem_cons, ← first.whole_iff, ← others.whole_iff]
    constructor
    · rintro (_ | ⟨told, toldOthers⟩)
      exact ⟨told, toldOthers⟩
    · rintro ⟨told, toldOthers⟩
      exact .cons told toldOthers

end

/-! ## Figures in the text of a document -/

/-- The part stands somewhere in the text. -/
def Contains (whole part : String) : Prop := part.toList <:+: whole.toList

namespace Contains

variable {whole part : String}

theorem refl (s : String) : Contains s s := infix_rfl

theorem trans {middle : String} (outer : Contains whole middle) (inner : Contains middle part) :
    Contains whole part := List.IsInfix.trans inner outer

theorem append_left (front : String) (held : Contains whole part) : Contains (front ++ whole) part := by
  rw [Contains, String.toList_append]
  exact List.IsInfix.trans held (suffix_append _ _).isInfix

theorem append_right (held : Contains whole part) (back : String) : Contains (whole ++ back) part := by
  rw [Contains, String.toList_append]
  exact List.IsInfix.trans held (prefix_append _ _).isInfix

theorem braced (held : Contains whole part) : Contains (Latex.braced whole) part := (held.append_left _).append_right _

theorem intercalate {parts : List String} (member : whole ∈ parts) (held : Contains whole part) (gap : String) :
    Contains (gap.intercalate parts) part := by
  induction parts with
  | nil => cases member
  | cons first rest ih =>
    cases rest with
    | nil =>
      rcases mem_singleton.mp member with rfl
      exact held
    | cons second rest =>
      rw [String.intercalate_cons_cons]
      rcases mem_cons.mp member with rfl | later
      · exact (held.append_right _).append_right _
      · exact (ih later).append_left _

/-- What stands in an empty text stands in any text. -/
theorem unlessEmpty {shown instead : String} (held : Contains whole part) (kept : Contains shown whole) :
    Contains (if whole.isEmpty then instead else shown) part := by
  split
  next empty =>
    rw [Contains, String.isEmpty_iff.mp empty] at held
    rw [Contains, infix_nil.mp held]
    exact nil_infix
  next => exact kept.trans held

end Contains

namespace Figure

mutual

/-- What a figure shows, piece by piece. -/
def pieces : Figure → List String
  | inference formula label reason discharge premises =>
    (formula :: (label.map toString).toList) ++ (reason.toList ++ discharge.map toString) ++ piecesOfAll premises
  | branch formula steps => "case" :: formula :: piecesOfAll steps

def piecesOfAll : List Figure → List String
  | [] => []
  | f :: rest => f.pieces ++ piecesOfAll rest

end

theorem contains_labelled {formula piece : String} {label : Option Int}
    (member : piece ∈ formula :: (label.map toString).toList) : Contains (labelled formula label) piece := by
  cases label with
  | none =>
    rcases mem_singleton.mp member with rfl
    exact .refl _
  | some label =>
    rcases mem_cons.mp member with rfl | labels
    · exact (((Contains.refl _).append_left _).append_right _).append_right _
    · rcases mem_singleton.mp labels with rfl
      exact (Contains.refl _).braced.append_left _

theorem contains_beside {reason : Option String} {discharge : List Int} {piece : String}
    (member : piece ∈ reason.toList ++ discharge.map toString) : Contains (beside reason discharge) piece := by
  have something : ¬(reason.isNone && discharge.isEmpty) = true := by grind
  rw [beside, if_neg something]
  apply Contains.append_right
  rcases mem_append.mp member with reasons | labels
  · rcases Option.mem_toList.mp reasons with rfl
    exact ((Contains.refl _).append_left _).append_right _
  · have some : ¬discharge.isEmpty = true := by
      intro none
      rw [isEmpty_iff.mp none] at labels
      cases labels
    rw [if_neg some]
    exact ((Contains.intercalate labels (.refl _) ",").braced.append_left _).append_left _

mutual

/-- All that a figure shows stands in its text. -/
theorem contains_pieces : ∀ (f : Figure), ∀ piece ∈ f.pieces, Contains f.text piece
  | inference formula label reason discharge premises => by
    intro piece member
    rw [pieces] at member
    rw [text]
    split
    next bare =>
      simp only [Bool.and_eq_true, List.isEmpty_iff, Option.isNone_iff_eq_none] at bare
      rw [bare.1.1, bare.1.2, bare.2] at member
      exact contains_labelled (by simpa [piecesOfAll] using member)
    next =>
      rcases mem_append.mp member with here | above
      · rcases mem_append.mp here with concluded | noted
        · exact ((contains_labelled concluded).braced.append_left _).append_right _
        · exact (((contains_beside noted).append_left _).append_right _).append_right _
      · exact (contains_piecesOfAll premises _ piece above).braced.append_left _
  | branch formula steps => by
    intro piece member
    have hypothesis : piece ∈ ["case", formula] → Contains (marked formula) piece := by
      intro either
      rcases mem_pair.mp either with rfl | rfl
      · have word : Contains (command "mbox" "case") "case" := (Contains.refl _).braced.append_left _
        exact (((word.append_left _).append_right _).append_right _).append_right _
      · exact ((Contains.refl _).append_left _).append_right _
    rw [pieces] at member
    rw [text]
    split
    next bare =>
      rw [isEmpty_iff.mp bare] at member
      exact hypothesis member
    next =>
      have split : piece ∈ ["case", formula] ++ piecesOfAll steps := member
      rcases mem_append.mp split with here | above
      · exact (hypothesis here).braced.append_left _
      · exact ((contains_piecesOfAll steps _ piece above).braced.append_left _).append_right _

theorem contains_piecesOfAll : ∀ (fs : List Figure) (gap : String), ∀ piece ∈ piecesOfAll fs,
    Contains (gap.intercalate (texts fs)) piece
  | [], _ => fun _ member => absurd member not_mem_nil
  | f :: rest, gap => by
    intro piece member
    have first := contains_pieces f
    have others := contains_piecesOfAll rest gap
    rw [piecesOfAll] at member
    rw [texts]
    rcases mem_append.mp member with here | there
    · exact .intercalate mem_cons_self (first piece here) gap
    · cases rest with
      | nil => cases there
      | cons second rest =>
        rw [texts, String.intercalate_cons_cons, ← texts]
        exact (others piece there).append_left _

end

end Figure

/-- An expression is visited with expressions only. -/
theorem item_notMem_exprNodes (i : Item) (e : Expr) : Node.item i ∉ e.nodes := by
  induction e using Expr.slotInduction with
  | step e each =>
    cases missing : e.isHole with
    | true =>
      cases e with
      | hole => exact not_mem_nil
      | _ => cases missing
    | false =>
      rw [Expr.nodes_eq_cons missing]
      simpa using each

theorem contains_itemList {lay : Layout} {items : List Item} {parts : List Rendered}
    (set : itemList lay items = .ok parts) {i : Item} (member : i ∈ items) :
    ∃ r ∈ parts, item lay i = .ok r := by
  induction items generalizing parts with
  | nil => cases member
  | cons first rest ih =>
    rw [itemList] at set
    rcases bind_eq_ok.mp set with ⟨r, here, others⟩
    rcases bind_eq_ok.mp others with ⟨rs, there, whole⟩
    cases whole
    rcases mem_cons.mp member with rfl | later
    · exact ⟨r, mem_cons_self, here⟩
    · rcases ih there later with ⟨found, among, inner⟩
      exact ⟨found, mem_cons_of_mem r among, inner⟩

theorem contains_joinItems {parts : List Rendered} {r : Rendered} (member : r ∈ parts) :
    Contains (joinItems parts).text r.text :=
  .intercalate (mem_map_of_mem member) (.refl _) _

theorem contains_item {lay : Layout} (i : Item) : ∀ {r : Rendered}, item lay i = .ok r →
    ∀ {j : Item}, Node.item j ∈ i.nodes → ∃ inner, item lay j = .ok inner ∧ Contains r.text inner.text := by
  induction i using Item.underInduction with
  | step i each =>
    intro r set j member
    rw [Item.nodes_eq_cons, mem_cons, mem_append] at member
    rcases member with here | under | visited
    · cases here
      exact ⟨r, set, .refl _⟩
    · rcases mem_flatMap.mp under with ⟨sub, among, below⟩
      cases i with
      | heading level title items loc =>
        rw [item] at set
        rcases bind_eq_ok.mp set with ⟨parts, listed, whole⟩
        cases whole
        rcases contains_itemList listed among with ⟨part, inParts, drawn⟩
        rcases each sub among drawn below with ⟨inner, found, held⟩
        refine ⟨inner, found, ?_⟩
        have joined := (contains_joinItems inParts).trans held
        exact joined.unlessEmpty ((Contains.refl _).append_left _)
      | _ => cases among
    · rcases mem_flatMap.mp visited with ⟨e, _, inside⟩
      exact absurd inside (item_notMem_exprNodes j e)

theorem contains_render {lay : Layout} {doc : Document} {r : Rendered} (set : doc.render lay = .ok r) {j : Item}
    (member : Node.item j ∈ doc.nodes) : ∃ inner, item lay j = .ok inner ∧ Contains r.text inner.text := by
  rw [Document.nodes_eq_flatMap] at member
  rcases mem_flatMap.mp member with ⟨i, among, inside⟩
  rcases bind_eq_ok.mp set with ⟨parts, listed, whole⟩
  cases whole
  rcases contains_itemList listed among with ⟨part, inParts, drawn⟩
  rcases contains_item i drawn inside with ⟨inner, found, held⟩
  refine ⟨inner, found, ?_⟩
  have joined := (contains_joinItems inParts).trans held
  dsimp only
  split
  · exact ((joined.unlessEmpty ((Contains.refl _).append_right _)).append_left _).append_right _ |>.append_right _
  · exact joined.unlessEmpty ((Contains.refl _).append_right _)

end Latex

theorem Item.Whole.within {verbatim : Prop} {i : Item} (whole : i.Whole verbatim) {j : Item}
    (member : Node.item j ∈ i.nodes) : j.Whole verbatim := by
  induction i using Item.underInduction with
  | step i each =>
    rw [Item.nodes_eq_cons, mem_cons, mem_append] at member
    rcases member with here | under | visited
    · cases here
      exact whole
    · rcases mem_flatMap.mp under with ⟨sub, among, below⟩
      cases whole with
      | heading all => exact each sub among (all sub among) below
      | _ => cases among
    · rcases mem_flatMap.mp visited with ⟨e, _, inside⟩
      exact absurd inside (Latex.item_notMem_exprNodes j e)

namespace Options

open Latex

/-- Every proof of a document is in its text as a figure of the same shape.  The figure shows of each step
what `Notes.shown` keeps, and all that the steps say just if the proof is unabridged. -/
theorem proof_figure_in_text (o : Options) {source : String} {doc : Document} {t : ProofTree} {loc : Location}
    (read : o.document source = .ok doc) (member : Node.item (.proof (some t) loc) ∈ doc.nodes) :
    ∃ rendered figure, o.compile source = .ok rendered ∧ Contains rendered.text ("\\[\n" ++ figure.text ++ "\n\\]") ∧
      (∀ piece ∈ figure.pieces, Contains figure.text piece) ∧
      Depicts o.layout.dialect.style Notes.shown false t figure ∧
      (Depicts o.layout.dialect.style (fun _ step _ => .ofStep step) false t figure ↔ Unabridged false t) := by
  have sound := sound_of_document read
  rcases succeeds_render sound o.layout with ⟨rendered, set⟩
  have compiled : o.compile source = .ok rendered := by
    rw [compile, read]
    dsimp only [bind, Except.bind]
    rw [set]
    rfl
  have all : t.All fun step => step.expr.Whole := by
    rw [Document.nodes_eq_flatMap] at member
    rcases mem_flatMap.mp member with ⟨i, among, inside⟩
    cases (sound i among).within inside with
    | proof all => exact all
  rcases (drawn_of_all all o.layout.dialect.style).1 with ⟨figure, drawn, depicts⟩
  rcases contains_render set member with ⟨inner, found, held⟩
  rw [item, drawn] at found
  cases found
  exact ⟨rendered, figure, compiled, held, figure.contains_pieces, depicts, depicts.whole_iff⟩

/-- The proof of a document that holds nothing else. -/
def soleProof : Document → Option ProofTree
  | [.proof root _] => root
  | _ => none

theorem of_soleProof {o : Options} {source : String} {check : ProofTree → Bool}
    (checked : ((o.document source).toOption.bind soleProof).any check = true) :
    ∃ t loc, o.document source = .ok [.proof (some t) loc] ∧ check t = true := by
  cases read : o.document source with
  | error d =>
    rw [read] at checked
    cases checked
  | ok doc =>
    rw [read] at checked
    change (soleProof doc).any check = true at checked
    unfold soleProof at checked
    split at checked
    next root loc =>
      cases root with
      | none => cases checked
      | some t => exact ⟨t, loc, rfl, checked⟩
    next => cases checked

/-- A text lacks what has a character that is not in it. -/
theorem lacks_of_compile {o : Options} {source text : String} (part : String) {c : Char} (inPart : c ∈ part.toList)
    (compiled : (o.compile source).toOption.map Rendered.text = some text) (absent : c ∉ text.toList) :
    ∃ rendered, o.compile source = .ok rendered ∧ ¬Contains rendered.text part := by
  cases set : o.compile source with
  | error d =>
    rw [set] at compiled
    cases compiled
  | ok rendered =>
    rw [set] at compiled
    rcases Option.some.inj compiled with rfl
    exact ⟨rendered, rfl, fun held => absent (held.subset inPart)⟩

def caseAnalysis : String := "PROOF:\nr [or elim]\n  p or q\n  case p\n    [1] s\n    r [and elim from 1]\n  case q"

theorem caseAnalysis_figure_in_text : ∃ t loc, ({} : Options).document caseAnalysis = .ok [.proof (some t) loc] ∧
      Node.item (.proof (some t) loc) ∈ Document.nodes [.proof (some t) loc] ∧
      ∃ rendered figure, ({} : Options).compile caseAnalysis = .ok rendered ∧
        Contains rendered.text ("\\[\n" ++ figure.text ++ "\n\\]") ∧
        Depicts Dialect.fuzz.style Notes.shown false t figure := by
  have only : ((({} : Options).document caseAnalysis).toOption.bind soleProof).any
      (fun t => t.premises.length == 3) = true := by decide +kernel
  rcases of_soleProof only with ⟨t, loc, read, _⟩
  have member : Node.item (.proof (some t) loc) ∈ Document.nodes [.proof (some t) loc] := by
    rw [Document.nodes_eq_flatMap, flatMap_cons, Item.nodes_eq_cons]
    exact mem_cons_self
  rcases proof_figure_in_text {} read member with ⟨rendered, figure, compiled, held, _, depicts, _⟩
  exact ⟨t, loc, read, member, rendered, figure, compiled, held, depicts⟩

/-- The label that an assumption discharges is not in the text, and neither is the justification of a case. -/
theorem discharge_and_reason_lost :
    (∃ t loc rendered, ({} : Options).document "PROOF:\n[1] p [from 2]" = .ok [.proof (some t) loc] ∧
      t.step.discharge = [2] ∧ ({} : Options).compile "PROOF:\n[1] p [from 2]" = .ok rendered ∧
      ¬Contains rendered.text "2") ∧
    ∃ t loc rendered, ({} : Options).document "PROOF:\nr [or elim]\n  case p [key]" = .ok [.proof (some t) loc] ∧
      t.premises.map (·.step.justification) = ["key"] ∧
      ({} : Options).compile "PROOF:\nr [or elim]\n  case p [key]" = .ok rendered ∧
      ¬Contains rendered.text "key" := by
  constructor
  · have read : ((({} : Options).document "PROOF:\n[1] p [from 2]").toOption.bind soleProof).any
        (fun t => t.step.discharge == [2]) = true := by decide +kernel
    have compiled : (({} : Options).compile "PROOF:\n[1] p [from 2]").toOption.map Rendered.text =
        some "\\[\n[p]^\x7b1\x7d\n\\]\n" := by decide +kernel
    rcases of_soleProof read with ⟨t, loc, read, discharges⟩
    rcases lacks_of_compile "2" mem_cons_self compiled (by decide) with ⟨rendered, set, lacks⟩
    exact ⟨t, loc, rendered, read, eq_of_beq discharges, set, lacks⟩
  · have read : ((({} : Options).document "PROOF:\nr [or elim]\n  case p [key]").toOption.bind soleProof).any
        (fun t => t.premises.map (·.step.justification) == ["key"]) = true := by decide +kernel
    have compiled : (({} : Options).compile "PROOF:\nr [or elim]\n  case p [key]").toOption.map Rendered.text =
        some "\\[\n\\infer[\\lor~\\mbox\x7belim\x7d]\x7br\x7d\x7b[\\mbox\x7bcase\x7d~p]\x7d\n\\]\n" := by
      decide +kernel
    rcases of_soleProof read with ⟨t, loc, read, reasoned⟩
    rcases lacks_of_compile "key" mem_cons_self compiled (by decide) with ⟨rendered, set, lacks⟩
    exact ⟨t, loc, rendered, read, eq_of_beq reasoned, set, lacks⟩

end Options
end Whiteboard
