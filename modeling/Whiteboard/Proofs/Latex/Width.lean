import Mathlib.Data.List.Basic
import Whiteboard.Latex.Document
import Whiteboard.Proofs.Document.Walk

namespace Whiteboard

open List Text

/-!
# What the width of lines decides

The width is looked at where a boxed item is finished: its lines are measured, and a free type that does not fit is
broken.  Everything else is set without a look at it.  So an item comes to the same fault at every width or is set at
every width, and what is measured can be compared from width to width.
-/

/-! ## The boxed items of a document -/

namespace Item

mutual

/-- The items in an item that are set in a box, in the order of the text. -/
def boxes : Item → List Item
  | heading _ _ items _ => boxesOfAll items
  | hole | truthTable .. | equivChain .. | proof .. | text .. | formula .. | pageBreak .. => []
  | i => [i]

def boxesOfAll : List Item → List Item
  | [] => []
  | i :: rest => i.boxes ++ boxesOfAll rest

end

theorem boxesOfAll_eq (items : List Item) : boxesOfAll items = items.flatMap boxes := by
  induction items with
  | nil => rfl
  | cons i rest ih => rw [boxesOfAll, flatMap_cons, ih]

def isFreeType : Item → Bool
  | freeType .. => true
  | _ => false

/-- What a warning calls a boxed item. -/
def boxTitle : Item → String
  | givenType .. => "given type"
  | freeType name _ _ => "free type " ++ name
  | abbreviation name _ _ _ => "abbreviation " ++ name
  | box .schema name _ _ _ _ => "schema " ++ name
  | box kind _ _ _ _ _ => kind.name
  | _ => "zed block"

end Item

namespace Latex

/-! ## Long lines -/

/-- The lines of a text that are longer than the width, by number and length. -/
def longLines (width : Int) (text : String) : List (Nat × Nat) :=
  ((splitLines text).mapIdx fun i line => (i + 1, line.length)).filter fun p => width < (p.2 : Int)

theorem length_longLines (width : Int) (text : String) :
    (longLines width text).length = (splitLines text).countP fun line => width < (line.length : Int) := by
  have measured : (splitLines text).map List.length =
      ((splitLines text).mapIdx fun i line => (i + 1, line.length)).map Prod.snd := by
    apply ext_getElem <;> simp
  rw [longLines, ← countP_eq_length_filter]
  have counted := congrArg (countP fun n : Nat => decide (width < (n : Int))) measured
  rw [countP_map, countP_map] at counted
  exact counted.symm

/-- At a larger width fewer lines are long. -/
theorem longLines_le {width wider : Int} (less : width ≤ wider) (text : String) :
    (longLines wider text).length ≤ (longLines width text).length := by
  rw [length_longLines, length_longLines]
  apply countP_mono_left
  intro line _ long
  simp only [decide_eq_true_eq] at long ⊢
  omega

theorem splitWhere_append_cons {p : Char → Bool} {c : Char} (splits : p c = true) (front back : List Char) :
    splitWhere p (front ++ c :: back) = splitWhere p front ++ splitWhere p back := by
  induction front with
  | nil => simp [splitWhere, splits]
  | cons d front ih =>
    rw [cons_append, splitWhere, splitWhere, ih]
    split
    · rfl
    · cases pieces : splitWhere p front with
      | nil => cases front <;> grind [splitWhere]
      | cons piece rest => rfl

theorem length_le_of_mem_splitWhere {p : Char → Bool} {cs line : List Char} (member : line ∈ splitWhere p cs) :
    line.length ≤ cs.length := by
  induction cs generalizing line with
  | nil => simp_all [splitWhere]
  | cons c cs ih =>
    rw [splitWhere] at member
    split at member
    · grind
    · grind

/-- The first and the last line of an environment stand around its body. -/
theorem splitLines_environment (body : String) : splitLines (environment "zed" "" body) =
    splitLines "\\begin\x7bzed\x7d" ++ (splitLines body ++ splitLines "\\end\x7bzed\x7d") := by
  have whole : (environment "zed" "" body).toList =
      "\\begin\x7bzed\x7d".toList ++ '\n' :: (body.toList ++ '\n' :: "\\end\x7bzed\x7d".toList) := by
    simp [environment, command, braced]
  rw [splitLines, whole, splitWhere_append_cons (by decide), splitWhere_append_cons (by decide)]
  rfl

/-- A free type that fits draws no warning but for the lines around it, and one that does not is broken in one way. -/
theorem longLines_freeType (d : Dialect) (standalone : Bool) (name : String) (parts : List String) {width wider : Int}
    (positive : 0 < width) (less : width ≤ wider) :
    (longLines wider (environment "zed" "" (freeType ⟨d, wider, standalone⟩ name parts))).length ≤
      (longLines width (environment "zed" "" (freeType ⟨d, width, standalone⟩ name parts))).length := by
  unfold freeType
  dsimp only
  generalize identifier d.style name ++ " ::= " ++ " | ".intercalate parts = line
  by_cases fits : (line.length : Int) ≤ wider
  · rw [if_neg (by simp; omega), length_longLines, length_longLines, splitLines_environment, splitLines_environment]
    have short : (splitLines line).countP (fun l => wider < (l.length : Int)) = 0 := by
      rw [countP_eq_zero]
      intro l member
      have shorter := length_le_of_mem_splitWhere member
      rw [String.length_toList] at shorter
      simp
      omega
    have around (text : String) := longLines_le less text
    simp only [length_longLines] at around
    simp only [countP_append, short]
    have front := around "\\begin\x7bzed\x7d"
    have back := around "\\end\x7bzed\x7d"
    omega
  · rw [if_pos (by simp; omega), if_pos (by simp; omega)]
    exact longLines_le less _

/-! ## One item at every width -/

/-- A stage comes to the same fault at every width, or at every width to a value. -/
def Evenly {α : Type} (stage : Int → Except Fault α) (P : (Int → α) → Prop) : Prop :=
  (∃ fault, ∀ w, stage w = .error fault) ∨ ∃ value, (∀ w, stage w = .ok (value w)) ∧ P value

namespace Evenly

variable {α β : Type} {stage : Int → Except Fault α} {P : (Int → α) → Prop} {Q : (Int → β) → Prop}

theorem ok {value : Int → α} (holds : P value) : Evenly (fun w => .ok (value w)) P :=
  .inr ⟨value, fun _ => rfl, holds⟩

theorem error (fault : Fault) : Evenly (fun _ => .error fault) P := .inl ⟨fault, fun _ => rfl⟩

theorem bind {next : Int → α → Except Fault β} (evenly : Evenly stage P)
    (onward : ∀ value, P value → Evenly (fun w => next w (value w)) Q) : Evenly (fun w => stage w >>= next w) Q := by
  rcases evenly with ⟨fault, failed⟩ | ⟨value, found, holds⟩
  · exact .inl ⟨fault, fun w => congrArg (· >>= next w) (failed w)⟩
  · obtain rfl : stage = fun w => .ok (value w) := funext found
    exact onward value holds

theorem fixed {next : Int → α → Except Fault β} (stage : Except Fault α)
    (onward : ∀ value, stage = .ok value → Evenly (fun w => next w value) Q) :
    Evenly (fun w => stage >>= next w) Q := by
  cases stage with
  | error fault => exact .error fault
  | ok value => exact onward value rfl

theorem ite {condition : Prop} [Decidable condition] {yes no : Int → Except Fault α}
    (ifYes : condition → Evenly yes P) (ifNo : ¬condition → Evenly no P) :
    Evenly (fun w => if condition then yes w else no w) P := by
  split
  next holds => exact ifYes holds
  next fails => exact ifNo fails

end Evenly

variable (d : Dialect) (standalone : Bool)

/-- The text that an item is set as. -/
def textOf (lay : Layout) (i : Item) : String := ((item lay i).toOption.map (·.text)).getD ""

/-- What the lines of a boxed item are warned of. -/
def remarks (lay : Layout) (i : Item) : List Warning := widthWarnings lay.width (textOf lay i) i.boxTitle i.loc

/-- What is known of the parts of a text with these boxed items: without free types they are the same at every width,
the warnings are those about the boxed items, and at a larger width there are not more of them. -/
structure Measured (boxes : List Item) (parts : Int → List Rendered) : Prop where
  steady : (∀ i ∈ boxes, i.isFreeType = false) → ∀ w w', (parts w').map (·.text) = (parts w).map (·.text)
  warned : ∀ w, (parts w).flatMap (·.warnings) = boxes.flatMap (remarks ⟨d, w, standalone⟩)
  present : ∀ w, ∀ i ∈ boxes, ∃ r, item ⟨d, w, standalone⟩ i = .ok r
  fewer : ∀ w > 0, ∀ w' ≥ w, ((parts w').flatMap (·.warnings)).length ≤ ((parts w).flatMap (·.warnings)).length

variable {d standalone} {boxes : List Item} {parts : Int → List Rendered}

namespace Measured

theorem unboxed (parts : List Rendered) (silent : ∀ r ∈ parts, r.warnings = []) :
    Measured d standalone [] fun _ => parts := by
  have nothing : parts.flatMap (·.warnings) = [] := flatMap_eq_nil_iff.mpr silent
  exact ⟨fun _ _ _ => rfl, fun _ => nothing, fun _ => forall_mem_nil _, by simp [nothing]⟩

theorem append {more : List Item} {others : Int → List Rendered} (first : Measured d standalone boxes parts)
    (second : Measured d standalone more others) :
    Measured d standalone (boxes ++ more) fun w => parts w ++ others w where
  steady free w w' := by
    obtain ⟨here, there⟩ := forall_mem_append.mp free
    rw [map_append, map_append, first.steady here w w', second.steady there w w']
  warned w := by rw [flatMap_append, flatMap_append, first.warned, second.warned]
  present w := forall_mem_append.mpr ⟨first.present w, second.present w⟩
  fewer w wide w' wider := by
    have here := first.fewer w wide w' wider
    have there := second.fewer w wide w' wider
    rw [flatMap_append, flatMap_append, length_append, length_append]
    omega

/-- A boxed item, of which the text at each width is known. -/
theorem boxed {i : Item} {text : Int → String}
    (set : ∀ w, item ⟨d, w, standalone⟩ i = .ok (checked ⟨d, w, standalone⟩ i.boxTitle i.loc (text w)))
    (steady : i.isFreeType = false → ∀ w w', text w' = text w)
    (fewer : ∀ w > 0, ∀ w' ≥ w, (longLines w' (text w')).length ≤ (longLines w (text w)).length) :
    Measured d standalone [i] fun w => [checked ⟨d, w, standalone⟩ i.boxTitle i.loc (text w)] := by
  have counted {w : Int} (wide : w > 0) :
      (widthWarnings w (text w) i.boxTitle i.loc).length = (longLines w (text w)).length := by
    rw [widthWarnings, if_neg (by omega)]
    exact length_map _
  refine ⟨fun free w w' => ?_, fun w => ?_, fun w => ?_, fun w wide w' wider => ?_⟩
  · simp [checked, steady (free i mem_cons_self) w w']
  · simp [remarks, textOf, set, checked, Except.toOption]
  · exact forall_mem_singleton.mpr ⟨_, set w⟩
  · simpa [checked, counted wide, counted (show w' > 0 by omega)] using fewer w wide w' wider

/-- Parts that are put together under a heading. -/
theorem joined (measured : Measured d standalone boxes parts) (finish : String → String) :
    Measured d standalone boxes fun w => [{ joinItems (parts w) with text := finish (joinItems (parts w)).text }] where
  steady free w w' := by simp [joinItems, measured.steady free w w']
  warned w := by simpa [joinItems] using measured.warned w
  present := measured.present
  fewer w wide w' wider := by simpa [joinItems] using measured.fewer w wide w' wider

end Measured

/-- An item at every width. -/
def ItemEvenly (i : Item) : Prop :=
  Evenly (fun w => item ⟨d, w, standalone⟩ i) fun r => Measured d standalone i.boxes fun w => [r w]

/-- What is checked for its lines: a text at each width. -/
def IsChecked (i : Item) (r : Int → Rendered) : Prop :=
  ∃ text : Int → String, (r = fun w => checked ⟨d, w, standalone⟩ i.boxTitle i.loc (text w)) ∧
    (i.isFreeType = false → ∀ w w', text w' = text w) ∧
    ∀ w > 0, ∀ w' ≥ w, (longLines w' (text w')).length ≤ (longLines w (text w)).length

theorem itemEvenly_boxed {i : Item} (alone : i.boxes = [i])
    (evenly : Evenly (fun w => item ⟨d, w, standalone⟩ i) (@IsChecked d standalone i)) :
    @ItemEvenly d standalone i := by
  rcases evenly with failed | ⟨_, set, text, rfl, steady, fewer⟩
  · exact .inl failed
  · refine .inr ⟨_, set, ?_⟩
    rw [alone]
    exact .boxed set steady fewer

theorem isChecked_fixed {i : Item} {what text : String} {loc : Location} (named : what = i.boxTitle)
    (placed : loc = i.loc) :
    @IsChecked d standalone i fun w => checked ⟨d, w, standalone⟩ what loc text :=
  ⟨fun _ => text, by rw [named, placed], fun _ _ _ => rfl, fun _ _ _ wider => longLines_le wider text⟩

theorem itemListEvenly {items : List Item} (each : ∀ i ∈ items, @ItemEvenly d standalone i) :
    Evenly (fun w => itemList ⟨d, w, standalone⟩ items) (Measured d standalone (Item.boxesOfAll items)) := by
  induction items with
  | nil => exact .ok (.unboxed [] (forall_mem_nil _))
  | cons i rest ih =>
    obtain ⟨first, others⟩ := forall_mem_cons.mp each
    exact .bind first fun _ here => .bind (ih others) fun _ there => .ok (here.append there)

theorem boxTitle_of_boxHeader {st : Style} {kind : BoxKind} {name : String} {loc : Location} {header : String × String}
    (found : boxHeader st kind name loc = .ok header) (gs : List String) (declarations : List Declaration)
    (predicates : List Predicate) : header.2 = (Item.box kind name gs declarations predicates loc).boxTitle := by
  cases kind with
  | schema =>
    simp only [boxHeader] at found
    split at found
    · cases found
    · cases found
      rfl
  | axdef | gendef =>
    cases found
    rfl
  | other => cases found

theorem itemEvenly_of_under (i : Item) (each : ∀ sub ∈ i.under, @ItemEvenly d standalone sub) :
    @ItemEvenly d standalone i := by
  have unboxed (text : String) : Measured d standalone [] fun _ => [⟨text, []⟩] := .unboxed _ (by simp)
  unfold ItemEvenly
  cases i with
  | hole => exact .error _
  | heading level title =>
    refine .bind (itemListEvenly each) fun _ parts => .ok ?_
    exact parts.joined fun body =>
      if body.isEmpty then headingText level title else headingText level title ++ "\n\n" ++ body
  | truthTable | text =>
    simp only [item]
    exact .fixed _ fun _ _ => .ok (by exact unboxed _)
  | equivChain | formula =>
    simp only [item]
    exact .ite (fun _ => .error _) fun _ => .fixed _ fun _ _ => .ok (by exact unboxed _)
  | proof root =>
    cases root with
    | none => exact .error _
    | some root =>
      simp only [item]
      exact .fixed _ fun _ _ => .ok (by exact unboxed _)
  | pageBreak => exact .ok (by exact unboxed _)
  | givenType =>
    refine itemEvenly_boxed rfl ?_
    simp only [item]
    exact .ite (fun _ => .error _) fun _ => .ok (by exact isChecked_fixed rfl rfl)
  | freeType name branches =>
    refine itemEvenly_boxed rfl ?_
    simp only [item]
    refine .ite (fun _ => .error _) fun _ => .fixed _ fun parts _ => .ok ⟨_, rfl, by simp [Item.isFreeType], ?_⟩
    exact fun w wide w' wider => longLines_freeType d standalone name parts wide wider
  | abbreviation | zedBlock =>
    refine itemEvenly_boxed rfl ?_
    simp only [item]
    exact .fixed _ fun _ _ => .ok (by exact isChecked_fixed rfl rfl)
  | box kind name gs =>
    refine itemEvenly_boxed rfl ?_
    simp only [item]
    refine .fixed _ fun header found => .fixed _ fun _ _ => .fixed _ fun _ _ => .ok ?_
    exact isChecked_fixed (boxTitle_of_boxHeader found gs _ _) rfl

theorem itemEvenly (i : Item) : @ItemEvenly d standalone i := i.underInduction itemEvenly_of_under

end Latex

open Latex

/-- The width advises.  A document that is set at one width is set at every width, in the same text if it holds no free
type.  The warnings are those about the long lines of its boxed items, one for each line in the order of the text and
at the place of the item; they get fewer as the width grows, and there are none at a width that is not positive. -/
theorem width_only_advises {d : Dialect} {standalone : Bool} {w : Int} {doc : Document} {r : Rendered}
    (rendered : doc.render ⟨d, w, standalone⟩ = .ok r) :
    (w ≤ 0 → r.warnings = []) ∧
    (w > 0 → r.warnings = (doc.flatMap Item.boxes).flatMap fun i =>
      (longLines w (textOf ⟨d, w, standalone⟩ i)).map fun line =>
        ⟨i.loc, "line " ++ toString line.1 ++ " of " ++ i.boxTitle ++ " is " ++ toString line.2 ++
          " characters long (limit " ++ toString w ++ ")"⟩) ∧
    (∀ i ∈ doc.flatMap Item.boxes, ∃ part, item ⟨d, w, standalone⟩ i = .ok part) ∧
    ∀ w', ∃ r', doc.render ⟨d, w', standalone⟩ = .ok r' ∧
      ((∀ i ∈ doc.flatMap Item.boxes, i.isFreeType = false) → r'.text = r.text) ∧
      (w > 0 → w' ≥ w → r'.warnings.length ≤ r.warnings.length) := by
  rcases @itemListEvenly d standalone doc fun i _ => itemEvenly i with ⟨_, failed⟩ | ⟨parts, found, measured⟩
  · rw [Document.render, show itemList _ doc = _ from failed w] at rendered
    cases rendered
  · rw [Item.boxesOfAll_eq] at measured
    have atWidth (w : Int) : itemList ⟨d, w, standalone⟩ doc = .ok (parts w) := found w
    simp only [Document.render, atWidth] at rendered ⊢
    cases rendered
    refine ⟨fun narrow => ?_, fun wide => ?_, measured.present w, fun w' => ⟨_, rfl, fun free => ?_, ?_⟩⟩
    · simp [joinItems, measured.warned, remarks, widthWarnings, narrow]
    · refine (measured.warned w).trans (congrArg (flatMap · _) (funext fun i => ?_))
      rw [remarks, widthWarnings, if_neg (Int.not_le.mpr wide)]
      rfl
    · simp only [joinItems, measured.steady free w w']
      rfl
    · exact fun wide wider => measured.fewer w wide w' wider

theorem given_type_advises : ∃ r r',
    Document.render ⟨.fuzz, 5, false⟩ [.givenType ["A"] ⟨"", 3, 1⟩] = .ok r ∧
    r.warnings = [⟨⟨"", 3, 1⟩, "line 1 of given type is 11 characters long (limit 5)"⟩,
      ⟨⟨"", 3, 1⟩, "line 3 of given type is 9 characters long (limit 5)"⟩] ∧
    Document.render ⟨.fuzz, 20, false⟩ [.givenType ["A"] ⟨"", 3, 1⟩] = .ok r' ∧ r'.text = r.text := by
  have rendered : Document.render ⟨.fuzz, 5, false⟩ [.givenType ["A"] ⟨"", 3, 1⟩] =
    .ok ⟨"\\begin\x7bzed\x7d\n[A]\n\\end\x7bzed\x7d\n", _⟩ := rfl
  obtain ⟨_, _, _, wider⟩ := width_only_advises rendered
  obtain ⟨r', found, same, _⟩ := wider 20
  exact ⟨_, r', rendered, rfl, found, same (by decide)⟩

end Whiteboard
