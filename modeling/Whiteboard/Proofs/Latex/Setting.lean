import Whiteboard.Proofs.Latex.Closed

namespace Whiteboard

open List
namespace Latex

open Whiteboard.Expr (IsName)

/-!
# Whole documents are set

A document of whole items is set in every layout, and its text is closed, unless text of the source is passed on
as it stands.  The places do not show in the text: in a file of another name the same text is set, and the
warnings are the same up to the file of their places.
-/

/-- Both stages come to a value, the second to that of the first after a change, and the value has the property. -/
abbrev Sets {α : Type} (change : α → α) (P : α → Prop) (first second : Except Fault α) : Prop :=
  Shares change P (fun _ => False) first second

namespace Sets

variable {α β : Type} {change : α → α} {P : α → Prop} {Q : β → Prop}

theorem cons {first second : Except Fault α} {rest rest' : Except Fault (List α)} (sets : Sets change P first second)
    (others : Sets (List.map change) (fun as => ∀ a ∈ as, P a) rest rest') :
    Sets (List.map change) (fun as => ∀ a ∈ as, P a)
      (first >>= fun a => rest >>= fun as => pure (a :: as)) (second >>= fun a => rest' >>= fun as => pure (a :: as)) :=
  sets.bind fun _ here => others.bind fun _ there => .ok rfl (forall_mem_cons.mpr ⟨here, there⟩)

theorem mapM {xs : List α} {g h : α → Except Fault β} (each : ∀ x ∈ xs, Sets id Q (g x) (h (change x))) :
    Sets id (fun ys => ∀ y ∈ ys, Q y) (xs.mapM g) ((xs.map change).mapM h) := by
  induction xs with
  | nil => exact .ok rfl (forall_mem_nil _)
  | cons x rest ih =>
    have sets := (each x mem_cons_self).cons
      (by rw [map_id_fun]; exact ih fun y member => each y (mem_cons_of_mem x member))
    rw [map_id_fun] at sets
    rw [map_cons, mapM_cons, mapM_cons]
    exact sets

end Sets

variable {d : Dialect} (f : String)

theorem sets_expr {e : Expr} (whole : e.Whole) (d : Dialect) (c : Context) :
    Sets id (Closed true) (expr d.style c e) (expr d.style (c.inFile f) (e.inFile f)) := by
  rw [whole.complete.written, (whole.complete.inFile f).written, marks_inFile]
  exact .ok rfl (closed_marks whole d c)

/-! ## Proofs -/

variable {inMath : Bool}

theorem Closed.ruleText (words : List String) : ∀ p ∈ Latex.ruleText words, Closed inMath p := by
  unfold Latex.ruleText
  split
  · exact forall_mem_nil _
  · exact forall_mem_singleton.mpr (.append (.fixed (by cbv)) (Closed.escapeText _).braced)

theorem Closed.ruleSymbol {word symbol : String} (known : Latex.ruleSymbol word = some symbol) :
    Closed inMath symbol := by
  unfold Latex.ruleSymbol at known
  rcases Option.map_eq_some_iff.mp known with ⟨s, found, rfl⟩
  have spelled := (Option.filter_eq_some_iff.mp found).1
  split at spelled
  · split at spelled
    · exact .symbol (Token.mem_table_of_ofWord spelled).1 true
    · exact .symbol (Token.mem_table_of_ofSpelling spelled).1 true
  · cases spelled

theorem Closed.ruleParts (pending words : List String) : ∀ p ∈ Latex.ruleParts pending words, Closed inMath p := by
  fun_induction Latex.ruleParts pending words with
  | case1 pending => exact .ruleText pending
  | case2 pending w rest symbol known ih =>
    exact forall_mem_append.mpr ⟨.ruleText pending, forall_mem_cons.mpr ⟨.ruleSymbol known, ih⟩⟩
  | case3 pending w rest _ ih => exact ih

/-- A justification may be any text. -/
theorem Closed.justification (text : String) : Closed inMath (Latex.justification text) :=
  .intercalate (.fixed (by cbv)) (.ruleParts [] _)

theorem Closed.rule (step : ProofStep) : Closed inMath (Latex.rule step) := by
  unfold Latex.rule
  split
  · exact .empty
  · refine .append (.append (.append (.fixed (by cbv)) (.justification _)) ?_) (.fixed (by cbv))
    split
    · exact .empty
    · have labels : Closed inMath (",".intercalate (step.discharge.map toString)) :=
        .intercalate (.fixed (by cbv)) (forall_mem_map.mpr fun n _ => .label n)
      exact .append (.fixed (by cbv)) labels.braced

theorem Closed.conclusion {formula : String} (closed : Closed inMath formula) (step : ProofStep) :
    Closed inMath (Latex.conclusion step formula) := by
  unfold Latex.conclusion
  split
  · exact .append (.append (.append (.fixed (by cbv)) closed) (.fixed (by cbv))) (Closed.label step.label).braced
  · exact closed

theorem Closed.premiseGap (t : ProofTree) : Closed inMath (Latex.premiseGap t) := by
  unfold Latex.premiseGap
  split
  · exact .append (.append (.fixed (by cbv)) (.count _)) (.fixed (by cbv))
  · exact .fixed (by cbv)

theorem isEmpty_trees (ts : List ProofTree) : (ProofTree.listInFile f ts).isEmpty = ts.isEmpty := by
  cases ts <;> rfl

mutual

theorem depth_inFile : (t : ProofTree) → (t.inFile f).depth = t.depth
  | .hole => rfl
  | .node step premises => by
    rw [ProofTree.inFile, ProofTree.depth, ProofTree.depth, deepest_inFile premises]

theorem deepest_inFile : (ts : List ProofTree) → ProofTree.deepest (ProofTree.listInFile f ts) = ProofTree.deepest ts
  | [] => rfl
  | t :: rest => by
    rw [ProofTree.listInFile, ProofTree.deepest, ProofTree.deepest, depth_inFile t, deepest_inFile rest]

end

theorem standsAlone_inFile (step : ProofStep) (premises : List ProofTree) :
    standsAlone (step.inFile f) (ProofTree.listInFile f premises) = standsAlone step premises := by
  rw [standsAlone, isEmpty_trees]
  rfl

theorem isCase_inFile (t : ProofTree) : (t.inFile f).step.isCase = t.step.isCase := by
  cases t with
  | hole => rfl
  | node => rfl

theorem premiseGap_inFile (t : ProofTree) : premiseGap (t.inFile f) = premiseGap t := by
  have cases_ : (t.inFile f).premises.any (·.step.isCase) = t.premises.any (·.step.isCase) := by
    cases t with
    | hole => rfl
    | node step premises =>
      rw [ProofTree.inFile, ProofTree.listInFile_eq]
      simp only [ProofTree.premises, any_map]
      exact congrArg premises.any (funext (isCase_inFile f))
  rw [premiseGap, premiseGap, cases_, depth_inFile]

/-- As a figure and as a case branch, the proof is set. -/
def SetsFigure (d : Dialect) (t : ProofTree) : Prop :=
  Sets id (Closed true) (proofTree d.style t) (proofTree d.style (t.inFile f)) ∧
    Sets id (Closed true) (caseBranch d.style t) (caseBranch d.style (t.inFile f))

theorem sets_proofPremises {premises : List ProofTree} (each : ∀ t ∈ premises, SetsFigure f d t) :
    Sets (List.map id) (fun parts => ∀ p ∈ parts, Closed true p) (proofPremises d.style premises)
      (proofPremises d.style (ProofTree.listInFile f premises)) := by
  induction premises with
  | nil =>
    rw [ProofTree.listInFile, proofPremises]
    exact .ok rfl (forall_mem_nil _)
  | cons t rest ih =>
    have others := ih fun u member => each u (mem_cons_of_mem t member)
    rw [ProofTree.listInFile, proofPremises, proofPremises, isCase_inFile]
    split
    · exact (each t mem_cons_self).2.cons others
    · exact (each t mem_cons_self).1.cons others

theorem sets_proofSteps {premises : List ProofTree} (each : ∀ t ∈ premises, SetsFigure f d t) :
    Sets (List.map id) (fun parts => ∀ p ∈ parts, Closed true p) (proofSteps d.style premises)
      (proofSteps d.style (ProofTree.listInFile f premises)) := by
  induction premises with
  | nil =>
    rw [ProofTree.listInFile, proofSteps]
    exact .ok rfl (forall_mem_nil _)
  | cons t rest ih =>
    rw [ProofTree.listInFile, proofSteps, proofSteps]
    exact (each t mem_cons_self).1.cons (ih fun u member => each u (mem_cons_of_mem t member))

theorem setsFigure_of_all {t : ProofTree} (all : t.All fun step => step.expr.Whole) (d : Dialect) :
    SetsFigure f d t := by
  induction all with
  | @node step premises whole _ each =>
    have formula := sets_expr f whole d {}
    constructor
    · have gap := premiseGap_inFile f (.node step premises)
      rw [ProofTree.inFile] at gap
      rw [ProofTree.inFile, proofTree, proofTree, gap, standsAlone_inFile]
      apply formula.bind
      intro text closed
      split
      · exact .ok rfl (closed.conclusion step)
      · apply (sets_proofPremises f each).bind
        intro above allClosed
        have premised : Closed true ((premiseGap (.node step premises)).intercalate above) :=
          .intercalate (.premiseGap _) allClosed
        refine .ok (by rw [map_id]; rfl) ?_
        exact .append (.append (.append (.fixed (by cbv)) (.rule step)) (closed.conclusion step).braced) premised.braced
    · rw [ProofTree.inFile, caseBranch, caseBranch, isEmpty_trees]
      apply formula.bind
      intro text closed
      have hypothesis : Closed true ("[" ++ command "mbox" "case" ++ "~" ++ text ++ "]") :=
        .append (.append (.fixed (by cbv)) closed) (.fixed (by cbv))
      split
      · exact .ok rfl hypothesis
      · apply (sets_proofSteps f each).bind
        intro steps allClosed
        have derived : Closed true (" \\quad ".intercalate steps) := .intercalate (.fixed (by cbv)) allClosed
        refine .ok (by rw [map_id]; rfl) ?_
        exact .append (.append (.fixed (by cbv)) derived.braced) hypothesis.braced

/-! ## Lines -/

theorem sets_declaration {decl : Declaration} (whole : decl.Whole) :
    Sets id (Closed true) (declaration d.style decl) (declaration d.style (decl.inFile f)) := by
  rw [declaration, declaration, Declaration.inFile]
  dsimp only
  rw [Expr.isHole_inFile, Expr.isHole_inFile]
  rcases whole with whole | ⟨absent, some, named, whole⟩
  · rw [whole.isHole_eq_false]
    exact sets_expr f whole d boxed
  · have listed : decl.names.isEmpty = false := by simpa using some
    rw [absent, listed, whole.isHole_eq_false]
    apply (sets_expr f whole d boxed).bind
    intro text closed
    exact .ok rfl (.append (.append (.names named d.style) (.fixed (by cbv))) closed)

theorem sets_branch {b : Branch} (whole : b.Whole) :
    Sets id (Closed true) (branch d.style b) (branch d.style (b.inFile f)) := by
  have named : Closed true (identifier d.style b.name) := .identifier (isPlain_of_isNameText whole.1) d.style
  rw [branch, branch, Branch.inFile]
  dsimp only
  rw [Expr.isHole_inFile]
  split
  · exact .ok rfl named
  next present =>
    apply (sets_expr f (whole.2 (eq_false_of_ne_true present)) d boxed).bind
    intro text closed
    exact .ok rfl (.append (.append (.append named (.fixed (by cbv))) closed) (.fixed (by cbv)))

theorem sets_zedLine {l : ZedLine} (whole : l.Whole) (loc : Location) :
    Sets id (fun line => Closed true line.2) (zedLine d.style loc l)
      (zedLine d.style (loc.inFile f) (l.inFile f)) := by
  obtain ⟨decl, e, also⟩ := l
  cases decl with
  | some decl => exact (sets_declaration f whole).bind fun _ closed => .ok rfl closed
  | none =>
    have whole : e.Whole := whole
    rw [zedLine, zedLine, ZedLine.inFile]
    dsimp only [Option.map_none]
    rw [Expr.isHole_inFile, whole.isHole_eq_false]
    exact (sets_expr f whole d boxed).bind fun _ closed => .ok rfl closed

theorem Closed.stackLines {lines : List (Bool × String)} (each : ∀ l ∈ lines, Closed true l.2) :
    Closed true (Latex.stackLines lines) := by
  cases lines with
  | nil => exact .empty
  | cons first rest =>
    refine (each first mem_cons_self).append (.join (forall_mem_map.mpr fun l member => ?_))
    refine .append ?_ (each l (mem_cons_of_mem first member))
    unfold lineGap
    split <;> exact .fixed (by cbv)

theorem Closed.generics {ns : List String} (named : ∀ n ∈ ns, IsName n) (st : Style) :
    Closed true (Latex.generics st ns) := by
  unfold Latex.generics
  split
  · exact .empty
  · exact .append (.append (.fixed (by cbv)) (.names named st)) (.fixed (by cbv))

theorem Closed.dropFirstLineEnd {t : String} (closed : Closed true t) : Closed true (Latex.dropFirstLineEnd t) := by
  unfold Latex.dropFirstLineEnd
  split
  next cs begins =>
    intro opened place rest
    have whole := closed opened place rest
    rw [begins, cons_append, Delimiter.read_plain (by decide)] at whole
    rw [String.toList_ofList]
    exact whole
  next => exact closed

theorem Closed.boxBody {declarations : List String} {predicates : List (Bool × String)}
    (declared : ∀ p ∈ declarations, Closed true p) (stated : ∀ l ∈ predicates, Closed true l.2) :
    Closed true (Latex.boxBody declarations predicates) := by
  refine .dropFirstLineEnd (.append (.intercalate (.fixed (by cbv)) declared) ?_)
  split
  · exact .empty
  · exact .append (.fixed (by cbv)) (.stackLines stated)

/-- Only boxes of a known kind have a header; the names of these kinds are plain. -/
theorem sets_boxHeader {kind : BoxKind} {name : String} (named : kind.Names name) (loc : Location) :
    Sets id (fun header => Closed true header.1 ∧ kind.name.toList.all isPlain = true)
      (boxHeader d.style kind name loc) (boxHeader d.style kind name (loc.inFile f)) := by
  cases kind with
  | schema =>
    have present : name.isEmpty = false := by
      rw [← Bool.not_eq_true, String.isEmpty_iff]
      rintro rfl
      cases named
    rw [boxHeader, boxHeader, present]
    exact .ok rfl ⟨(Closed.identifier (isPlain_of_isNameText named) d.style).braced, by cbv⟩
  | axdef | gendef => exact .ok rfl ⟨.empty, by cbv⟩
  | other => exact named.elim

/-! ## Blocks -/

theorem sets_equivStep {s : EquivStep} (whole : s.Whole) :
    Sets id (Closed true) (equivStep d.style s) (equivStep d.style (s.inFile f)) := by
  rw [equivStep, equivStep, EquivStep.inFile]
  apply (sets_expr f whole.1 d {}).bind
  intro formula closed
  have reason : Closed true (if s.justification.isEmpty then ""
      else " && [" ++ justification s.justification ++ "]") :=
    .ite .empty (.append (.append (.fixed (by cbv)) (.justification _)) (.fixed (by cbv)))
  dsimp only
  split
  · exact .ok rfl (.append (.append (.fixed (by cbv)) closed) reason)
  next present =>
    rcases whole.2 with empty | known
    · simp [empty] at present
    · rcases Option.isSome_iff_exists.mp known with ⟨symbol, found⟩
      have command : Closed true (symbol.command true) := .symbol (mem_table_of_lookup found) true
      rw [found]
      exact .ok rfl (.append (.append (.append (command.append (.braced .empty)) (.fixed (by cbv))) closed) reason)

theorem sets_tableRows {columns : Nat} {rows : List (List String)} (rectangular : ∀ row ∈ rows, row.length = columns)
    (loc : Location) (number : Nat) :
    Sets id (fun lines => ∀ l ∈ lines, Closed false l) (tableRows loc columns number rows)
      (tableRows (loc.inFile f) columns number rows) := by
  induction rows generalizing number with
  | nil => exact .ok rfl (forall_mem_nil _)
  | cons row rest ih =>
    have width : (row.length != columns) = false := by simp [rectangular row mem_cons_self]
    rw [tableRows, tableRows, width]
    apply (ih (fun other member => rectangular other (mem_cons_of_mem row member)) (number + 1)).bind
    intro others allClosed
    have cells : Closed false (" & ".intercalate (row.map escapeText)) :=
      .intercalate (.fixed (by cbv)) (forall_mem_map.mpr fun cell _ => .escapeText cell)
    exact .ok rfl (forall_mem_cons.mpr ⟨cells.append (.fixed (by cbv)), allClosed⟩)

theorem sets_truthTable {header : List Expr} {rows : List (List String)} (some : header ≠ [])
    (whole : ∀ e ∈ header, e.Whole) (rectangular : ∀ row ∈ rows, row.length = header.length) (loc : Location) :
    Sets id (Closed false) (truthTable d.style loc header rows)
      (truthTable d.style (loc.inFile f) (header.map (Expr.inFile f)) rows) := by
  have nonempty : header.isEmpty = false := by simpa using some
  rw [truthTable, truthTable, isEmpty_map, length_map, nonempty]
  apply (Sets.mapM fun e member => sets_expr f (whole e member) d {}).bind
  intro columns allClosed
  apply (sets_tableRows f rectangular loc 1).bind
  intro lines linesClosed
  have widths : Closed false ("|" ++ Text.repeated header.length "c|") :=
    .append (.fixed (by cbv)) (.join fun p member =>
      eq_of_mem_replicate member ▸ .fixed (by cbv))
  have cells : Closed false (" & ".intercalate (columns.map (fun s => "$" ++ s ++ "$"))) :=
    .intercalate (.fixed (by cbv)) (forall_mem_map.mpr fun column member => (allClosed column member).dollars)
  have table : Closed false (braced ("|" ++ Text.repeated header.length "c|") ++ "\n\\hline\n" ++
      " & ".intercalate (columns.map (fun s => "$" ++ s ++ "$")) ++ " \\\\\n\\hline\n" ++ String.join lines ++
      "\\hline\n") :=
    .append (.append (.append (.append (widths.braced.append (.fixed (by cbv))) cells)
      (.fixed (by cbv))) (.join linesClosed)) (.fixed (by cbv))
  have tabular := table.enclosed (by cbv : "tabular".toList.all isPlain = true)
  refine .ok rfl (.environment (by cbv) .empty ?_)
  simpa only [String.append_assoc] using tabular

theorem Closed.freeType {lay : Layout} {name : String} (named : IsName name) {parts : List String}
    (each : ∀ p ∈ parts, Closed true p) : Closed true (Latex.freeType lay name parts) := by
  have head : Closed true (Latex.identifier lay.dialect.style name ++ " ::= ") :=
    .append (.identifier (isPlain_of_isNameText named) _) (.fixed (by cbv))
  unfold Latex.freeType
  dsimp only
  split
  · refine head.append (.intercalate ?_ each)
    exact .append (.append (.fixed (by cbv)) (.tab 1)) (.fixed (by cbv))
  · exact head.append (.intercalate (.fixed (by cbv)) each)

variable {verbatim : Prop}

theorem sets_segment {kind : TextKind} {s : Segment} (raw : kind = .latex → verbatim)
    (whole : s.Whole kind) (loc : Location) :
    Sets id (fun text => ¬verbatim → Closed false text) (segment d.style kind loc s)
      (segment d.style kind (loc.inFile f) (s.inFile f)) := by
  rw [segment, segment, Segment.inFile]
  dsimp only
  rw [Expr.isHole_inFile]
  cases present : s.math.isHole with
  | false =>
    rcases whole present with ⟨rfl, formula⟩
    apply (sets_expr f formula d {}).bind
    exact fun math closed => .ok rfl fun _ => closed.dollars
  | true =>
    refine .ok rfl fun escaped => ?_
    show Closed false (if kind == .latex then s.text else escapeText s.text)
    rw [if_neg (by simpa using fun same => escaped (raw same))]
    exact .escapeText s.text

theorem Closed.headingText (level : Heading) (title : String) : Closed false (Latex.headingText level title) := by
  cases level <;> exact .append (.fixed (by cbv)) (Closed.escapeText _).braced

/-! ## Items -/

theorem Closed.joinItems {parts : List Rendered} (each : ∀ p ∈ parts, Closed false p.text) :
    Closed false (Latex.joinItems parts).text :=
  .intercalate (.fixed (by cbv)) (forall_mem_map.mpr each)

/-- Only the place of a width warning depends on the place of the item. -/
theorem checked_inFile (lay : Layout) (what : String) (loc : Location) (text : String) :
    checked lay what (loc.inFile f) text = (checked lay what loc text).inFile f := by
  rw [checked, checked, Rendered.inFile]
  congr 1
  unfold widthWarnings
  split
  · rfl
  · rw [map_map]
    rfl

theorem joinItems_inFile (parts : List Rendered) :
    joinItems (parts.map (Rendered.inFile f)) = (joinItems parts).inFile f := by
  have texts : (parts.map (Rendered.inFile f)).map (·.text) = parts.map (·.text) := by
    rw [map_map]
    rfl
  have warnings : (parts.map (Rendered.inFile f)).flatMap (·.warnings) =
      (parts.flatMap (·.warnings)).map (Warning.inFile f) := by
    rw [flatMap_map, map_flatMap]
    rfl
  rw [joinItems, joinItems, texts, warnings]
  rfl

/-- The rendering of an item, or of items, in the files of both names; it is closed unless text is passed on. -/
def SetsItem (verbatim : Prop) (lay : Layout) (i : Item) : Prop :=
  Sets (Rendered.inFile f) (fun r => ¬verbatim → Closed false r.text) (item lay i) (item lay (i.inFile f))

theorem sets_itemList {lay : Layout} {items : List Item} (each : ∀ i ∈ items, SetsItem f verbatim lay i) :
    Sets (List.map (Rendered.inFile f)) (fun rs => ∀ r ∈ rs, ¬verbatim → Closed false r.text)
      (itemList lay items) (itemList lay (Item.listInFile f items)) := by
  induction items with
  | nil =>
    rw [Item.listInFile, itemList]
    exact .ok rfl (forall_mem_nil _)
  | cons i rest ih =>
    rw [Item.listInFile, itemList, itemList]
    exact (each i mem_cons_self).cons (ih fun j member => each j (mem_cons_of_mem i member))

theorem Closed.zed {body : String} (closed : Closed true body) : Closed false (Latex.environment "zed" "" body) :=
  .environment (by cbv) .empty closed.weaken

/-- A whole item is set in every layout, alike in every file. -/
theorem sets_item {i : Item} (whole : i.Whole verbatim) (lay : Layout) : SetsItem f verbatim lay i := by
  unfold SetsItem
  induction whole with
  | @heading level title items loc _ each =>
    rw [Item.inFile, item, item]
    apply (sets_itemList f each).bind
    intro parts allClosed
    have head := Closed.headingText level title
    dsimp only
    rw [joinItems_inFile]
    refine .ok rfl fun escaped => ?_
    have body : Closed false (joinItems parts).text := .joinItems fun p member => allClosed p member escaped
    exact .ite head (.append (head.append (.fixed (by cbv))) body)
  | truthTable some whole rectangular =>
    rw [Item.inFile, item, item]
    apply (sets_truthTable f some whole rectangular _).bind
    exact fun _ closed => .ok rfl fun _ => closed
  | equivChain some whole =>
    rw [Item.inFile, item, item, isEmpty_map, if_neg (by simpa using some), if_neg (by simpa using some)]
    apply (Sets.mapM fun s member => sets_equivStep f (whole s member)).bind
    intro lines allClosed
    have body : Closed true (" \\\\\n".intercalate lines) := .intercalate (.fixed (by cbv)) allClosed
    exact .ok rfl fun _ => .environment (by cbv) .empty body.weaken
  | proof all =>
    rw [Item.inFile, Option.map_some, item, item]
    apply (setsFigure_of_all f all lay.dialect).1.bind
    intro figure closed
    exact .ok rfl fun _ => .append (.append (.fixed (by cbv)) closed.weaken) (.fixed (by cbv))
  | givenType some named =>
    rw [Item.inFile, item, item, if_neg (by simpa using some), if_neg (by simpa using some)]
    refine .ok (checked_inFile f lay _ _ _) fun _ => .zed ?_
    exact .append (.append (.fixed (by cbv)) (.names named _)) (.fixed (by cbv))
  | freeType named some whole =>
    rw [Item.inFile, item, item, isEmpty_map, if_neg (by simpa using some), if_neg (by simpa using some)]
    apply (Sets.mapM fun b member => sets_branch f (whole b member)).bind
    intro parts allClosed
    exact .ok (checked_inFile f lay _ _ _) fun _ => .zed (.freeType named allClosed)
  | abbreviation named generics whole =>
    rw [Item.inFile, item, item]
    apply (sets_expr f whole lay.dialect boxed).bind
    intro term closed
    have defined := (Closed.identifier (isPlain_of_isNameText named) lay.dialect.style).append
      (.generics generics lay.dialect.style)
    exact .ok (checked_inFile f lay _ _ _) fun _ => .zed (.append (defined.append (.fixed (by cbv))) closed)
  | @box kind name generics declarations predicates loc named generic declared stated =>
    rw [Item.inFile, item, item]
    apply (sets_boxHeader f named loc).bind
    rintro ⟨header, what⟩ ⟨headed, plain⟩
    apply (Sets.mapM fun decl member => sets_declaration f (declared decl member)).bind
    intro decls declsClosed
    have predicate : ∀ p ∈ predicates, Sets id (fun l : Bool × String => Closed true l.2)
        (expr lay.dialect.style boxed p.expr >>= fun text => pure (p.also, text))
        (expr lay.dialect.style boxed (p.inFile f).expr >>= fun text => pure ((p.inFile f).also, text)) :=
      fun p member => (sets_expr f (stated p member) lay.dialect boxed).bind fun _ closed => .ok rfl closed
    apply (Sets.mapM predicate).bind
    intro preds predsClosed
    refine .ok (checked_inFile f lay _ _ _) fun _ => ?_
    exact .environment plain (headed.append (.generics generic _)).weaken
      (Closed.boxBody declsClosed predsClosed).weaken
  | zedBlock whole =>
    rw [Item.inFile, item, item]
    apply (Sets.mapM fun l member => sets_zedLine f (whole l member) _).bind
    intro lines allClosed
    exact .ok (checked_inFile f lay _ _ _) fun _ => .zed (.stackLines allClosed)
  | text raw whole =>
    rw [Item.inFile, item, item]
    apply (Sets.mapM fun s member => sets_segment f raw (whole s member) _).bind
    intro parts allClosed
    exact .ok rfl fun escaped => .join fun p member => allClosed p member escaped
  | formula whole =>
    rw [Item.inFile, item, item, Expr.isHole_inFile, whole.isHole_eq_false]
    apply (sets_expr f whole lay.dialect {}).bind
    intro formula closed
    exact .ok rfl fun _ => .append (.append (.fixed (by cbv)) closed.weaken) (.fixed (by cbv))
  | pageBreak =>
    rw [Item.inFile, item, item]
    exact .ok rfl fun _ => Closed.fixed (by cbv)

/-! ## Documents -/

theorem Closed.standalone {body : String} (closed : Closed false body) (d : Dialect) :
    Closed false (Latex.standalone d.style body) := by
  have lineEnd : Closed false "\n" := .fixed (by cbv)
  have lineEnds : Closed false "\n\n" := .fixed (by cbv)
  have package {name : String} (plain : name.toList.all isPlain = true) : Closed false (command "usepackage" name) :=
    .append (.fixed (by cbv)) (Closed.plain plain).braced
  have packages : (d.style.packages.all fun p => p.toList.all isPlain) = true :=
    @holds_style (fun st => (st.packages.all fun p => p.toList.all isPlain) = true) (by cbv) (by cbv) d
  have loaded : Closed false (String.join (d.style.packages.map (fun p => command "usepackage" p ++ "\n"))) :=
    .join (forall_mem_map.mpr fun p member =>
      (package (all_eq_true.mp packages p member)).append lineEnd)
  have front := ((((Closed.append (.fixed (by cbv : closes 0 (command "documentclass" "article").toList = true))
    lineEnd).append loaded).append (package (by cbv : "proof".toList.all isPlain = true))).append lineEnd).append
    (package (by cbv : "amsmath".toList.all isPlain = true))
  have inside : Closed false ("\n\n" ++ (if body.isEmpty then "" else body ++ "\n\n")) := by
    refine lineEnds.append ?_
    split
    · exact .empty
    · exact closed.append lineEnds
  have document := inside.enclosed (by cbv : "document".toList.all isPlain = true)
  have whole := ((front.append lineEnds).append document).append lineEnd
  simpa only [Latex.standalone, String.append_assoc] using whole

/-- A document of whole items is set in every layout, alike in every file. -/
theorem sets_document {doc : Document} (whole : ∀ i ∈ doc, i.Whole verbatim) (lay : Layout) :
    Sets (Rendered.inFile f) (fun r => ¬verbatim → WellBracketed r.text) (doc.render lay)
      (Document.render lay (doc.map (Item.inFile f))) := by
  rw [← Item.listInFile_eq]
  apply (sets_itemList f fun i member => sets_item f (whole i member) lay).bind
  intro parts allClosed
  dsimp only
  rw [joinItems_inFile]
  refine .ok rfl fun escaped => ?_
  have body := Closed.joinItems fun p member => allClosed p member escaped
  show WellBracketed (if lay.standalone then standalone lay.dialect.style (joinItems parts).text
    else if (joinItems parts).text.isEmpty then "" else (joinItems parts).text ++ "\n")
  split
  · exact (body.standalone lay.dialect).wellBracketed
  · split
    · rfl
    · exact (body.append (.fixed (by cbv))).wellBracketed

theorem succeeds_render {doc : Document} (whole : ∀ i ∈ doc, i.Whole verbatim) (lay : Layout) :
    ∃ rendered, Document.render lay doc = .ok rendered := by
  cases set : doc.render lay with
  | error fault => exact ((sets_document "" whole lay).yields.fault set).elim
  | ok rendered => exact ⟨rendered, rfl⟩

end Latex
end Whiteboard
