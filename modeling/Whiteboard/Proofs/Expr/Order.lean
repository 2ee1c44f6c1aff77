import Whiteboard.Proofs.Document.Walk
import Whiteboard.Proofs.Expr.Listing

namespace Whiteboard

open List hiding set

/-!
# The order of the literals

As they are read, the literals of an expression are in the order of its source.  A walk visits them in that order
as long as it does not go back: it comes twice to the operand that two relations share, and to a superscript before the
subscript in front of it.
-/

/-- The one place is not behind the other. -/
def Location.Precedes (a b : Location) : Prop := a.line < b.line ∨ (a.line = b.line ∧ a.column ≤ b.column)

theorem Location.precedes_of_not {a b : Location} (strict : ¬b.Precedes a) : a.Precedes b := by
  unfold Precedes at strict ⊢
  omega

/-- Where the node is, if it is a literal. -/
def Node.literalPlace : Node → Option Location
  | expr (.literal _ _ loc) => some loc
  | _ => none

namespace Expr

/-- The places of the literals in the order of a walk. -/
def literalPlaces (e : Expr) : List Location := e.nodes.filterMap Node.literalPlace

/-- The places of the literals as they are read, a subscript with its name and a shared operand once. -/
def readPlaces (e : Expr) : List Location := e.cues.flatMap (·.places)

/-- The walk does not go back: the operand that two relations share has its literals at one place, and a superscript
behind a subscript has none. -/
def GoesOn : Expr → Prop
  | binary _ _ _ (binary _ _ middle _ _ _ _) _ true _ =>
    ∀ a ∈ middle.literalPlaces, ∀ b ∈ middle.literalPlaces, a.Precedes b
  | script _ super sub _ => super.literalPlaces = [] ∨ sub.literalPlaces = []
  | _ => True

theorem literalPlaces_eq (e : Expr) : e.literalPlaces =
    (Node.literalPlace (.expr e)).toList ++ e.slots.flatMap literalPlaces := by
  cases e with
  | hole => rfl
  | _ =>
    rw [literalPlaces, nodes_eq_cons rfl, filterMap_cons, filterMap_flatMap]
    rfl

theorem literalPlaces_binary (op surface : String) (left right : Expr) (breakAfter chained : Bool) (loc : Location) :
    (binary op surface left right breakAfter chained loc).literalPlaces =
      left.literalPlaces ++ right.literalPlaces := by
  rw [literalPlaces_eq]
  simp [slots, Node.literalPlace]

theorem literalPlaces_script (base super sub : Expr) (loc : Location) : (script base super sub loc).literalPlaces =
    base.literalPlaces ++ (super.literalPlaces ++ sub.literalPlaces) := by
  rw [literalPlaces_eq]
  simp [slots, Node.literalPlace]

/-- The places of different tokens are apart, and those of one token are the same. -/
def Ordered (cues : List Cue) : Prop :=
  cues.Pairwise (fun c d => ∀ a ∈ c.places, ∀ b ∈ d.places, ¬b.Precedes a) ∧
    ∀ c ∈ cues, ∀ a ∈ c.places, ∀ b ∈ c.places, a.Precedes b

theorem Ordered.sublist {cues more : List Cue} (ordered : Ordered more) (part : cues <+ more) : Ordered cues :=
  ⟨ordered.1.sublist part, fun c member => ordered.2 c (part.subset member)⟩

theorem Ordered.apart {front back : List Cue} (ordered : Ordered (front ++ back)) {a b : Location}
    (first : a ∈ front.flatMap (·.places)) (second : b ∈ back.flatMap (·.places)) : ¬b.Precedes a := by
  rcases mem_flatMap.mp first with ⟨c, inFront, atC⟩
  rcases mem_flatMap.mp second with ⟨d, inBack, atD⟩
  exact (pairwise_append.mp ordered.1).2.2 c inFront d inBack a atC b atD

/-! ## Slots -/

/-- The cues of the slots follow each other, except in a chain and behind a subscript. -/
def isPlain : Expr → Bool
  | literal .. | script .. => false
  | binary _ _ _ _ _ chained _ => !chained
  | _ => true

theorem listCues_eq_flatMap (es : List Expr) : listCues es = es.flatMap cues := by
  induction es with
  | nil => rfl
  | cons e es ih => rw [listCues, ih, flatMap_cons]

theorem domains_sublist (gs : List (Binding Expr)) : (gs.map (·.domain)).flatMap cues <+ groupCues gs := by
  induction gs with
  | nil => exact .slnil
  | cons b gs ih =>
    rcases b with ⟨names, domain, loc⟩
    rw [map_cons, flatMap_cons, groupCues]
    exact ((Sublist.refl _).append ih).trans ((sublist_append_right _ _).trans (sublist_append_right _ _))

theorem slots_sublist {e : Expr} (plain : e.isPlain = true) : e.slots.flatMap cues <+ e.cues := by
  cases e with
  | literal | script => cases plain
  | hole => exact .slnil
  | unary _ _ _ trailing => cases trailing <;> simp [slots, cues]
  | binary _ _ left right _ chained _ =>
    cases chained with
    | true => cases plain
    | false => cases right <;> simp [slots, cues]
  | quantifier _ _ gs such body =>
    simp only [slots, cues, flatMap_append, flatMap_cons, flatMap_nil, append_nil]
    exact ((domains_sublist gs).append (.refl _)).trans (sublist_cons_self _ _)
  | comprehension gs such body =>
    simp only [slots, cues, flatMap_append, flatMap_cons, flatMap_nil, append_nil]
    exact (domains_sublist gs).append (.refl _)
  | conditional condition yes no =>
    simp only [slots, cues, flatMap_cons, flatMap_nil, append_nil]
    exact ((Sublist.refl _).append (((Sublist.refl _).append (sublist_cons_self _ _)).trans
      (sublist_cons_self _ _))).trans (sublist_cons_self _ _)
  | collection | tuple | projection | range | application | instantiation | image =>
    simp [slots, cues, listCues_eq_flatMap]

/-- A relation or a chain of them ends with its last operand. -/
theorem ends_with_lastOperand {left middle : Expr} (last : Latex.lastOperand left = some middle) :
    (∃ front, left.cues = front ++ middle.cues) ∧ ∃ front, left.literalPlaces = front ++ middle.literalPlaces := by
  unfold Latex.lastOperand at last
  split at last
  next =>
    cases last
    rw [literalPlaces_binary, literalPlaces_binary, ← append_assoc]
    exact ⟨⟨_, append_cons ..⟩, _, rfl⟩
  next _ _ _ operand _ _ =>
    split at last
    next =>
      cases last
      rw [literalPlaces_binary]
      exact ⟨⟨_, by cases middle <;> exact append_cons ..⟩, _, rfl⟩
    next => cases last
  next => cases last

/-- How the slots of an expression that is read lie in it. -/
inductive Placement : Expr → Prop
  | literal {kind value loc} : Placement (.literal kind value loc)
  | plain {e} : e.isPlain = true → Placement e
  | script {base super sub loc} : Placement (.script base super sub loc)
  | chain {op surface left relation surface' middle right breakAfter' loc' breakAfter loc} :
      Latex.lastOperand left = some middle →
      Placement (.binary op surface left (.binary relation surface' middle right breakAfter' false loc') breakAfter true
        loc)

theorem placement_of_linked {e : Expr} (linked : Repeats e ∧ Single e) : Placement e := by
  cases e with
  | literal => exact .literal
  | script => exact .script
  | binary _ _ _ right _ chained _ =>
    cases chained with
    | false => exact .plain rfl
    | true =>
      cases right with
      | binary _ _ _ _ _ inner _ =>
        cases linked.2
        exact .chain linked.1
      | _ => cases linked.1
  | _ => exact .plain rfl

/-- A relation that two relations share an operand with is read up to its end. -/
theorem chain_sublist {left middle right : Expr} (last : Latex.lastOperand left = some middle)
    (op surface relation surface' : String) (breakAfter breakAfter' : Bool) (loc loc' : Location) :
    (binary relation surface' middle right breakAfter' false loc').cues <+
      (binary op surface left (binary relation surface' middle right breakAfter' false loc') breakAfter true
        loc).cues := by
  obtain ⟨⟨front, ends⟩, _⟩ := ends_with_lastOperand last
  have inner : (binary relation surface' middle right breakAfter' false loc').cues =
      middle.cues ++ ⟨.operator relation (some surface'), .infixed, [], some breakAfter'⟩ :: right.cues := by
    cases right <;> rfl
  rw [cues, inner, ends, append_assoc]
  exact sublist_append_right ..

/-! ## Scripts -/

/-- A superscript is read behind the subscript. -/
theorem readPlaces_script (base super sub : Expr) (loc : Location) : (script base super sub loc).readPlaces =
    (base.readPlaces ++ sub.readPlaces) ++ super.readPlaces := by
  have raised : (if super.isHole then [] else { sign := .operator "sup" none } :: super.cues).flatMap (·.places) =
      super.readPlaces := by
    cases super <;> rfl
  rw [readPlaces, cues.eq_def]
  dsimp only
  rw [flatMap_append, raised]
  split
  next => rfl
  next => exact congrArg (· ++ super.readPlaces) flatMap_append

theorem Ordered.script {base super sub : Expr} {loc : Location} (ordered : Ordered (script base super sub loc).cues) :
    (Ordered base.cues ∧ Ordered super.cues ∧ Ordered sub.cues) ∧
      (∀ a ∈ base.readPlaces, ∀ b ∈ sub.readPlaces, a.Precedes b) ∧
      ∀ a ∈ base.readPlaces ++ sub.readPlaces, ∀ b ∈ super.readPlaces, ¬b.Precedes a := by
  have raised : super.cues <+ if super.isHole then [] else { sign := .operator "sup" none } :: super.cues := by
    cases super with
    | hole => exact .slnil
    | _ => exact sublist_cons_self ..
  rw [cues.eq_def] at ordered
  dsimp only at ordered
  replace ordered := ordered.sublist ((Sublist.refl _).append raised)
  have behind := ordered.sublist (sublist_append_right ..)
  split at ordered
  next =>
    -- The name and its index are one token.
    have same := ordered.2 _ mem_cons_self
    simp only [mem_cons, not_mem_nil, or_false, forall_eq_or_imp, forall_eq] at same
    refine ⟨⟨?_, behind, ?_⟩, ?_, fun a first b second => ordered.apart first second⟩
    · simpa [Ordered, cues] using same.1.1
    · simpa [Ordered, cues] using same.2.2
    · simpa [readPlaces, cues] using same.1.2
  next =>
    have front := ordered.sublist (sublist_append_left ..)
    refine ⟨⟨front.sublist (sublist_append_left ..), behind, front.sublist (sublist_append_right ..)⟩, ?_, ?_⟩
    · exact fun a first b second => Location.precedes_of_not (front.apart first second)
    · intro a first b second
      rw [readPlaces, readPlaces, ← flatMap_append] at first
      exact ordered.apart first second

/-! ## What a walk visits -/

/-- A slot is read with its expression, and in a script it may share a token with another. -/
theorem slot_sublist {e slot : Expr} (linked : Repeats e ∧ Single e) (member : slot ∈ e.slots) :
    slot.cues <+ e.cues ∨ ∃ base super sub loc, e = script base super sub loc ∧ slot ∈ [base, super, sub] := by
  cases placement_of_linked linked with
  | literal => cases member
  | plain plain => exact .inl ((sublist_flatten_of_mem (mem_map_of_mem member)).trans (slots_sublist plain))
  | script => exact .inr ⟨_, _, _, _, rfl, member⟩
  | chain last =>
    rcases mem_pair.mp member with rfl | rfl
    · exact .inl (sublist_append_left ..)
    · exact .inl (chain_sublist last ..)

theorem readPlaces_subset {e slot : Expr} (linked : Repeats e ∧ Single e) (member : slot ∈ e.slots) :
    slot.readPlaces ⊆ e.readPlaces := by
  rcases slot_sublist linked member with part | ⟨base, super, sub, loc, rfl, scripted⟩
  · exact fun a there => mem_flatMap.mpr ((mem_flatMap.mp there).imp fun _ => And.imp_left fun read => part.subset read)
  · intro a there
    rw [readPlaces_script]
    simp only [mem_cons, not_mem_nil, or_false] at scripted
    rcases scripted with rfl | rfl | rfl <;> simp [there]

theorem Ordered.slot {e slot : Expr} (linked : Repeats e ∧ Single e) (ordered : Ordered e.cues)
    (member : slot ∈ e.slots) : Ordered slot.cues := by
  rcases slot_sublist linked member with part | ⟨base, super, sub, loc, rfl, scripted⟩
  · exact ordered.sublist part
  · have ⟨⟨first, second, third⟩, _⟩ := ordered.script
    simp only [mem_cons, not_mem_nil, or_false] at scripted
    rcases scripted with rfl | rfl | rfl <;> assumption

/-- What a walk visits was read. -/
theorem literalPlaces_subset {e : Expr} (links : e.Links) : e.literalPlaces ⊆ e.readPlaces := by
  induction e using slotInduction with
  | step e each =>
    rcases links_iff.mp links with ⟨linked, slots⟩
    intro a visited
    rw [literalPlaces_eq] at visited
    rcases mem_append.mp visited with here | deeper
    · cases e with
      | literal => exact here
      | _ => cases here
    · rcases mem_flatMap.mp deeper with ⟨slot, member, there⟩
      exact readPlaces_subset linked member (each slot member (slots slot member) there)

/-! ## One step of a walk -/

/-- The places are one behind the other. -/
abbrev Ascends (places : List Location) : Prop := places.Pairwise Location.Precedes

theorem goesOn_of_isPlain {e : Expr} (plain : e.isPlain = true) : e.GoesOn := by
  cases e with
  | binary _ _ _ right _ chained _ =>
    cases chained with
    | true => cases plain
    | false => cases right <;> trivial
  | script => cases plain
  | _ => trivial

/-- Slots that are read one after the other. -/
theorem ascends_plain {e : Expr} (plain : e.isPlain = true) (links : e.Links) (ordered : Ordered e.cues) :
    Ascends e.literalPlaces ↔ ∀ slot ∈ e.slots, Ascends slot.literalPlaces := by
  have here : (Node.literalPlace (.expr e)).toList = [] := by
    cases e with
    | literal => cases plain
    | _ => rfl
  have read := (ordered.sublist (slots_sublist plain)).1
  rw [pairwise_flatMap] at read
  have apart : e.slots.Pairwise fun s t => ∀ a ∈ s.literalPlaces, ∀ b ∈ t.literalPlaces, a.Precedes b := by
    refine read.2.imp_of_mem fun {s t} first second strict a visited b visited' => ?_
    have within {slot} (member : slot ∈ e.slots) := literalPlaces_subset ((links_iff.mp links).2 slot member)
    rcases mem_flatMap.mp (within first visited) with ⟨c, inS, atC⟩
    rcases mem_flatMap.mp (within second visited') with ⟨d, inT, atD⟩
    exact Location.precedes_of_not (strict c inS d inT a atC b atD)
  rw [literalPlaces_eq, here, nil_append, Ascends, pairwise_flatMap]
  exact and_iff_left apart

/-- The operand that two relations share is visited twice. -/
theorem ascends_append_shared {left middle right : Expr} (last : Latex.lastOperand left = some middle)
    (apart : ∀ a ∈ left.literalPlaces, ∀ b ∈ right.literalPlaces, a.Precedes b) :
    Ascends (left.literalPlaces ++ (middle.literalPlaces ++ right.literalPlaces)) ↔
      (∀ a ∈ middle.literalPlaces, ∀ b ∈ middle.literalPlaces, a.Precedes b) ∧ Ascends left.literalPlaces ∧
        Ascends (middle.literalPlaces ++ right.literalPlaces) := by
  obtain ⟨_, front, ends⟩ := ends_with_lastOperand last
  rw [Ascends, pairwise_append]
  constructor
  · grind
  · grind

/-- A superscript is visited before the subscript in front of it. -/
theorem ascends_script {base super sub : Expr} {loc : Location} (links : (script base super sub loc).Links)
    (ordered : Ordered (script base super sub loc).cues) : Ascends (script base super sub loc).literalPlaces ↔
      (super.literalPlaces = [] ∨ sub.literalPlaces = []) ∧
        ∀ slot ∈ (script base super sub loc).slots, Ascends slot.literalPlaces := by
  obtain ⟨_, level, raised⟩ := ordered.script
  have read {slot} (member : slot ∈ [base, super, sub]) := literalPlaces_subset ((links_iff.mp links).2 slot member)
  have readBase := read mem_cons_self
  have readSuper := read (mem_cons_of_mem _ mem_cons_self)
  have readSub := read (mem_cons_of_mem _ (mem_cons_of_mem _ mem_cons_self))
  have across : ∀ a ∈ base.literalPlaces, ∀ b ∈ super.literalPlaces ++ sub.literalPlaces, a.Precedes b := by
    grind [Location.precedes_of_not, mem_append_left]
  have back : (∀ a ∈ super.literalPlaces, ∀ b ∈ sub.literalPlaces, a.Precedes b) ↔
      super.literalPlaces = [] ∨ sub.literalPlaces = [] := by
    constructor
    · intro forward
      by_contra both
      obtain ⟨some, some'⟩ := not_or.mp both
      obtain ⟨a, above⟩ := exists_mem_of_ne_nil _ some
      obtain ⟨b, below⟩ := exists_mem_of_ne_nil _ some'
      exact raised b (mem_append_right _ (readSub below)) a (readSuper above) (forward a above b below)
    · rintro (none | none) <;> simp [none]
  simp only [literalPlaces_script, Ascends, pairwise_append, back, slots, forall_mem_cons, not_mem_nil,
    IsEmpty.forall_iff, implies_true, and_true]
  tauto

theorem ascends_step {e : Expr} (links : e.Links) (ordered : Ordered e.cues) :
    Ascends e.literalPlaces ↔ e.GoesOn ∧ ∀ slot ∈ e.slots, Ascends slot.literalPlaces := by
  rcases links_iff.mp links with ⟨linked, slotLinks⟩
  cases placement_of_linked linked with
  | literal => exact ⟨fun _ => ⟨trivial, by simp [slots]⟩, fun _ => pairwise_singleton ..⟩
  | plain plain =>
    rw [ascends_plain plain links ordered]
    exact (and_iff_right (goesOn_of_isPlain plain)).symm
  | script => exact ascends_script links ordered
  | @chain _ _ left _ _ middle right _ _ _ _ last =>
    have inner := (links_iff.mp (slotLinks _ (mem_cons_of_mem _ mem_cons_self))).2
    have apart : ∀ a ∈ left.literalPlaces, ∀ b ∈ right.literalPlaces, a.Precedes b := by
      intro a visited b later
      have first := literalPlaces_subset (slotLinks _ mem_cons_self) visited
      have second := literalPlaces_subset (inner _ (mem_cons_of_mem _ mem_cons_self)) later
      exact Location.precedes_of_not (ordered.apart first (mem_append_right [] second))
    simp only [literalPlaces_binary, ascends_append_shared last apart, slots, forall_mem_cons, not_mem_nil,
      IsEmpty.forall_iff, implies_true, and_true]
    rfl

/-- A walk visits the literals in the order in which they are read if and only if it goes on in every part. -/
theorem ascends_iff {e : Expr} (links : e.Links) (ordered : Ordered e.cues) :
    Ascends e.literalPlaces ↔ ∀ part, PartOf part e → part.GoesOn := by
  induction e using slotInduction with
  | step e each =>
    rcases links_iff.mp links with ⟨linked, slotLinks⟩
    rw [ascends_step links ordered, forall_partOf_iff]
    refine and_congr_right fun _ => forall₂_congr fun slot member => ?_
    exact each slot member (slotLinks slot member) (ordered.slot linked member)

end Expr

/-! ## Sources -/

namespace Parse

/-- The places of the signs are those of the tokens, which stand in their order. -/
theorem Lists.ordered {place : Token → Location} {held pending : Bool} {closers : List String} {cues : List Cue}
    {toks : List Token} (lists : Lists place held pending closers cues toks)
    (apart : toks.Pairwise fun s t => isSignificant s = true → ¬(place t).Precedes (place s)) :
    Expr.Ordered cues ∧ ∀ cue ∈ cues, ∀ loc ∈ cue.places, ∃ t ∈ toks, loc = place t := by
  induction lists with
  | nil => exact ⟨⟨.nil, by simp⟩, by simp⟩
  | line _ _ _ ih | delimiter _ _ _ ih => grind
  | @sign _ _ _ cue cues t toks shows here _ _ ih =>
    obtain ⟨before, others⟩ := pairwise_cons.mp apart
    have ⟨⟨strict, same⟩, placed⟩ := ih others
    refine ⟨⟨pairwise_cons.mpr ⟨fun d member a first b second => ?_, strict⟩, forall_mem_cons.mpr ⟨?_, same⟩⟩, ?_⟩
    · obtain ⟨u, later, rfl⟩ := placed d member b second
      rw [here a first]
      exact before u later shows.isSignificant
    · intro a first b second
      rw [here a first, here b second]
      exact .inr ⟨rfl, Int.le_refl _⟩
    · grind

end Parse

namespace Token.Reading

/-- Signs of a source stand one behind the other. -/
theorem strictly_ascending (r : Reading) {source : String} {toks : List Token} (read : r.tokens source = .ok toks) :
    toks.Pairwise fun s t => Parse.isSignificant s = true →
      ∀ file, ¬Location.Precedes ⟨file, t.line, t.column⟩ ⟨file, s.line, s.column⟩ := by
  obtain ⟨covers, runs, _⟩ := covers_readLines r (Text.areLines_sourceLines source).ne_nil read
  refine (covers.ascending.and covers.apart).imp_of_mem fun {s t} member _ ⟨above, behind⟩ significant file => ?_
  have kinds := Parse.kind_of_significant significant
  have nonempty := (runs s member).2.2 ⟨kinds.1, kinds.2.2⟩
  rintro (before | ⟨same, before⟩)
  · exact absurd before (Int.not_lt.mpr above)
  · exact absurd (Int.lt_of_lt_of_le nonempty (behind same.symm)) (Int.not_lt.mpr before)

end Token.Reading

namespace Options

/-- The literals of a source are read in its order, and a walk visits all it visits in that order if and only if it
never goes back: no operand that two relations share has literals at different places, and no superscript that has
some stands behind a subscript. -/
theorem walk_in_source_order_iff {o : Options} {source : String} {e : Expr} (read : o.expression source = .ok e) :
    e.readPlaces.Pairwise Location.Precedes ∧ e.literalPlaces ⊆ e.readPlaces ∧
      (e.literalPlaces.Pairwise Location.Precedes ↔ ∀ part, Expr.PartOf part e → part.GoesOn) := by
  obtain ⟨toks, tokens, parsed⟩ := bind_eq_ok.mp read
  replace parsed := mapError_eq_ok parsed
  have links := (Parse.formed_of_ofTokens parsed).links
  have apart := o.reading.strictly_ascending (mapError_eq_ok tokens)
  have ordered := ((Parse.lists_of_ofTokens parsed).ordered
    ((apart.sublist (takeWhile_sublist _)).imp fun strict signs => strict signs o.file)).1
  refine ⟨pairwise_flatMap.mpr ⟨?_, ?_⟩, Expr.literalPlaces_subset links, Expr.ascends_iff links ordered⟩
  · exact fun c member => pairwise_of_forall_mem_list (ordered.2 c member)
  · exact ordered.1.imp fun strict a first b second => Location.precedes_of_not (strict a first b second)

theorem chain_walked_in_source_order : ∃ e, ({} : Options).expression "a < b_1 <= c^2" = .ok e ∧
    e.readPlaces.map (·.column) = [1, 5, 5, 12, 14] ∧ e.literalPlaces ⊆ e.readPlaces := by
  have accepted : (({} : Options).expression "a < b_1 <= c^2").toOption.map (fun e => e.readPlaces.map (·.column)) =
      some [1, 5, 5, 12, 14] := by
    decide +kernel
  cases read : ({} : Options).expression "a < b_1 <= c^2" with
  | error fault =>
    rw [read] at accepted
    cases accepted
  | ok e =>
    rw [read] at accepted
    exact ⟨e, rfl, Option.some.inj accepted, (walk_in_source_order_iff read).2.1⟩

/-- The walk goes back from the superscript. -/
theorem superscript_walked_before_subscript : ∃ e, ({} : Options).expression "x_1^2" = .ok e ∧
    ¬e.literalPlaces.Pairwise Location.Precedes := by
  have visited : (({} : Options).expression "x_1^2").toOption.map Expr.literalPlaces =
      some [⟨"", 1, 1⟩, ⟨"", 1, 5⟩, ⟨"", 1, 1⟩] := by
    decide +kernel
  cases read : ({} : Options).expression "x_1^2" with
  | error fault =>
    rw [read] at visited
    cases visited
  | ok e =>
    rw [read] at visited
    refine ⟨e, rfl, fun ascends => ?_⟩
    rw [Option.some.inj visited] at ascends
    simp [Location.Precedes] at ascends

end Options
end Whiteboard
