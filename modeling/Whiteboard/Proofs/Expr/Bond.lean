import Whiteboard.Proofs.Expr.Formed
import Whiteboard.Proofs.Expr.Signs

namespace Whiteboard

open List hiding set

/-!
# What keeps tokens together

Some tokens of an expression are read with an eye on their neighbour: a prefix word is an operator only
if an operand is next to it, a sum sign without a space before it is an operator only if an operand is
next to it, the point of a projection needs its field, and a comma needs the next variable.  A tree is
listed by what it tells of its tokens, their signs and their bonds among it, and a list of tokens is compared
with that token by token.
-/

/-- What a token of an expression is to its neighbours: an operator in front of its operand or between its
operands may hold the token after it, and a field or a further variable stands behind the token before it. -/
inductive Bond where
  | loose
  | prefixed
  | infixed
  | behind
  deriving DecidableEq

namespace Expr

mutual

/-- The bonds of an expression, one for each of its signs. -/
def bonds : Expr → List Bond
  | hole => []
  | literal .. => [.loose]
  | unary _ _ operand true _ => operand.bonds ++ [.loose]
  | unary _ _ operand false _ => .prefixed :: operand.bonds
  | binary _ _ left (binary _ _ _ right _ _ _) _ true _ => left.bonds ++ .infixed :: right.bonds
  | binary _ _ left right _ _ _ => left.bonds ++ .infixed :: right.bonds
  | quantifier _ _ bindings constraint body _ =>
    .loose :: (groupBonds bindings ++ (constraint.bonds ++ body.bonds))
  | comprehension bindings predicate result _ =>
    groupBonds bindings ++ (predicate.bonds ++ result.bonds)
  | collection _ elements _ => listBonds elements
  | tuple elements _ => listBonds elements
  | projection target _ _ => target.bonds ++ [.behind]
  | range low high _ => low.bonds ++ .infixed :: high.bonds
  | conditional condition yes no _ =>
    .loose :: (condition.bonds ++ .loose :: (yes.bonds ++ .loose :: no.bonds))
  | application target args _ _ => target.bonds ++ listBonds args
  | instantiation base params _ => base.bonds ++ listBonds params
  | image relation set _ => relation.bonds ++ set.bonds
  | script base super sub _ =>
    (match base, sub with
      | literal .., literal .. => [.loose]
      | _, _ => base.bonds ++ sub.bonds) ++
      (if super.isHole then [] else .loose :: super.bonds)

def listBonds : List Expr → List Bond
  | [] => []
  | e :: rest => e.bonds ++ listBonds rest

/-- Of the variables of a group all but the first need the comma before them. -/
def groupBonds : List (Binding Expr) → List Bond
  | [] => []
  | ⟨names, domain, _⟩ :: rest =>
    .loose :: (names.tail.map (fun _ => .behind) ++ (domain.bonds ++ groupBonds rest))

end

end Expr

/-- What a tree tells of one token: its sign and its bond, the places of its literals, and whether the mark of a
continued line follows an operator.  A range does not tell the latter. -/
structure Cue where
  sign : Sign
  bond : Bond := .loose
  places : List Location := []
  marked : Option Bool := some false

namespace Expr

mutual

/-- What an expression tells of its tokens, one cue for each of its signs. -/
def cues : Expr → List Cue
  | hole => []
  | literal kind value loc => [⟨if kind == .number then .number value else .name value, .loose, [loc], some false⟩]
  | unary op surface operand true _ => operand.cues ++ [{ sign := .operator op (some surface) }]
  | unary op surface operand false _ => { sign := .operator op (some surface), bond := .prefixed } :: operand.cues
  | binary _ _ left (binary relation surface _ right breakAfter _ _) _ true _ =>
    left.cues ++ ⟨.operator relation (some surface), .infixed, [], some breakAfter⟩ :: right.cues
  | binary op surface left right breakAfter _ _ =>
    left.cues ++ ⟨.operator op (some surface), .infixed, [], some breakAfter⟩ :: right.cues
  | quantifier quant surface bindings constraint body _ =>
    { sign := .keyword quant (some surface) } :: (groupCues bindings ++ (constraint.cues ++ body.cues))
  | comprehension bindings predicate result _ => groupCues bindings ++ (predicate.cues ++ result.cues)
  | collection _ elements _ => listCues elements
  | tuple elements _ => listCues elements
  | projection target field _ => target.cues ++ [{ sign := .field field, bond := .behind }]
  | range low high _ => low.cues ++ ⟨.operator "upto" none, .infixed, [], none⟩ :: high.cues
  | conditional condition yes no _ =>
    { sign := .keyword "if" none } :: (condition.cues ++
      { sign := .keyword "then" none } :: (yes.cues ++ { sign := .keyword "else" none } :: no.cues))
  | application target args _ _ => target.cues ++ listCues args
  | instantiation base params _ => base.cues ++ listCues params
  | image relation set _ => relation.cues ++ set.cues
  | script base super sub _ =>
    (match base, sub with
      | literal _ nucleus loc, literal _ index loc' =>
        [⟨.name (nucleus ++ "_" ++ index), .loose, [loc, loc'], some false⟩]
      | _, _ => base.cues ++ sub.cues) ++
      (if super.isHole then [] else { sign := .operator "sup" none } :: super.cues)

def listCues : List Expr → List Cue
  | [] => []
  | e :: rest => e.cues ++ listCues rest

def groupCues : List (Binding Expr) → List Cue
  | [] => []
  | ⟨names, domain, _⟩ :: rest =>
    (names.take 1).map (fun name => { sign := .name name }) ++
      (names.tail.map (fun name => { sign := .name name, bond := .behind }) ++ (domain.cues ++ groupCues rest))

end

/-- The cues hold the signs and the bonds. -/
def Agrees (e : Expr) : Prop := e.cues.map (·.sign) = e.signs ∧ e.cues.map (·.bond) = e.bonds

theorem agrees_list {es : List Expr} (each : ∀ e ∈ es, e.Agrees) :
    (listCues es).map (·.sign) = listSigns es ∧ (listCues es).map (·.bond) = listBonds es := by
  induction es with
  | nil => exact ⟨rfl, rfl⟩
  | cons e es ih =>
    rcases forall_mem_cons.mp each with ⟨first, later⟩
    simp [listCues, listSigns, listBonds, first.1, first.2, ih later]

theorem agrees_of_present {e : Expr} (present : e.isHole = false → e.Agrees) : e.Agrees := by
  cases e with
  | hole => exact ⟨rfl, rfl⟩
  | _ => exact present rfl

theorem agrees_groups {shaped : Prop} {gs : List (Binding Expr)} (named : ∀ b ∈ gs, IsGroup shaped b)
    (domains : ∀ b ∈ gs, b.domain.isHole = false → b.domain.Agrees) :
    (groupCues gs).map (·.sign) = groupSigns gs ∧ (groupCues gs).map (·.bond) = groupBonds gs := by
  induction gs with
  | nil => exact ⟨rfl, rfl⟩
  | cons b gs ih =>
    rcases forall_mem_cons.mp named with ⟨⟨some, _⟩, others⟩
    rcases forall_mem_cons.mp domains with ⟨first, later⟩
    rcases b with ⟨names, domain, loc⟩
    have domain := agrees_of_present first
    cases names with
    | nil => exact absurd rfl some
    | cons name names =>
      simp [groupCues, groupSigns, groupBonds, domain.1, domain.2, ih others later, Function.comp_def]

theorem agrees_script {base super sub : Expr} {loc : Location} (nucleus : base.Agrees) (lowered : sub.Agrees)
    (present : super.isHole = false → super.Agrees) : (script base super sub loc).Agrees := by
  have raised := agrees_of_present present
  simp only [Agrees, cues, signs, bonds]
  split
  next => cases super.isHole <;> simp [raised.1, raised.2]
  next => cases super.isHole <;> simp [raised.1, raised.2, nucleus.1, nucleus.2, lowered.1, lowered.2]

/-- In an expression that is read, the cues hold the signs and the bonds. -/
theorem Formed.agrees {shaped : Prop} {e : Expr} (formed : Formed shaped e) : e.Agrees := by
  unfold Agrees
  induction formed with
  | number | name => exact ⟨rfl, rfl⟩
  | prefixed _ _ ih | postfixed _ _ ih | projection _ _ ih => simp [cues, signs, bonds, ih]
  | @binary _ _ _ right _ _ _ _ _ _ first second =>
    cases right <;> simp_all [cues, signs, bonds]
  | chain _ _ _ _ first second | range _ _ first second | image _ _ first second =>
    simp [cues, signs, bonds, first, second]
  | conditional _ _ _ condition yes no => simp [cues, signs, bonds, condition, yes, no]
  | quantifier _ _ _ named _ _ _ domains such body | comprehension _ named _ _ _ domains such body =>
    have such := agrees_of_present such
    have body := agrees_of_present body
    simp [cues, signs, bonds, agrees_groups named domains, such.1, such.2, body.1, body.2]
  | collection _ _ each | tuple _ _ each => simp [cues, signs, bonds, agrees_list each]
  | application _ _ target each | instantiation _ _ target each =>
    simp [cues, signs, bonds, target, agrees_list each]
  | juxtaposed _ _ target arg =>
    simp [cues, signs, bonds, listCues, listSigns, listBonds, target, arg]
  | superscript _ _ _ base super => exact agrees_script base ⟨rfl, rfl⟩ fun _ => super
  | subscript _ _ _ sub super => exact agrees_script ⟨rfl, rfl⟩ sub super

end Expr

namespace Parse

open Whiteboard.Expr (listCues groupCues)

/-- Does the token keep the one after it on its line?  A prefix word needs an operand next to it, and so does
a sum sign that has no space before it; the words for negation and the minus sign do not. -/
def holds : Bond → Token → Bool
  | .prefixed, t => t.value != "minus" && t.value != "not" && isWordSpelled t
  | .infixed, t => (t.isOp "plus" || t.isOp "times") && !t.spaceBefore
  | _, _ => false

theorem holds_infixed {t : Token} (sum : holds .infixed t = true) :
    t.kind = .operator ∧ (t.value = "plus" ∨ t.value = "times") ∧ t.spaceBefore = false := by
  rcases Bool.and_eq_true_iff.mp sum with ⟨sign, tight⟩
  rcases Bool.or_eq_true_iff.mp sign with found | found
  · exact ⟨(is_iff.mp found).1, .inl (is_iff.mp found).2, by simpa using tight⟩
  · exact ⟨(is_iff.mp found).1, .inr (is_iff.mp found).2, by simpa using tight⟩

/-! ## Cues of what the grammar puts together -/

theorem cues_superscript (base : Expr) {sup : Expr} (present : sup.isHole = false) :
    (superscript base sup).cues = base.cues ++ { sign := .operator "sup" none } :: sup.cues := by
  unfold superscript
  split
  next nucleus sub loc =>
    have missing : Expr.hole.isHole = true := rfl
    simp [Expr.cues, present, missing]
  next => cases base <;> simp [Expr.cues, present]

theorem cues_tupleOf (loc : Location) (es : List Expr) : (tupleOf loc es).cues = listCues es := by
  unfold tupleOf
  split
  · simp [listCues]
  · rfl

/-- A name with its subscript is one token. -/
theorem cues_nameExpr (name : String) (loc : Location) : ∃ places, (∀ place ∈ places, place = loc) ∧
    (nameExpr name loc).cues = [⟨.name name, .loose, places, some false⟩] := by
  unfold nameExpr
  split
  next => exact ⟨[loc], by simp, rfl⟩
  next base c found =>
    refine ⟨[loc, loc], by simp, ?_⟩
    simp only [Expr.cues, Expr.isHole]
    rw [append_of_splitSubscript found]
    rfl

/-- The cue of an operator between its operands. -/
def infixCue (t : Token) (name : String) (breakAfter : Bool) : Cue :=
  if name == "upto" then ⟨.operator "upto" none, .infixed, [], none⟩
  else ⟨.operator name (some t.literal), .infixed, [], some breakAfter⟩

theorem bond_infixCue (t : Token) (name : String) (breakAfter : Bool) :
    (infixCue t name breakAfter).bond = .infixed := by
  unfold infixCue
  split <;> rfl

theorem cues_joined (env : Env) (t : Token) (name : String) (left : Expr) (last : Option Expr)
    (right : Expr) (breakAfter : Bool) : (env.joined t name left last right breakAfter).1.cues =
      left.cues ++ infixCue t name breakAfter :: right.cues := by
  have binary : (Expr.binary name t.literal left right breakAfter false (env.loc t)).cues =
      left.cues ++ ⟨.operator name (some t.literal), .infixed, [], some breakAfter⟩ :: right.cues := by
    cases right <;> rfl
  unfold Env.joined infixCue
  split
  · rfl
  · split
    · cases last with
      | some middle => rfl
      | none => exact binary
    · exact binary

theorem cues_quantifierOf (q : Token) (gs : List (Binding Expr)) (loc : Location) {spotted : Bool} {such body : Expr}
    (absent : spotted = false → body = .hole) : (quantifierOf q spotted gs such body loc).cues =
      { sign := .keyword q.value (some q.literal) } :: (groupCues gs ++ (such.cues ++ body.cues)) := by
  unfold quantifierOf
  split
  next => rfl
  next other =>
    rw [absent (by simp_all)]
    simp [Expr.cues]

theorem listCues_single (e : Expr) : listCues [e] = e.cues := append_nil _

/-- The cue of a variable behind another one. -/
def furtherCue (name : String) : Cue := { sign := .name name, bond := .behind }

theorem cues_group (name : String) (others : List String) (domain : Expr) (loc : Location) (gs : List (Binding Expr)) :
    groupCues (⟨name :: others, domain, loc⟩ :: gs) =
      { sign := .name name } :: (others.map furtherCue ++ (domain.cues ++ groupCues gs)) := rfl

def Value.cues : Value → List Cue
  | .expr e => e.cues
  | .list es => listCues es
  | .groups gs => groupCues gs

/-! ## Tokens and their cues -/

def AreLineEnds (toks : List Token) : Prop := ∀ t ∈ toks, t.kind = .newline

/-- The first token may stand at the front of a line. -/
def Free (cues : List Cue) (toks : List Token) : Prop :=
  ∀ t ∈ toks.head?, isSignificant t = true → cues.head?.map (·.bond) ≠ some .behind

/-- A delimiter is the mark of a continued line, where one is to follow, or another mark, or it opens or closes a
bracket.  The brackets that are to be closed are listed from the inside. -/
inductive Passes : (pending : Bool) → (value : String) → (closers closers' : List String) → Prop
  | continued {value closers} : value = "\\" → Passes true value closers closers
  | mark {value closers} : value ∈ punctuation → value ≠ "\\" → Passes false value closers closers
  | opens {opening closing closers} : (opening, closing) ∈ bracketPairs →
      Passes false opening closers (closing :: closers)
  | closes {closing closers} : closing ∈ bracketPairs.map (·.2) → Passes false closing (closing :: closers) closers

/-- The tokens are those of which the cues tell.  Before them there may be a token that holds the first, or an
operator that is to be followed by the mark of a continued line, and brackets that are still to be closed. -/
inductive Lists (place : Token → Location) : (held pending : Bool) → List String → List Cue → List Token → Prop
  | nil {held} : Lists place held false [] [] []
  | line {pending closers cues n toks} : n.kind = .newline → Free cues toks →
      Lists place false pending closers cues toks → Lists place false pending closers cues (n :: toks)
  | sign {held pending closers cue cues t toks} : Shows cue.sign t → (∀ loc ∈ cue.places, loc = place t) →
      (∀ mark ∈ cue.marked, mark = pending) → Lists place (holds cue.bond t) pending closers cues toks →
      Lists place held false closers (cue :: cues) (t :: toks)
  | delimiter {held pending closers closers' cues t toks} : t.kind = .delimiter →
      Passes pending t.value closers closers' → Lists place false false closers' cues toks →
      Lists place held pending closers cues (t :: toks)

theorem kind_of_significant {t : Token} (significant : isSignificant t = true) :
    t.kind ≠ .newline ∧ t.kind ≠ .delimiter ∧ t.kind ≠ .endOfInput := by
  refine ⟨?_, ?_, ?_⟩ <;> intro kind <;> simp [isSignificant, kind] at significant

theorem insignificant {t : Token} (delimiter : t.kind = .delimiter) : isSignificant t = false := by
  simp [isSignificant, delimiter]

/-- What is left of the brackets: one after the other is closed, and those opened before are balanced. -/
def ClosesAll : List String → List String → Prop
  | [], bs => Balanced bs
  | closing :: closers, bs => ∃ front back, bs = front ++ closing :: back ∧ Balanced front ∧ ClosesAll closers back

theorem ClosesAll.append {closers front bs : List String} (closes : ClosesAll closers bs) (balanced : Balanced front) :
    ClosesAll closers (front ++ bs) := by
  cases closers with
  | nil => exact balanced.append closes
  | cons closing closers =>
    rcases closes with ⟨inner, back, rfl, balanced', later⟩
    exact ⟨front ++ inner, back, (append_assoc ..).symm, balanced.append balanced', later⟩

namespace Lists

variable {place : Token → Location} {held pending : Bool} {closers : List String} {cues : List Cue} {toks : List Token}
  (lists : Lists place held pending closers cues toks)
include lists

theorem forall₂_shows : List.Forall₂ Shows (cues.map (·.sign)) (toks.filter isSignificant) := by
  induction lists with
  | nil => exact .nil
  | sign shown _ _ _ ih =>
    rw [filter_cons_of_pos shown.isSignificant]
    exact .cons shown ih
  | line newline _ _ ih =>
    rw [filter_cons_of_neg (by simp [isSignificant, newline])]
    exact ih
  | delimiter kind _ _ ih =>
    rw [filter_cons_of_neg (by simp [insignificant kind])]
    exact ih

theorem accounted : ∀ t ∈ toks, isSignificant t = true ∨ isBracket t = true ∨
    (t.kind = .delimiter ∧ t.value ∈ punctuation) ∨ t.kind = .newline := by
  induction lists with
  | nil => simp
  | sign shown _ _ _ ih => exact forall_mem_cons.mpr ⟨.inl shown.isSignificant, ih⟩
  | line newline _ _ ih => exact forall_mem_cons.mpr ⟨.inr (.inr (.inr newline)), ih⟩
  | @delimiter _ _ _ _ _ t _ kind passes _ ih =>
    have here : isBracket t = true ∨ t.value ∈ punctuation := by
      cases passes with
      | continued mark => exact .inr (by rw [mark]; decide)
      | mark marks => exact .inr marks
      | opens pair => exact .inl (isBracket_of_opening kind (mem_map_of_mem pair))
      | closes closing => exact .inl (isBracket_of_closing kind closing)
    exact forall_mem_cons.mpr ⟨.inr (here.imp_right fun marks => .inl ⟨kind, marks⟩), ih⟩

theorem closes_brackets : ClosesAll closers ((toks.filter isBracket).map (·.value)) := by
  induction lists with
  | nil => exact .nil
  | sign shown _ _ _ ih =>
    rw [filter_cons_of_neg (by simp [shown.not_bracket])]
    exact ih
  | line newline _ _ ih =>
    rw [filter_cons_of_neg (by simp [isBracket, newline])]
    exact ih
  | @delimiter _ _ _ _ _ t toks kind passes _ ih =>
    have skip (plain : t.value ∈ punctuation) : (t :: toks).filter isBracket = toks.filter isBracket :=
      filter_cons_of_neg (by simp [not_bracket_of_punctuation plain])
    cases passes with
    | continued mark =>
      rw [skip (by rw [mark]; decide)]
      exact ih
    | mark marks _ =>
      rw [skip marks]
      exact ih
    | opens pair =>
      rw [filter_cons_of_pos (isBracket_of_opening kind (mem_map_of_mem pair)), map_cons]
      rcases ih with ⟨front, back, split, balanced, later⟩
      rw [split, ← singleton_append, ← append_assoc, append_cons]
      exact later.append (.enclose pair balanced)
    | closes closing =>
      rw [filter_cons_of_pos (isBracket_of_closing kind closing), map_cons]
      exact ⟨[], _, rfl, .nil, ih⟩

end Lists

/-! ## Tokens in front of others -/

variable {env : Env} {t : Token} {toks rest : List Token} {closers : List String} {cues : List Cue}
  {place : Token → Location}

theorem AreLineEnds.append {g g' : List Token} (ends : AreLineEnds g) (ends' : AreLineEnds g') :
    AreLineEnds (g ++ g') :=
  forall_mem_append.mpr ⟨ends, ends'⟩

theorem AreLineEnds.free {g : List Token} (ends : AreLineEnds g) (free : Free cues toks) : Free cues (g ++ toks) := by
  cases g with
  | nil => exact free
  | cons n g =>
    intro t first significant
    cases first
    exact absurd (ends n mem_cons_self) (kind_of_significant significant).1

theorem Lists.lines {pending : Bool} (lists : Lists place false pending closers cues toks) (free : Free cues toks)
    {g : List Token} (ends : AreLineEnds g) : Lists place false pending closers cues (g ++ toks) := by
  induction g with
  | nil => exact lists
  | cons n g ih =>
    have later : AreLineEnds g := fun t member => ends t (mem_cons_of_mem n member)
    exact .line (ends n mem_cons_self) (later.free free) (ih later)

/-- Whatever line ends come before them, the tokens are those of which the cues tell. -/
def Clear (place : Token → Location) (closers : List String) (cues : List Cue) (toks : List Token) : Prop :=
  ∀ g, AreLineEnds g → Lists place false false closers cues (g ++ toks)

/-- So they are behind a token that holds the first of them, if this is on the same line. -/
def Begins (place : Token → Location) (closers : List String) (cues : List Cue) (toks : List Token) : Prop :=
  ∀ held g, AreLineEnds g → (held = true → ∀ n ∈ (g ++ toks).head?, n.kind ≠ .newline) →
    Lists place held false closers cues (g ++ toks)

theorem Begins.clear (begins : Begins place closers cues toks) : Clear place closers cues toks :=
  fun g ends => begins false g ends fun impossible => by cases impossible

theorem Clear.lists (clear : Clear place closers cues toks) : Lists place false false closers cues toks :=
  clear [] (by simp [AreLineEnds])

theorem Begins.held (begins : Begins place closers cues toks) {held : Bool}
    (starts : held = true → ∀ n ∈ toks.head?, n.kind ≠ .newline) : Lists place held false closers cues toks :=
  begins held [] (by simp [AreLineEnds]) starts

theorem areLineEnds_takeWhile (toks : List Token) : AreLineEnds (toks.takeWhile fun t => t.kind == .newline) :=
  fun t member => eq_of_beq (all_eq_true.mp all_takeWhile t member)

/-- Before the current token there are line ends only. -/
theorem exists_lines (env : Env) (toks : List Token) : ∃ g, AreLineEnds g ∧ toks = g ++ env.view toks := by
  unfold Env.view
  split
  · exact ⟨_, areLineEnds_takeWhile toks, takeWhile_append_dropWhile.symm⟩
  · exact ⟨[], by simp [AreLineEnds], rfl⟩

/-- Tokens begin with the current one if it may be first on its line. -/
theorem begins_peek (ends : env.Ends) (inSource : (env.peek toks).kind ≠ .endOfInput)
    (lists : ∀ held, Lists place held false closers cues (env.peek toks :: env.rest toks))
    (free : isSignificant (env.peek toks) = true → cues.head?.map (·.bond) ≠ some .behind) :
    Begins place closers cues toks := by
  rcases exists_lines env toks with ⟨g, lines, same⟩
  rw [Env.view_eq_cons ends inSource] at same
  intro held g' lines' starts
  rw [same, ← append_assoc] at starts ⊢
  have first : Free cues (env.peek toks :: env.rest toks) := fun t found => by cases found; exact free
  cases held with
  | false => exact (lists false).lines first (lines'.append lines)
  | true =>
    cases all : g' ++ g with
    | nil => exact lists true
    | cons n others =>
      rw [all] at starts
      exact absurd (lines'.append lines n (by rw [all]; exact mem_cons_self)) (starts rfl n rfl)

theorem begins_sign (ends : env.Ends) {pending : Bool} {cue : Cue} (shown : Shows cue.sign (env.peek toks))
    (placed : ∀ loc ∈ cue.places, loc = place (env.peek toks)) (marked : ∀ mark ∈ cue.marked, mark = pending)
    (notBehind : cue.bond ≠ .behind)
    (lists : Lists place (holds cue.bond (env.peek toks)) pending closers cues (env.rest toks)) :
    Begins place closers (cue :: cues) toks :=
  begins_peek ends (kind_of_significant shown.isSignificant).2.2 (fun _ => .sign shown placed marked lists)
    fun _ => by simpa using notBehind

section Delimiters

variable (ends : env.Ends) {value opening closing : String}
include ends

theorem clear_mark (marks : value ∈ punctuation) (other : value ≠ "\\") (found : env.atDelim value toks = true)
    (clear : Clear place closers cues (env.rest toks)) : Clear place closers cues toks := by
  rcases is_iff.mp found with ⟨kind, rfl⟩
  refine (begins_peek ends (by simp [kind]) (fun _ => .delimiter kind (.mark marks other) clear.lists) ?_).clear
  simp [insignificant kind]

theorem begins_opens (pair : (opening, closing) ∈ bracketPairs) (found : env.atDelim opening toks = true)
    (clear : Clear place (closing :: closers) cues (env.rest toks)) : Begins place closers cues toks := by
  rcases is_iff.mp found with ⟨kind, rfl⟩
  refine begins_peek ends (by simp [kind]) (fun _ => .delimiter kind (.opens pair) clear.lists) ?_
  simp [insignificant kind]

theorem clear_closes (bracket : closing ∈ bracketPairs.map (·.2)) (found : env.atDelim closing toks = true)
    (clear : Clear place closers cues (env.rest toks)) : Clear place (closing :: closers) cues toks := by
  rcases is_iff.mp found with ⟨kind, rfl⟩
  refine (begins_peek ends (by simp [kind]) (fun _ => .delimiter kind (.closes bracket) clear.lists) ?_).clear
  simp [insignificant kind]

theorem clear_spot (found : isSpot (env.peek toks) = true) (clear : Clear place closers cues (env.rest toks)) :
    Clear place closers cues toks := by
  rcases Bool.or_eq_true_iff.mp found with at_ | point
  · exact clear_mark ends (by decide) (by decide) at_ clear
  · exact clear_mark ends (by decide) (by decide) point clear

theorem clear_separator {typed : Bool} (found : (env.atDelim ";" toks || (env.atDelim "," toks && typed)) = true)
    (clear : Clear place closers cues (env.rest toks)) : Clear place closers cues toks := by
  rcases Bool.or_eq_true_iff.mp found with semicolon | comma
  · exact clear_mark ends (by decide) (by decide) semicolon clear
  · exact clear_mark ends (by decide) (by decide) (Bool.and_eq_true_iff.mp comma).1 clear

end Delimiters

theorem clear_clause {present : Bool} (clear : Clear place closers cues (if present then env.rest toks else toks))
    (marked : present = true → Clear place closers cues (env.rest toks) → Clear place closers cues toks) :
    Clear place closers cues toks := by
  cases present with
  | false => exact clear
  | true => exact marked rfl clear

theorem clear_moreNames {nested : Bool} {after : List Token} {names : List String}
    (found : moreNames nested toks = (names, after)) (clear : Clear place closers cues after) :
    Clear place closers (names.map furtherCue ++ cues) toks := by
  fun_induction moreNames nested toks generalizing names after with
  | case1 t u rest line ih =>
    intro g ends
    have newline : AreLineEnds [t] := forall_mem_singleton.mpr (eq_of_beq (Bool.and_eq_true_iff.mp line).2)
    have lists := ih found clear (g ++ [t]) (ends.append newline)
    rw [append_assoc] at lists
    exact lists
  | case2 t u rest _ named others behind others_eq ih =>
    cases found
    rcases Bool.and_eq_true_iff.mp named with ⟨comma, second⟩
    rcases is_iff.mp comma with ⟨kind, value⟩
    intro g ends
    have variable_ : Lists place false false closers (furtherCue (nameOf u) :: (others.map furtherCue ++ cues))
        (u :: rest) :=
      .sign (.name second) (by simp [furtherCue]) (by simp [furtherCue]) (ih others_eq clear).lists
    have passes : Passes false t.value closers closers := .mark (by rw [value]; decide) (by rw [value]; decide)
    refine Lists.lines (.delimiter kind passes variable_) ?_ ends
    intro t' first significant
    cases first
    rw [insignificant kind] at significant
    cases significant
  | case3 t u rest _ _ =>
    cases found
    exact clear
  | case4 toks _ =>
    cases found
    exact clear

end Parse
end Whiteboard
