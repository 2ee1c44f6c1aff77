import Whiteboard.Proofs.Expr.Along

namespace Whiteboard

open List hiding set
namespace Parse

/-!
# Derivations are carried over

What is read from a row of tokens is read from it at its new place, up to the places of the tree.  The induction is on
the derivation; no rule steps over the end of the row.  A sum sign behind an operand is told from a closure by the
token after it, so the goals that end at an operand have to know the cue of the sign that follows.
-/

open Whiteboard.Expr (listCues groupCues)

def Goal.relocate (shift : Token → Token) (move : Location → Location) : Goal → Goal
  | .climb least left last => .climb least (left.relocate move) (last.map (Expr.relocate move))
  | .appliedGroup juxtapose group => .appliedGroup juxtapose (group.relocate move)
  | .suffixes juxtapose base => .suffixes juxtapose (base.relocate move)
  | .comprehension opener loc => .comprehension (shift opener) (move loc)
  | .quantified q loc => .quantified (shift q) (move loc)
  | goal => goal

def Value.relocate (move : Location → Location) : Value → Value
  | .expr e => .expr (e.relocate move)
  | .list es => .list (Expr.listRelocate move es)
  | .groups gs => .groups (Expr.groupsRelocate move gs)

/-- The same is read at the new place, and the rest is further on in the row. -/
def Carried (m : Transfer) (depth : Nat) (cues : List Cue) (env' : Env) (goal : Goal) (v : Value)
    (rest toks' : List Token) : Prop :=
  ∃ held rest', Along m depth held cues rest rest' ∧
    Reads env' (goal.relocate m.shift m.move) toks' (v.relocate m.move) rest'

/-- The cues after those that were there before, and what is read of tokens that have them. -/
def Moves (m : Transfer) (env : Env) (goal : Goal) (before : List Cue) (toks rest : List Token) (v : Value) : Prop :=
  ∃ more, v.cues = before ++ more ∧ (∀ cues, Fits env cues rest → Fits env (more ++ cues) toks) ∧
    ∀ {depth held cues env' toks'}, Abreast m depth held (more ++ cues) env env' toks toks' → Fits env cues rest →
      Carried m depth cues env' goal v rest toks'

/-- A goal is carried over.  A list stands behind its opening bracket and a clause behind its mark; a list
and a comprehension close what was opened before. -/
def Goal.Carries (m : Transfer) (env : Env) (toks rest : List Token) (v : Value) : Goal → Prop
  | .climb least left last => Moves m env (.climb least left last) left.cues toks rest v
  | .appliedGroup juxtapose group => Moves m env (.appliedGroup juxtapose group) group.cues toks rest v
  | .suffixes juxtapose base => Moves m env (.suffixes juxtapose base) base.cues toks rest v
  | .quantified q loc => ∃ cue more, v.cues = cue :: more ∧ ∀ {depth held cues env' toks'},
      Abreast m depth held (more ++ cues) env env' toks toks' →
      Carried m depth cues env' (.quantified q loc) v rest toks'
  | .listed closing => closing ∈ bracketPairs.map (·.2) → ∀ {depth cues env' toks'},
      Abreast m (depth + 1) false (v.cues ++ cues) env.inside env'.inside (env.rest toks) (env'.rest toks') →
      Carried m depth cues env' (.listed closing) v rest toks'
  | .comprehension opener loc => ∀ {depth held cues env' toks'},
      Abreast m (depth + 1) held (v.cues ++ cues) env env' toks toks' →
      Carried m depth cues env' (.comprehension opener loc) v rest toks'
  | .clause present part => ∀ {depth held cues env' toks'},
      Abreast m depth held (v.cues ++ cues) env env' (if present then env.rest toks else toks)
        (if present then env'.rest toks' else toks') →
      Carried m depth cues env' (.clause present part) v rest toks'
  | .operand juxtapose => ∀ {depth held cues env' toks'}, Abreast m depth held (v.cues ++ cues) env env' toks toks' →
      Fits env cues rest → Carried m depth cues env' (.operand juxtapose) v rest toks'
  | .binary least => ∀ {depth held cues env' toks'}, Abreast m depth held (v.cues ++ cues) env env' toks toks' →
      Fits env cues rest → Carried m depth cues env' (.binary least) v rest toks'
  | goal => ∀ {depth held cues env' toks'}, Abreast m depth held (v.cues ++ cues) env env' toks toks' →
      Carried m depth cues env' goal v rest toks'

/-! ## Signs that follow an operand -/

/-- Where an expression ends no operator follows that would go on with it. -/
def Goal.Stops (env : Env) (rest : List Token) : Goal → Prop
  | .binary least | .climb least .. =>
    ∀ name prec assoc, env.infixAt (env.peek rest) = some (name, prec, assoc) → prec < least
  | _ => True

theorem Reads.stops {env goal toks v rest} (reads : Reads env goal toks v rest) : goal.Stops env rest := by
  induction reads with
  | binary _ _ _ ih => exact ih
  | stop lower => exact lower
  | climb _ _ _ _ _ ih => exact ih
  | _ => trivial

/-- A sum sign is an operator that goes on with any expression. -/
theorem infixAt_of_holds (env : Env) {t : Token} (sum : holds .infixed t = true) :
    ∃ name prec assoc, env.infixAt t = some (name, prec, assoc) ∧ (1 : Precedence) ≤ prec := by
  have plus : Symbol.asInfix "plus" = some (Precedence.additive, .left) := rfl
  have times : Symbol.asInfix "times" = some (Precedence.multiplicative, .left) := rfl
  rcases holds_infixed sum with ⟨kind, value | value, _⟩
  · exact ⟨"plus", Precedence.additive, .left, by simp [Env.infixAt, kind, value, plus], by decide⟩
  · exact ⟨"times", Precedence.multiplicative, .left, by simp [Env.infixAt, kind, value, times], by decide⟩

/-- Behind a whole expression there is no sum sign. -/
theorem Reads.fits {env toks v rest} (reads : Reads env (.binary 1) toks v rest) (cues : List Cue) :
    Fits env cues rest := by
  intro sum _
  rcases infixAt_of_holds env sum with ⟨name, prec, assoc, found, least⟩
  exact absurd (reads.stops name prec assoc found) (Int.not_lt.mpr least)

variable {env : Env} {juxtapose : Bool} {toks : List Token}

/-- Nor is one with an operand next to it a suffix. -/
theorem fits_of_suffixAt {base : Expr} {suffix : Suffix}
    (found : env.suffixAt juxtapose base toks = some suffix) (cues : List Cue) : Fits env cues toks := by
  intro sum starts
  unfold Env.suffixAt at found
  rcases holds_infixed sum with ⟨kind, value | value, tight⟩
  · simp [Token.isDelim, Token.isOp, Token.is, kind, value, starts, tight] at found
  · simp [Token.isDelim, Token.isOp, Token.is, kind, value, starts, tight] at found

theorem fits_of_groupSuffixAt {group : Expr} {suffix : Suffix}
    (found : env.groupSuffixAt juxtapose group toks = some suffix) (cues : List Cue) : Fits env cues toks := by
  intro sum _
  rcases holds_infixed sum with ⟨kind, _, tight⟩
  simp [Env.groupSuffixAt, Token.isDelim, Token.is, kind, tight] at found

/-! ## One step of a derivation -/

variable {m : Transfer}

theorem Moves.refl {goal : Goal} {e : Expr} (reads : ∀ {depth held cues env' toks'},
      Abreast m depth held cues env env' toks toks' → Fits env cues toks →
      Reads env' (goal.relocate m.shift m.move) toks' (.expr (e.relocate m.move)) toks') :
    Moves m env goal e.cues toks toks (.expr e) :=
  ⟨[], (append_nil _).symm, fun _ fits => fits, fun {_ held _ _ toks'} abreast fits =>
    ⟨held, toks', abreast.along, reads abreast fits⟩⟩

/-- A suffix is read, and then what follows it. -/
theorem Moves.suffix {base grown : Expr} {suffix : Suffix} {more : List Cue} {mid rest : List Token} {v : Value}
    (moves : Moves m env (.suffixes juxtapose grown) grown.cues mid rest v)
    (found : env.suffixAt juxtapose base toks = some suffix) (grows : grown.cues = base.cues ++ more)
    (field : suffix = .field → more.head?.map (·.bond) = some .behind)
    (reads : ∀ {depth held cues env' toks'}, Abreast m depth held (more ++ cues) env env' toks toks' →
      Fits env cues mid → env'.suffixAt juxtapose (base.relocate m.move) toks' = some suffix →
      ∃ held' mid', Along m depth held' cues mid mid' ∧
        ∀ v rest', Reads env' (.suffixes juxtapose (grown.relocate m.move)) mid' v rest' →
          Reads env' (.suffixes juxtapose (base.relocate m.move)) toks' v rest') :
    Moves m env (.suffixes juxtapose base) base.cues toks rest v := by
  rcases moves with ⟨others, all, fits', carries⟩
  refine ⟨more ++ others, by rw [all, grows, append_assoc], fun cues _ => fits_of_suffixAt found _, ?_⟩
  intro depth held cues env' toks' abreast fits
  rw [append_assoc] at abreast
  have same := abreast.suffixAt_eq (fits_of_suffixAt found _) fun isField => by
    rw [found] at isField
    have head := field (Option.some.inj isField)
    cases more with
    | nil => cases head
    | cons cue more => exact head
  rcases reads abreast (fits' cues fits) (same.trans found) with ⟨_, mid', along, step⟩
  rcases carries (abreast.on along) fits with ⟨held', rest', along', reads'⟩
  exact ⟨held', rest', along', step _ rest' reads'⟩

theorem carried_listed {opening closing : String} {rest : List Token} {v : Value}
    (pair : (opening, closing) ∈ bracketPairs) (carries : (Goal.listed closing).Carries m env toks rest v)
    {depth : Nat} {held : Bool} {cues : List Cue} {env' : Env} {toks' : List Token}
    (abreast : Abreast m depth held (v.cues ++ cues) env env' toks toks') (opens : env.atDelim opening toks = true) :
    Carried m depth cues env' (.listed closing) v rest toks' :=
  carries (mem_map_of_mem pair) (abreast.opens (mem_map_of_mem pair) opens)

theorem Reads.carries {env goal toks v rest} (reads : Reads env goal toks v rest) (given : goal.Based) :
    goal.Carries m env toks rest v := by
  induction reads with
  | binary first _ operand climb =>
    intro depth held cues env' toks' abreast fits
    rcases climb (first.finds trivial) with ⟨more, all, fits', carries⟩
    rw [all, append_assoc] at abreast
    rcases operand trivial abreast (fits' cues fits) with ⟨_, mid', along, first'⟩
    rcases carries (abreast.on along) fits with ⟨held', rest', along', later⟩
    exact ⟨held', rest', along', .binary first' later⟩
  | stop lower => exact .refl fun abreast _ => .stop (by rw [abreast.infixAt_peek]; exact lower)
  | @climb env least left last toks name prec assoc right mid v rest found atMost reads _ operand ih =>
    rcases ih (isHole_joined ..) with ⟨more, all, fits', carries⟩
    refine ⟨infixCue (env.peek toks) name (env.continuation (env.rest toks)).1 :: (right.cues ++ more), ?_,
      fun cues _ _ _ => congrArg some (bond_infixCue ..), ?_⟩
    · rw [all, cues_joined, append_assoc]
      rfl
    · intro depth held cues env' toks' abreast fits
      rw [cons_append, append_assoc] at abreast
      rcases abreast.sign (shows_infixCue found true).isSignificant with ⟨peek, step⟩
      rcases step.continuation with idle | ⟨mark, _, onward⟩
      · exact absurd reads (not_binary_of_not_opens idle.not_opens)
      · rcases operand trivial (step.on onward) (fits' cues fits) with ⟨_, mid', along, first⟩
        rcases carries (abreast.on along) fits with ⟨held', rest', along', later⟩
        refine ⟨held', rest', along', .climb (abreast.infixAt_peek.trans found) atMost first ?_⟩
        rw [peek, mark, abreast.carrying.joined_eq _ name given]
        exact later
  | @prefixed env juxtapose toks op goal e rest found _ ih =>
    intro depth held cues env' toks' abreast fits
    rcases abreast.sign (shows_of_prefixed found).1.isSignificant with ⟨peek, step⟩
    have operand : ∃ held' rest', Along m depth held' cues rest rest' ∧
        Reads env' goal (env'.rest toks') (.expr (e.relocate m.move)) rest' := by
      rcases Lead.cases_prefixed found with ⟨_, _, rfl⟩ | ⟨_, _, rfl⟩ | ⟨_, _, rfl⟩ <;> exact ih trivial step fits
    rcases operand with ⟨held', rest', along, later⟩
    have found' : (env'.leadAt toks').prefixed (env'.peek toks') juxtapose = some (op, goal) := by
      rw [abreast.leadAt_eq fun _ => rfl, peek, ← found]
      cases env.leadAt toks <;> simp [Lead.prefixed, abreast.carrying.unseen.value]
    have reads' := Reads.prefixed found' later
    rw [peek, abreast.carrying.places, abreast.carrying.unseen.literal] at reads'
    exact ⟨held', rest', along, reads'⟩
  | @word env _ toks _ _ lead _ ih =>
    intro depth held cues env' toks' abreast fits
    rcases ih rfl with ⟨more, all, fits', carries⟩
    have meets := meets_leadAt env toks
    rw [lead] at meets
    rw [all, append_assoc] at abreast
    rcases abreast.sign (Shows.name meets.1).isSignificant with ⟨peek, step⟩
    rcases carries step fits with ⟨held', rest', along, later⟩
    refine ⟨held', rest', along, .word ((abreast.leadAt_eq (by simp [lead])).trans lead) ?_⟩
    rw [peek, abreast.carrying.places, abreast.carrying.unseen.literal]
    exact later
  | @group env _ _ group base _ _ v _ lead primary applied _ ihPrimary ihApplied ih =>
    intro depth held cues env' toks' abreast fits
    have present := primary.finds trivial
    rcases ihApplied present with ⟨more₁, all₁, _, carries₁⟩
    rcases ih (applied.finds present) with ⟨more₂, all₂, fits₂, carries₂⟩
    have all : v.cues = group.cues ++ (more₁ ++ more₂) :=
      all₂.trans ((congrArg (· ++ more₂) all₁).trans (append_assoc ..))
    rw [all, append_assoc, append_assoc] at abreast
    rcases ihPrimary trivial abreast with ⟨_, mid', along₁, first⟩
    rcases carries₁ (abreast.on along₁) (fits₂ cues fits) with ⟨_, after', along₂, second⟩
    rcases carries₂ (abreast.on along₂) fits with ⟨held', rest', along₃, third⟩
    exact ⟨held', rest', along₃, .group ((abreast.leadAt_eq (by simp [lead])).trans lead) first second third⟩
  | atom lead primary _ ihPrimary ih =>
    intro depth held cues env' toks' abreast fits
    rcases ih (primary.finds trivial) with ⟨more, all, _, carries⟩
    rw [all, append_assoc] at abreast
    rcases ihPrimary trivial abreast with ⟨_, mid', along₁, first⟩
    rcases carries (abreast.on along₁) fits with ⟨held', rest', along₂, second⟩
    exact ⟨held', rest', along₂, .atom ((abreast.leadAt_eq (by simp [lead])).trans lead) first second⟩
  | groupCall found _ ih =>
    refine ⟨_, rfl, fun cues _ => fits_of_groupSuffixAt found _, fun abreast _ => ?_⟩
    rcases carried_listed (by decide) (ih trivial) abreast (meets_of_groupSuffixAt found) with
      ⟨held', rest', along, args⟩
    refine ⟨held', rest', along, ?_⟩
    rw [Value.relocate, Expr.relocate, ← Expr.loc_relocate m.move given]
    exact .groupCall ((abreast.groupSuffixAt_eq _ _).trans found) args
  | groupArgument found _ ih =>
    refine ⟨_, congrArg _ (listCues_single _), fun cues _ => fits_of_groupSuffixAt found _, fun abreast fits => ?_⟩
    rcases ih trivial abreast fits with ⟨held', rest', along, arg⟩
    refine ⟨held', rest', along, ?_⟩
    rw [Value.relocate, Expr.relocate, ← Expr.loc_relocate m.move given]
    exact .groupArgument ((abreast.groupSuffixAt_eq _ _).trans found) arg
  | groupAlone found => exact .refl fun abreast _ => .groupAlone ((abreast.groupSuffixAt_eq _ _).trans found)
  | call found _ _ args ih =>
    refine (ih rfl).suffix found rfl (by simp) fun abreast _ found' => ?_
    rcases carried_listed (by decide) (args trivial) abreast (meets_of_suffixAt found) with ⟨held', mid', along, first⟩
    refine ⟨held', mid', along, fun v rest' later => .call found' first ?_⟩
    rw [Expr.loc_relocate m.move given]
    exact later
  | parameters found _ _ params ih =>
    refine (ih rfl).suffix found rfl (by simp) fun abreast _ found' => ?_
    rcases carried_listed (by decide) (params trivial) abreast (meets_of_suffixAt found) with
      ⟨held', mid', along, first⟩
    refine ⟨held', mid', along, fun v rest' later => .parameters found' first ?_⟩
    rw [Expr.loc_relocate m.move given]
    exact later
  | field found _ ih =>
    rcases meets_of_suffixAt found with ⟨point, field⟩
    refine (ih rfl).suffix found rfl (fun _ => rfl) fun abreast _ found' => ?_
    rcases abreast.field rfl point field with ⟨second, along⟩
    refine ⟨_, _, along, fun v rest' later => .field found' ?_⟩
    rw [second, abreast.carrying.unseen.value, Expr.loc_relocate m.move given]
    exact later
  | closure found _ ih =>
    refine (ih rfl).suffix found rfl (by simp) fun abreast _ found' => ?_
    rcases abreast.sign (shows_closure (meets_of_suffixAt found)).isSignificant with ⟨peek, step⟩
    refine ⟨_, _, step.along, fun v rest' later => .closure found' ?_⟩
    rw [peek, abreast.carrying.places, abreast.carrying.unseen.literal, closureName, abreast.carrying.isOp,
      abreast.carrying.unseen.value]
    exact later
  | @super env _ base toks _ _ _ _ found primary _ sup ih =>
    refine (ih (isHole_superscript ..)).suffix found (cues_superscript base (primary.finds trivial)) (by simp)
      fun abreast _ found' => ?_
    rcases abreast.sign (shows_of_isOp (meets_of_suffixAt found) (.inl rfl)).isSignificant with ⟨_, step⟩
    rcases sup trivial step with ⟨held', mid', along, first⟩
    refine ⟨held', mid', along, fun v rest' later => .super found' first ?_⟩
    rw [← superscript_relocate m.move given]
    exact later
  | image found set_ closed _ set ih =>
    refine (ih rfl).suffix found rfl (by simp) fun abreast _ found' => ?_
    have inner := abreast.opens (by decide) (meets_of_suffixAt found)
    rcases set trivial inner (set_.fits _) with ⟨_, mid', along, first⟩
    rcases (inner.on along).closes (by decide) closed with ⟨closed', along'⟩
    refine ⟨_, _, along', fun v rest' later => .image found' first closed' ?_⟩
    rw [Expr.loc_relocate m.move given]
    exact later
  | argument found _ _ arg ih =>
    refine (ih rfl).suffix found (congrArg _ (listCues_single _)) (by simp) fun abreast fits found' => ?_
    rcases arg trivial abreast fits with ⟨held', mid', along, first⟩
    refine ⟨held', mid', along, fun v rest' later => .argument found' first ?_⟩
    rw [Expr.loc_relocate m.move given]
    exact later
  | bare found => exact .refl fun abreast fits => .bare ((abreast.suffixAt_eq fits (by simp [found])).trans found)
  | listedNone closed =>
    intro bracket depth cues env' toks' abreast
    rcases abreast.closes bracket closed with ⟨closed', along⟩
    exact ⟨_, _, along, .listedNone closed'⟩
  | listed open_ elements_ closed ih =>
    intro bracket depth cues env' toks' abreast
    rcases ih trivial abreast with ⟨_, mid', along, elements⟩
    rcases (abreast.on along).closes bracket closed with ⟨closed', along'⟩
    have first := abreast.step fun mute => not_elements_of_not_opens mute.not_opens elements_
    refine ⟨_, _, along', .listed ?_ elements closed'⟩
    rw [Env.atDelim, first.peek, abreast.carrying.isDelim]
    exact open_
  | @element env _ _ _ mid _ first _ ih others =>
    intro depth held cues env' toks' abreast
    rw [Value.cues, listCues, append_assoc] at abreast
    rcases ih trivial abreast (first.fits _) with ⟨_, mid', along, first'⟩
    have behind := abreast.on along
    rcases behind.clause (env.atDelim "," mid) fun comma => behind.mark (by decide) (by decide) comma with ⟨_, onward⟩
    rw [← behind.atDelim_eq (by decide)] at onward others
    rcases others trivial onward with ⟨held', rest', along', others'⟩
    exact ⟨held', rest', along', .element first' others'⟩
  | @number env toks found =>
    intro depth held cues env' toks' abreast
    have kind : (env.peek toks).kind = .number := meets_of_formAt found
    rcases abreast.sign (by simp [isSignificant, kind]) with ⟨peek, step⟩
    have reads' := Reads.number (abreast.formAt_eq.trans found)
    rw [peek, abreast.carrying.places, abreast.carrying.unseen.value] at reads'
    exact ⟨_, _, step.along, reads'⟩
  | @name env toks found =>
    intro depth held cues env' toks' abreast
    have kind : (env.peek toks).kind = .identifier := meets_of_formAt found
    rcases cues_nameExpr (env.peek toks).value (env.loc (env.peek toks)) with ⟨_, _, same⟩
    rw [Value.cues, same] at abreast
    rcases abreast.sign (by simp [isSignificant, kind]) with ⟨peek, step⟩
    have reads' := Reads.name (abreast.formAt_eq.trans found)
    rw [peek, abreast.carrying.places, abreast.carrying.unseen.value, ← nameExpr_relocate] at reads'
    exact ⟨_, _, step.along, reads'⟩
  | grouped found _ closed ih =>
    intro depth held cues env' toks' abreast
    rw [Value.cues, cues_tupleOf] at abreast
    have opens := meets_of_formAt found
    have inner := abreast.opens (by decide) opens
    rcases ih trivial inner with ⟨_, mid', along, elements⟩
    rcases (inner.on along).closes (by decide) closed with ⟨closed', along'⟩
    have reads' := Reads.grouped (abreast.formAt_eq.trans found) elements closed'
    rw [abreast.peek_of_formAt found, abreast.carrying.places, ← tupleOf_relocate] at reads'
    exact ⟨_, _, along', reads'⟩
  | comprehended found _ ih =>
    intro depth held cues env' toks' abreast
    have inner := abreast.opens (by decide) (meets_of_formAt found)
    rcases ih trivial (inner.withProduct false) with ⟨held', rest', along, later⟩
    refine ⟨held', rest', along, .comprehended (abreast.formAt_eq.trans found) ?_⟩
    rw [abreast.peek_of_formAt found, abreast.carrying.places]
    exact later
  | @collected env toks form closing _ _ _ found collects _ ih =>
    intro depth held cues env' toks' abreast
    have opened : ∃ opening, (opening, closing) ∈ bracketPairs ∧ env.atDelim opening toks = true := by
      have meets := meets_of_formAt found
      cases form <;> cases collects <;> exact ⟨_, by decide, meets⟩
    rcases opened with ⟨opening, pair, opens⟩
    rcases carried_listed pair (ih trivial) (abreast.withProduct false) opens with ⟨held', rest', along, inner⟩
    have reads' := Reads.collected (abreast.formAt_eq.trans found) collects inner
    rw [abreast.peek_of_formAt found, abreast.carrying.places] at reads'
    exact ⟨held', rest', along, reads'⟩
  | @bound env toks _ _ found _ ih =>
    intro depth held cues env' toks' abreast
    rcases ih trivial with ⟨cue, more, all, carries⟩
    have kind : (env.peek toks).kind = .keyword := meets_of_formAt found
    rw [all] at abreast
    rcases abreast.sign (by simp [isSignificant, kind]) with ⟨peek, step⟩
    rcases carries (step.withProduct false) with ⟨held', rest', along, later⟩
    refine ⟨held', rest', along, .bound (abreast.formAt_eq.trans found) ?_⟩
    rw [peek, abreast.carrying.places]
    exact later
  | choice found condition then_ yes else_ no conditionCarries yesCarries noCarries =>
    intro depth held cues env' toks' abreast
    simp only [Value.cues, Expr.cues, cons_append, append_assoc] at abreast
    rcases abreast.sign (shows_of_isKeyword (meets_of_formAt found)).isSignificant with ⟨peek, afterIf⟩
    rcases conditionCarries trivial afterIf (condition.fits _) with ⟨_, _, along₁, first⟩
    have atThen := abreast.on along₁
    rcases yesCarries trivial (atThen.sign (shows_of_isKeyword then_).isSignificant).2 (yes.fits _) with
      ⟨_, _, along₂, second⟩
    have atElse := abreast.on along₂
    rcases noCarries trivial (atElse.sign (shows_of_isKeyword else_).isSignificant).2 (no.fits _) with
      ⟨held', rest', along₃, third⟩
    have reads' := Reads.choice (abreast.formAt_eq.trans found) first ((atThen.isKeyword_peek _).trans then_) second
      ((atElse.isKeyword_peek _).trans else_) third
    rw [peek, abreast.carrying.places] at reads'
    exact ⟨held', rest', along₃, reads'⟩
  | @comprehension env _ _ _ _ _ _ afterGroups afterBar _ _ _ _ closed groups predicate result =>
    intro depth held cues env' toks' abreast
    simp only [Value.cues, Expr.cues, append_assoc] at abreast
    rcases groups trivial abreast with ⟨_, _, along₁, first⟩
    have atBar := abreast.on along₁
    rcases atBar.clause (env.atDelim "|" afterGroups) fun bar => atBar.mark (by decide) (by decide) bar with ⟨_, onward⟩
    rw [← atBar.atDelim_eq (by decide)] at onward predicate
    rcases predicate trivial onward with ⟨_, _, along₂, second⟩
    have atSpot := abreast.on along₂
    rcases atSpot.clause (isSpot (env.peek afterBar)) atSpot.spot with ⟨_, onward'⟩
    rw [← atSpot.isSpot_peek] at onward' result
    rcases result trivial onward' with ⟨_, _, along₃, third⟩
    rcases (abreast.on along₃).closes (by decide) closed with ⟨closed', along₄⟩
    exact ⟨_, _, along₄, .comprehension first second third closed'⟩
  | @quantified env _ _ _ _ _ _ afterGroups afterBar _ _ _ said marked groups such body =>
    refine ⟨_, _, cues_quantifierOf _ _ _ said.hole_of_absent, fun abreast => ?_⟩
    rw [append_assoc, append_assoc] at abreast
    rcases groups trivial abreast with ⟨_, _, along₁, first⟩
    have atBar := abreast.on along₁
    rcases atBar.clause (env.atDelim "|" afterGroups) fun bar => atBar.mark (by decide) (by decide) bar with ⟨_, onward⟩
    rw [← atBar.atDelim_eq (by decide)] at onward such marked
    rcases such trivial onward with ⟨_, _, along₂, second⟩
    have atSpot := abreast.on along₂
    rcases atSpot.clause (isSpot (env.peek afterBar)) atSpot.spot with ⟨_, onward'⟩
    rw [← atSpot.isSpot_peek] at onward' body marked ⊢
    rcases body trivial onward' with ⟨held', rest', along₃, third⟩
    refine ⟨held', rest', along₃, ?_⟩
    rw [Value.relocate, abreast.carrying.quantifierOf_eq]
    exact .quantified first second third marked
  | @groups env _ _ _ _ afterNames afterDomain _ named others _ _ domain more =>
    intro depth held cues env' toks' abreast
    simp only [Value.cues, cues_group, cons_append, append_assoc] at abreast
    rcases abreast.sign (Shows.name named).isSignificant with ⟨peek, step⟩
    rcases step.moreNames others with ⟨_, afterNames', others', along₁⟩
    have atColon := abreast.on along₁
    rcases atColon.clause (env.atDelim ":" afterNames) fun colon => atColon.mark (by decide) (by decide) colon with
      ⟨_, onward⟩
    have typed : env'.atDelim ":" afterNames' = _ := atColon.atDelim_eq (by decide)
    rw [← typed] at onward domain more
    rcases domain trivial (onward.withProduct true) with ⟨_, _, along₂, domain'⟩
    have behind := abreast.on along₂
    rcases behind.clause (env.atDelim ";" afterDomain || (env.atDelim "," afterDomain && env'.atDelim ":" afterNames'))
      behind.separator with ⟨_, onward'⟩
    rw [← behind.atDelim_eq (by decide), ← behind.atDelim_eq (by decide)] at onward' more
    rcases more trivial onward' with ⟨held', rest', along₃, more'⟩
    have reads' := Reads.groups (abreast.isNameToken_peek.trans named) others' domain' more'
    rw [peek, abreast.carrying.nameOf, abreast.carrying.places] at reads'
    exact ⟨held', rest', along₃, reads'⟩
  | @absent _ part _ => cases part <;> exact fun {_ held _ _ toks'} abreast => ⟨held, toks', abreast.along, .absent⟩
  | @present env part toks v rest first ih =>
    intro depth held cues env' toks' abreast
    have inner : ∃ held' rest', Along m depth held' cues rest rest' ∧
        Reads env' part.goal (env'.rest toks') (v.relocate m.move) rest' := by
      cases part with
      | expr => exact ih trivial abreast (first.fits _)
      | elements | groups => exact ih trivial abreast
    rcases inner with ⟨held', rest', along, inner'⟩
    exact ⟨held', rest', along, .present inner'⟩

/-- An expression that is read from a row is read from it at its new place. -/
theorem Reads.relocate {env env' : Env} {toks toks' rest : List Token} {v : Value}
    (reads : Reads env (.binary 1) toks v rest) (carrying : Carrying m env env') (kept : m.breaks ≠ .more)
    (onRow : OnRow m toks toks') :
    ∃ rest', OnRow m rest rest' ∧ Reads env' (.binary 1) toks' (v.relocate m.move) rest' := by
  have along : Along m 0 false (v.cues ++ []) toks toks' := (along_iff_onRow carrying.unseen kept).mpr onRow
  have carries : (Goal.binary 1).Carries m env toks rest v := reads.carries trivial
  rcases carries ⟨carrying, fun inside => absurd inside (Nat.lt_irrefl 0), along⟩ (reads.fits []) with
    ⟨_, rest', along', reads'⟩
  exact ⟨rest', (along_iff_onRow carrying.unseen kept).mp along', reads'⟩

end Parse
end Whiteboard
