import Whiteboard.Proofs.Diagnostic.Place
import Whiteboard.Proofs.Expr.Reads

namespace Whiteboard

open List hiding set
namespace Parse

/-!
# The bounded readers and the grammar agree

The functions that read expressions carry a bound on their depth.  Every success of theirs is a
derivation of the grammar, and they fault one of the tokens at hand or the one that stands for the end.
Every derivation is found by them as soon as the bound exceeds eight levels for each token at hand.
The bound that `expr` computes from its tokens is of that size, so `expr` succeeds exactly where the
grammar has a derivation, and with its result.
-/

/-! ## One step of each reader, branch by branch -/

theorem climb_succ (bound : Nat) (env : Env) (least : Precedence) (left : Expr)
    (last : Option Expr) (toks : List Token) :
    climb (bound + 1) env least left last toks = match env.infixAt (env.peek toks) with
      | none => .ok (left, toks)
      | some (name, prec, assoc) =>
        if prec < least then .ok (left, toks)
        else (do
          let (right, mid) ← binary bound env (rightLeast prec assoc) (env.continuation (env.rest toks)).2
          let next := env.joined (env.peek toks) name left last right (env.continuation (env.rest toks)).1
          climb bound env least next.1 next.2 mid) := by
  rw [climb]
  generalize env.infixAt (env.peek toks) = found
  rcases found with _ | ⟨name, prec, assoc⟩
  · rfl
  · dsimp only
    split
    · rfl
    · apply bind_congr
      rintro ⟨right, mid⟩
      simp only [Env.joined]
      split
      · rfl
      · split
        · cases last <;> rfl
        · rfl

theorem operand_succ (bound : Nat) (env : Env) (juxtapose : Bool) (toks : List Token) :
    operand (bound + 1) env juxtapose toks = match env.leadAt toks with
      | .minus => do
        let (e, rest) ← operand bound env juxtapose (env.rest toks)
        return (.unary "neg" (env.peek toks).literal e false (env.loc (env.peek toks)), rest)
      | .not => do
        let (e, rest) ← binary bound env Precedence.negation (env.rest toks)
        return (.unary "not" (env.peek toks).literal e false (env.loc (env.peek toks)), rest)
      | .word =>
        suffixes bound env juxtapose
          (.literal .identifier (env.peek toks).literal (env.loc (env.peek toks))) (env.rest toks)
      | .operator => do
        let (e, rest) ← operand bound env juxtapose (env.rest toks)
        return (.unary (env.peek toks).value (env.peek toks).literal e false (env.loc (env.peek toks)), rest)
      | .group => do
        let (group, mid) ← primary bound env toks
        let (base, mid) ← appliedGroup bound env juxtapose group mid
        suffixes bound env juxtapose base mid
      | .atom => (do
        let (base, mid) ← primary bound env toks
        suffixes bound env juxtapose base mid) := by
  rw [operand]
  simp only [Env.leadAt]
  split
  · rfl
  · grind

theorem appliedGroup_succ (bound : Nat) (env : Env) (juxtapose : Bool) (group : Expr) (toks : List Token) :
    appliedGroup (bound + 1) env juxtapose group toks = match env.groupSuffixAt juxtapose group toks with
      | some .call => do
        let (args, rest) ← listed bound env ")" toks
        return (.application group args false group.loc, rest)
      | some .argument => do
        let (arg, rest) ← operand bound env false toks
        return (.application group [arg] true group.loc, rest)
      | _ => .ok (group, toks) := by
  rw [appliedGroup]
  simp only [Env.groupSuffixAt]
  split
  · rfl
  · split <;> rfl

theorem suffixes_succ (bound : Nat) (env : Env) (juxtapose : Bool) (base : Expr) (toks : List Token) :
    suffixes (bound + 1) env juxtapose base toks = match env.suffixAt juxtapose base toks with
      | some .call => do
        let (args, mid) ← listed bound env ")" toks
        suffixes bound env juxtapose (.application base args false base.loc) mid
      | some .parameters => do
        let (params, mid) ← listed bound env "]" toks
        suffixes bound env juxtapose (.instantiation base params base.loc) mid
      | some .field =>
        suffixes bound env juxtapose (.projection base (env.second toks).value base.loc) (env.rest toks).tail
      | some .closure =>
        suffixes bound env juxtapose (.unary (closureName (env.peek toks)) (env.peek toks).literal base true
            (env.loc (env.peek toks))) (env.rest toks)
      | some .super => do
        let (sup, mid) ← primary bound env (env.rest toks)
        suffixes bound env juxtapose (superscript base sup) mid
      | some .image => do
        let (set, mid) ← binary bound env.inside 1 (env.rest toks)
        let mid ← env.inside.close (env.peek toks) "|)" mid
        suffixes bound env juxtapose (.image base set base.loc) mid
      | some .argument => do
        let (arg, mid) ← operand bound env false toks
        suffixes bound env juxtapose (.application base [arg] true base.loc) mid
      | none => .ok (base, toks) := by
  rw [suffixes]
  simp only [Env.suffixAt]
  split
  · rfl
  · split
    · rfl
    · split
      · rfl
      · unfold closureName
        cases (env.peek toks).isOp "inv" with
        | true => rfl
        | false => grind

theorem primary_succ (bound : Nat) (env : Env) (toks : List Token) : primary (bound + 1) env toks =
      match env.formAt toks with
      | some .number =>
        .ok (.literal .number (env.peek toks).value (env.loc (env.peek toks)), env.rest toks)
      | some .name => .ok (nameExpr (env.peek toks).value (env.loc (env.peek toks)), env.rest toks)
      | some .group => do
        let (es, mid) ← elements bound env.inside (env.rest toks)
        let rest ← env.inside.close (env.peek toks) ")" mid
        return (tupleOf (env.loc (env.peek toks)) es, rest)
      | some .comprehension =>
        comprehension bound (env.inside.withProduct false) (env.peek toks) (env.loc (env.peek toks)) (env.rest toks)
      | some .set => do
        let (es, rest) ← listed bound (env.withProduct false) "\x7d" toks
        return (.collection .set es (env.loc (env.peek toks)), rest)
      | some .sequence => do
        let (es, rest) ← listed bound (env.withProduct false) "⟩" toks
        return (.collection .sequence es (env.loc (env.peek toks)), rest)
      | some .bag => do
        let (es, rest) ← listed bound (env.withProduct false) "]]" toks
        return (.collection .bag es (env.loc (env.peek toks)), rest)
      | some .binder =>
        quantified bound (env.withProduct false) (env.peek toks) (env.loc (env.peek toks)) (env.rest toks)
      | some .choice => do
        let (condition, mid) ← binary bound env 1 (env.rest toks)
        let mid ← env.expectKeyword "then" mid
        let (yes, mid) ← binary bound env 1 mid
        let mid ← env.expectKeyword "else" mid
        let (no, rest) ← binary bound env 1 mid
        return (.conditional condition yes no (env.loc (env.peek toks)), rest)
      | none => .error (env.expected "expression" toks) := by
  rw [primary]
  simp only [Env.formAt]
  generalize (env.peek toks).kind = kind
  cases kind with
  | delimiter => grind
  | keyword =>
    dsimp only
    split
    · rfl
    · split <;> rfl
  | _ => rfl

/-- A part after its mark; without the mark it is missing. -/
def clause {α : Type} (env : Env) (present : Bool) (missing : α) (reader : List Token → Except Fault (Parsed α))
    (toks : List Token) : Except Fault (Parsed α) :=
  if present then reader (env.rest toks) else .ok (missing, toks)

theorem clause_bind {α β : Type} (env : Env) (present : Bool) (missing : α)
    (reader : List Token → Except Fault (Parsed α)) (toks : List Token) (next : Parsed α → Except Fault (Parsed β)) :
    (if present = true then reader (env.rest toks) >>= next else next (missing, toks)) =
      (clause env present missing reader toks >>= next) := by
  unfold clause
  split <;> rfl

theorem elements_succ (bound : Nat) (env : Env) (toks : List Token) : elements (bound + 1) env toks = (do
      let (e, mid) ← binary bound env 1 toks
      let (es, rest) ← clause env (env.atDelim "," mid) [] (elements bound env) mid
      return (e :: es, rest)) := by
  rw [elements]
  apply bind_congr
  rintro ⟨e, mid⟩
  exact clause_bind ..

theorem comprehension_succ (bound : Nat) (env : Env) (opener : Token) (loc : Location) (toks : List Token) :
    comprehension (bound + 1) env opener loc toks = (do
      let (groups, mid) ← bindings bound env toks
      let (predicate, mid) ← clause env (env.atDelim "|" mid) .hole (binary bound env 1) mid
      let (result, mid) ← clause env (isSpot (env.peek mid)) .hole (binary bound env 1) mid
      let rest ← env.close opener "\x7d" mid
      return (.comprehension groups predicate result loc, rest)) := by
  rw [comprehension]
  apply bind_congr
  rintro ⟨groups, mid⟩
  refine Eq.trans ?_ (clause_bind env _ Expr.hole _ mid _)
  dsimp only
  split
  · apply bind_congr
    rintro ⟨predicate, mid⟩
    exact clause_bind ..
  · dsimp only [bind, Except.bind]
    exact clause_bind ..

theorem quantified_succ (bound : Nat) (env : Env) (q : Token) (loc : Location) (toks : List Token) :
    quantified (bound + 1) env q loc toks = (do
      let (groups, mid) ← bindings bound env toks
      let (such, after) ← clause env (env.atDelim "|" mid) .hole (binary bound env 1) mid
      let (body, rest) ← clause env (isSpot (env.peek after)) .hole (binary bound env 1) after
      if env.atDelim "|" mid || isSpot (env.peek after) then
        return (quantifierOf q (isSpot (env.peek after)) groups such body loc, rest)
      else .error (env.expected "'|', '@' or '.'" rest)) := by
  rw [quantified]
  apply bind_congr
  rintro ⟨groups, mid⟩
  unfold clause quantifierOf
  dsimp only
  cases env.atDelim "|" mid with
  | true =>
    apply bind_congr
    rintro ⟨such, after⟩
    dsimp only
    cases isSpot (env.peek after) with
    | true => rfl
    | false => cases q.value == "mu" <;> rfl
  | false =>
    dsimp only [bind, Except.bind]
    simp only [Bool.false_eq_true, if_false, Bool.false_or]
    cases isSpot (env.peek mid) <;> rfl

theorem bindings_succ (bound : Nat) (env : Env) (toks : List Token) : bindings (bound + 1) env toks =
      if isNameToken (env.peek toks) then (do
        let (others, afterNames) := moreNames env.nested (env.rest toks)
        let (domain, mid) ← clause (env.withProduct true) (env.atDelim ":" afterNames) .hole
          (binary bound (env.withProduct true) 1) afterNames
        let (groups, rest) ← clause env (env.atDelim ";" mid || (env.atDelim "," mid && env.atDelim ":" afterNames)) []
          (bindings bound env) mid
        return (⟨nameOf (env.peek toks) :: others, domain, env.loc (env.peek toks)⟩ :: groups, rest))
      else .error (env.expected "variable name" toks) := by
  rw [bindings]
  cases isNameToken (env.peek toks) with
  | false => rfl
  | true =>
    simp only [Bool.not_true, Bool.false_eq_true, if_false, if_true]
    refine Eq.trans ?_ (clause_bind (env.withProduct true) _ Expr.hole _ _ _)
    split
    · apply bind_congr
      rintro ⟨domain, mid⟩
      exact clause_bind ..
    · dsimp only [bind, Except.bind]
      exact clause_bind ..

theorem close_eq_ok {env : Env} {opener : Token} {closing : String} {toks rest : List Token} :
    env.close opener closing toks = .ok rest ↔ env.atDelim closing toks = true ∧ env.rest toks = rest := by
  unfold Env.close
  split <;> simp_all

theorem expectKeyword_eq_ok {env : Env} {name : String} {toks rest : List Token} :
    env.expectKeyword name toks = .ok rest ↔ (env.peek toks).isKeyword name = true ∧ env.rest toks = rest := by
  unfold Env.expectKeyword
  split <;> simp_all

/-! ## From an outcome to a derivation or a token -/

/-- Something else was expected where one of the tokens stands. -/
def Blames (place : Token → Location) (supply : List Token) (fault : Fault) : Prop :=
  (∃ expected found hint, fault.problem = .parse expected found hint) ∧ ∃ t ∈ supply, fault.loc = place t

/-- The current token is always one of the supply. -/
structure Env.Draws (env : Env) (supply toks : List Token) : Prop where
  final : env.final ∈ supply
  here : toks ⊆ supply

variable {supply : List Token}

namespace Env.Draws

variable {env : Env} {toks : List Token}

theorem suffix (draws : env.Draws supply toks) {rest : List Token} (behind : rest <:+ toks) :
    env.Draws supply rest :=
  ⟨draws.final, List.Subset.trans behind.subset draws.here⟩

theorem rest (draws : env.Draws supply toks) : env.Draws supply (env.rest toks) := draws.suffix (env.rest_suffix toks)

theorem inside (draws : env.Draws supply toks) : env.inside.Draws supply toks := ⟨draws.final, draws.here⟩

theorem withProduct (draws : env.Draws supply toks) (product : Bool) : (env.withProduct product).Draws supply toks :=
  ⟨draws.final, draws.here⟩

theorem peek_mem (draws : env.Draws supply toks) : env.peek toks ∈ supply := by
  rcases env.peek_mem toks with member | final
  · exact draws.here member
  · rw [final]
    exact draws.final

theorem blames_expected (draws : env.Draws supply toks) (what : String) :
    Blames env.loc supply (env.expected what toks) :=
  ⟨⟨_, _, _, rfl⟩, _, draws.peek_mem, rfl⟩

end Env.Draws

theorem Reads.suffix {env goal toks v rest} (reads : Reads env goal toks v rest) : rest <:+ toks := by
  induction reads with
  | stop | groupAlone | bare | absent => exact suffix_refl _
  | number | name => exact Env.rest_suffix _ _
  | groupCall _ _ ih | groupArgument _ _ ih | collected _ _ _ ih => exact ih
  | prefixed _ _ ih | word _ _ ih | closure _ _ ih
  | comprehended _ _ ih | bound _ _ ih | present _ ih =>
    exact ih.trans (Env.rest_suffix _ _)
  | binary _ _ first next | element _ _ first next | atom _ _ _ first next | call _ _ _ first next
  | parameters _ _ _ first next | argument _ _ _ first next =>
    exact next.trans first
  | climb _ _ _ _ first next =>
    exact next.trans (first.trans ((Env.continuation_suffix _ _).trans (Env.rest_suffix _ _)))
  | group _ _ _ _ first second third | quantified _ _ _ _ first second third =>
    exact third.trans (second.trans first)
  | field _ _ ih => exact ih.trans ((tail_suffix _).trans (Env.rest_suffix _ _))
  | super _ _ _ first next => exact next.trans (first.trans (Env.rest_suffix _ _))
  | image _ _ _ _ first next =>
    exact next.trans ((Env.rest_suffix _ _).trans (first.trans (Env.rest_suffix _ _)))
  | listedNone => exact (Env.rest_suffix _ _).trans (Env.rest_suffix _ _)
  | listed _ _ _ ih | grouped _ _ _ ih => exact (Env.rest_suffix _ _).trans (ih.trans (Env.rest_suffix _ _))
  | choice _ _ _ _ _ _ first second third => grind [Env.rest_suffix]
  | comprehension _ _ _ _ first second third => exact (Env.rest_suffix _ _).trans (third.trans (second.trans first))
  | groups _ names _ _ first next =>
    exact next.trans (first.trans ((suffix_of_moreNames names).trans (Env.rest_suffix _ _)))

/-- A value is derived from the goal, and a fault is at a token of the supply. -/
def Meets {α : Type} (supply : List Token) (env : Env) (goal : Goal) (value : α → Value) (toks : List Token) :
    Except Fault (Parsed α) → Prop :=
  Yields (fun p => Reads env goal toks (value p.1) p.2) (Blames env.loc supply)

/-- The readers with a given bound meet their goals. -/
structure Traced (supply : List Token) (bound : Nat) : Prop where
  binary {env toks} : Env.Draws env supply toks →
    ∀ least, Meets supply env (.binary least) .expr toks (binary bound env least toks)
  climb {env toks} : Env.Draws env supply toks → ∀ least left last,
    Meets supply env (.climb least left last) .expr toks (climb bound env least left last toks)
  operand {env toks} : Env.Draws env supply toks →
    ∀ juxtapose, Meets supply env (.operand juxtapose) .expr toks (operand bound env juxtapose toks)
  appliedGroup {env toks} : Env.Draws env supply toks → ∀ juxtapose group,
    Meets supply env (.appliedGroup juxtapose group) .expr toks (appliedGroup bound env juxtapose group toks)
  suffixes {env toks} : Env.Draws env supply toks → ∀ juxtapose base,
    Meets supply env (.suffixes juxtapose base) .expr toks (suffixes bound env juxtapose base toks)
  listed {env toks} : Env.Draws env supply toks →
    ∀ closing, Meets supply env (.listed closing) .list toks (listed bound env closing toks)
  elements {env toks} : Env.Draws env supply toks → Meets supply env .elements .list toks (elements bound env toks)
  primary {env toks} : Env.Draws env supply toks → Meets supply env .primary .expr toks (primary bound env toks)
  comprehension {env toks} : Env.Draws env supply toks → ∀ opener loc,
    Meets supply env (.comprehension opener loc) .expr toks (comprehension bound env opener loc toks)
  quantified {env toks} : Env.Draws env supply toks →
    ∀ q loc, Meets supply env (.quantified q loc) .expr toks (quantified bound env q loc toks)
  bindings {env toks} : Env.Draws env supply toks → Meets supply env .bindings .groups toks (bindings bound env toks)

theorem traced_zero : Traced supply 0 where
  binary draws _ := by rw [Parse.binary]; exact draws.blames_expected _
  climb draws _ _ _ := by rw [Parse.climb]; exact draws.blames_expected _
  operand draws _ := by rw [Parse.operand]; exact draws.blames_expected _
  appliedGroup draws _ _ := by rw [Parse.appliedGroup]; exact draws.blames_expected _
  suffixes draws _ _ := by rw [Parse.suffixes]; exact draws.blames_expected _
  listed draws _ := by rw [Parse.listed]; exact draws.blames_expected _
  elements draws := by rw [Parse.elements]; exact draws.blames_expected _
  primary draws := by rw [Parse.primary]; exact draws.blames_expected _
  comprehension draws _ _ := by rw [Parse.comprehension]; exact draws.blames_expected _
  quantified draws _ _ := by rw [Parse.quantified]; exact draws.blames_expected _
  bindings draws := by rw [Parse.bindings]; exact draws.blames_expected _

section
variable {bound : Nat} {env : Env} {toks : List Token} (draws : env.Draws supply toks)
include draws

theorem yields_close (opener : Token) (closing : String) :
    Yields (fun rest => env.atDelim closing toks = true ∧ env.rest toks = rest) (Blames env.loc supply)
      (env.close opener closing toks) :=
  .ite (fun closed => ⟨closed, rfl⟩) fun _ => ⟨⟨_, _, _, rfl⟩, _, draws.peek_mem, rfl⟩

theorem yields_keyword (name : String) :
    Yields (fun rest => (env.peek toks).isKeyword name = true ∧ env.rest toks = rest) (Blames env.loc supply)
      (env.expectKeyword name toks) :=
  .ite (fun found => ⟨found, rfl⟩) fun _ => draws.blames_expected _

variable (ih : Traced supply bound)
include ih

theorem binary_traced (least : Precedence) :
    Meets supply env (.binary least) .expr toks (binary (bound + 1) env least toks) := by
  rw [binary]
  apply (ih.operand draws true).bind
  intro left first
  exact (ih.climb (draws.suffix first.suffix) _ _ _).imp fun _ next => .binary first next

theorem climb_traced (least : Precedence) (left : Expr) (last : Option Expr) :
    Meets supply env (.climb least left last) .expr toks (climb (bound + 1) env least left last toks) := by
  rw [climb_succ]
  split
  next none =>
    apply Reads.stop
    rw [none]
    intro _ _ _ impossible
    cases impossible
  next name prec assoc found =>
    apply Yields.ite
    · intro below
      apply Reads.stop
      rw [found]
      intro _ _ _ same
      cases same
      exact below
    · intro above
      apply (ih.binary (draws.rest.suffix (env.continuation_suffix _)) _).bind
      intro right first
      have behind := first.suffix.trans ((env.continuation_suffix _).trans (env.rest_suffix toks))
      exact (ih.climb (draws.suffix behind) _ _ _).imp fun _ next => .climb found (Int.not_lt.mp above) first next

theorem operand_traced (juxtapose : Bool) :
    Meets supply env (.operand juxtapose) .expr toks (operand (bound + 1) env juxtapose toks) := by
  rw [operand_succ]
  split
  next lead => exact (ih.operand draws.rest _).bind fun _ inner => .prefixed (by rw [lead]; rfl) inner
  next lead => exact (ih.binary draws.rest _).bind fun _ inner => .prefixed (by rw [lead]; rfl) inner
  next lead => exact (ih.suffixes draws.rest _ _).imp fun _ inner => .word lead inner
  next lead => exact (ih.operand draws.rest _).bind fun _ inner => .prefixed (by rw [lead]; rfl) inner
  next lead =>
    apply (ih.primary draws).bind
    intro group first
    have here := draws.suffix first.suffix
    apply (ih.appliedGroup here _ _).bind
    intro base second
    exact (ih.suffixes (here.suffix second.suffix) _ _).imp fun _ third => .group lead first second third
  next lead =>
    apply (ih.primary draws).bind
    intro base first
    exact (ih.suffixes (draws.suffix first.suffix) _ _).imp fun _ next => .atom lead first next

theorem appliedGroup_traced (juxtapose : Bool) (group : Expr) : Meets supply env (.appliedGroup juxtapose group)
    .expr toks (appliedGroup (bound + 1) env juxtapose group toks) := by
  rw [appliedGroup_succ]
  split
  next follows => exact (ih.listed draws _).bind fun _ args => .groupCall follows args
  next follows => exact (ih.operand draws _).bind fun _ arg => .groupArgument follows arg
  next noCall noArgument =>
    apply Reads.groupAlone
    unfold Env.groupSuffixAt at noCall noArgument ⊢
    dsimp only at noCall noArgument ⊢
    split
    next call => exact absurd (if_pos call) noCall
    next noCall => grind

theorem suffixes_traced (juxtapose : Bool) (base : Expr) : Meets supply env (.suffixes juxtapose base) .expr toks
    (suffixes (bound + 1) env juxtapose base toks) := by
  have onward {mid : List Token} (behind : mid <:+ toks) (base : Expr) :=
    ih.suffixes (draws.suffix behind) juxtapose base
  rw [suffixes_succ]
  split
  next follows =>
    exact (ih.listed draws _).bind fun _ args => (onward args.suffix _).imp fun _ next => .call follows args next
  next follows =>
    exact (ih.listed draws _).bind fun _ params =>
      (onward params.suffix _).imp fun _ next => .parameters follows params next
  next follows =>
    exact (onward ((tail_suffix _).trans (env.rest_suffix _)) _).imp fun _ next => .field follows next
  next follows => exact (onward (env.rest_suffix _) _).imp fun _ next => .closure follows next
  next follows =>
    exact (ih.primary draws.rest).bind fun _ sup =>
      (onward (sup.suffix.trans (env.rest_suffix _)) _).imp fun _ next => .super follows sup next
  next follows =>
    apply (ih.binary draws.rest.inside _).bind
    intro set first
    apply (yields_close (draws.rest.inside.suffix first.suffix) _ _).bind
    rintro _ ⟨closing, rfl⟩
    have behind := (env.inside.rest_suffix _).trans (first.suffix.trans (env.rest_suffix toks))
    exact (onward behind _).imp fun _ next => .image follows first closing next
  next follows =>
    exact (ih.operand draws _).bind fun _ arg => (onward arg.suffix _).imp fun _ next => .argument follows arg next
  next follows => exact Reads.bare follows

theorem listed_traced (closing : String) :
    Meets supply env (.listed closing) .list toks (listed (bound + 1) env closing toks) := by
  rw [listed]
  apply Yields.ite
  · exact fun closed => Reads.listedNone closed
  · intro opened
    apply (ih.elements draws.rest.inside).bind
    intro es first
    apply (yields_close (draws.rest.inside.suffix first.suffix) _ _).bind
    rintro _ ⟨closed, rfl⟩
    exact Reads.listed (Bool.eq_false_iff.mpr opened) first closed

theorem primary_traced : Meets supply env .primary .expr toks (primary (bound + 1) env toks) := by
  rw [primary_succ]
  split
  next form => exact Reads.number form
  next form => exact Reads.name form
  next form =>
    apply (ih.elements draws.rest.inside).bind
    intro es first
    apply (yields_close (draws.rest.inside.suffix first.suffix) _ _).bind
    rintro _ ⟨closing, rfl⟩
    exact Reads.grouped form first closing
  next form =>
    exact (ih.comprehension (draws.rest.inside.withProduct false) _ _).imp fun _ next => .comprehended form next
  next form => exact (ih.listed (draws.withProduct false) _).bind fun _ es => .collected form rfl es
  next form => exact (ih.listed (draws.withProduct false) _).bind fun _ es => .collected form rfl es
  next form => exact (ih.listed (draws.withProduct false) _).bind fun _ es => .collected form rfl es
  next form => exact (ih.quantified (draws.rest.withProduct false) _ _).imp fun _ next => .bound form next
  next form =>
    apply (ih.binary draws.rest 1).bind
    intro condition first
    have here := draws.rest.suffix first.suffix
    apply (yields_keyword here "then").bind
    rintro _ ⟨isThen, rfl⟩
    apply (ih.binary here.rest 1).bind
    intro yes second
    have there := here.rest.suffix second.suffix
    apply (yields_keyword there "else").bind
    rintro _ ⟨isElse, rfl⟩
    exact (ih.binary there.rest 1).bind fun _ third => .choice form first isThen second isElse third
  next => exact draws.blames_expected _

omit draws ih in
/-- A clause is read where its mark stands, and missing where it does not. -/
theorem clause_traced {α : Type} {value : α → Value} {missing : α} {reader : List Token → Except Fault (Parsed α)}
    (part : Part) (reads : Meets supply env part.goal value (env.rest toks) (reader (env.rest toks))) (present : Bool)
    (same : value missing = part.missing) :
    Meets supply env (.clause present part) value toks (clause env present missing reader toks) := by
  cases present with
  | true => exact reads.imp fun _ read => .present read
  | false =>
    show Reads env _ toks (value missing) toks
    rw [same]
    exact .absent

theorem elements_traced : Meets supply env .elements .list toks (elements (bound + 1) env toks) := by
  rw [elements_succ]
  apply (ih.binary draws 1).bind
  intro e first
  apply (clause_traced .elements (ih.elements (draws.suffix first.suffix).rest) _ rfl).bind
  exact fun _ others => .element first others

theorem comprehension_traced (opener : Token) (loc : Location) : Meets supply env (.comprehension opener loc) .expr
    toks (comprehension (bound + 1) env opener loc toks) := by
  rw [comprehension_succ]
  apply (ih.bindings draws).bind
  intro groups first
  have barred := draws.suffix first.suffix
  apply (clause_traced .expr (ih.binary barred.rest 1) _ rfl).bind
  intro predicate second
  have spotted := barred.suffix second.suffix
  apply (clause_traced .expr (ih.binary spotted.rest 1) _ rfl).bind
  intro result third
  apply (yields_close (spotted.suffix third.suffix) _ _).bind
  rintro _ ⟨closing, rfl⟩
  exact Reads.comprehension first second third closing

theorem quantified_traced (q : Token) (loc : Location) :
    Meets supply env (.quantified q loc) .expr toks (quantified (bound + 1) env q loc toks) := by
  rw [quantified_succ]
  apply (ih.bindings draws).bind
  intro groups first
  have barred := draws.suffix first.suffix
  apply (clause_traced .expr (ih.binary barred.rest 1) _ rfl).bind
  intro such second
  have spotted := barred.suffix second.suffix
  apply (clause_traced .expr (ih.binary spotted.rest 1) _ rfl).bind
  intro body third
  exact .ite (fun marked => Reads.quantified first second third marked) fun _ =>
    (spotted.suffix third.suffix).blames_expected _

theorem bindings_traced : Meets supply env .bindings .groups toks (bindings (bound + 1) env toks) := by
  rw [bindings_succ]
  apply Yields.ite
  · intro named
    have here := draws.rest.suffix (moreNames_suffix env.nested (env.rest toks))
    apply (clause_traced .expr (ih.binary (here.rest.withProduct true) 1) _ rfl).bind
    intro domain typed
    apply (clause_traced .groups (ih.bindings (here.suffix typed.suffix).rest) _ rfl).bind
    exact fun _ others => .groups named rfl typed others
  · exact fun _ => draws.blames_expected _

end

theorem traced (supply : List Token) (bound : Nat) : Traced supply bound := by
  induction bound with
  | zero => exact traced_zero
  | succ bound ih =>
    exact {
      binary draws := binary_traced draws ih
      climb draws := climb_traced draws ih
      operand draws := operand_traced draws ih
      appliedGroup draws := appliedGroup_traced draws ih
      suffixes draws := suffixes_traced draws ih
      listed draws := listed_traced draws ih
      elements draws := elements_traced draws ih
      primary draws := primary_traced draws ih
      comprehension draws := comprehension_traced draws ih
      quantified draws := quantified_traced draws ih
      bindings draws := bindings_traced draws ih }

/-! ## Progress -/

/-- Does meeting the goal take at least one token? -/
def Goal.consumes : Goal → Bool
  | .climb .. | .appliedGroup .. | .suffixes .. | .clause .. => false
  | _ => true

theorem rest_length_le (env : Env) (toks : List Token) : (env.rest toks).length ≤ toks.length :=
  (env.rest_suffix toks).length_le

/-- A bracket or another mark at the front is a token of the source. -/
theorem rest_length_lt_of_atDelim {env : Env} (ends : env.Ends) {value : String}
    {toks : List Token} (marked : env.atDelim value toks = true) :
    (env.rest toks).length < toks.length :=
  Env.rest_length_lt ends (kind_ne_of_is marked (by decide))

theorem kind_ne_of_leadAt {env : Env} {toks : List Token} {lead : Lead} (leads : env.leadAt toks = lead)
    (prefixed : lead ≠ .atom) : (env.peek toks).kind ≠ .endOfInput := by
  intro final
  apply prefixed
  rw [← leads]
  simp [Env.leadAt, Token.isOp, Token.isDelim, Token.is, final]

theorem kind_ne_of_prefixed {env : Env} {toks : List Token} {juxtapose : Bool} {op : String × Goal}
    (found : (env.leadAt toks).prefixed (env.peek toks) juxtapose = some op) : (env.peek toks).kind ≠ .endOfInput :=
  kind_ne_of_leadAt rfl fun atom => by simp [atom, Lead.prefixed] at found

theorem kind_ne_of_formAt {env : Env} {toks : List Token} {form : Form}
    (found : env.formAt toks = some form) : (env.peek toks).kind ≠ .endOfInput := by
  intro final
  unfold Env.formAt at found
  dsimp only at found
  rw [final] at found
  cases found

theorem kind_ne_of_suffixAt {env : Env} {juxtapose : Bool} {base : Expr} {toks : List Token}
    {suffix : Suffix} (follows : env.suffixAt juxtapose base toks = some suffix) :
    (env.peek toks).kind ≠ .endOfInput := by
  intro final
  simp [Env.suffixAt, Env.startsOperand, Token.isOp, Token.isDelim, Token.is, final] at follows

theorem kind_ne_of_infixAt {env : Env} {t : Token} {op : String × Precedence × Assoc}
    (found : env.infixAt t = some op) : t.kind ≠ .endOfInput := by
  intro final
  simp [Env.infixAt, final] at found

theorem continuation_length_lt {env : Env} (ends : env.Ends) {toks : List Token}
    {op : String × Precedence × Assoc} (found : env.infixAt (env.peek toks) = some op) :
    (env.continuation (env.rest toks)).2.length < toks.length :=
  Nat.lt_of_le_of_lt (env.continuation_suffix _).length_le (Env.rest_length_lt ends (kind_ne_of_infixAt found))

theorem rest_length_lt_of_rest_pos {env : Env} {toks : List Token}
    (remains : 0 < (env.rest toks).length) : (env.rest toks).length < toks.length := by
  have whole := (env.view_suffix toks).length_le
  rw [Env.rest, length_tail] at remains ⊢
  omega

theorem kind_ne_of_isNameToken {t : Token} (named : isNameToken t = true) : t.kind ≠ .endOfInput := by
  intro final
  rw [isNameToken, final] at named
  cases named

/-- What is behind a token of the source is shorter than the source. -/
theorem length_lt_of_rest {env : Env} {toks rest : List Token} (ends : env.Ends)
    (present : (env.peek toks).kind ≠ .endOfInput) (behind : rest <:+ env.rest toks) : rest.length < toks.length :=
  Nat.lt_of_le_of_lt behind.length_le (Env.rest_length_lt ends present)

/-- Every expression, list and group of bound variables takes a token of the source. -/
theorem Reads.length_lt {env goal toks v rest} (reads : Reads env goal toks v rest)
    (ends : env.Ends) (consumes : goal.consumes = true) : rest.length < toks.length := by
  -- either the first part takes one, or the token at the front is stepped over
  induction reads with
  | binary _ next first _ | element _ next first _ | atom _ _ next first _ =>
    exact Nat.lt_of_le_of_lt next.suffix.length_le (first ends rfl)
  | prefixed found inner _ => exact length_lt_of_rest ends (kind_ne_of_prefixed found) inner.suffix
  | word lead inner _ => exact length_lt_of_rest ends (kind_ne_of_leadAt lead (by decide)) inner.suffix
  | group _ _ second third first _ _ | quantified _ second third _ first _ _ =>
    exact Nat.lt_of_le_of_lt (third.suffix.trans second.suffix).length_le (first ends rfl)
  | listedNone closed =>
    exact Nat.lt_of_lt_of_le (rest_length_lt_of_atDelim ends.inside closed) (rest_length_le _ _)
  | listed _ inner closed _ =>
    exact Nat.lt_of_lt_of_le (rest_length_lt_of_atDelim ends.inside closed)
      (inner.suffix.trans (Env.rest_suffix _ _)).length_le
  | collected _ _ _ ih => exact ih ends rfl
  | number form | name form => exact length_lt_of_rest ends (kind_ne_of_formAt form) (suffix_refl _)
  | grouped form inner _ _ =>
    exact length_lt_of_rest ends (kind_ne_of_formAt form) ((Env.rest_suffix _ _).trans inner.suffix)
  | comprehended form inner _ | bound form inner _ =>
    exact length_lt_of_rest ends (kind_ne_of_formAt form) inner.suffix
  | choice form first _ second _ third _ _ _ =>
    exact length_lt_of_rest ends (kind_ne_of_formAt form) (third.suffix.trans ((Env.rest_suffix _ _).trans
      (second.suffix.trans ((Env.rest_suffix _ _).trans first.suffix))))
  | comprehension _ second third _ first _ _ =>
    exact Nat.lt_of_le_of_lt ((Env.rest_suffix _ _).trans (third.suffix.trans second.suffix)).length_le (first ends rfl)
  | groups named names domain next _ _ =>
    exact length_lt_of_rest ends (kind_ne_of_isNameToken named)
      (next.suffix.trans (domain.suffix.trans (suffix_of_moreNames names)))
  | _ => cases consumes

/-! ## Every derivation is found within the bound -/

/-- How many steps, at most, lead from the goal to one that works on fewer tokens. -/
def Goal.rank : Goal → Nat
  | .climb .. | .listed _ | .bindings | .clause _ .groups => 0
  | .primary | .comprehension .. | .quantified .. => 1
  | .operand _ => 2
  | .binary _ | .appliedGroup .. | .suffixes .. | .clause _ .expr => 3
  | .elements | .clause _ .elements => 4

theorem map_expr_eq_ok {x : Except Fault (Parsed Expr)} {e : Expr} {rest : List Token} :
    x.map (Prod.map Value.expr id) = .ok (.expr e, rest) ↔ x = .ok (e, rest) := by
  rcases x with _ | ⟨_, _⟩ <;> simp [Except.map]

theorem map_list_eq_ok {x : Except Fault (Parsed (List Expr))} {es : List Expr} {rest : List Token} :
    x.map (Prod.map Value.list id) = .ok (.list es, rest) ↔ x = .ok (es, rest) := by
  rcases x with _ | ⟨_, _⟩ <;> simp [Except.map]

theorem map_groups_eq_ok {x : Except Fault (Parsed (List (Binding Expr)))}
    {gs : List (Binding Expr)} {rest : List Token} :
    x.map (Prod.map Value.groups id) = .ok (.groups gs, rest) ↔ x = .ok (gs, rest) := by
  rcases x with _ | ⟨_, _⟩ <;> simp [Except.map]

/-- Tries a goal within a bound on the depth. -/
def run (bound : Nat) (env : Env) (goal : Goal) (toks : List Token) : Except Fault (Parsed Value) :=
  match goal with
  | .binary least => (binary bound env least toks).map (Prod.map Value.expr id)
  | .climb least left last => (climb bound env least left last toks).map (Prod.map Value.expr id)
  | .operand juxtapose => (operand bound env juxtapose toks).map (Prod.map Value.expr id)
  | .appliedGroup juxtapose group =>
    (appliedGroup bound env juxtapose group toks).map (Prod.map Value.expr id)
  | .suffixes juxtapose base => (suffixes bound env juxtapose base toks).map (Prod.map Value.expr id)
  | .listed closing => (listed bound env closing toks).map (Prod.map Value.list id)
  | .elements => (elements bound env toks).map (Prod.map Value.list id)
  | .primary => (primary bound env toks).map (Prod.map Value.expr id)
  | .comprehension opener loc =>
    (comprehension bound env opener loc toks).map (Prod.map Value.expr id)
  | .quantified q loc => (quantified bound env q loc toks).map (Prod.map Value.expr id)
  | .bindings => (bindings bound env toks).map (Prod.map Value.groups id)
  | .clause present .expr => (clause env present .hole (binary bound env 1) toks).map (Prod.map Value.expr id)
  | .clause present .elements => (clause env present [] (elements bound env) toks).map (Prod.map Value.list id)
  | .clause present .groups => (clause env present [] (bindings bound env) toks).map (Prod.map Value.groups id)

/-- A derivation is found by every bounded reader whose bound exceeds eight levels for each token
at hand. -/
theorem Reads.run_eq {env goal toks v rest} (reads : Reads env goal toks v rest)
    (ends : env.Ends) (bound : Nat) (enough : 8 * toks.length + goal.rank < bound) :
    run bound env goal toks = .ok (v, rest) := by
  -- The bound shrinks by one at every step, and by less than eight before a token is consumed.
  induction reads generalizing bound with
    (obtain ⟨bound, rfl⟩ : ∃ b, bound = b + 1 := ⟨bound - 1, by omega⟩
     simp only [Goal.rank, length_tail] at *)
  | stop below =>
    rw [run, climb_succ]
    split
    · rfl
    · next name prec assoc found =>
        rw [if_pos (below _ _ _ found)]
        rfl
  | groupAlone alone =>
    rw [run, appliedGroup_succ, alone]
    rfl
  | bare alone =>
    rw [run, suffixes_succ, alone]
    rfl
  | number form | name form =>
    rw [run, primary_succ, form]
    rfl
  | listedNone closed =>
    rw [run, Parse.listed]
    dsimp only
    rw [if_pos closed]
    rfl
  | @absent env part toks => cases part <;> rfl
  | binary first next firstIH nextIH =>
    have shorter := first.length_lt ends rfl
    have left := map_expr_eq_ok.mp (firstIH ends bound (by omega))
    have last := nextIH ends bound (by omega)
    rw [run, Parse.binary, left]
    exact last
  | climb found least first next firstIH nextIH =>
    have stepped := continuation_length_lt ends found
    have shorter := first.length_lt ends rfl
    have right := map_expr_eq_ok.mp (firstIH ends bound (by omega))
    have last := nextIH ends bound (by omega)
    rw [run, climb_succ, found]
    dsimp only
    rw [if_neg (Int.not_lt.mpr least), right]
    exact last
  | prefixed found inner ih =>
    have stepped := Env.rest_length_lt ends (kind_ne_of_prefixed found)
    rcases Lead.cases_prefixed found with ⟨lead, rfl, rfl⟩ | ⟨lead, rfl, rfl⟩ | ⟨lead, rfl, rfl⟩ <;>
    · have value := map_expr_eq_ok.mp (ih ends bound (by simp only; omega))
      rw [run, operand_succ, lead]
      dsimp only
      rw [value]
      rfl
  | word lead inner ih =>
    have stepped := Env.rest_length_lt ends (kind_ne_of_leadAt lead (by decide))
    rw [run, operand_succ, lead]
    exact ih ends bound (by omega)
  | group lead first second third firstIH secondIH thirdIH =>
    have shorter := first.length_lt ends rfl
    have afterSecond := second.suffix.length_le
    have group := map_expr_eq_ok.mp (firstIH ends bound (by omega))
    have base := map_expr_eq_ok.mp (secondIH ends bound (by omega))
    have last := thirdIH ends bound (by omega)
    rw [run, operand_succ, lead]
    dsimp only
    rw [group]
    change Except.map _ (appliedGroup bound _ _ _ _ >>= _) = _
    rw [base]
    exact last
  | atom lead first next firstIH nextIH =>
    have shorter := first.length_lt ends rfl
    have base := map_expr_eq_ok.mp (firstIH ends bound (by omega))
    have last := nextIH ends bound (by omega)
    rw [run, operand_succ, lead]
    dsimp only
    rw [base]
    exact last
  | groupCall follows inner ih =>
    have args := map_list_eq_ok.mp (ih ends bound (by omega))
    rw [run, appliedGroup_succ, follows]
    dsimp only
    rw [args]
    rfl
  | groupArgument follows inner ih =>
    have arg := map_expr_eq_ok.mp (ih ends bound (by omega))
    rw [run, appliedGroup_succ, follows]
    dsimp only
    rw [arg]
    rfl
  | call follows first next firstIH nextIH | parameters follows first next firstIH nextIH =>
    have shorter := first.length_lt ends rfl
    have listed := map_list_eq_ok.mp (firstIH ends bound (by omega))
    have last := nextIH ends bound (by omega)
    rw [run, suffixes_succ, follows]
    dsimp only
    rw [listed]
    exact last
  | field follows inner ih | closure follows inner ih =>
    have stepped := Env.rest_length_lt ends (kind_ne_of_suffixAt follows)
    rw [run, suffixes_succ, follows]
    exact ih ends bound (by omega)
  | super follows first next firstIH nextIH =>
    have stepped := Env.rest_length_lt ends (kind_ne_of_suffixAt follows)
    have shorter := first.suffix.length_le
    have sup := map_expr_eq_ok.mp (firstIH ends bound (by omega))
    have last := nextIH ends bound (by omega)
    rw [run, suffixes_succ, follows]
    dsimp only
    rw [sup]
    exact last
  | image follows first closed next firstIH nextIH =>
    have stepped := Env.rest_length_lt ends (kind_ne_of_suffixAt follows)
    have shorter := first.suffix.length_le
    have after := rest_length_lt_of_atDelim ends.inside closed
    have set := map_expr_eq_ok.mp (firstIH ends.inside bound (by omega))
    have last := nextIH ends bound (by omega)
    rw [run, suffixes_succ, follows]
    dsimp only
    rw [set]
    change Except.map _ (Env.close _ _ _ _ >>= _) = _
    rw [close_eq_ok.mpr ⟨closed, rfl⟩]
    exact last
  | argument follows first next firstIH nextIH =>
    have shorter := first.length_lt ends rfl
    have arg := map_expr_eq_ok.mp (firstIH ends bound (by omega))
    have last := nextIH ends bound (by omega)
    rw [run, suffixes_succ, follows]
    dsimp only
    rw [arg]
    exact last
  | listed opened inner closed ih =>
    have remains := Nat.zero_lt_of_lt (inner.length_lt ends.inside rfl)
    have stepped := rest_length_lt_of_rest_pos remains
    have es := map_list_eq_ok.mp (ih ends.inside bound (by omega))
    rw [run, Parse.listed]
    dsimp only
    rw [if_neg (Bool.eq_false_iff.mp opened), es]
    change Except.map _ (Env.close _ _ _ _ >>= _) = _
    rw [close_eq_ok.mpr ⟨closed, rfl⟩]
    rfl
  | element first next firstIH nextIH =>
    have shorter := first.length_lt ends rfl
    have e := map_expr_eq_ok.mp (firstIH ends bound (by omega))
    have es := map_list_eq_ok.mp (nextIH ends bound (by omega))
    rw [run, elements_succ, e]
    change Except.map _ (clause _ _ _ _ _ >>= _) = _
    rw [es]
    rfl
  | grouped form inner closed ih =>
    have stepped := Env.rest_length_lt ends (kind_ne_of_formAt form)
    have es := map_list_eq_ok.mp (ih ends.inside bound (by omega))
    rw [run, primary_succ, form]
    dsimp only
    rw [es]
    change Except.map _ (Env.close _ _ _ _ >>= _) = _
    rw [close_eq_ok.mpr ⟨closed, rfl⟩]
    rfl
  | comprehended form inner ih | bound form inner ih =>
    have stepped := Env.rest_length_lt ends (kind_ne_of_formAt form)
    rw [run, primary_succ, form]
    exact ih ends bound (by omega)
  | @collected env toks form closing kind es rest found brackets inner ih =>
    have es := map_list_eq_ok.mp (ih ends bound (by omega))
    rw [run, primary_succ, found]
    cases form <;> cases brackets <;> dsimp only <;> rw [es] <;> rfl
  | choice form first isThen second isElse third firstIH secondIH thirdIH =>
    have stepped := Env.rest_length_lt ends (kind_ne_of_formAt form)
    have afterFirst := first.suffix.length_le
    have atThen := Env.rest_length_lt ends (kind_ne_of_is isThen (by decide))
    have afterSecond := second.suffix.length_le
    have atElse := Env.rest_length_lt ends (kind_ne_of_is isElse (by decide))
    have condition := map_expr_eq_ok.mp (firstIH ends bound (by omega))
    have yes := map_expr_eq_ok.mp (secondIH ends bound (by omega))
    have no := map_expr_eq_ok.mp (thirdIH ends bound (by omega))
    rw [run, primary_succ, form]
    dsimp only
    rw [condition]
    change Except.map _ (Env.expectKeyword _ _ _ >>= _) = _
    rw [expectKeyword_eq_ok.mpr ⟨isThen, rfl⟩]
    change Except.map _ (Parse.binary _ _ _ _ >>= _) = _
    rw [yes]
    change Except.map _ (Env.expectKeyword _ _ _ >>= _) = _
    rw [expectKeyword_eq_ok.mpr ⟨isElse, rfl⟩]
    change Except.map _ (Parse.binary _ _ _ _ >>= _) = _
    rw [no]
    rfl
  | comprehension first second third closed firstIH secondIH thirdIH =>
    have shorter := first.length_lt ends rfl
    have afterSecond := second.suffix.length_le
    have gs := map_groups_eq_ok.mp (firstIH ends bound (by omega))
    have predicate := map_expr_eq_ok.mp (secondIH ends bound (by omega))
    have result := map_expr_eq_ok.mp (thirdIH ends bound (by omega))
    rw [run, comprehension_succ, gs]
    change Except.map _ (clause _ _ _ _ _ >>= _) = _
    rw [predicate]
    change Except.map _ (clause _ _ _ _ _ >>= _) = _
    rw [result]
    change Except.map _ (Env.close _ _ _ _ >>= _) = _
    rw [close_eq_ok.mpr ⟨closed, rfl⟩]
    rfl
  | quantified first second third marked firstIH secondIH thirdIH =>
    have shorter := first.length_lt ends rfl
    have afterSecond := second.suffix.length_le
    have gs := map_groups_eq_ok.mp (firstIH ends bound (by omega))
    have such := map_expr_eq_ok.mp (secondIH ends bound (by omega))
    have body := map_expr_eq_ok.mp (thirdIH ends bound (by omega))
    rw [run, quantified_succ, gs]
    change Except.map _ (clause _ _ _ _ _ >>= _) = _
    rw [such]
    change Except.map _ (clause _ _ _ _ _ >>= _) = _
    rw [body]
    change Except.map _ (if _ then _ else _) = _
    rw [if_pos marked]
    rfl
  | groups named names inner next ih nextIH =>
    have stepped := Env.rest_length_lt ends (kind_ne_of_isNameToken named)
    have others := (suffix_of_moreNames names).length_le
    have typed := inner.suffix.length_le
    have domain := map_expr_eq_ok.mp (ih ends bound (by omega))
    have gs := map_groups_eq_ok.mp (nextIH ends bound (by omega))
    rw [run, bindings_succ, if_pos named, names]
    dsimp only
    rw [domain]
    change Except.map _ (clause _ _ _ _ _ >>= _) = _
    rw [gs]
    rfl
  | @present env part toks v rest inner ih =>
    have shorter := rest_length_le env toks
    cases part <;> exact ih ends (bound + 1) (by simp only [Part.goal] at *; omega)

theorem meets_expr {env : Env} {toks : List Token} (draws : env.Draws supply toks) :
    Meets supply env (.binary 1) .expr toks (expr env toks) :=
  (traced supply _).binary draws 1

/-- An expression is read exactly where the grammar derives it. -/
theorem expr_eq_ok_iff {env : Env} (ends : env.Ends) {toks rest : List Token} {e : Expr} :
    expr env toks = .ok (e, rest) ↔ Reads env (.binary 1) toks (.expr e) rest := by
  constructor
  · intro read
    have draws : env.Draws (env.final :: toks) toks := ⟨mem_cons_self, subset_cons_self _ _⟩
    exact (meets_expr draws).value read
  · intro reads
    exact map_expr_eq_ok.mp (reads.run_eq ends _ (by simp only [Goal.rank]; omega))

end Parse
end Whiteboard
