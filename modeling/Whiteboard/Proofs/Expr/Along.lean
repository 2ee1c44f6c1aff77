import Whiteboard.Proofs.Expr.Relocated

namespace Whiteboard

open List hiding set
namespace Parse

/-!
# Rows at another place

A row of tokens is put at another place, in front of whatever ends it there.  Where a bracket is open it may get
further line ends, as long as none of these parts what a bond keeps together.  The cursor then stands at the same
token at both places, and every decision of the grammar has the same outcome.
-/

/-! ## Open brackets -/

/-- The number of open brackets after a delimiter. -/
def afterBracket (depth : Nat) (value : String) : Nat :=
  if bracketPairs.any fun p => value == p.1 then depth + 1
  else if bracketPairs.any fun p => value == p.2 then depth - 1
  else depth

/-- The number of open brackets after a token. -/
def nesting (depth : Nat) (t : Token) : Nat := if t.kind == .delimiter then afterBracket depth t.value else depth

variable {value : String}

theorem afterBracket_opening (opening : value ∈ bracketPairs.map (·.1)) (depth : Nat) :
    afterBracket depth value = depth + 1 := by
  rcases mem_map.mp opening with ⟨p, member, same⟩
  exact if_pos (any_eq_true.mpr ⟨p, member, by simp [same]⟩)

theorem afterBracket_closing (closing : value ∈ bracketPairs.map (·.2)) (depth : Nat) :
    afterBracket depth value = depth - 1 := by
  have apart : ∀ value ∈ bracketPairs.map (·.2), (bracketPairs.any fun p => value == p.1) = false := by decide
  rcases mem_map.mp closing with ⟨p, member, same⟩
  unfold afterBracket
  rw [apart value closing]
  exact if_pos (any_eq_true.mpr ⟨p, member, by simp [same]⟩)

theorem afterBracket_mark (marks : value ∈ punctuation) (depth : Nat) : afterBracket depth value = depth := by
  have apart : ∀ value ∈ punctuation, (bracketPairs.any fun p => value == p.1) = false ∧
      (bracketPairs.any fun p => value == p.2) = false := by decide
  unfold afterBracket
  rw [(apart value marks).1, (apart value marks).2]
  rfl

theorem nesting_of_kind {t : Token} (kind : t.kind ≠ .delimiter) (depth : Nat) : nesting depth t = depth :=
  if_neg (by simp [kind])

theorem nesting_delimiter {t : Token} (kind : t.kind = .delimiter) (depth : Nat) :
    nesting depth t = afterBracket depth t.value :=
  if_pos (by simp [kind])

theorem nesting_of_significant {t : Token} (significant : isSignificant t = true) (depth : Nat) :
    nesting depth t = depth :=
  nesting_of_kind (kind_of_significant significant).2.1 depth

/-! ## Rows -/

/-- A change of tokens that the grammar does not see. -/
structure Unseen (shift : Token → Token) : Prop where
  kind : ∀ t, (shift t).kind = t.kind
  value : ∀ t, (shift t).value = t.value
  literal : ∀ t, (shift t).literal = t.literal
  spaceBefore : ∀ t, (shift t).spaceBefore = t.spaceBefore

theorem unseen_id : Unseen id := ⟨fun _ => rfl, fun _ => rfl, fun _ => rfl, fun _ => rfl⟩

/-- The line ends of a row: there are none, they stay, or further ones are put where a bracket is open. -/
inductive Breaks where
  | none
  | kept
  | more

/-- A row that is put at another place: `shift` changes its tokens and `move` its places, and it stands in front of
`stop'` instead of `stop`. -/
structure Transfer where
  breaks : Breaks
  shift : Token → Token
  move : Location → Location
  stop : List Token
  stop' : List Token

/-- Does the token, which the first cue is of if it is significant, hold the next one? -/
def keeps (cues : List Cue) (t : Token) : Bool := isSignificant t && cues.head?.any (holds ·.bond t)

/-- The cues of the tokens behind a token. -/
def cuesAfter (cues : List Cue) (t : Token) : List Cue := if isSignificant t then cues.tail else cues

/-- The tokens are the same part of the row at both places.  A number of brackets is open, and the token before may
hold the first; the cues are those of the significant tokens. -/
inductive Along (m : Transfer) : Nat → Bool → List Cue → List Token → List Token → Prop
  | stop {depth held cues toks toks'} : toks = m.stop → toks' = m.stop' → Along m depth held cues toks toks'
  | added {depth cues toks toks' n} : m.breaks = .more → n.kind = .newline → 0 < depth → Free cues toks →
      Along m depth false cues toks toks' → Along m depth false cues toks (n :: toks')
  | line {depth held cues toks toks' n n'} : m.breaks ≠ .none → n.kind = .newline → n'.kind = .newline →
      n' = m.shift n ∨ m.breaks = .more ∧ 0 < depth → (m.breaks = .more → Free cues toks) →
      Along m depth false cues toks toks' → Along m depth held cues (n :: toks) (n' :: toks')
  | token {depth held cues toks toks' t} : t.kind ≠ .newline →
      Along m (nesting depth t) (keeps cues t) (cuesAfter cues t) toks toks' →
      Along m depth held cues (t :: toks) (m.shift t :: toks')

/-- The row is read at its new place as at its old one.  There may be line ends in it if both places step over them
alike and nothing is behind it.  A closing bracket may stand behind the row at its new place only, a mark of
continuation at its old one only. -/
structure Carrying (m : Transfer) (env env' : Env) : Prop where
  unseen : Unseen m.shift
  nested : m.breaks ≠ .none → env'.nested = env.nested
  whole : m.breaks ≠ .none → m.stop = [] ∧ m.stop' = []
  product : env'.product = env.product
  places : ∀ t, env'.loc (m.shift t) = m.move (env.loc t)
  here : Ending env m.stop
  there : Ending env' m.stop'
  unclosed : ∀ t ∈ env.final :: m.stop, ∀ value ∈ [")", "]]"], t.isDelim value = false
  unbroken : ∀ t ∈ env'.final :: m.stop', t.isDelim "\\" = false

/-- Where a bracket is open the cursor passes line ends over. -/
def Env.Nests (env : Env) (depth : Nat) : Prop := 0 < depth → env.nested = true

/-- The cursors stand at the same part of the row. -/
structure Abreast (m : Transfer) (depth : Nat) (held : Bool) (cues : List Cue) (env env' : Env)
    (toks toks' : List Token) : Prop where
  carrying : Carrying m env env'
  nests : env.Nests depth
  along : Along m depth held cues toks toks'

/-- A token of the row is stepped over at both places. -/
structure Steps (m : Transfer) (depth : Nat) (cues : List Cue) (env env' : Env) (toks toks' : List Token) : Prop where
  peek : env'.peek toks' = m.shift (env.peek toks)
  rest : Along m (nesting depth (env.peek toks)) (keeps cues (env.peek toks)) (cuesAfter cues (env.peek toks))
    (env.rest toks) (env'.rest toks')

variable {m : Transfer} {depth : Nat} {held : Bool} {cues : List Cue} {env env' : Env} {toks toks' : List Token}

theorem keeps_of_insignificant {t : Token} (plain : isSignificant t = false) : keeps cues t = false := by
  simp [keeps, plain]

theorem cuesAfter_of_insignificant {t : Token} (plain : isSignificant t = false) : cuesAfter cues t = cues := by
  simp [cuesAfter, plain]

theorem insignificant_newline {t : Token} (newline : t.kind = .newline) : isSignificant t = false := by
  simp [isSignificant, newline]

theorem peek_eq_of_view {stop : List Token} (ended : env.view toks = env.view stop) :
    env.peek toks = env.peek stop := by rw [Env.peek, ended, ← Env.peek]

theorem rest_eq_of_view {stop : List Token} (ended : env.view toks = env.view stop) :
    env.rest toks = env.rest stop := by rw [Env.rest, ended, ← Env.rest]

namespace Carrying

theorem inside (carrying : Carrying m env env') : Carrying m env.inside env'.inside :=
  { carrying with
    nested := fun _ => rfl
    here := { carrying.here with }
    there := { carrying.there with } }

theorem withProduct (carrying : Carrying m env env') (product : Bool) :
    Carrying m (env.withProduct product) (env'.withProduct product) :=
  { carrying with
    product := rfl
    here := { carrying.here with }
    there := { carrying.there with } }

variable (carrying : Carrying m env env')
include carrying

/-! ### What the decisions see -/

section
variable (t : Token)
include t

theorem isDelim (value : String) : (m.shift t).isDelim value = t.isDelim value := by
  rw [Token.isDelim, Token.is, carrying.unseen.kind, carrying.unseen.value]
  rfl

theorem isOp (name : String) : (m.shift t).isOp name = t.isOp name := by
  rw [Token.isOp, Token.is, carrying.unseen.kind, carrying.unseen.value]
  rfl

theorem isKeyword (name : String) : (m.shift t).isKeyword name = t.isKeyword name := by
  rw [Token.isKeyword, Token.is, carrying.unseen.kind, carrying.unseen.value]
  rfl

theorem isWordSpelled : isWordSpelled (m.shift t) = isWordSpelled t := by
  rw [Parse.isWordSpelled, carrying.unseen.literal]
  rfl

theorem isNameToken : isNameToken (m.shift t) = isNameToken t := by
  rw [Parse.isNameToken, carrying.unseen.kind, carrying.unseen.value, carrying.isWordSpelled]
  rfl

theorem nameOf : nameOf (m.shift t) = nameOf t := by
  rw [Parse.nameOf, carrying.unseen.kind, carrying.unseen.value, carrying.unseen.literal]
  rfl

theorem isField : isField (m.shift t) = isField t := by
  rw [Parse.isField, carrying.unseen.kind, carrying.unseen.spaceBefore]
  rfl

theorem isSpot : isSpot (m.shift t) = isSpot t := by
  rw [Parse.isSpot, carrying.isDelim, carrying.isDelim]
  rfl

theorem startsOperand : env'.startsOperand (m.shift t) = env.startsOperand t := by
  rw [Env.startsOperand, carrying.unseen.kind, carrying.unseen.value, carrying.product]
  rfl

theorem infixAt : env'.infixAt (m.shift t) = env.infixAt t := by
  rw [Env.infixAt, carrying.unseen.kind, carrying.unseen.value, carrying.product]
  rfl

end

/-- Nothing behind the row closes a bracket. -/
theorem atDelim_behind {value : String} (behind : toks <:+ m.stop) (breaks : value ≠ "\\") :
    env.atDelim value toks = false := by
  by_cases closes : value ∈ [")", "]]"]
  · rcases env.peek_mem toks with member | final
    · exact carrying.unclosed _ (mem_cons_of_mem _ (behind.subset member)) value closes
    · rw [Env.atDelim, final]
      exact carrying.unclosed _ mem_cons_self value closes
  · exact (carrying.here.peek behind).isDelim (by simp_all)

theorem joined_eq (t : Token) (name : String) {left : Expr} (present : left.isHole = false) (last : Option Expr)
    (right : Expr) (breakAfter : Bool) :
    env'.joined (m.shift t) name (left.relocate m.move) (last.map (Expr.relocate m.move))
        (right.relocate m.move) breakAfter =
      ((env.joined t name left last right breakAfter).1.relocate m.move,
        (env.joined t name left last right breakAfter).2.map (Expr.relocate m.move)) := by
  unfold Env.joined
  rw [carrying.places, carrying.unseen.literal]
  split
  · rfl
  · split
    · cases last with
      | none => rfl
      | some middle =>
        dsimp only [Option.map_some]
        rw [Expr.loc_relocate m.move present]
        rfl
    · rfl

theorem quantifierOf_eq (q : Token) (spotted : Bool) (gs : List (Binding Expr)) (such body : Expr) (loc : Location) :
    (quantifierOf q spotted gs such body loc).relocate m.move = quantifierOf (m.shift q) spotted
      (Expr.groupsRelocate m.move gs) (such.relocate m.move) (body.relocate m.move) (m.move loc) := by
  unfold quantifierOf
  rw [carrying.unseen.value, carrying.unseen.literal]
  split <;> rfl

/-- The tokens in front are the same, or nothing goes on with the one at the new place. -/
theorem head_cases (along : Along m depth held cues toks toks') :
    toks'.headD env'.final = m.shift (toks.headD env.final) ∨
      Mute (toks'.headD env'.final) ∧ (Mute (toks.headD env.final) ∨ held = false) := by
  cases along with
  | stop here there =>
    subst here there
    exact .inr ⟨carrying.there.headD suffix_rfl, .inl (carrying.here.headD suffix_rfl)⟩
  | added _ newline => exact .inr ⟨.inl newline, .inr rfl⟩
  | line _ newline newline' => exact .inr ⟨.inl newline', .inl (.inl newline)⟩
  | token => exact .inl rfl

end Carrying

/-- A sum sign that an operand follows on its line stands between two operands. -/
def Fits (env : Env) (cues : List Cue) (toks : List Token) : Prop :=
  holds .infixed (env.peek toks) = true → env.startsOperand (env.second toks) = true →
    cues.head?.map (·.bond) = some .infixed

theorem suffixAt_field {juxtapose : Bool} {base : Expr} (point : (env.peek toks).isDelim "." = true)
    (tight : (env.peek toks).spaceBefore = false) (field : isField (env.second toks) = true) :
    env.suffixAt juxtapose base toks = some .field := by
  rcases is_iff.mp point with ⟨kind, value⟩
  simp [Env.suffixAt, Token.isDelim, Token.is, kind, value, tight, field]

namespace Abreast

/-! ### Steps -/

section
variable (abreast : Abreast m depth held cues env env' toks toks')
include abreast

theorem on {held₁ : Bool} {cues₁ : List Cue} {mid mid' : List Token} (along : Along m depth held₁ cues₁ mid mid') :
    Abreast m depth held₁ cues₁ env env' mid mid' := { abreast with along }

theorem withProduct (product : Bool) :
    Abreast m depth held cues (env.withProduct product) (env'.withProduct product) toks toks' :=
  ⟨abreast.carrying.withProduct product, abreast.nests, abreast.along⟩

/-- The row is at its end, or its next token is stepped over. -/
theorem next : (env.view toks = env.view m.stop ∧ env'.view toks' = env'.view m.stop') ∨
    Steps m depth cues env env' toks toks' := by
  rcases abreast with ⟨carrying, nests, along⟩
  induction along with
  | stop here there => exact .inl ⟨by rw [here], by rw [there]⟩
  | @added _ _ _ toks' n more newline inside _ _ ih =>
    have nested' : env'.nested = true := (carrying.nested (by simp [more])).trans (nests inside)
    have passed' : env'.view (n :: toks') = env'.view toks' := by simp [Env.view, nested', newline]
    rcases ih nests with ⟨here, there⟩ | ⟨peek, rest⟩
    · exact .inl ⟨here, passed'.trans there⟩
    · exact .inr ⟨(peek_eq_of_view passed').trans peek, by rw [rest_eq_of_view passed']; exact rest⟩
  | @line depth _ _ toks toks' n n' some newline newline' same _ later ih =>
    have alike := carrying.nested some
    cases nested : env.nested with
    | true =>
      have passed : env.view (n :: toks) = env.view toks := by simp [Env.view, nested, newline]
      have passed' : env'.view (n' :: toks') = env'.view toks' := by simp [Env.view, alike, nested, newline']
      rcases ih nests with ⟨here, there⟩ | ⟨peek, rest⟩
      · exact .inl ⟨passed.trans here, passed'.trans there⟩
      · refine .inr ⟨?_, ?_⟩
        · rw [peek_eq_of_view passed, peek_eq_of_view passed']
          exact peek
        · rw [peek_eq_of_view passed, rest_eq_of_view passed, rest_eq_of_view passed']
          exact rest
    | false =>
      have outside : ¬0 < depth := fun inside => by simp [nests inside] at nested
      obtain rfl : n' = m.shift n := same.resolve_right fun more => outside more.2
      have plain := insignificant_newline newline
      have first : env.peek (n :: toks) = n := by simp [Env.peek, Env.view, nested]
      refine .inr ⟨by rw [first]; simp [Env.peek, Env.view, alike, nested], ?_⟩
      rw [first, nesting_of_kind (by simp [newline]), keeps_of_insignificant plain, cuesAfter_of_insignificant plain]
      simpa [Env.rest, Env.view, alike, nested] using later
  | @token _ _ _ _ _ t solid later _ =>
    have solid' : (m.shift t).kind ≠ .newline := carrying.unseen.kind t ▸ solid
    refine .inr ⟨by rw [Env.peek_cons solid, Env.peek_cons solid'], ?_⟩
    rw [Env.peek_cons solid, Env.rest_cons solid, Env.rest_cons solid']
    exact later

/-- Nothing goes on at the end of the row. -/
theorem mute_or_step : (Mute (env.peek toks) ∧ Mute (env'.peek toks')) ∨ Steps m depth cues env env' toks toks' := by
  refine abreast.next.imp_left fun ⟨here, there⟩ => ?_
  rw [peek_eq_of_view here, peek_eq_of_view there]
  exact ⟨abreast.carrying.here.peek suffix_rfl, abreast.carrying.there.peek suffix_rfl⟩

/-- What begins something or goes on with it is in the row. -/
theorem step (speaks : ¬Mute (env.peek toks)) : Steps m depth cues env env' toks toks' :=
  abreast.mute_or_step.resolve_left fun mute => speaks mute.1

theorem peek_eq {α : Type} (sees : Env → Token → α) (alike : ∀ t, sees env' (m.shift t) = sees env t)
    (ended : ∀ t t', Mute t → Mute t' → sees env' t' = sees env t) :
    sees env' (env'.peek toks') = sees env (env.peek toks) := by
  rcases abreast.mute_or_step with ⟨here, there⟩ | steps
  · exact ended _ _ here there
  · rw [steps.peek, alike]

theorem infixAt_peek : env'.infixAt (env'.peek toks') = env.infixAt (env.peek toks) :=
  abreast.peek_eq Env.infixAt abreast.carrying.infixAt fun _ _ mute mute' => by rw [mute.infixAt, mute'.infixAt]

theorem isSpot_peek : isSpot (env'.peek toks') = isSpot (env.peek toks) :=
  abreast.peek_eq (fun _ => isSpot) abreast.carrying.isSpot fun _ _ mute mute' => by rw [mute.isSpot, mute'.isSpot]

theorem isNameToken_peek : isNameToken (env'.peek toks') = isNameToken (env.peek toks) :=
  abreast.peek_eq (fun _ => isNameToken) abreast.carrying.isNameToken fun _ _ mute mute' => by
    rw [mute.isNameToken, mute'.isNameToken]

theorem isKeyword_peek (name : String) : (env'.peek toks').isKeyword name = (env.peek toks).isKeyword name :=
  abreast.peek_eq (fun _ t => t.isKeyword name) (abreast.carrying.isKeyword · name) fun _ _ mute mute' => by
    rw [mute.isKeyword, mute'.isKeyword]

theorem atDelim_eq {value : String} (other : value ∉ [")", "]]", "\\"]) :
    env'.atDelim value toks' = env.atDelim value toks :=
  abreast.peek_eq (fun _ t => t.isDelim value) (abreast.carrying.isDelim · value) fun _ _ mute mute' => by
    rw [mute.isDelim other, mute'.isDelim other]

end

/-- A significant token is stepped over with its cue. -/
theorem sign {cue : Cue} (abreast : Abreast m depth held (cue :: cues) env env' toks toks')
    (significant : isSignificant (env.peek toks) = true) : env'.peek toks' = m.shift (env.peek toks) ∧
      Abreast m depth (holds cue.bond (env.peek toks)) cues env env' (env.rest toks) (env'.rest toks') := by
  have steps := abreast.step fun mute => by
    rw [mute.insignificant] at significant
    cases significant
  have rest := steps.rest
  simp only [nesting_of_significant significant, keeps, cuesAfter, significant] at rest
  exact ⟨steps.peek, abreast.on rest⟩

theorem along_delimiter (steps : Steps m depth cues env env' toks toks') (kind : (env.peek toks).kind = .delimiter) :
    Along m (afterBracket depth (env.peek toks).value) false cues (env.rest toks) (env'.rest toks') := by
  have rest := steps.rest
  rw [nesting_delimiter kind, keeps_of_insignificant (insignificant kind),
    cuesAfter_of_insignificant (insignificant kind)] at rest
  exact rest

section
variable (abreast : Abreast m depth held cues env env' toks toks')
include abreast

theorem mark (marks : value ∈ punctuation) (other : value ≠ "\\") (found : env.atDelim value toks = true) :
    Abreast m depth false cues env env' (env.rest toks) (env'.rest toks') := by
  have apart : ∀ value ∈ punctuation, value ≠ "\\" → value ∉ [")", "]]", "\\"] := by decide
  have steps := abreast.step fun mute => by cases (mute.isDelim (apart value marks other)).symm.trans found
  rcases is_iff.mp found with ⟨kind, rfl⟩
  have along := along_delimiter steps kind
  rw [afterBracket_mark marks] at along
  exact abreast.on along

theorem opens (bracket : value ∈ bracketPairs.map (·.1)) (found : env.atDelim value toks = true) :
    Abreast m (depth + 1) false cues env.inside env'.inside (env.rest toks) (env'.rest toks') := by
  have apart : ∀ value ∈ bracketPairs.map (·.1), value ∉ [")", "]]", "\\"] := by decide
  have steps := abreast.step fun mute => by cases (mute.isDelim (apart value bracket)).symm.trans found
  rcases is_iff.mp found with ⟨kind, rfl⟩
  have along := along_delimiter steps kind
  rw [afterBracket_opening bracket] at along
  exact ⟨abreast.carrying.inside, fun _ => rfl, along⟩

end

theorem closes (abreast : Abreast m (depth + 1) held cues env env' toks toks')
    (bracket : value ∈ bracketPairs.map (·.2)) (found : env.atDelim value toks = true) :
    env'.atDelim value toks' = true ∧ Along m depth false cues (env.rest toks) (env'.rest toks') := by
  have apart : ∀ value ∈ bracketPairs.map (·.2), value ≠ "\\" := by decide
  have steps := abreast.next.resolve_left fun ⟨ended, _⟩ => by
    rw [Env.atDelim, peek_eq_of_view ended, ← Env.atDelim] at found
    cases (abreast.carrying.atDelim_behind suffix_rfl (apart value bracket)).symm.trans found
  have found' : env'.atDelim value toks' = true := by
    rw [Env.atDelim, steps.peek, abreast.carrying.isDelim]
    exact found
  rcases is_iff.mp found with ⟨kind, rfl⟩
  have along := along_delimiter steps kind
  rw [afterBracket_closing bracket] at along
  exact ⟨found', along⟩

section
variable (abreast : Abreast m depth held cues env env' toks toks')
include abreast

theorem spot (found : isSpot (env.peek toks) = true) :
    Abreast m depth false cues env env' (env.rest toks) (env'.rest toks') := by
  rcases Bool.or_eq_true_iff.mp found with at_ | point
  · exact abreast.mark (show "@" ∈ punctuation by decide) (by decide) at_
  · exact abreast.mark (show "." ∈ punctuation by decide) (by decide) point

theorem separator {typed : Bool} (found : (env.atDelim ";" toks || (env.atDelim "," toks && typed)) = true) :
    Abreast m depth false cues env env' (env.rest toks) (env'.rest toks') := by
  rcases Bool.or_eq_true_iff.mp found with semicolon | comma
  · exact abreast.mark (by decide) (by decide) semicolon
  · exact abreast.mark (by decide) (by decide) (Bool.and_eq_true_iff.mp comma).1

theorem clause (present : Bool)
    (marked : present = true → Abreast m depth false cues env env' (env.rest toks) (env'.rest toks')) :
    ∃ held', Abreast m depth held' cues env env' (if present then env.rest toks else toks)
      (if present then env'.rest toks' else toks') := by
  cases present with
  | false => exact ⟨held, abreast⟩
  | true => exact ⟨false, marked rfl⟩

end

/-! ### The token behind the current one -/

/-- An operand that follows on its line still does if it is held there. -/
theorem startsOperand_second (carrying : Carrying m env env') (steps : Steps m depth cues env env' toks toks')
    (kept : env.startsOperand (env.second toks) = true → keeps cues (env.peek toks) = true) :
    env'.startsOperand (env'.second toks') = env.startsOperand (env.second toks) := by
  unfold Env.second at kept ⊢
  rcases carrying.head_cases steps.rest with same | ⟨mute', mute | loose⟩
  · rw [same, carrying.startsOperand]
  · rw [mute'.startsOperand, mute.startsOperand]
  · rw [mute'.startsOperand]
    refine (Bool.eq_false_iff.mpr fun starts => ?_).symm
    rw [kept starts] at loose
    cases loose

theorem field {cue : Cue} (abreast : Abreast m depth held (cue :: cues) env env' toks toks') (bond : cue.bond = .behind)
    (point : env.atDelim "." toks = true) (field : isField (env.second toks) = true) :
    env'.second toks' = m.shift (env.second toks) ∧
      Along m depth false cues (env.rest toks).tail (env'.rest toks').tail := by
  have later := (abreast.mark (by decide) (by decide) point).along
  have significant {t : Token} (named : isField t = true) : isSignificant t = true :=
    (Shows.field (by simpa using (Bool.and_eq_true_iff.mp named).1)).isSignificant
  unfold Env.second at field ⊢
  generalize env.rest toks = after at later field ⊢
  generalize env'.rest toks' = after' at later ⊢
  cases later with
  | stop here => cases ((abreast.carrying.here.headD suffix_rfl).isField).symm.trans (here ▸ field)
  | added _ _ _ free =>
    cases after with
    | nil => cases abreast.carrying.here.final.isField.symm.trans field
    | cons t others => exact absurd (congrArg some bond) (free t rfl (significant field))
  | line _ newline => simp [isField, newline] at field
  | token _ later =>
    have shown := significant field
    simp only [headD_cons] at shown
    simp only [nesting_of_significant shown, keeps, cuesAfter, shown, bond, holds, Bool.and_false, head?_cons,
      Option.any_some] at later
    exact ⟨rfl, later⟩

/-! ### The decisions -/

section
variable (abreast : Abreast m depth held cues env env' toks toks')
include abreast

theorem leadAt_eq (first : env.leadAt toks = .operator → cues.head?.map (·.bond) = some .prefixed) :
    env'.leadAt toks' = env.leadAt toks := by
  have carrying := abreast.carrying
  rcases abreast.mute_or_step with ⟨mute, mute'⟩ | steps
  · rw [leadAt_of_mute mute, leadAt_of_mute mute']
  unfold Env.leadAt at first ⊢
  dsimp only at first ⊢
  rw [steps.peek, carrying.isOp, carrying.isOp, carrying.isDelim, carrying.unseen.kind, carrying.unseen.value,
    carrying.isWordSpelled]
  split
  next => rfl
  next minus =>
    split
    next => rfl
    next not =>
      split
      next operator =>
        -- a word is an operator only if it has an operand next to it, which it holds then
        have kind := eq_of_beq (Bool.and_eq_true_iff.mp operator).1
        cases word : isWordSpelled (env.peek toks) with
        | false => rfl
        | true =>
          rw [startsOperand_second carrying steps fun starts => ?_]
          rcases Option.map_eq_some_iff.mp (first (by simp [minus, not, operator, word, starts])) with ⟨cue, head, bond⟩
          simp_all [keeps, isSignificant, holds, Token.isOp, Token.is]
      next => rfl

/-- A sum sign that is no closure keeps its operand, and a point its field. -/
theorem suffixAt_eq {juxtapose : Bool} {base : Expr} (fits : Fits env cues toks)
    (behind : env.suffixAt juxtapose base toks = some .field → cues.head?.map (·.bond) = some .behind) :
    env'.suffixAt juxtapose (base.relocate m.move) toks' = env.suffixAt juxtapose base toks := by
  have carrying := abreast.carrying
  rcases abreast.mute_or_step with ⟨mute, mute'⟩ | steps
  · rw [suffixAt_of_mute mute, suffixAt_of_mute mute']
  have point : ((env.peek toks).isDelim "." && !(env.peek toks).spaceBefore && isField (env'.second toks')) =
      ((env.peek toks).isDelim "." && !(env.peek toks).spaceBefore && isField (env.second toks)) := by
    cases found : isField (env.second toks) with
    | false =>
      unfold Env.second at found ⊢
      rcases carrying.head_cases steps.rest with same | ⟨mute', _⟩
      · rw [same, carrying.isField, found]
      · rw [mute'.isField]
    | true =>
      cases at_ : (env.peek toks).isDelim "." && !(env.peek toks).spaceBefore with
      | false => rfl
      | true =>
        rcases Bool.and_eq_true_iff.mp at_ with ⟨point, tight⟩
        rcases Option.map_eq_some_iff.mp (behind (suffixAt_field point (by simpa using tight) found)) with
          ⟨cue, head, bond⟩
        rcases head?_eq_some_iff.mp head with ⟨later, rfl⟩
        rw [(abreast.field bond point found).1, carrying.isField, found]
  have sum : (((env.peek toks).isOp "plus" || (env.peek toks).isOp "times") && !(env.peek toks).spaceBefore &&
        !env'.startsOperand (env'.second toks')) =
      (((env.peek toks).isOp "plus" || (env.peek toks).isOp "times") && !(env.peek toks).spaceBefore &&
        !env.startsOperand (env.second toks)) := by
    cases sum : holds .infixed (env.peek toks) with
    | false =>
      rw [holds] at sum
      rw [sum]
      rfl
    | true =>
      rw [startsOperand_second carrying steps fun starts => ?_]
      rcases Option.map_eq_some_iff.mp (fits sum starts) with ⟨cue, head, bond⟩
      simp [keeps, isSignificant, (holds_infixed sum).1, head, bond, sum]
  unfold Env.suffixAt
  rw [steps.peek, isName_relocate, isApplicable_relocate]
  simp only [carrying.isOp, carrying.isDelim, carrying.unseen.spaceBefore, carrying.startsOperand, point, sum]

theorem groupSuffixAt_eq (juxtapose : Bool) (group : Expr) :
    env'.groupSuffixAt juxtapose (group.relocate m.move) toks' = env.groupSuffixAt juxtapose group toks := by
  have carrying := abreast.carrying
  rcases abreast.mute_or_step with ⟨mute, mute'⟩ | steps
  · rw [groupSuffixAt_of_mute mute, groupSuffixAt_of_mute mute']
  · unfold Env.groupSuffixAt
    rw [steps.peek, isLambda_relocate]
    simp only [carrying.isDelim, carrying.unseen.spaceBefore, carrying.startsOperand]

omit abreast in
/-- Whether a comprehension begins is seen through line ends. -/
theorem namesAhead_eq (carrying : Carrying m env env') (along : Along m depth held cues toks toks') (wantName : Bool) :
    namesAhead true wantName toks' = namesAhead true wantName toks := by
  induction along generalizing wantName with
  | stop here there => rw [here, there, carrying.here.namesAhead, carrying.there.namesAhead]
  | added _ newline _ _ _ ih => simp [namesAhead, newline, ih]
  | line _ newline newline' _ _ _ ih => simp [namesAhead, newline, newline', ih]
  | token _ _ ih =>
    rw [namesAhead, namesAhead, carrying.unseen.kind, carrying.isNameToken, carrying.isDelim, carrying.isDelim, ih, ih,
      ih]

theorem formAt_eq : env'.formAt toks' = env.formAt toks := by
  have carrying := abreast.carrying
  rcases abreast.mute_or_step with ⟨mute, mute'⟩ | steps
  · rw [formAt_of_mute mute, formAt_of_mute mute']
  · unfold Env.formAt
    rw [steps.peek, namesAhead_eq carrying steps.rest]
    simp only [carrying.unseen.kind, carrying.unseen.value]

theorem peek_of_formAt {form : Form} (found : env.formAt toks = some form) :
    env'.peek toks' = m.shift (env.peek toks) :=
  (abreast.step fun mute => by cases (formAt_of_mute mute).symm.trans found).peek

end

/-! ### Line ends that the grammar passes over by itself -/

/-- Of two lists that differ at a line end, the line end may be dropped from the first. -/
theorem drop {n : Token} (along : Along m depth held cues (n :: toks) toks') (newline : n.kind = .newline)
    (more : m.breaks = .more) (whole : m.stop = []) (inside : 0 < depth) :
    Free cues toks ∧ Along m depth false cues toks toks' := by
  generalize all : n :: toks = toks₀ at along
  induction along with
  | stop here =>
    rw [here, whole] at all
    cases all
  | added _ newline' _ _ _ ih =>
    rcases ih inside all with ⟨free, later⟩
    exact ⟨free, .added more newline' inside free later⟩
  | line _ _ newline' _ free later =>
    cases all
    exact ⟨free more, .added more newline' inside (free more) later⟩
  | token solid =>
    cases all
    exact absurd newline solid

/-- A mark of continuation is stepped over at both places together with one line end, or nothing is behind it. -/
theorem continuation (abreast : Abreast m depth held cues env env' toks toks') :
    Mute (env.peek (env.continuation toks).2) ∨ (env'.continuation toks').1 = (env.continuation toks).1 ∧
      ∃ held', Along m depth held' cues (env.continuation toks).2 (env'.continuation toks').2 := by
  have carrying := abreast.carrying
  cases breaks : env.atDelim "\\" toks with
  | false =>
    have unbroken : env'.atDelim "\\" toks' = false := by
      rcases abreast.next with ⟨_, ended⟩ | steps
      · rw [Env.atDelim, peek_eq_of_view ended]
        rcases env'.peek_mem m.stop' with member | final
        · exact carrying.unbroken _ (mem_cons_of_mem _ member)
        · rw [final]
          exact carrying.unbroken _ mem_cons_self
      · rw [Env.atDelim, steps.peek, carrying.isDelim]
        exact breaks
    simp only [Env.continuation, breaks, unbroken]
    exact .inr ⟨rfl, held, abreast.along⟩
  | true =>
    by_cases behind : env.rest toks <:+ m.stop
    · left
      rw [Env.continuation, if_pos breaks]
      cases after : env.rest toks with
      | nil => exact carrying.here.peek nil_suffix
      | cons n more =>
        rw [after] at behind
        dsimp only
        split
        · exact carrying.here.peek ((suffix_cons n more).trans behind)
        · exact carrying.here.peek behind
    · have steps := abreast.next.resolve_left fun ended =>
        behind (rest_eq_of_view ended.1 ▸ env.rest_suffix m.stop)
      have breaks' : env'.atDelim "\\" toks' = true := by
        rw [Env.atDelim, steps.peek, carrying.isDelim]
        exact breaks
      rcases is_iff.mp breaks with ⟨kind, marked⟩
      have later := along_delimiter steps kind
      rw [marked, afterBracket_mark (by decide)] at later
      simp only [Env.continuation, breaks, breaks', if_true]
      right
      generalize env.rest toks = after at later behind
      generalize env'.rest toks' = after' at later
      cases later with
      | stop here => exact absurd (here ▸ suffix_rfl) behind
      | added more newline inside free later =>
        cases after with
        | nil => exact ⟨rfl, false, by simpa [newline] using later⟩
        | cons t after =>
          refine ⟨rfl, false, ?_⟩
          by_cases line : t.kind = .newline
          · simpa [newline, line] using (drop later line more (carrying.whole (by simp [more])).1 inside).2
          · simpa [newline, line] using later
      | line _ newline newline' _ _ later => exact ⟨rfl, false, by simpa [newline, newline'] using later⟩
      | token solid later =>
        refine ⟨rfl, false, ?_⟩
        simp only [carrying.unseen.kind, beq_eq_false_iff_ne.mpr solid]
        exact .token solid later

end Abreast

/-- Further names are read from a token that is not passed over, or the list ends before it. -/
theorem moreNames_cons {nested : Bool} {t : Token} {names : List String} {after : List Token}
    (line : (nested && t.kind == .newline) = false) (found : Parse.moreNames nested (t :: toks) = (names, after)) :
    (names = [] ∧ after = t :: toks) ∨ t.isDelim "," = true ∧
      ∃ u rest others, toks = u :: rest ∧ isNameToken u = true ∧ names = nameOf u :: others ∧
        moreNames nested rest = (others, after) := by
  cases toks with
  | nil =>
    cases found
    exact .inl ⟨rfl, rfl⟩
  | cons u rest =>
    rw [moreNames, if_neg (by simp [line])] at found
    split at found
    next named => grind
    next =>
      cases found
      exact .inl ⟨rfl, rfl⟩

/-- The next variable stays behind its comma. -/
theorem Along.further {u t : Token} {name : String} {rest' : List Token} (carrying : Carrying m env env')
    (along : Along m depth held (furtherCue name :: cues) (u :: toks) (t :: rest')) (named : isNameToken u = true) :
    t = m.shift u ∧ Along m depth false cues toks rest' := by
  have significant := (Shows.name named).isSignificant
  cases along with
  | stop here => cases (carrying.here.mute u (here ▸ mem_cons_self)).isNameToken.symm.trans named
  | added _ _ _ free => exact absurd rfl (free u rfl significant)
  | line _ newline => simp [isNameToken, newline] at named
  | token _ later =>
    simp only [nesting_of_significant significant, keeps, cuesAfter, significant] at later
    exact ⟨rfl, later⟩

/-- Further variables are found at both places. -/
theorem Abreast.moreNames {names : List String} {after : List Token}
    (abreast : Abreast m depth held (names.map furtherCue ++ cues) env env' toks toks')
    (found : Parse.moreNames env.nested toks = (names, after)) :
    ∃ held' after', Parse.moreNames env'.nested toks' = (names, after') ∧ Along m depth held' cues after after' := by
  rcases abreast with ⟨carrying, nests, along⟩
  have passed {t : Token} (comma : t.isDelim "," = true) {cues : List Cue} {toks toks' : List Token}
      (along : Along m (nesting depth t) (keeps cues t) (cuesAfter cues t) toks toks') :
      Along m depth false cues toks toks' := by
    rcases is_iff.mp comma with ⟨kind, value⟩
    have plain := insignificant kind
    rw [nesting_delimiter kind, value, afterBracket_mark (by decide), keeps_of_insignificant plain,
      cuesAfter_of_insignificant plain] at along
    exact along
  -- the induction is on the list with more line ends
  generalize all : names.map furtherCue ++ cues = cues' at along
  fun_induction Parse.moreNames env'.nested toks' generalizing held cues' names after toks with
  | case1 t u rest line ih =>
    rcases Bool.and_eq_true_iff.mp line with ⟨nested', newline⟩
    cases along with
    | stop _ there => exact absurd (eq_of_beq newline) (carrying.there.line t u rest there.symm)
    | added _ _ _ _ later => exact ih found _ all later
    | @line _ _ _ toks _ n _ some newline₀ _ _ free later =>
      cases toks with
      | nil =>
        -- of the line ends behind the last token one is left
        cases later with
        | stop _ there => cases there.trans (carrying.whole some).2
        | added more newline' inside _ later' =>
          have moved : Along m depth false cues' [n] (u :: rest) :=
            .line some newline₀ newline' (.inr ⟨more, inside⟩) free later'
          exact ih found _ all moved
      | cons v others =>
        rw [Parse.moreNames, if_pos (by simp [← carrying.nested some, nested', newline₀])] at found
        exact ih found _ all later
    | token solid => exact absurd ((carrying.unseen.kind _).symm.trans (eq_of_beq newline)) solid
  | case2 t u rest line named others behind others_eq ih =>
    rcases Bool.and_eq_true_iff.mp named with ⟨comma, second⟩
    cases along with
    | stop _ there => cases ((carrying.there.mute t (there ▸ mem_cons_self)).isDelim (by decide)).symm.trans comma
    | added _ newline => simp [Token.isDelim, Token.is, newline] at comma
    | line _ _ newline => simp [Token.isDelim, Token.is, newline] at comma
    | @token _ _ _ toks _ t solid later =>
      rw [carrying.isDelim] at comma
      replace later := passed comma later
      cases later with
      | stop _ there => cases (carrying.there.mute u (there ▸ mem_cons_self)).isNameToken.symm.trans second
      | added _ newline => simp [isNameToken, newline] at second
      | line _ _ newline => simp [isNameToken, newline] at second
      | @token _ _ _ toks _ u _ later =>
        rw [carrying.isNameToken] at second
        have significant := (Shows.name second).isSignificant
        rw [Parse.moreNames, if_neg (by simp [solid]), if_pos (by simp [comma, second])] at found
        cases found
        cases all
        simp only [nesting_of_significant significant, keeps, cuesAfter, significant] at later
        rcases ih rfl _ rfl later with ⟨held', after', same, along'⟩
        cases others_eq.symm.trans same
        exact ⟨held', _, by rw [carrying.nameOf], along'⟩
  | case3 t u rest line other =>
    cases along with
    | stop here there =>
      rw [here, carrying.here.moreNames] at found
      cases found
      cases all
      exact ⟨held, _, rfl, .stop rfl there⟩
    | added more newline inside => simp [carrying.nested, more, nests inside, newline] at line
    | line some newline newline' same free later =>
      have outside : env'.nested = false := by simpa [newline'] using line
      rcases moreNames_cons (by simp [← carrying.nested some, outside]) found with ⟨rfl, rfl⟩ | ⟨comma, _⟩
      · cases all
        exact ⟨held, _, rfl, .line some newline newline' same free later⟩
      · simp [Token.isDelim, Token.is, newline] at comma
    | token solid later =>
      rcases moreNames_cons (by simp [solid]) found with ⟨rfl, rfl⟩ | ⟨comma, v, _, _, rfl, second, rfl, _⟩
      · cases all
        exact ⟨held, _, rfl, .token solid later⟩
      · cases all
        rcases (passed comma later).further carrying second with ⟨rfl, _⟩
        exact absurd (by simp [carrying.isDelim, carrying.isNameToken, comma, second]) other
  | case4 toks' short =>
    have last {depth : Nat} {held : Bool} {cues : List Cue} {t : Token} {toks rest : List Token}
        (along : Along m depth held cues toks rest) (all : toks' = t :: rest) : toks = m.stop := by
      cases rest with
      | nil =>
        cases along
        assumption
      | cons u rest => exact absurd all (short t u rest)
    have single : Parse.moreNames env.nested toks = ([], toks) := by
      cases along with
      | stop here => rw [here, carrying.here.moreNames]
      | added _ _ _ _ later => rw [last later rfl, carrying.here.moreNames]
      | line some _ _ _ _ later =>
        rw [last later rfl, (carrying.whole some).1]
        rfl
      | token solid later => rw [last later rfl, carrying.here.moreNames_cons solid]
    cases single.symm.trans found
    cases all
    exact ⟨held, _, rfl, along⟩

/-! ## Whole rows -/

/-- Line ends are in the row only if they may be. -/
def InLines (m : Transfer) (row : List Token) : Prop := ∀ t ∈ row, t.kind = .newline → m.breaks ≠ .none

/-- The tokens are a row that stays as it is. -/
def OnRow (m : Transfer) (toks toks' : List Token) : Prop :=
  ∃ row, InLines m row ∧ toks = row ++ m.stop ∧ toks' = row.map m.shift ++ m.stop'

theorem along_iff_onRow (unseen : Unseen m.shift) (kept : m.breaks ≠ .more) :
    Along m depth held cues toks toks' ↔ OnRow m toks toks' := by
  constructor
  · intro along
    induction along with
    | stop here there => exact ⟨[], fun _ member => absurd member not_mem_nil, here, there⟩
    | added more => exact absurd more kept
    | @line _ _ _ _ _ n _ some _ _ same _ _ ih =>
      rcases ih with ⟨row, inLines, rfl, rfl⟩
      cases same.resolve_right fun more => kept more.1
      exact ⟨n :: row, forall_mem_cons.mpr ⟨fun _ => some, inLines⟩, rfl, rfl⟩
    | @token _ _ _ _ _ t solid _ ih =>
      rcases ih with ⟨row, inLines, rfl, rfl⟩
      exact ⟨t :: row, forall_mem_cons.mpr ⟨fun newline => absurd newline solid, inLines⟩, rfl, rfl⟩
  · rintro ⟨row, inLines, rfl, rfl⟩
    induction row generalizing depth held cues with
    | nil => exact .stop rfl rfl
    | cons t row ih =>
      rcases forall_mem_cons.mp inLines with ⟨here, later⟩
      by_cases newline : t.kind = .newline
      · have newline' := (unseen.kind t).trans newline
        exact .line (here newline) newline newline' (.inl rfl) (fun more => absurd more kept) (ih later)
      · exact .token newline (ih later)

end Parse
end Whiteboard
