import Whiteboard.Proofs.Expr.Bond

namespace Whiteboard

open List
namespace Parse

/-!
# What is read is in the tree

The grammar accounts for each token it steps over, steps over brackets in pairs, and parts no bond.  The
induction is on the derivation: a goal that starts from a base or a left operand adds the cues of its tokens
to those which are there.
-/

open Whiteboard.Expr (listCues groupCues)

/-! ## What a decision tells of the current token -/

/-- The token begins an operand in this way. -/
def Lead.Meets (t : Token) : Lead → Prop
  | .minus => t.isOp "minus" = true
  | .not => t.isOp "not" = true
  | .word => isNameToken t = true ∧ nameOf t = t.literal
  | .operator => t.kind = .operator
  | .group => t.isDelim "(" = true
  | .atom => True

theorem meets_leadAt (env : Env) (toks : List Token) : (env.leadAt toks).Meets (env.peek toks) := by
  unfold Env.leadAt
  dsimp only
  split
  next found => exact found
  next =>
    split
    next found => exact found
    next =>
      split
      next found =>
        obtain ⟨kind, role⟩ := Bool.and_eq_true_iff.mp found
        have operator := eq_of_beq kind
        split
        next word =>
          have spelled := (Bool.and_eq_true_iff.mp word).1
          exact ⟨by simp [isNameToken, operator, role, spelled], by simp [nameOf, operator]⟩
        next => exact operator
      next =>
        split
        next found => exact found
        next => trivial

/-- The token goes on after a base in this way; `after` is the token behind it. -/
def Suffix.Meets (t after : Token) : Suffix → Prop
  | .call => t.isDelim "(" = true
  | .parameters => t.isDelim "[" = true
  | .field => t.isDelim "." = true ∧ isField after = true
  | .closure => t.isOp "inv" = true ∨ t.isOp "plus" = true ∨ t.isOp "times" = true
  | .super => t.isOp "sup" = true
  | .image => t.isDelim "(|" = true
  | .argument => True

variable {env : Env} {toks : List Token}

theorem meets_of_groupSuffixAt {juxtapose : Bool} {group : Expr}
    {suffix : Suffix} (found : env.groupSuffixAt juxtapose group toks = some suffix) :
    suffix.Meets (env.peek toks) (env.second toks) := by
  unfold Env.groupSuffixAt at found
  dsimp only at found
  split at found
  next opens =>
    cases found
    exact (Bool.and_eq_true_iff.mp opens).1
  next =>
    split at found
    next =>
      cases found
      trivial
    next => cases found

theorem meets_of_suffixAt {juxtapose : Bool} {base : Expr}
    {suffix : Suffix} (found : env.suffixAt juxtapose base toks = some suffix) :
    suffix.Meets (env.peek toks) (env.second toks) := by
  unfold Env.suffixAt at found
  dsimp only at found
  repeat' split at found
  all_goals cases found
  all_goals simp_all [Suffix.Meets]
  case isFalse.isFalse.isFalse.isTrue.refl sum => exact sum.imp_right fun tight => tight.1.1

/-- The token begins a primary expression of this form. -/
def Form.Meets (t : Token) : Form → Prop
  | .number => t.kind = .number
  | .name => t.kind = .identifier
  | .group => t.isDelim "(" = true
  | .comprehension | .set => t.isDelim "\x7b" = true
  | .sequence => t.isDelim "⟨" = true
  | .bag => t.isDelim "[[" = true
  | .binder => t.kind = .keyword
  | .choice => t.isKeyword "if" = true

theorem meets_of_formAt {form : Form} (found : env.formAt toks = some form) : form.Meets (env.peek toks) := by
  unfold Env.formAt at found
  dsimp only at found
  repeat' split at found
  all_goals cases found
  all_goals simp_all [Form.Meets, Token.isDelim, Token.isKeyword, Token.is]

/-! ## Tokens that show in the tree -/

variable {t : Token}

theorem shows_of_infixAt {name : String} {prec : Precedence} {assoc : Assoc}
    (found : env.infixAt t = some (name, prec, assoc)) {spelling : Option String}
    (spelled : ∀ text ∈ spelling, text = t.literal) : Shows (.operator name spelling) t := by
  unfold Env.infixAt at found
  obtain ⟨op, stands, mapped⟩ := Option.bind_eq_some_iff.mp found
  obtain ⟨p, _, same⟩ := Option.map_eq_some_iff.mp mapped
  cases same
  split at stands
  next operator =>
    cases stands
    exact .operator (eq_of_beq operator) (.inl rfl) spelled
  next =>
    split at stands
    next product =>
      cases stands
      simp only [Bool.and_eq_true, beq_iff_eq] at product
      exact .product product.1.1 product.1.2 spelled
    next => cases stands

theorem shows_of_isOp {value name : String} (found : t.isOp value = true)
    (named : value = name ∨ value = sourceName name) : Shows (.operator name (some t.literal)) t := by
  obtain ⟨kind, rfl⟩ := is_iff.mp found
  exact .operator kind named (by simp)

theorem shows_of_isKeyword {name : String} (found : t.isKeyword name = true) : Shows (.keyword name none) t := by
  obtain ⟨kind, value⟩ := is_iff.mp found
  exact .keyword kind value (by simp)

theorem shows_closure (found : t.isOp "inv" = true ∨ t.isOp "plus" = true ∨ t.isOp "times" = true) :
    Shows (.operator (closureName t) (some t.literal)) t := by
  rcases found with inverse | plus | times
  · rw [closureName, if_pos inverse]
    exact shows_of_isOp inverse (.inl rfl)
  · refine shows_of_isOp plus (.inr ?_)
    simp only [closureName, Token.isOp, Token.is, is_iff.mp plus]
    rfl
  · refine shows_of_isOp times (.inr ?_)
    simp only [closureName, Token.isOp, Token.is, is_iff.mp times]
    rfl

theorem startsOperand_of_leadAt (lead : env.leadAt toks = .operator) :
    isWordSpelled (env.peek toks) = true → env.startsOperand (env.second toks) = true := by
  intro word
  unfold Env.leadAt at lead
  dsimp only at lead
  apply Bool.of_not_eq_false
  intro noOperand
  simp only [word, noOperand] at lead
  repeat' split at lead
  all_goals simp_all

/-- A prefix operator shows in the tree, and it holds its operand if it is a word. -/
theorem shows_of_prefixed {juxtapose : Bool} {op : String} {goal : Goal}
    (found : (env.leadAt toks).prefixed (env.peek toks) juxtapose = some (op, goal)) :
    Shows (.operator op (some (env.peek toks).literal)) (env.peek toks) ∧
      (holds .prefixed (env.peek toks) = true → env.startsOperand (env.second toks) = true) := by
  have meets := meets_leadAt env toks
  rcases Lead.cases_prefixed found with ⟨lead, rfl, _⟩ | ⟨lead, rfl, _⟩ | ⟨lead, rfl, _⟩ <;> rw [lead] at meets
  · exact ⟨shows_of_isOp meets (.inr rfl), by simp [holds, (is_iff.mp meets).2]⟩
  · exact ⟨shows_of_isOp meets (.inl rfl), by simp [holds, (is_iff.mp meets).2]⟩
  · exact ⟨.operator meets (.inl rfl) (by simp), fun held =>
      startsOperand_of_leadAt lead (Bool.and_eq_true_iff.mp held).2⟩

theorem shows_infixCue {name : String} {prec : Precedence} {assoc : Assoc}
    (found : env.infixAt t = some (name, prec, assoc)) (breakAfter : Bool) :
    Shows (infixCue t name breakAfter).sign t := by
  unfold infixCue
  split
  next range =>
    cases eq_of_beq range
    exact shows_of_infixAt found (by simp)
  next => exact shows_of_infixAt found (by simp)

/-! ## The grammar parts no bond -/

/-- A sum sign without a space before it has an operand next to it. -/
def Settled (env : Env) (toks : List Token) : Prop :=
  holds .infixed (env.peek toks) = true → env.startsOperand (env.second toks) = true

/-- Where no suffix follows, a sum sign is no closure. -/
theorem settled_of_suffixAt {juxtapose : Bool} {base : Expr} (found : env.suffixAt juxtapose base toks = none) :
    Settled env toks := by
  intro sum
  simp only [holds, Bool.and_eq_true] at sum
  apply Bool.of_not_eq_false
  intro noOperand
  unfold Env.suffixAt at found
  simp only [sum, noOperand] at found
  repeat' split at found
  all_goals simp_all

/-- Behind an operand a sum sign is settled. -/
def Goal.Settles (env : Env) (toks rest : List Token) : Goal → Prop
  | .climb .. => Settled env toks → Settled env rest
  | .binary _ | .operand _ | .suffixes .. => Settled env rest
  | _ => True

theorem Reads.settles {env goal toks v rest} (reads : Reads env goal toks v rest) :
    goal.Settles env toks rest := by
  induction reads with
  | binary _ _ operand climb => exact climb operand
  | stop _ => exact id
  | climb _ _ _ _ right ih => exact fun _ => ih right
  | prefixed found _ ih =>
    rcases Lead.cases_prefixed found with ⟨_, _, rfl⟩ | ⟨_, _, rfl⟩ | ⟨_, _, rfl⟩ <;> exact ih
  | word _ _ ih => exact ih
  | group _ _ _ _ _ _ ih => exact ih
  | atom _ _ _ _ ih => exact ih
  | call _ _ _ _ ih | parameters _ _ _ _ ih | super _ _ _ _ ih | image _ _ _ _ _ ih | argument _ _ _ _ ih => exact ih
  | field _ _ ih | closure _ _ ih => exact ih
  | bare found => exact settled_of_suffixAt found
  | _ => trivial

/-- A token that begins an operand is on the line of the token before it. -/
theorem onLine_of_startsOperand (starts : env.startsOperand (env.second toks) = true) :
    ∀ n ∈ (env.rest toks).head?, n.kind ≠ .newline := by
  intro n first newline
  have second : env.second toks = n := by
    unfold Env.second
    rw [headD_eq_head?_getD, first]
    rfl
  rw [second] at starts
  simp [Env.startsOperand, newline] at starts

/-! ## The grammar accounts for its tokens -/

variable {closers : List String} {cues : List Cue} {place : Token → Location} {rest : List Token}

theorem begins_loose (ends : env.Ends) {sign : Sign} (shown : Shows sign (env.peek toks))
    (clear : Clear place closers cues (env.rest toks)) : Begins place closers ({ sign } :: cues) toks :=
  begins_sign ends shown (by simp) (by simp) (by simp) clear.lists

/-- A literal has the place of its token. -/
theorem begins_literal (ends : env.Ends) {sign : Sign} {places : List Location} (shown : Shows sign (env.peek toks))
    (placed : ∀ place ∈ places, place = env.loc (env.peek toks)) (clear : Clear env.loc closers cues (env.rest toks)) :
    Begins env.loc closers (⟨sign, .loose, places, some false⟩ :: cues) toks :=
  begins_sign ends shown placed (by simp) (by simp) clear.lists

theorem clear_field (ends : env.Ends) (point : env.atDelim "." toks = true) (field : isField (env.second toks) = true)
    (clear : Clear place closers cues (env.rest toks).tail) :
    Clear place closers ({ sign := .field (env.second toks).value, bond := .behind } :: cues) toks := by
  have kind := (Bool.and_eq_true_iff.mp field).1
  rcases is_iff.mp point with ⟨delimiter, value⟩
  refine (begins_peek ends (by simp [delimiter]) (fun _ => .delimiter delimiter
    (.mark (by rw [value]; decide) (by rw [value]; decide)) ?_) (by simp [insignificant delimiter])).clear
  unfold Env.second at kind ⊢
  cases after : env.rest toks with
  | nil =>
    rw [after] at kind
    simp [show env.final.kind = .endOfInput from ends] at kind
  | cons t others =>
    rw [after] at kind clear
    exact .sign (.field (by simpa using kind)) (by simp) (by simp) clear.lists

/-- The mark that may follow an operator at the end of its line.  An operator that holds its operand has none. -/
theorem lists_continuation (ends : env.Ends) {held : Bool}
    (starts : held = true → env.atDelim "\\" toks = false ∧ ∀ n ∈ toks.head?, n.kind ≠ .newline)
    (begins : Begins place closers cues (env.continuation toks).2) :
    Lists place held (env.continuation toks).1 closers cues toks := by
  cases found : env.atDelim "\\" toks with
  | false =>
    have none : env.continuation toks = (false, toks) := if_neg (by simp [found])
    rw [none] at begins ⊢
    exact begins.held fun held => (starts held).2
  | true =>
    rcases is_iff.mp found with ⟨kind, value⟩
    have behind : (env.continuation toks).1 = true ∧ Lists place false false closers cues (env.rest toks) := by
      unfold Env.continuation at begins ⊢
      rw [if_pos found] at begins ⊢
      cases after : env.rest toks with
      | nil =>
        rw [after] at begins
        exact ⟨rfl, begins.clear.lists⟩
      | cons n others =>
        rw [after] at begins
        dsimp only at begins ⊢
        split at begins
        next line => exact ⟨rfl, begins.clear [n] (forall_mem_singleton.mpr (eq_of_beq line))⟩
        next => exact ⟨rfl, begins.clear.lists⟩
    cases held with
    | true => exact absurd found (by simp [(starts rfl).1])
    | false =>
      rcases exists_lines env toks with ⟨g, lines, same⟩
      rw [Env.view_eq_cons ends (by simp [kind])] at same
      rw [behind.1, same]
      refine Lists.lines (.delimiter kind (.continued value) behind.2) (fun t first significant => ?_) lines
      cases first
      rw [insignificant kind] at significant
      cases significant

/-- An operator between two operands, with the mark that may follow it. -/
theorem clear_infix (ends : env.Ends) {name : String} {prec : Precedence} {assoc : Assoc}
    (found : env.infixAt (env.peek toks) = some (name, prec, assoc)) (settled : Settled env toks)
    (begins : Begins place closers cues (env.continuation (env.rest toks)).2) :
    Clear place closers (infixCue (env.peek toks) name (env.continuation (env.rest toks)).1 :: cues) toks := by
  have fits (breakAfter : Bool) : (infixCue (env.peek toks) name breakAfter).bond = .infixed ∧
      (infixCue (env.peek toks) name breakAfter).places = [] ∧
      ∀ mark ∈ (infixCue (env.peek toks) name breakAfter).marked, mark = breakAfter := by
    unfold infixCue
    split <;> simp
  rcases fits (env.continuation (env.rest toks)).1 with ⟨bond, place, marked⟩
  refine (begins_sign ends (shows_infixCue found _) (by simp [place]) marked (by simp [bond]) ?_).clear
  rw [bond]
  refine lists_continuation ends (fun held => ?_) begins
  have line := onLine_of_startsOperand (settled held)
  have same : env.peek (env.rest toks) = env.second toks := by
    unfold Env.second Env.peek Env.view
    split
    · cases after : env.rest toks with
      | nil => rfl
      | cons t others =>
        rw [dropWhile_cons_of_neg (by simpa using line t (by rw [after]; rfl))]
    · rfl
  refine ⟨Bool.eq_false_iff.mpr fun mark => ?_, line⟩
  have starts := settled held
  rw [← same] at starts
  simp [Env.startsOperand, is_iff.mp mark] at starts

/-- Cues that were there before are followed by those of the tokens. -/
def Extends (place : Token → Location) (before : List Cue) (toks rest : List Token) (v : Value) : Prop :=
  ∃ more, v.cues = before ++ more ∧
    ∀ closers cues, Clear place closers cues rest → Clear place closers (more ++ cues) toks

theorem Extends.refl (e : Expr) (toks : List Token) : Extends place e.cues toks toks (.expr e) :=
  ⟨[], (append_nil _).symm, fun _ _ clear => clear⟩

theorem Extends.step {before after more : List Cue} {mid : List Token} {v : Value}
    (extends_ : Extends place after mid rest v) (grown : after = before ++ more)
    (steps : ∀ closers cues, Clear place closers cues mid → Clear place closers (more ++ cues) toks) :
    Extends place before toks rest v := by
  rcases extends_ with ⟨others, all, steps'⟩
  refine ⟨more ++ others, by rw [all, grown, append_assoc], fun closers cues clear => ?_⟩
  rw [append_assoc]
  exact steps _ _ (steps' closers cues clear)

/-- What follows cues that were there before. -/
theorem Extends.after {before : List Cue} {mid : List Token} {v : Value} (extends_ : Extends place before mid rest v)
    (steps : ∀ closers cues, Clear place closers cues mid → Begins place closers (before ++ cues) toks)
    (closers : List String) (cues : List Cue) (clear : Clear place closers cues rest) :
    Begins place closers (v.cues ++ cues) toks := by
  rcases extends_ with ⟨more, all, steps'⟩
  rw [all, append_assoc]
  exact steps _ _ (steps' closers cues clear)

/-- The tokens that a goal steps over are those of which it tells in the tree.  Only where a base or a left operand
went before may the first token be parted from what is in front of it.  A list stands behind its opening
bracket and a clause behind its mark; a list and a comprehension close what was opened before. -/
def Goal.Tells (env : Env) (toks rest : List Token) (v : Value) : Goal → Prop
  | .climb _ left _ => Settled env toks → Extends env.loc left.cues toks rest v
  | .appliedGroup _ group => Extends env.loc group.cues toks rest v
  | .suffixes _ base => Extends env.loc base.cues toks rest v
  | .quantified q _ => Extends env.loc [{ sign := .keyword q.value (some q.literal) }] toks rest v
  | .listed closing => closing ∈ bracketPairs.map (·.2) → ∀ closers cues, Clear env.loc closers cues rest →
      Clear env.loc (closing :: closers) (v.cues ++ cues) (env.rest toks)
  | .comprehension .. => ∀ closers cues, Clear env.loc closers cues rest →
      Clear env.loc ("\x7d" :: closers) (v.cues ++ cues) toks
  | .clause present _ => ∀ closers cues, Clear env.loc closers cues rest →
      Clear env.loc closers (v.cues ++ cues) (if present then env.rest toks else toks)
  | _ => ∀ closers cues, Clear env.loc closers cues rest → Begins env.loc closers (v.cues ++ cues) toks

theorem Reads.tells {env goal toks v rest} (reads : Reads env goal toks v rest) (ends : env.Ends) :
    goal.Tells env toks rest v := by
  induction reads with
  | binary operand _ first climb => exact (climb ends operand.settles).after (first ends)
  | stop _ => exact fun _ => .refl _ _
  | climb found _ operand _ first ih =>
    intro settled
    refine (ih ends operand.settles).step (cues_joined ..) fun closers cues clear => ?_
    exact clear_infix ends found settled (first ends closers cues clear)
  | @prefixed env _ toks _ _ e _ found _ ih =>
    intro closers cues clear
    rcases shows_of_prefixed found with ⟨shown, starts⟩
    have operand : Begins env.loc closers (e.cues ++ cues) (env.rest toks) := by
      rcases Lead.cases_prefixed found with ⟨_, _, rfl⟩ | ⟨_, _, rfl⟩ | ⟨_, _, rfl⟩ <;> exact ih ends closers cues clear
    exact begins_sign ends shown (by simp) (by simp) (by simp)
      (operand.held fun held => onLine_of_startsOperand (starts held))
  | @word env _ toks _ _ lead _ ih =>
    have meets := meets_leadAt env toks
    rw [lead] at meets
    have shown := Shows.name meets.1
    rw [meets.2] at shown
    exact (ih ends).after fun closers cues clear => begins_literal ends shown (by simp) clear
  | group _ _ _ _ primary applied ih => exact (ih ends).after ((applied ends).after (primary ends))
  | atom _ _ _ primary ih => exact (ih ends).after (primary ends)
  | groupCall found _ ih =>
    exact ⟨_, rfl, fun closers cues clear =>
      (begins_opens ends (by decide) (meets_of_groupSuffixAt found) (ih ends (by decide) closers cues clear)).clear⟩
  | groupArgument _ _ ih =>
    exact ⟨_, congrArg _ (listCues_single _), fun closers cues clear => (ih ends closers cues clear).clear⟩
  | groupAlone _ => exact .refl _ _
  | call found _ _ args ih =>
    exact (ih ends).step rfl fun closers cues clear =>
      (begins_opens ends (by decide) (meets_of_suffixAt found) (args ends (by decide) closers cues clear)).clear
  | parameters found _ _ params ih =>
    exact (ih ends).step rfl fun closers cues clear =>
      (begins_opens ends (by decide) (meets_of_suffixAt found) (params ends (by decide) closers cues clear)).clear
  | field found _ ih =>
    rcases meets_of_suffixAt found with ⟨point, field⟩
    exact (ih ends).step rfl fun closers cues clear => clear_field ends point field clear
  | closure found _ ih =>
    exact (ih ends).step rfl fun closers cues clear =>
      (begins_loose ends (shows_closure (meets_of_suffixAt found)) clear).clear
  | @super env _ base toks _ _ _ _ found primary _ sup ih =>
    rcases is_iff.mp (meets_of_suffixAt found) with ⟨kind, value⟩
    have shown : Shows (.operator "sup" none) (env.peek toks) := .operator kind (.inl value) (by simp)
    exact (ih ends).step (cues_superscript base (primary.finds trivial)) fun closers cues clear =>
      (begins_loose ends shown (sup ends closers cues clear).clear).clear
  | image found _ closed _ set ih =>
    exact (ih ends).step rfl fun closers cues clear => (begins_opens ends (by decide) (meets_of_suffixAt found)
      (set ends _ cues (clear_closes ends.inside (by decide) closed clear)).clear).clear
  | argument _ _ _ arg ih =>
    exact (ih ends).step (congrArg _ (listCues_single _)) fun closers cues clear => (arg ends closers cues clear).clear
  | bare _ => exact .refl _ _
  | listedNone closed => exact fun bracket closers cues clear => clear_closes ends.inside bracket closed clear
  | listed _ _ closed ih =>
    exact fun bracket closers cues clear => (ih ends _ cues (clear_closes ends.inside bracket closed clear)).clear
  | element _ _ first others =>
    intro closers cues clear
    rw [Value.cues, listCues, append_assoc]
    exact first ends _ _ (clear_clause (others ends closers cues clear) fun comma =>
      clear_mark ends (by decide) (by decide) comma)
  | number found =>
    exact fun closers cues clear => begins_literal ends (.number (meets_of_formAt found)) (by simp) clear
  | @name env toks found =>
    intro closers cues clear
    have kind : (env.peek toks).kind = .identifier := meets_of_formAt found
    have shown := Shows.name (t := env.peek toks) (by simp [isNameToken, kind])
    have named : nameOf (env.peek toks) = (env.peek toks).value := by simp [nameOf, kind]
    rw [named] at shown
    rcases cues_nameExpr (env.peek toks).value (env.loc (env.peek toks)) with ⟨places, placed, same⟩
    rw [Value.cues, same]
    exact begins_literal ends shown placed clear
  | grouped found _ closed ih =>
    intro closers cues clear
    rw [Value.cues, cues_tupleOf]
    exact begins_opens ends (by decide) (meets_of_formAt found)
      (ih ends _ cues (clear_closes ends.inside (by decide) closed clear)).clear
  | comprehended found _ ih =>
    exact fun closers cues clear => begins_opens ends (by decide) (meets_of_formAt found) (ih ends closers cues clear)
  | @collected _ _ form _ _ _ _ found collects _ ih =>
    intro closers cues clear
    have meets := meets_of_formAt found
    cases form <;> cases collects <;>
      exact begins_opens ends (by decide) meets (ih ends (by decide) closers cues clear)
  | bound found _ ih =>
    exact (ih ends).after fun closers cues clear =>
      begins_loose ends (.keyword (meets_of_formAt found) rfl (by simp)) clear
  | choice found _ then_ _ else_ _ condition yes no =>
    intro closers cues clear
    simp only [Value.cues, Expr.cues, cons_append, append_assoc]
    have last := begins_loose ends (shows_of_isKeyword else_) (no ends closers cues clear).clear
    have middle := begins_loose ends (shows_of_isKeyword then_) (yes ends _ _ last.clear).clear
    exact begins_loose ends (shows_of_isKeyword (meets_of_formAt found)) (condition ends _ _ middle.clear).clear
  | comprehension _ _ _ closed groups predicate result =>
    intro closers cues clear
    simp only [Value.cues, Expr.cues, append_assoc]
    have closes := clear_closes ends (by decide) closed clear
    have last := clear_clause (result ends _ cues closes) fun spot => clear_spot ends spot
    exact (groups ends _ _ (clear_clause (predicate ends _ _ last) fun bar =>
      clear_mark ends (by decide) (by decide) bar)).clear
  | quantified _ _ said _ groups such body =>
    refine ⟨groupCues _ ++ (Expr.cues _ ++ Expr.cues _), cues_quantifierOf _ _ _ said.hole_of_absent,
      fun closers cues clear => ?_⟩
    rw [append_assoc, append_assoc]
    have last := clear_clause (body ends closers cues clear) fun spot => clear_spot ends spot
    exact (groups ends _ _ (clear_clause (such ends _ _ last) fun bar =>
      clear_mark ends (by decide) (by decide) bar)).clear
  | groups named others _ _ domain more =>
    intro closers cues clear
    simp only [Value.cues, cues_group, cons_append, append_assoc]
    have separates := clear_clause (more ends closers cues clear) fun separated => clear_separator ends separated
    exact begins_loose ends (.name named) (clear_moreNames others (clear_clause (domain ends _ _ separates)
      fun colon => clear_mark ends (by decide) (by decide) colon))
  | @absent _ part _ => cases part <;> exact fun closers cues clear => clear
  | @present _ part _ _ _ _ ih => cases part <;> exact fun closers cues clear => (ih ends closers cues clear).clear

theorem areLineEnds_of_skipNewlines (none : skipNewlines toks = []) : AreLineEnds toks := by
  have front := areLineEnds_takeWhile toks
  have whole := takeWhile_append_dropWhile (p := fun t : Token => t.kind == .newline) (l := toks)
  rw [← skipNewlines, none, append_nil] at whole
  rw [whole] at front
  exact front

/-- Tokens that are read as an expression are those of which it tells. -/
theorem lists_of_ofTokens {file : String} {e : Expr} (read : Expr.ofTokens file toks = .ok e) :
    Lists (envOf file toks).loc false false [] e.cues (body toks) := by
  rcases reads_of_ofTokens read with ⟨rest, reads, ended⟩
  have after : AreLineEnds rest := areLineEnds_of_skipNewlines ended
  have clear : Clear (envOf file toks).loc [] [] rest := by
    intro g ends
    have free : Free [] ([] : List Token) := by simp [Free]
    rw [← append_nil (g ++ rest)]
    exact Lists.lines .nil free (ends.append after)
  have begins := reads.tells (Env.ends_envOf file toks) [] [] clear
  rw [append_nil] at begins
  have lists := begins.clear _ (areLineEnds_takeWhile (body toks))
  rw [skipNewlines, takeWhile_append_dropWhile] at lists
  exact lists

/-! ## The operand that two relations share -/

end Parse

namespace Expr

/-- The expression is a part of the other, at any depth. -/
inductive PartOf : Expr → Expr → Prop
  | self {e} : PartOf e e
  | slot {part slot e} : slot ∈ e.slots → PartOf part slot → PartOf part e

/-- The last relation of a chain repeats the operand at which the chain before it ends. -/
def Repeats : Expr → Prop
  | binary _ _ left (binary _ _ middle _ _ _ _) _ true _ => Latex.lastOperand left = some middle
  | binary _ _ _ _ _ true _ => False
  | _ => True

/-- So do all chains in an expression. -/
def Shares (e : Expr) : Prop := ∀ part, PartOf part e → Repeats part

/-- A property of all parts is one of the expression and of the parts of its slots. -/
theorem forall_partOf_iff {P : Expr → Prop} {e : Expr} : (∀ part, PartOf part e → P part) ↔
    P e ∧ ∀ slot ∈ e.slots, ∀ part, PartOf part slot → P part := by
  constructor
  · intro each
    exact ⟨each e .self, fun slot member part inside => each part (.slot member inside)⟩
  · rintro ⟨here, slots⟩ part inside
    cases inside with
    | self => exact here
    | slot member deeper => exact slots _ member part deeper

/-- A chain grows by one relation at a time. -/
def Single : Expr → Prop
  | binary _ _ _ (binary _ _ _ _ _ chained _) _ true _ => chained = false
  | _ => True

/-- All chains in an expression repeat their operands and grow so. -/
def Links (e : Expr) : Prop := ∀ part, PartOf part e → Repeats part ∧ Single part

theorem links_iff {e : Expr} : Links e ↔ (Repeats e ∧ Single e) ∧ ∀ slot ∈ e.slots, Links slot := forall_partOf_iff

theorem links_binary (op surface : String) (left right : Expr) (breakAfter : Bool) (loc : Location) :
    Repeats (binary op surface left right breakAfter false loc) ∧
      Single (binary op surface left right breakAfter false loc) := by
  cases right <;> exact ⟨trivial, trivial⟩

theorem links_hole : Links hole := links_iff.mpr ⟨⟨trivial, trivial⟩, by simp [slots]⟩

theorem Links.lastOperand {left middle : Expr} (links : Links left)
    (last : Latex.lastOperand left = some middle) : Links middle := by
  unfold Latex.lastOperand at last
  split at last
  next =>
    cases last
    have relation := (links_iff.mp links).2 _ (mem_cons_of_mem _ mem_cons_self)
    exact (links_iff.mp relation).2 _ (mem_cons_of_mem _ mem_cons_self)
  next =>
    split at last
    next =>
      cases last
      exact (links_iff.mp links).2 _ (mem_cons_of_mem _ mem_cons_self)
    next => cases last
  next => cases last

theorem links_of_present {e : Expr} (present : e.isHole = false → e.Links) : e.Links := by
  cases e with
  | hole => exact links_hole
  | _ => exact present rfl

theorem links_bound {gs : List (Binding Expr)} {such body : Expr}
    (domains : ∀ b ∈ gs, b.domain.isHole = false → b.domain.Links) (suchLinks : such.isHole = false → such.Links)
    (bodyLinks : body.isHole = false → body.Links) :
    ∀ slot ∈ gs.map (·.domain) ++ [such, body], slot.Links := by
  intro slot member
  simp only [mem_append, mem_map, mem_cons, not_mem_nil, or_false] at member
  rcases member with ⟨b, inside, rfl⟩ | rfl | rfl
  · exact links_of_present (domains b inside)
  · exact links_of_present suchLinks
  · exact links_of_present bodyLinks

/-- Every chain that is read repeats its operands, one relation after the other. -/
theorem Formed.links {shaped : Prop} {e : Expr} (formed : Formed shaped e) : e.Links := by
  induction formed with
  | number | name => exact links_iff.mpr ⟨⟨trivial, trivial⟩, by simp [slots]⟩
  | prefixed _ _ ih | postfixed _ _ ih | projection _ _ ih =>
    exact links_iff.mpr ⟨⟨trivial, trivial⟩, forall_mem_singleton.mpr ih⟩
  | binary _ _ _ _ left right => exact links_iff.mpr ⟨links_binary .., by simp [slots, left, right]⟩
  | chain _ repeated _ _ left right =>
    refine links_iff.mpr ⟨⟨repeated, rfl⟩, forall_mem_cons.mpr ⟨left, forall_mem_singleton.mpr (links_iff.mpr ?_)⟩⟩
    exact ⟨links_binary .., by simp [slots, left.lastOperand repeated, right]⟩
  | range _ _ first second | juxtaposed _ _ first second | image _ _ first second =>
    exact links_iff.mpr ⟨⟨trivial, trivial⟩, forall_mem_cons.mpr ⟨first, forall_mem_singleton.mpr second⟩⟩
  | conditional _ _ _ condition yes no =>
    exact links_iff.mpr ⟨⟨trivial, trivial⟩, by simp [slots, condition, yes, no]⟩
  | quantifier _ _ _ _ _ _ _ domains such body =>
    exact links_iff.mpr ⟨⟨trivial, trivial⟩, links_bound domains such body⟩
  | comprehension _ _ _ _ _ domains such body =>
    exact links_iff.mpr ⟨⟨trivial, trivial⟩, links_bound domains such body⟩
  | collection _ _ each | tuple _ _ each => exact links_iff.mpr ⟨⟨trivial, trivial⟩, each⟩
  | application _ _ target each | instantiation _ _ target each =>
    exact links_iff.mpr ⟨⟨trivial, trivial⟩, forall_mem_cons.mpr ⟨target, each⟩⟩
  | superscript _ _ _ base super =>
    exact links_iff.mpr ⟨⟨trivial, trivial⟩, by simp [slots, base, super, links_hole]⟩
  | subscript _ _ _ sub super =>
    have literal {value loc} : Links (.literal .identifier value loc) :=
      links_iff.mpr ⟨⟨trivial, trivial⟩, by simp [slots]⟩
    exact links_iff.mpr ⟨⟨trivial, trivial⟩, by simp [slots, literal, sub, links_of_present super]⟩

theorem Formed.shares {shaped : Prop} {e : Expr} (formed : Formed shaped e) : e.Shares :=
  fun part inside => (formed.links part inside).1

end Expr

namespace Parse

/-- Reading an expression drops, adds and reorders nothing: brackets are nested, and the signs of the
tree are the tokens that have one, in their order.  The other tokens are brackets, punctuation and line
ends, and what a chain has twice in its tree is the operand its relations share. -/
theorem expression_lists_its_tokens {file : String} {toks : List Token} {e : Expr}
    (read : Expr.ofTokens file toks = .ok e) :
    Balanced (((body toks).filter isBracket).map (·.value)) ∧
      List.Forall₂ Shows e.signs ((body toks).filter isSignificant) ∧
      (∀ t ∈ body toks, isSignificant t = true ∨ isBracket t = true ∨
        (t.kind = .delimiter ∧ t.value ∈ punctuation) ∨ t.kind = .newline) ∧
      e.Shares := by
  have lists := lists_of_ofTokens read
  have formed := formed_of_ofTokens read
  have shown := lists.forall₂_shows
  rw [formed.agrees.1] at shown
  exact ⟨lists.closes_brackets, shown, lists.accounted, formed.shares⟩

/-- The tokens of `forall x : A x B | a < b <= c_1 @ -{f}`. -/
def chainedQuantifierTokens : List Token :=
  Latex.written [(.keyword, "forall"), (.identifier, "x"), (.delimiter, ":"), (.identifier, "A"),
    (.identifier, "x"), (.identifier, "B"), (.delimiter, "|"), (.identifier, "a"), (.operator, "lt"),
    (.identifier, "b"), (.operator, "leq"), (.identifier, "c_1"), (.delimiter, "@"), (.operator, "minus"),
    (.delimiter, "\x7b"), (.identifier, "f"), (.delimiter, "\x7d")]

theorem chainedQuantifier_lists_its_tokens : ∃ e, Expr.ofTokens "" chainedQuantifierTokens = .ok e ∧
      List.Forall₂ Shows e.signs (chainedQuantifierTokens.filter isSignificant) := by
  have accepted : (Expr.ofTokens "" chainedQuantifierTokens).toOption.isSome = true := by decide
  cases read : Expr.ofTokens "" chainedQuantifierTokens with
  | error fault =>
    rw [read] at accepted
    cases accepted
  | ok e => exact ⟨e, rfl, (expression_lists_its_tokens read).2.1⟩

end Parse
end Whiteboard
