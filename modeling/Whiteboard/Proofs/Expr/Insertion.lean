import Whiteboard.Proofs.Expr.Carried

namespace Whiteboard

open List
namespace Parse

/-!
# Breaking an expression

Tokens that are read as an expression may be broken wherever a bracket is open, as long as the line end
does not come between two tokens that a bond of the tree keeps together: behind a prefix word or a sum sign
without a space before it, in front of a field, or in front of a further variable of a group.  There they
are no longer read as the same tree.
-/

/-! ## Walking through the tokens of a tree -/

/-- Does the token at hand keep the next one on its line, and what are the bonds of those to come? -/
def walk (state : Bool × List Bond) (t : Token) : Bool × List Bond :=
  if isSignificant t then (state.2.head?.any (holds · t), state.2.tail) else (false, state.2)

/-- A line end between the two lists would part what a bond keeps together. -/
def partsBond (bonds : List Bond) (front back : List Token) : Bool :=
  (front.foldl walk (false, bonds)).1 ||
    back.head?.any fun t => isSignificant t && (front.foldl walk (false, bonds)).2.head? == some .behind

/-- The number of brackets that are open after the tokens. -/
def openBrackets (toks : List Token) : Nat := (body toks).foldl nesting 0

variable {place : Token → Location} {held pending : Bool} {closers : List String} {cues : List Cue}
  {toks : List Token}

/-- Line ends are put inside brackets. -/
def loosening : Transfer := ⟨.more, id, id, [], []⟩

theorem carrying_loosening {env : Env} (ends : env.Ends) : Carrying loosening env env where
  unseen := unseen_id
  nested _ := rfl
  whole _ := ⟨rfl, rfl⟩
  product := rfl
  places _ := rfl
  here := .nil (.inr (.inl ends))
  there := .nil (.inr (.inl ends))
  unclosed := forall_mem_singleton.mpr (by simp [Token.isDelim, Token.is, show env.final.kind = _ from ends])
  unbroken := forall_mem_singleton.mpr (by simp [Token.isDelim, Token.is, show env.final.kind = _ from ends])

abbrev Loosens := Along loosening

/-- The cursor stands at the same token, and so does the token behind it unless a line end is put there. -/
theorem Loosens.cursor {env : Env} (ends : env.Ends) {toks' : List Token} (loosens : Loosens 0 held cues toks toks') :
    env.peek toks' = env.peek toks ∧ (env.second toks' = env.second toks ∨ Mute (env.second toks')) := by
  have carrying := carrying_loosening ends
  have abreast : Abreast loosening 0 held cues env env toks toks' :=
    ⟨carrying, fun inside => absurd inside (Nat.lt_irrefl 0), loosens⟩
  rcases abreast.next with ⟨here, there⟩ | steps
  · unfold Env.second
    rw [peek_eq_of_view here, peek_eq_of_view there, rest_eq_of_view here, rest_eq_of_view there]
    exact ⟨rfl, .inl rfl⟩
  · exact ⟨steps.peek, (carrying.head_cases steps.rest).imp_right And.left⟩

theorem Loosens.line {n : Token} {toks' : List Token} {depth : Nat} (newline : n.kind = .newline)
    (free : Free cues toks) (later : Loosens depth false cues toks toks') :
    Loosens depth held cues (n :: toks) (n :: toks') :=
  Along.line (by simp [loosening]) newline newline (.inl rfl) (fun _ => free) later

/-- Behind a front of the tokens there are those of the remaining cues, and line ends put in there leave the front as
it is. -/
theorem Lists.walk {front back : List Token} (lists : Lists place held pending closers cues (front ++ back)) :
    ∃ held' pending' closers' cues', front.foldl walk (held, cues.map (·.bond)) = (held', cues'.map (·.bond)) ∧
      Lists place held' pending' closers' cues' back ∧ ∀ depth back',
        Loosens (front.foldl nesting depth) held' cues' back back' →
        Loosens depth held cues (front ++ back) (front ++ back') := by
  induction front generalizing held pending closers cues with
  | nil => exact ⟨held, pending, closers, cues, rfl, lists, fun _ _ behind => behind⟩
  | cons t front ih =>
    simp only [foldl_cons, Parse.walk]
    cases lists with
    | line newline free later =>
      rcases ih later with ⟨held', pending', closers', cues', walked, lists', loosens⟩
      refine ⟨held', pending', closers', cues', by simpa [isSignificant, newline] using walked, lists', ?_⟩
      intro depth back' behind
      rw [nesting_of_kind (by simp [newline])] at behind
      exact .line newline free (loosens _ _ behind)
    | sign shown _ _ later =>
      have significant := shown.isSignificant
      rcases ih later with ⟨held', pending', closers', cues', walked, lists', loosens⟩
      refine ⟨held', pending', closers', cues', by simpa [significant] using walked, lists', ?_⟩
      intro depth back' behind
      refine .token (kind_of_significant significant).1 ?_
      simpa [keeps, cuesAfter, significant] using loosens _ _ behind
    | delimiter kind _ later =>
      have plain := insignificant kind
      rcases ih later with ⟨held', pending', closers', cues', walked, lists', loosens⟩
      refine ⟨held', pending', closers', cues', by simpa [plain] using walked, lists', ?_⟩
      intro depth back' behind
      refine .token (by simp [kind]) ?_
      simpa [keeps, cuesAfter, plain] using loosens _ _ behind

theorem Lists.self (lists : Lists place held pending closers cues toks) (depth : Nat) :
    Loosens depth held cues toks toks := by
  rw [← append_nil toks] at lists ⊢
  rcases lists.walk with ⟨_, _, _, _, _, _, loosens⟩
  exact loosens depth [] (.stop rfl rfl)

/-- Line ends are put in front of tokens that may be first on their line. -/
theorem Loosens.lines {toks' lines : List Token} {depth : Nat} (inside : 0 < depth)
    (free : Free cues toks) (loosens : Loosens depth false cues toks toks') (ends : AreLineEnds lines) :
    Loosens depth false cues toks (lines ++ toks') := by
  induction lines with
  | nil => exact loosens
  | cons n lines ih =>
    exact .added rfl (ends n mem_cons_self) inside free (ih fun t later => ends t (mem_cons_of_mem n later))

theorem Lists.free {lines : List Token} (lists : Lists place held pending closers cues (lines ++ toks))
    (ends : AreLineEnds lines) (some : lines ≠ []) : held = false ∧ Free cues toks := by
  induction lines generalizing held with
  | nil => exact absurd rfl some
  | cons n lines ih =>
    have newline := ends n mem_cons_self
    cases lists with
    | line _ free later =>
      cases lines with
      | nil => exact ⟨rfl, free⟩
      | cons n' lines =>
        exact ⟨rfl, (ih later (fun t later => ends t (mem_cons_of_mem n later)) (by simp)).2⟩
    | sign shown => exact absurd newline (kind_of_significant shown.isSignificant).1
    | delimiter kind => simp [kind] at newline

/-- Where no bracket is open both lists have the same line ends in front. -/
theorem Loosens.skip {depth : Nat} {toks' : List Token}
    (loosens : Loosens depth held cues toks toks') (outside : depth = 0) :
    ∃ held', Loosens depth held' cues (skipNewlines toks) (skipNewlines toks') := by
  unfold skipNewlines
  induction loosens with
  | stop here there => exact ⟨false, .stop (by rw [here]; rfl) (by rw [there]; rfl)⟩
  | added _ _ inside => exact absurd inside (by omega)
  | line _ newline newline' _ _ _ ih => simp_all
  | @token _ held _ _ _ t solid later _ =>
    have solid' : (loosening.shift t).kind ≠ .newline := solid
    rw [dropWhile_cons_of_neg (by simp [solid]), dropWhile_cons_of_neg (by simp [solid'])]
    exact ⟨held, .token solid later⟩

/-! ## Brackets that are open -/

/-- Only brackets change their number. -/
theorem foldl_nesting (toks : List Token) (depth : Nat) :
    toks.foldl nesting depth = ((toks.filter isBracket).map (·.value)).foldl afterBracket depth := by
  induction toks generalizing depth with
  | nil => rfl
  | cons t toks ih =>
    cases bracket : isBracket t with
    | true =>
      rw [filter_cons_of_pos bracket, map_cons, foldl_cons, foldl_cons, nesting_delimiter (kind_of_isBracket bracket)]
      exact ih _
    | false =>
      have idle : nesting depth t = depth := by
        simp_all [nesting, afterBracket, isBracket, bracketPairs]
      rw [filter_cons_of_neg (by simp [bracket]), foldl_cons, idle]
      exact ih depth

theorem Balanced.foldl_afterBracket {bs : List String} (balanced : Balanced bs) (depth : Nat) :
    bs.foldl afterBracket depth = depth := by
  induction balanced generalizing depth with
  | nil => rfl
  | append _ _ first second => rw [foldl_append, first, second]
  | enclose pair _ ih =>
    rw [foldl_cons, foldl_append, afterBracket_opening (mem_map_of_mem pair), ih, foldl_cons,
      afterBracket_closing (mem_map_of_mem pair)]
    rfl

/-- An expression closes all its brackets. -/
theorem openBrackets_of_ofTokens {file : String} {e : Expr}
    (read : Expr.ofTokens file toks = .ok e) : openBrackets toks = 0 := by
  have balanced : Balanced _ := (lists_of_ofTokens read).closes_brackets
  rw [openBrackets, foldl_nesting, balanced.foldl_afterBracket]

/-- An expression that only line ends follow is all that there is. -/
theorem ofTokens_of_expr {file : String} {rest : List Token} {e : Expr}
    (read : expr (envOf file toks) (skipNewlines (body toks)) = .ok (e, rest)) (ended : skipNewlines rest = []) :
    Expr.ofTokens file toks = .ok e := by
  refine bind_eq_ok.mpr ⟨(e, rest), read, ?_⟩
  dsimp only
  rw [ended]
  rfl

section Insertion

variable {front lines back : List Token} {e : Expr} {file : String}

/-- The input does not end while a bracket is open. -/
theorem within_of_open (inside : 0 < openBrackets front) (read : Expr.ofTokens file (front ++ back) = .ok e) :
    (∀ t ∈ front, t.kind ≠ .endOfInput) ∧ back ≠ [] := by
  have closed := openBrackets_of_ofTokens read
  constructor
  · by_contra some
    have shorter : (front.takeWhile fun t => t.kind != .endOfInput).length ≠ front.length := by
      intro same
      apply some
      intro t member
      have whole := (takeWhile_sublist _).eq_of_length same
      have kept := all_eq_true.mp (all_takeWhile (p := fun t : Token => t.kind != .endOfInput) (l := front)) t
        (by rw [whole]; exact member)
      simpa using kept
    unfold openBrackets body at closed inside
    rw [takeWhile_append, if_neg shorter] at closed
    omega
  · rintro rfl
    rw [append_nil] at closed
    omega

theorem AreLineEnds.within (ends : AreLineEnds lines) : ∀ t ∈ lines, t.kind ≠ .endOfInput :=
  fun t member => by simp [ends t member]

theorem body_front (within : ∀ t ∈ front, t.kind ≠ .endOfInput) (back : List Token) :
    body (front ++ back) = front ++ body back :=
  takeWhile_append_of_pos fun t member => by simpa using within t member

theorem envOf_insert (within : ∀ t ∈ front, t.kind ≠ .endOfInput) (ends : AreLineEnds lines) (some : back ≠ [])
    (file : String) : envOf file (front ++ (lines ++ back)) = envOf file (front ++ back) := by
  have none {toks : List Token} (each : ∀ t ∈ toks, t.kind ≠ .endOfInput) :
      toks.find? (fun t => t.kind == .endOfInput) = none :=
    List.find?_eq_none.mpr fun t member => by simpa using each t member
  unfold envOf finalToken
  rw [List.find?_append, List.find?_append, List.find?_append, none within, none ends.within,
    List.getLast?_append_of_ne_nil _ (by simp [some]), List.getLast?_append_of_ne_nil _ some,
    List.getLast?_append_of_ne_nil _ some]
  rfl

theorem partsBond_eq_false_iff {bonds : List Bond}
    (walked : front.foldl walk (false, bonds) = (held, cues.map (·.bond))) :
    partsBond bonds front back = false ↔ held = false ∧ Free cues (body back) := by
  rw [partsBond, walked, Bool.or_eq_false_iff]
  refine and_congr_right fun _ => ?_
  cases back with
  | nil => simp [Free, body]
  | cons t back =>
    by_cases ended : t.kind = .endOfInput
    · simp [Free, body, ended, isSignificant]
    · simp [Free, body, ended]

section
variable (ends : AreLineEnds lines) (inside : 0 < openBrackets front)
  (read : Expr.ofTokens file (front ++ back) = .ok e) (keeps : partsBond e.bonds front back = false)
include ends inside read keeps

/-- Line ends that part no bond, seen from the first token of the expression. -/
theorem loosens_insert : ∃ held, Loosens 0 held e.cues (skipNewlines (body (front ++ back)))
      (skipNewlines (body (front ++ (lines ++ back)))) := by
  rcases within_of_open inside read with ⟨within, _⟩
  have lists := lists_of_ofTokens read
  rw [body_front within] at lists
  rcases lists.walk with ⟨held', _, _, _, walked, behind, loosens⟩
  rw [(formed_of_ofTokens read).agrees.2] at walked
  rcases (partsBond_eq_false_iff walked).mp keeps with ⟨rfl, free⟩
  have depth : 0 < front.foldl nesting 0 := by
    rw [openBrackets, ← append_nil front, body_front within] at inside
    simpa [body] using inside
  have inserted := loosens 0 (lines ++ body back) (.lines depth free (behind.self _) ends)
  rw [body_front within, body_front within, body_front ends.within]
  exact inserted.skip rfl

/-- With line ends that part no bond the tokens are read as the same tree. -/
theorem ofTokens_insert : Expr.ofTokens file (front ++ (lines ++ back)) = .ok e := by
  rcases within_of_open inside read with ⟨within, some⟩
  rcases loosens_insert ends inside read keeps with ⟨held, loosens⟩
  rcases reads_of_ofTokens read with ⟨rest, reads, ended⟩
  rw [← append_nil e.cues] at loosens
  have carries : (Goal.binary 1).Carries loosening _ _ _ _ := reads.carries trivial
  rcases carries ⟨carrying_loosening (Env.ends_envOf file _), fun inside => absurd inside (Nat.lt_irrefl 0), loosens⟩
    (reads.fits _) with ⟨_, rest', remaining, reads'⟩
  rcases Loosens.skip remaining rfl with ⟨_, after⟩
  rw [ended] at after
  have ended' : skipNewlines rest' = [] := by
    cases left : skipNewlines rest' with
    | nil => rfl
    | cons n more =>
      rw [left] at after
      cases after with
      | stop _ there => cases there
      | added _ _ impossible => omega
  rw [← envOf_insert within ends some, Value.relocate, loosening, Expr.relocate_id] at reads'
  exact ofTokens_of_expr ((expr_eq_ok_iff (Env.ends_envOf _ _)).mpr reads') ended'

end

/-- With line ends that part a bond they are not. -/
theorem keeps_of_ofTokens (ends : AreLineEnds lines) (some : lines ≠ []) (within : ∀ t ∈ front, t.kind ≠ .endOfInput)
    (read : Expr.ofTokens file (front ++ (lines ++ back)) = .ok e) : partsBond e.bonds front back = false := by
  have lists := lists_of_ofTokens read
  rw [body_front within, body_front ends.within] at lists
  rcases lists.walk with ⟨_, _, _, _, walked, behind, _⟩
  rw [(formed_of_ofTokens read).agrees.2] at walked
  exact (partsBond_eq_false_iff walked).mpr (behind.free ends some)

end Insertion

end Parse
end Whiteboard
