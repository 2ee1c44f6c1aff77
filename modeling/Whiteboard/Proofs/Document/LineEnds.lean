import Whiteboard.Proofs.Document.Nesting
import Whiteboard.Proofs.Expr.Insertion

namespace Whiteboard

open List

/-!
# Line ends inside brackets are insignificant where they part no bond

A document of one formula is an expression whose first line is that of no other item.  Line ends inside
brackets leave that line what it is, so the document stays the same exactly where the expression does.
-/

namespace Parse

variable {env : Env} {t : Token} {toks rest after : List Token} {e : Expr} {loc : Location}

/-! ## A document of one formula -/

/-- No other item begins with the tokens. -/
structure IsFormulaLine (env : Env) (toks : List Token) : Prop where
  line : (env.peek toks).kind ∉ [.sectionHeader, .solutionHeader, .partLabel, .text]
  block : block env (env.peek toks) (env.rest toks) = none
  freeType : ((env.peek toks).kind == .identifier && (env.second toks).isDelim "::=") = false
  abbreviation : ((env.peek toks).kind == .identifier && lineHasDelim "==" toks) = false

theorem formula_eq_ok_iff {i : Item} : formula env toks = .ok (i, after) ↔
      ∃ e mid, expr env toks = .ok (e, mid) ∧ env.expectLineEnd mid = .ok after ∧
        i = .formula e (env.loc (env.peek toks)) := by
  constructor
  · intro found
    rcases bind_eq_ok.mp (mapError_eq_ok found) with ⟨⟨e, mid⟩, read, ended⟩
    rcases bind_eq_ok.mp ended with ⟨after', line, same⟩
    cases same
    exact ⟨e, mid, read, line, rfl⟩
  · rintro ⟨e, mid, read, line, rfl⟩
    have ended : endingLine env (.formula e (env.loc (env.peek toks))) mid =
        .ok (Item.formula e (env.loc (env.peek toks)), after) :=
      bind_eq_ok.mpr ⟨after, line, rfl⟩
    unfold formula
    dsimp only
    rw [bind_eq_ok.mpr ⟨(e, mid), read, ended⟩]
    rfl

theorem item_eq_formula (found : item env toks = .ok (.formula e loc, after)) :
    block env (env.peek toks) (env.rest toks) = none ∧
      ((env.peek toks).kind == .identifier && (env.second toks).isDelim "::=") = false ∧
      ((env.peek toks).kind == .identifier && lineHasDelim "==" toks) = false ∧
      formula env toks = .ok (.formula e loc, after) := by
  unfold item at found
  dsimp only at found
  split at found
  next opened => exact (brings_block opened _ after found).elim
  next none =>
    split at found
    next => exact (brings_freeType _ _ _ _ after found).elim
    next notFree =>
      split at found
      next => exact (brings_abbreviation _ _ _ _ after found).elim
      next notAbbreviated => exact ⟨none, by simpa using notFree, by simpa using notAbbreviated, found⟩

theorem IsFormulaLine.item_eq (line : IsFormulaLine env toks) : item env toks = formula env toks := by
  unfold item
  dsimp only
  rw [line.block]
  dsimp only
  rw [line.freeType, line.abbreviation]
  rfl

theorem entries_eq_formula (flat : env.nested = false)
    (found : entries env (t :: rest) = .ok ([.item (.formula e loc)], after)) :
    IsFormulaLine env (t :: rest) ∧ formula env (t :: rest) = .ok (.formula e loc, after) := by
  have peek : env.peek (t :: rest) = t := by simp [Env.peek, Env.view, flat]
  rcases cases_entries found with ⟨_, _, _, _, same, _⟩ | ⟨_, _, same⟩ | ⟨other, i, same, read⟩
  · cases same
  · cases same
  · cases same
    rcases item_eq_formula read with ⟨none, notFree, notAbbreviated, read'⟩
    exact ⟨⟨by rw [peek]; exact other, none, notFree, notAbbreviated⟩, read'⟩

theorem IsFormulaLine.entries_eq (flat : env.nested = false) {i : Item} (line : IsFormulaLine env (t :: rest))
    (read : formula env (t :: rest) = .ok (i, after)) : entries env (t :: rest) = .ok ([.item i], after) := by
  have peek : env.peek (t :: rest) = t := by simp [Env.peek, Env.view, flat]
  have other := line.line
  rw [peek] at other
  simp only [mem_cons, not_mem_nil, or_false, not_or] at other
  rw [entries]
  split
  next kind => exact absurd kind other.1
  next kind => exact absurd kind other.2.1
  next kind => exact absurd kind other.2.2.1
  next kind => exact absurd kind other.2.2.2
  next => exact bind_eq_ok.mpr ⟨(i, after), line.item_eq.trans read, rfl⟩

theorem entries_ne_nil {found : List Entry} (read : entries env toks = .ok (found, after)) : found ≠ [] := by
  cases toks with
  | nil => cases read
  | cons t rest =>
    rcases cases_entries read with ⟨_, _, _, _, rfl, _⟩ | ⟨_, _, rfl⟩ | ⟨_, _, rfl, _⟩ <;> simp

/-- A line ends and nothing follows if there are line ends only. -/
theorem expectLineEnd_iff (ends : env.Ends) (flat : env.nested = false) (toks : List Token) :
    (∃ after, env.expectLineEnd toks = .ok after ∧ skipNewlines after = []) ↔ skipNewlines toks = [] := by
  cases toks with
  | nil =>
    have final : env.expectLineEnd [] = .ok [] := by
      simp [Env.expectLineEnd, Env.peek, Env.view, flat, show env.final.kind = .endOfInput from ends]
    simp [final, skipNewlines]
  | cons t rest =>
    have peek : env.peek (t :: rest) = t := by simp [Env.peek, Env.view, flat]
    have after : env.rest (t :: rest) = rest := by simp [Env.rest, Env.view, flat]
    unfold Env.expectLineEnd
    rw [peek, after]
    split
    next newline => simp [skipNewlines, newline]
    next => simp
    next notNewline _ =>
      have line : (t.kind == .newline) = false := by simpa using notNewline
      simp [skipNewlines, line]

theorem documentEntries_eq_nil_iff {bound : Nat} :
    documentEntries env (bound + 1) toks = .ok [] ↔ skipNewlines toks = [] := by
  rw [documentEntries]
  cases skipNewlines toks with
  | nil => simp
  | cons t rest =>
    simp only [reduceCtorEq, iff_false]
    intro found
    rcases bind_eq_ok.mp found with ⟨⟨first, after⟩, read, later⟩
    rcases bind_eq_ok.mp later with ⟨others, _, same⟩
    have none : first ++ others = [] := Except.ok.inj same
    exact entries_ne_nil read (append_eq_nil_iff.mp none).1

theorem documentEntries_eq_single_iff {bound : Nat} {entry : Entry} (enough : toks ≠ [] → 0 < bound) :
    documentEntries env (bound + 1) toks = .ok [entry] ↔
      ∃ after, entries env (skipNewlines toks) = .ok ([entry], after) ∧ skipNewlines after = [] := by
  rw [documentEntries]
  cases ahead : skipNewlines toks with
  | nil => simp [entries]
  | cons t rest =>
    have positive : 0 < bound := by
      apply enough
      rintro rfl
      cases ahead
    rcases Nat.exists_eq_succ_of_ne_zero (Nat.ne_of_gt positive) with ⟨bound, rfl⟩
    constructor
    · intro found
      rcases bind_eq_ok.mp found with ⟨⟨first, after⟩, read, later⟩
      rcases bind_eq_ok.mp later with ⟨others, rest_, same⟩
      have single : first ++ others = [entry] := Except.ok.inj same
      rcases append_eq_singleton_iff.mp single with ⟨rfl, _⟩ | ⟨rfl, rfl⟩
      · exact absurd rfl (entries_ne_nil read)
      · exact ⟨after, read, documentEntries_eq_nil_iff.mp rest_⟩
    · rintro ⟨after, read, ended⟩
      exact bind_eq_ok.mpr ⟨_, read, bind_eq_ok.mpr ⟨[], documentEntries_eq_nil_iff.mpr ended, rfl⟩⟩

/-- A document is one formula if all of it is an expression and no other item begins with its first line. -/
theorem ofTokens_eq_formula_iff {file : String} : Document.ofTokens file toks = .ok [.formula e loc] ↔
      Expr.ofTokens file toks = .ok e ∧ IsFormulaLine (envOf file toks) (skipNewlines (body toks)) ∧
        loc = (envOf file toks).loc ((envOf file toks).peek (skipNewlines (body toks))) := by
  have ends := Env.ends_envOf file toks
  have enough : body toks ≠ [] → 0 < toks.length := by
    intro some
    apply length_pos_iff.mpr
    rintro rfl
    exact some rfl
  have entry : Document.ofTokens file toks = .ok [.formula e loc] ↔
      documentEntries (envOf file toks) (toks.length + 1) (body toks) = .ok [.item (.formula e loc)] := by
    constructor
    · intro found
      rcases ofTokens_outlines_lines found with ⟨entries, read, outlines⟩
      have listing := outlines.listing
      rw [read, ← listing]
      rfl
    · intro read
      exact bind_eq_ok.mpr ⟨_, read, rfl⟩
  rw [entry, documentEntries_eq_single_iff enough]
  constructor
  · rintro ⟨after, read, ended⟩
    cases ahead : skipNewlines (body toks) with
    | nil =>
      rw [ahead] at read
      cases read
    | cons t rest =>
      rw [ahead] at read
      rcases entries_eq_formula rfl read with ⟨line, found⟩
      rcases formula_eq_ok_iff.mp found with ⟨e', mid, parsed, stops, same⟩
      cases same
      rw [← ahead] at parsed line ⊢
      exact ⟨ofTokens_of_expr parsed ((expectLineEnd_iff ends rfl mid).mp ⟨after, stops, ended⟩), line, rfl⟩
  · rintro ⟨read, line, rfl⟩
    rcases reads_of_ofTokens read with ⟨mid, reads, ended⟩
    rcases (expectLineEnd_iff ends rfl mid).mpr ended with ⟨after, stops, ended'⟩
    have found := formula_eq_ok_iff.mpr ⟨e, mid, (expr_eq_ok_iff ends).mpr reads, stops, rfl⟩
    cases ahead : skipNewlines (body toks) with
    | nil =>
      have shorter := reads.length_lt ends rfl
      rw [ahead] at shorter
      exact absurd shorter (Nat.not_lt_zero _)
    | cons t rest =>
      rw [ahead] at line found
      exact ⟨after, line.entries_eq rfl found, ended'⟩

/-! ## Line ends in a document of one formula -/

theorem block_eq_none (none : block env t rest = none) (rest' : List Token) : block env t rest' = .none := by
  unfold block at none ⊢
  split at none
  next other => rw [if_pos other]
  next keyword =>
    rw [if_neg keyword]
    split at none
    all_goals cases none
    rfl

theorem Loosens.lineHasDelim {depth : Nat} {held : Bool} {cues : List Cue} {toks' : List Token}
    (loosens : Loosens depth held cues toks toks') {value : String} (missing : Parse.lineHasDelim value toks = false) :
    Parse.lineHasDelim value toks' = false := by
  unfold Parse.lineHasDelim at missing ⊢
  induction loosens with
  | stop _ there =>
    rw [there]
    rfl
  | added _ newline => simp [newline]
  | line _ _ newline => simp [newline]
  | @token _ _ _ _ _ t solid _ ih =>
    have solid' : (loosening.shift t).kind ≠ .newline := solid
    rw [takeWhile_cons_of_pos (by simp [solid]), any_cons, Bool.or_eq_false_iff] at missing
    rw [takeWhile_cons_of_pos (by simp [solid']), any_cons, Bool.or_eq_false_iff]
    exact ⟨missing.1, ih missing.2⟩

/-- Line ends inside brackets leave the line of a formula what it is. -/
theorem IsFormulaLine.loosen {held : Bool} {cues : List Cue} {toks' : List Token} (line : IsFormulaLine env toks)
    (ends : env.Ends) (loosens : Loosens 0 held cues toks toks') : IsFormulaLine env toks' := by
  rcases loosens.cursor ends with ⟨peek, second⟩
  constructor
  · rw [peek]
    exact line.line
  · rw [peek]
    exact block_eq_none line.block _
  · rw [peek]
    rcases second with same | mute
    · rw [same]
      exact line.freeType
    · simp [mute.isDelim]
  · rw [peek]
    rcases Bool.and_eq_false_iff.mp line.abbreviation with other | missing
    · rw [other]
      rfl
    · rw [loosens.lineHasDelim missing, Bool.and_false]

/-- Line ends where a bracket is open change nothing, be it an expression or a document of one formula, if and
only if they come between no two tokens that a bond of the tree keeps together. -/
theorem lineEnds_insignificant_iff_keep_bonds (file : String) (front lines back : List Token) (e : Expr)
    (some : lines ≠ []) (ends : AreLineEnds lines) (inside : 0 < openBrackets front) :
    (Expr.ofTokens file (front ++ back) = .ok e →
      (Expr.ofTokens file (front ++ (lines ++ back)) = .ok e ↔ partsBond e.bonds front back = false)) ∧
    ∀ loc, Document.ofTokens file (front ++ back) = .ok [.formula e loc] →
      (Document.ofTokens file (front ++ (lines ++ back)) = .ok [.formula e loc] ↔
        partsBond e.bonds front back = false) := by
  have keeps (read : Expr.ofTokens file (front ++ back) = .ok e)
      (read' : Expr.ofTokens file (front ++ (lines ++ back)) = .ok e) : partsBond e.bonds front back = false :=
    keeps_of_ofTokens ends some (within_of_open inside read).1 read'
  constructor
  · intro read
    exact ⟨keeps read, ofTokens_insert ends inside read⟩
  · intro loc single
    rcases ofTokens_eq_formula_iff.mp single with ⟨read, line, place⟩
    constructor
    · intro single'
      exact keeps read (ofTokens_eq_formula_iff.mp single').1
    · intro kept
      rcases within_of_open inside read with ⟨within, more⟩
      rcases loosens_insert ends inside read kept with ⟨held, loosens⟩
      refine ofTokens_eq_formula_iff.mpr ⟨ofTokens_insert ends inside read kept, ?_⟩
      rw [envOf_insert within ends more]
      refine ⟨line.loosen (Env.ends_envOf file _) loosens, ?_⟩
      rw [(Loosens.cursor (Env.ends_envOf file _) loosens).1]
      exact place

/-- The front of `(a + b)` up to its sign, with a space before the sign or without one. -/
def sumFront (spaced : Bool) : List Token :=
  [{ kind := .delimiter, value := "(", literal := "(" }, { kind := .identifier, value := "a", literal := "a" },
    { kind := .operator, value := "plus", literal := "+", spaceBefore := spaced }]

def sumBack : List Token :=
  [{ kind := .identifier, value := "b", literal := "b", spaceBefore := true },
    { kind := .delimiter, value := ")", literal := ")" }]

def lineEnd : Token := { kind := .newline }

def sumTree : Expr := .binary "plus" "+" (.literal .identifier "a" {}) (.literal .identifier "b" {}) false false {}

theorem spacedSum_broken : Expr.ofTokens "" (sumFront true ++ sumBack) = .ok sumTree ∧
      Expr.ofTokens "" (sumFront true ++ ([lineEnd] ++ sumBack)) = .ok sumTree ∧
      Document.ofTokens "" (sumFront true ++ ([lineEnd] ++ sumBack)) = .ok [.formula sumTree {}] := by
  have read : Expr.ofTokens "" (sumFront true ++ sumBack) = .ok sumTree := rfl
  have single : Document.ofTokens "" (sumFront true ++ sumBack) = .ok [.formula sumTree {}] := rfl
  have kept : partsBond sumTree.bonds (sumFront true) sumBack = false := rfl
  have broken := lineEnds_insignificant_iff_keep_bonds "" (sumFront true) [lineEnd] sumBack sumTree (by simp)
    (forall_mem_singleton.mpr rfl) (by decide)
  exact ⟨read, (broken.1 read).mpr kept, (broken.2 {} single).mpr kept⟩

/-- Without the space the sign is read as a closure once its operand is on the next line. -/
theorem tightSum_refused_when_broken :
    0 < openBrackets (sumFront false) ∧ Expr.ofTokens "" (sumFront false ++ sumBack) = .ok sumTree ∧
      (Expr.ofTokens "" (sumFront false ++ ([lineEnd] ++ sumBack))).toOption = none :=
  ⟨by decide, rfl, rfl⟩

end Parse
end Whiteboard
