import Whiteboard.Proofs.Expr.Formed
import Whiteboard.Proofs.RoundTrip.Binder
import Whiteboard.Proofs.Token.Spaced

namespace Whiteboard

open List
namespace Latex

/-!
# Rows of operators are set as they are written

A source that is a row of operands with infix operators between them has no parentheses, and its
formula needs none: whatever way the operators bind and group, the operands and operators are set in
the order of the source.  While the row is read, the expression to the left is laid out as the part of
the row behind it, and the next operator binds as loosely as that expression admits.
-/

open Parse Token

/-- The mark of an operand. -/
def operandMark : Operand → Mark
  | .name text _ => .name text
  | .number text _ => .number text

/-- The marks of operators and the operands to their right. -/
def rowMarks (pairs : List (Operator × Operand)) : List Mark :=
  pairs.flatMap fun (p, o) => [.infixOp p.symbol.name " ", operandMark o]

/-! ## The tokens of a row -/

theorem lookup_name : ∀ s ∈ Symbol.table, s.role = .infixOp ∨ s.role = .relation → Symbol.lookup s.name = some s := by
  decide

theorem asInfix_operator (p : Operator) : Symbol.asInfix p.symbol.name = some (p.symbol.prec, p.symbol.assoc) := by
  have role := p.role
  rw [Symbol.asInfix, lookup_name _ p.known role]
  rcases role with role | role <;> simp [role]

theorem leveled (p : Operator) : Leveled p.symbol.name p.symbol.prec p.symbol.assoc :=
  leveled_of_asInfix (asInfix_operator p)

variable {row : List Token}

theorem areSpaced_nil (areSpaced : AreSpaced [] row) : row = [] :=
  map_eq_nil_iff.mp areSpaced.spelled

variable {o : Operand}

theorem areSpaced_cons {p : Operator} {rest : List (Operator × Operand)}
    (areSpaced : AreSpaced ((p, o) :: rest) row) :
    ∃ t u more, row = t :: u :: more ∧ (t.kind = .operator ∧ t.value = p.symbol.name ∧ t.spaceBefore = true) ∧
      (u.kind = o.kind ∧ u.value = o.text) ∧ AreSpaced rest more := by
  obtain ⟨spelled, spaces⟩ := areSpaced
  have pair : spellingsOf ((p, o) :: rest) = (.operator, p.symbol.name) :: (o.kind, o.text) :: spellingsOf rest :=
    rfl
  rw [pair] at spelled
  obtain ⟨t, others, rfl, first, spelled⟩ := map_eq_cons_iff.mp spelled
  obtain ⟨u, more, rfl, second, spelled⟩ := map_eq_cons_iff.mp spelled
  obtain ⟨kind, value⟩ := Prod.mk.inj first
  refine ⟨t, u, more, rfl, ⟨kind, value, spaces t mem_cons_self⟩, Prod.mk.inj second, spelled, ?_⟩
  exact fun v member => spaces v (mem_cons_of_mem t (mem_cons_of_mem u member))

/-- What stands behind the row is neither an operator nor part of an operand. -/
structure Halts (env : Env) (tail : List Token) : Prop where
  noOperator : env.infixAt (env.peek tail) = none
  noSuffix : ∀ base, env.suffixAt true base tail = none

variable {env : Env} {t : Token}

theorem halts_newline (flat : env.nested = false) (newline : t.kind = .newline)
    (rest : List Token) : Halts env (t :: rest) := by
  have peeked : env.peek (t :: rest) = t := by simp [Env.peek, Env.view, flat]
  constructor
  · simp [peeked, Env.infixAt, newline]
  · intro base
    simp [Env.suffixAt, peeked, Token.isDelim, Token.isOp, Token.is, newline, Env.startsOperand]

variable {tail : List Token} {pairs : List (Operator × Operand)}

theorem noSuffix_row (halts : Halts env tail) (areSpaced : AreSpaced pairs row) (base : Expr) :
    env.suffixAt true base (row ++ tail) = none := by
  cases pairs with
  | nil =>
    rw [areSpaced_nil areSpaced]
    exact halts.noSuffix base
  | cons pair rest =>
    obtain ⟨t, u, more, rfl, ⟨kind, value, space⟩, _, _⟩ := areSpaced_cons areSpaced
    have visible : t.kind ≠ .newline := by simp [kind]
    apply MayFollow.suffixAt_eq_none
    rw [cons_append, Env.peek_cons visible]
    exact .inr (.inr (.inr ⟨kind, by rw [value, asInfix_operator]; rfl, space⟩))

theorem plainName_whole {name : String} (plain : IsPlainName name) : name.toList.contains '_' = false := by
  obtain ⟨c, rest, spelled, letter, _, _, others⟩ := plain.shape
  rw [spelled]
  apply Bool.eq_false_iff.mpr
  intro found
  rcases mem_cons.mp (contains_iff_mem.mp found) with rfl | later
  · cases letter
  · have part := all_eq_true.mp others _ later
    cases part

theorem reads_operand {rest : List Token}
    (spelled : t.kind = o.kind ∧ t.value = o.text) (noSuffix : ∀ base, env.suffixAt true base rest = none) :
    ∃ kind loc, Reads env (.operand true) (t :: rest) (.expr (.literal kind o.text loc)) rest ∧
      ∀ st c, marks st c (.literal kind o.text loc) = [operandMark o] := by
  obtain ⟨kind, value⟩ := spelled
  cases o with
  | name text plain =>
    have visible : t.kind ≠ .newline := by simp [kind, Operand.kind]
    have form : env.formAt (t :: rest) = some .name := by
      simp [Env.formAt, Env.peek_cons visible, kind, Operand.kind]
    have read := Reads.name form
    rw [Env.peek_cons visible, Env.rest_cons visible, nameExpr, value, Operand.text,
      splitSubscript_eq_none (plainName_whole plain)] at read
    exact ⟨.identifier, env.loc t, .atom (leadAt_atom (.inl kind)) read (.bare (noSuffix _)),
      fun st c => by rw [marks_eq_rowOf]; rfl⟩
  | number text digits =>
    have visible : t.kind ≠ .newline := by simp [kind, Operand.kind]
    have form : env.formAt (t :: rest) = some .number := by
      simp [Env.formAt, Env.peek_cons visible, kind, Operand.kind]
    have read := Reads.number form
    rw [Env.peek_cons visible, Env.rest_cons visible, value, Operand.text] at read
    exact ⟨.number, env.loc t, .atom (leadAt_atom (.inr (.inl kind))) read (.bare (noSuffix _)),
      fun st c => by rw [marks_eq_rowOf]; rfl⟩

/-! ## The expression to the left -/

/-- Operators that bind more loosely than this may go on after the expression. -/
def admits (e : Expr) : Precedence := rightLeast (precedence e) (groupingAt (precedence e))

/-- The expression is laid out as the marks; at the level of relations it ends in a relation that a
further one would chain with. -/
structure LaidOut (e : Expr) (last : Option Expr) (ms : List Mark) : Prop where
  marks_eq : ∀ st c, marks st c e = ms
  chains : precedence e = Precedence.relation → last.isSome = true

/-- To the left of an operator that it admits, the expression stands without parentheses, or both are
relations. -/
theorem bare_or_chains {e : Expr} {op : String} {prec : Precedence} {assoc : Assoc}
    (level : Leveled op prec assoc) (notRange : op ≠ "upto") (admitted : prec < admits e) :
    needsParens (precedence e) prec assoc false = false ∨
      (prec = Precedence.relation ∧ precedence e = Precedence.relation) := by
  unfold admits rightLeast at admitted
  unfold needsParens
  rcases Int.lt_trichotomy (precedence e) prec with looser | same | tighter
  · split at admitted <;> lia
  · rw [same, ← level.grouping] at admitted
    rw [same, if_neg (Int.lt_irrefl _), if_neg (Int.lt_irrefl _)]
    cases grouping : assoc with
    | left => exact .inl rfl
    | right =>
      rw [grouping] at admitted
      exact absurd admitted (Int.lt_irrefl _)
    | none =>
      have none := level.grouping
      rw [grouping, groupingAt] at none
      split at none
      next => cases none
      next =>
        split at none
        next levels =>
          rcases levels with relation | range
          · exact .inr ⟨relation, relation⟩
          · exact absurd (level.range.mpr range) notRange
        next => cases none
  · exact .inl (by rw [if_neg (Int.not_lt.mpr (Int.le_of_lt tighter)), if_pos tighter])

/-- To the right of an operator, what was read up to a looser one stands without parentheses. -/
theorem bare_of_rightLeast {e : Expr} {prec : Precedence} {assoc : Assoc}
    (tight : rightLeast prec assoc ≤ precedence e) : needsParens (precedence e) prec assoc true = false := by
  unfold rightLeast at tight
  unfold needsParens
  cases assoc with
  | right => grind
  | left | none => grind

/-- An operator that the expression admits, and an operand to its right, are laid out behind it. -/
theorem LaidOut.join {left right : Expr} {last : Option Expr} {ms ns : List Mark}
    (laidOut : LaidOut left last ms) (env : Env) (t : Token) (p : Operator)
    (admitted : p.symbol.prec < admits left)
    (marksRight : ∀ st c, marks st c right = ns)
    (tight : rightLeast p.symbol.prec p.symbol.assoc ≤ precedence right) :
    LaidOut (env.joined t p.symbol.name left last right false).1
        (env.joined t p.symbol.name left last right false).2 (ms ++ .infixOp p.symbol.name " " :: ns) ∧
      precedence (env.joined t p.symbol.name left last right false).1 = p.symbol.prec := by
  have binds := asInfix_operator p
  have level := leveled p
  have bareRight := bare_of_rightLeast tight
  by_cases chained : Symbol.isRelation p.symbol.name = true ∧ last.isSome = true
  · obtain ⟨related, found⟩ := chained
    obtain ⟨middle, rfl⟩ := Option.isSome_iff_exists.mp found
    have relation := level.relation.mp related
    have assoc : p.symbol.assoc = .none := by
      rw [asInfix_of_isRelation related] at binds
      exact (Prod.mk.inj (Option.some.inj binds)).2.symm
    have joined : env.joined t p.symbol.name left (some middle) right false =
        (.binary "and" "" left (.binary p.symbol.name t.literal middle right false false (env.loc t))
          false true left.loc, some right) := by
      simp [Env.joined, p.notRange, related]
    rw [joined]
    refine ⟨⟨fun st c => ?_, fun _ => rfl⟩, relation.symm⟩
    rw [relation, assoc] at bareRight
    rw [marks_eq_rowOf]
    simp only [layout, bareRight, rowOf_part_cons, rowOf_mark_cons, rowOf_nil, wrapMarks_false,
      append_nil, laidOut.marks_eq, marksRight]
  · have alone : Symbol.isRelation p.symbol.name = true → last = none := by
      intro related
      cases last with
      | none => rfl
      | some middle => exact absurd ⟨related, rfl⟩ chained
    have bareLeft : needsParens (precedence left) p.symbol.prec p.symbol.assoc false = false := by
      rcases bare_or_chains level p.notRange admitted with bare | ⟨relation, chains⟩
      · exact bare
      · exact absurd ⟨level.relation.mpr relation, laidOut.chains chains⟩ chained
    rw [joined_binary p.notRange alone]
    refine ⟨⟨fun st c => ?_, fun relation => ?_⟩, precedence_binary binds⟩
    · rw [marks_eq_rowOf]
      simp only [layout, binds, Option.getD_some, bareLeft, bareRight, rowOf_part_cons, rowOf_mark_cons,
        rowOf_nil, wrapMarks_false, append_nil, laidOut.marks_eq, marksRight]
      rfl
    · rw [precedence_binary binds] at relation
      simp [level.relation.mpr relation]

/-! ## Climbing along the row -/

/-- From an expression and a row behind it that it admits, the part of the row that binds at least as
tightly as `least` is read. -/
def Climbs (env : Env) (tail : List Token) (pairs : List (Operator × Operand)) : Prop :=
  ∀ (row : List Token) (least : Precedence) (left : Expr) (last : Option Expr) (ms : List Mark),
    AreSpaced pairs row → LaidOut left last ms → least ≤ precedence left →
    (∀ pair ∈ pairs.head?, pair.1.symbol.prec < admits left) →
    ∃ used rest more e, pairs = used ++ rest ∧ AreSpaced rest more ∧
      Reads env (.climb least left last) (row ++ tail) (.expr e) (more ++ tail) ∧
      (∀ st c, marks st c e = ms ++ rowMarks used) ∧ least ≤ precedence e ∧
      ∀ pair ∈ rest.head?, pair.1.symbol.prec < least

theorem literal_admits (p : Operator) (kind : LiteralKind) (value : String) (loc : Location) :
    p.symbol.prec < admits (.literal kind value loc) ∧
      rightLeast p.symbol.prec p.symbol.assoc ≤ precedence (.literal kind value loc) := by
  have below := (leveled p).below
  have atom : admits (.literal kind value loc) = Precedence.atom + 1 := rfl
  have level : precedence (.literal kind value loc) = Precedence.atom := rfl
  rw [atom, level]
  simp only [Precedence.prefixed, Precedence.atom] at below ⊢
  unfold rightLeast
  split <;> exact ⟨by lia, by lia⟩

theorem climbs_nil (halts : Halts env tail) : Climbs env tail [] := by
  intro row least left last ms areSpaced laidOut low _
  refine ⟨[], [], row, left, rfl, areSpaced, .stop ?_, ?_, low, by simp⟩
  · intro name prec assoc found
    rw [areSpaced_nil areSpaced, nil_append, halts.noOperator] at found
    cases found
  · intro st c
    rw [laidOut.marks_eq]
    simp [rowMarks]

theorem operand_visible (spelled : t.kind = o.kind ∧ t.value = o.text) :
    t.kind ≠ .newline ∧ t.kind ≠ .endOfInput ∧ t.isDelim "\\" = false := by
  cases o <;> simp [Token.isDelim, Token.is, spelled.1, Operand.kind]

theorem climbs_step (halts : Halts env tail) {p : Operator}
    (shorter : ∀ rest : List (Operator × Operand), rest.length ≤ pairs.length → Climbs env tail rest) :
    Climbs env tail ((p, o) :: pairs) := by
  intro row least left last ms areSpaced laidOut low admitted
  obtain ⟨t, u, more, rfl, ⟨kind, value, space⟩, operand, others⟩ := areSpaced_cons areSpaced
  have visible : t.kind ≠ .newline := by simp [kind]
  have peeked : env.peek (t :: u :: more ++ tail) = t := Env.peek_cons visible _
  have found : env.infixAt (env.peek (t :: u :: more ++ tail)) =
      some (p.symbol.name, p.symbol.prec, p.symbol.assoc) := by
    rw [peeked]
    exact infixAt_operator kind value (asInfix_operator p)
  by_cases looser : p.symbol.prec < least
  · refine ⟨[], (p, o) :: pairs, t :: u :: more, left, rfl, areSpaced, .stop ?_, ?_, low, ?_⟩
    · grind
    · intro st c
      rw [laidOut.marks_eq]
      simp [rowMarks]
    · rintro pair ⟨rfl⟩
      exact looser
  · -- the operand to the right, and the tighter operators behind it
    obtain ⟨literal, loc, reads, marked⟩ := reads_operand operand (noSuffix_row halts others)
    obtain ⟨admits, tight⟩ := literal_admits p literal o.text loc
    have whole : LaidOut (.literal literal o.text loc) none [operandMark o] :=
      ⟨marked, fun impossible => absurd impossible (by simp only [precedence]; decide)⟩
    obtain ⟨inner, rest, after, right, rfl, spacedRest, climbed, marksRight, tightRight, limited⟩ :=
      shorter pairs (Nat.le_refl _) more (rightLeast p.symbol.prec p.symbol.assoc) _ none _ others whole tight
        (fun pair _ => (literal_admits pair.1 literal o.text loc).1)
    have operandRight : Reads env (.binary (rightLeast p.symbol.prec p.symbol.assoc)) (u :: (more ++ tail))
        (.expr right) (after ++ tail) := .binary reads climbed
    -- the expression that the operator makes goes on
    obtain ⟨joined, level⟩ := laidOut.join env t p (admitted _ rfl) marksRight tightRight
    have admits_eq : Latex.admits (env.joined t p.symbol.name left last right false).1 =
        rightLeast p.symbol.prec p.symbol.assoc := by
      rw [Latex.admits, level, (leveled p).grouping]
    obtain ⟨used, final, ending, e, rfl, spacedFinal, reading, marksAll, high, stops⟩ :=
      shorter rest (by simp) after least _ _ _ spacedRest joined (by rw [level]; exact Int.not_lt.mp looser)
        (by rw [admits_eq]; exact limited)
    refine ⟨(p, o) :: (inner ++ used), final, ending, e, by simp, spacedFinal, ?_, ?_, high, stops⟩
    · have next : env.continuation (env.rest (t :: u :: more ++ tail)) = (false, u :: (more ++ tail)) := by
        rw [cons_append, Env.rest_cons visible]
        exact continuation_eq (operand_visible operand).1 (operand_visible operand).2.2
      refine @Reads.climb env least left last _ _ _ _ right (after ++ tail) _ _ found (Int.not_lt.mp looser) ?_ ?_
      · rw [next]
        exact operandRight
      · rw [next, peeked]
        exact reading
    · intro st c
      rw [marksAll]
      simp [rowMarks]

theorem climbs (halts : Halts env tail) (n : Nat)
    (pairs : List (Operator × Operand)) (short : pairs.length ≤ n) : Climbs env tail pairs := by
  induction n generalizing pairs with
  | zero =>
    cases length_eq_zero_iff.mp (Nat.le_zero.mp short)
    exact climbs_nil halts
  | succ n ih =>
    cases pairs with
    | nil => exact climbs_nil halts
    | cons pair rest => grind [climbs_step, length_cons]

/-! ## Formulas of rows -/

/-- The text of a formula: its operands and the commands of its operators, with spaces between them. -/
def formulaText (d : Dialect) (f : Formula) : String :=
  f.first.text ++ String.join (f.rest.map fun (p, o) => " " ++ d.style.command p.symbol ++ " " ++ o.text)

theorem constants_reserved : ∀ s ∈ Symbol.table, s.role = .constant → (Symbol.ofWord s.name).isSome = true := by
  decide

theorem identifier_plain {name : String} (plain : IsPlainName name) (st : Style) : identifier st name = name := by
  have noConstant : (Symbol.lookup name).filter (fun s => s.role == .constant) = none := by
    rw [Option.filter_eq_none_iff]
    intro s found constant
    have known : s ∈ Symbol.table := mem_of_find?_eq_some found
    have named : s.name = name := eq_of_beq (List.find?_some found :)
    have reserved := constants_reserved s known (eq_of_beq constant)
    rw [named, plain.unreserved] at reserved
    cases reserved
  unfold identifier
  simp only [noConstant, plain.unreserved, Option.filter_none, plainName_whole plain, Bool.false_eq_true, if_false]

theorem text_operandMark (st : Style) (o : Operand) : (operandMark o).text st = o.text := by
  cases o with
  | number text digits => rfl
  | name text plain => exact identifier_plain plain st

theorem textOf_rowMarks (d : Dialect) (pairs : List (Operator × Operand)) : Mark.textOf d.style (rowMarks pairs) =
      String.join (pairs.map fun (p, o) => " " ++ d.style.command p.symbol ++ " " ++ o.text) := by
  induction pairs with
  | nil => rfl
  | cons pair rest ih =>
    obtain ⟨p, o⟩ := pair
    have command : d.style.commandOf p.symbol.name = d.style.command p.symbol := by
      rw [Style.commandOf, lookup_name _ p.known p.role]
      rfl
    have row : rowMarks ((p, o) :: rest) = .infixOp p.symbol.name " " :: operandMark o :: rowMarks rest := rfl
    rw [row, Mark.textOf_cons, Mark.textOf_cons, ih, text_operandMark, Mark.text, command]
    simp [String.join_cons, String.append_assoc]

theorem kinds_row (areSpaced : AreSpaced pairs row) : ∀ t ∈ row, t.kind ≠ .endOfInput := by
  induction pairs generalizing row with
  | nil =>
    rw [areSpaced_nil areSpaced]
    simp
  | cons pair rest ih => grind [areSpaced_cons, operand_visible]

/-- The tokens of a row are read to their end, as an expression that is laid out as the row. -/
theorem reads_row (halts : Halts env tail) (operand : t.kind = o.kind ∧ t.value = o.text)
    (areSpaced : AreSpaced pairs row) :
    ∃ e, Reads env (.binary 1) (t :: (row ++ tail)) (.expr e) tail ∧
      ∀ st c, marks st c e = operandMark o :: rowMarks pairs := by
  obtain ⟨kind, loc, reads, marked⟩ := reads_operand operand (noSuffix_row halts areSpaced)
  have whole : LaidOut (.literal kind o.text loc) none [operandMark o] :=
    ⟨marked, fun impossible => absurd impossible (by simp only [precedence]; decide)⟩
  obtain ⟨used, rest, more, e, rfl, spacedRest, climbed, marksAll, _, stops⟩ :=
    climbs halts pairs.length pairs (Nat.le_refl _) row 1 _ none _ areSpaced whole
      (by simp only [precedence]; decide) (fun pair _ => (literal_admits pair.1 kind o.text loc).1)
  -- every operator binds more tightly than the whole row asks for
  have none : rest = [] := by
    cases rest with
    | nil => rfl
    | cons pair others =>
      have above := (leveled pair.1).above
      have below := stops pair rfl
      simp only [Precedence.conditional] at above
      lia
  cases none
  rw [areSpaced_nil spacedRest, nil_append] at climbed
  refine ⟨e, .binary reads climbed, fun st c => ?_⟩
  rw [marksAll, append_nil]
  rfl

/-- A row of operands with infix operators between them is read, and its formula is the same row: the
operands as they are, for each operator its command in the vocabulary, and no parentheses. -/
theorem operators_set_in_source_order (file : String) (f : Formula) :
    ∃ e, ({ file := file } : Options).expression f.source = .ok e ∧
      ∀ d : Dialect, e.render d = .ok (formulaText d f) := by
  obtain ⟨t, row, newline, final, read, first, areSpaced, ends, ended⟩ :=
    f.tokens_source ({ file := file } : Options).reading rfl
  have whole : t :: (row ++ [newline, final]) = (t :: (row ++ [newline])) ++ [final] := by simp
  rw [whole] at read
  have inSource : ∀ u ∈ t :: (row ++ [newline]), u.kind ≠ .endOfInput := by
    intro u member
    simp only [mem_cons, mem_append, not_mem_nil, or_false] at member
    rcases member with rfl | inRow | rfl
    · exact (operand_visible first).2.1
    · exact kinds_row areSpaced u inRow
    · simp [ends]
  have atEnd : (envOf file (t :: (row ++ [newline]) ++ [final])).Ends := Env.ends_envOf file _
  have halts : Halts (envOf file (t :: (row ++ [newline]) ++ [final])) [newline] := halts_newline rfl ends []
  obtain ⟨e, reads, marked⟩ := reads_row halts first areSpaced
  have parsed := (expr_eq_ok_iff atEnd).mpr reads
  have result : Expr.ofTokens file (t :: (row ++ [newline]) ++ [final]) = .ok e := by
    rw [Expr.ofTokens, body_append inSource (by simp [ended])]
    have skipped : skipNewlines (t :: (row ++ [newline])) = t :: (row ++ [newline]) := by
      simp [skipNewlines, (operand_visible first).1]
    have finished : skipNewlines [newline] = [] := by simp [skipNewlines, ends]
    rw [skipped, parsed]
    dsimp only [bind, Except.bind]
    rw [finished]
    rfl
  refine ⟨e, ?_, fun d => ?_⟩
  · rw [Options.expression, Options.tokens, read]
    change (Expr.ofTokens file _).mapError _ = _
    rw [result]
    rfl
  · rw [Expr.render, (formed_of_ofTokens result).complete.written, marked, Mark.textOf_cons, text_operandMark,
      textOf_rowMarks]
    rfl

end Latex
end Whiteboard
