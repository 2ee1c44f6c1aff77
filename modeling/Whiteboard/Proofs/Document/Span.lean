import Whiteboard.Proofs.Expr.Parentheses

namespace Whiteboard

open List

/-!
# Parentheses around the formulas of prose

What stands between dollar signs is read by itself, so its tree depends on its place for its locations only, and a
formula may stand in parentheses there as in a source of its own.  The exceptions are the formulas that are the label of
a part: in parentheses they begin a part, and no expression begins with that.
-/

open Token.Reading (partLabels)

/-- A segment without the places of its formula. -/
def Segment.unplaced (s : Segment) : Segment := { s with math := s.math.unplaced }

namespace Text

theorem ArePieces.subset {sign : Char} {cs : List Char} {pieces : List (List Char)} (cut : ArePieces sign cs pieces) :
    ∀ piece ∈ pieces, piece ⊆ cs := by
  induction cut with
  | last => simp
  | next _ _ ih => grind

end Text

namespace Parse

/-! ## One formula -/

/-- The tokens of a span are read at the place of the span. -/
def spanEnv (env : Env) (line : Token) (offset : Nat) (toks : List Token) : Env where
  file := env.file
  final := finalToken toks
  origin := some (line.line, line.column + offset - 1)

theorem spanExpr_eq_ok_iff {env : Env} {line : Token} {offset : Nat} {span : List Char} {e : Expr} :
    spanExpr env line offset span = .ok e ↔ ∃ toks rest, Token.Reading.tokens {} (String.ofList span) = .ok toks ∧
        Reads (spanEnv env line offset toks) (.binary 1) (body toks) (.expr e) rest ∧ skipNewlines rest = [] := by
  unfold spanExpr
  cases Token.Reading.tokens {} (String.ofList span) with
  | error fault => simp
  | ok toks =>
    have ends : (spanEnv env line offset toks).Ends := Env.ends_envOf env.file toks
    constructor
    · intro read
      rcases bind_eq_ok.mp read with ⟨⟨e', rest⟩, first, last⟩
      dsimp only at last
      split at last
      next ended =>
        cases last
        exact ⟨toks, rest, rfl, (expr_eq_ok_iff ends).mp first, ended⟩
      · cases last
    · rintro ⟨_, rest, same, reads, ended⟩
      cases same
      refine bind_eq_ok.mpr ⟨(e, rest), (expr_eq_ok_iff ends).mpr reads, ?_⟩
      dsimp only
      rw [ended]
      rfl

/-- The tree of a span. -/
def spanTree (env : Env) (line : Token) (offset : Nat) (span : List Char) : Option Expr :=
  (spanExpr env line offset span).toOption.map Expr.unplaced

theorem spanTree_eq_some_iff {env : Env} {line : Token} {offset : Nat} {span : List Char} {tree : Expr} :
    spanTree env line offset span = some tree ↔ ∃ e, spanExpr env line offset span = .ok e ∧ e.unplaced = tree := by
  unfold spanTree
  cases spanExpr env line offset span <;> simp [Except.toOption]

theorem Holds.spanTree_eq {source : String} {toks : List Token} {e : Expr} (holds : Holds toks e)
    (tokens : Token.Reading.tokens {} source = .ok toks) (env : Env) (line : Token) (offset : Nat) :
    spanTree env line offset source.toList = some e.unplaced := by
  rcases holds (spanEnv env line offset toks) rfl rfl with ⟨e', rest, reads, ended, same⟩
  rw [← String.ofList_toList (s := source)] at tokens
  exact spanTree_eq_some_iff.mpr ⟨e', spanExpr_eq_ok_iff.mpr ⟨toks, rest, tokens, reads, ended⟩, same⟩

section
variable {env env' : Env} {line line' : Token} {offset offset' : Nat}

theorem spanTree_moves {span : List Char} (single : '\n' ∉ span) {tree : Expr}
    (read : spanTree env line offset span = some tree) : spanTree env' line' offset' span = some tree := by
  rcases spanTree_eq_some_iff.mp read with ⟨e, shown, rfl⟩
  rcases spanExpr_eq_ok_iff.mp shown with ⟨toks, rest, tokens, reads, ended⟩
  rcases isLine_of_tokens (by rwa [String.toList_ofList]) tokens with ⟨row, eol, eof, rfl, isLine⟩
  let here := spanEnv env line offset (row ++ [eol, eof])
  let there := spanEnv env' line' offset' (row ++ [eol, eof])
  let move (loc : Location) : Location :=
    ⟨env'.file, line'.line, line'.column + offset' - 1 + (loc.column - (line.column + offset - 1))⟩
  have final : there.final = eof := isLine.finalToken_eq
  have places (t : Token) : there.loc t = move (here.loc t) := by
    have back (shift column : Int) : shift + column - shift = column := by omega
    simp only [there, here, move, spanEnv, Env.loc, back]
  have carrying : Carrying ⟨.none, id, move, [eol], [eol]⟩ here there :=
    isLine.carrying isLine.finalToken_eq unseen_id rfl places (isLine.ending final)
      (by simp [Token.isDelim, Token.is, final, isLine.ends, isLine.final])
  rw [isLine.body_eq] at reads
  have filled := reads.fills ended isLine.oneLine carrying
  rw [map_id, ← isLine.body_eq] at filled
  have ended' : skipNewlines [eol] = [] := by simp [skipNewlines, isLine.ends]
  exact spanTree_eq_some_iff.mpr ⟨_, spanExpr_eq_ok_iff.mpr ⟨_, _, tokens, filled, ended'⟩, Expr.unplaced_relocate ..⟩

/-- The place of a span decides on its locations only. -/
theorem spanTree_moved {span : List Char} (single : '\n' ∉ span) :
    spanTree env' line' offset' span = spanTree env line offset span :=
  Option.ext fun _ => ⟨spanTree_moves single, spanTree_moves single⟩

/-! ## Lines of prose -/

/-- The segments of a line that was cut at its dollar signs, without the places of their formulas. -/
def segmentTrees (env : Env) (line : Token) (offset : Nat) (pieces : List (List Char)) : Option (List Segment) :=
  (spanSegments env line offset pieces).toOption.map (List.map Segment.unplaced)

theorem segmentTrees_cons {text span : List Char} {rest : List (List Char)} (closed : rest ≠ []) :
    segmentTrees env line offset (text :: span :: rest) =
      (spanTree env line (offset + text.length + 1) span).bind fun tree =>
        (segmentTrees env line (offset + text.length + 1 + span.length + 1) rest).map fun others =>
          ⟨String.ofList text, .hole⟩ :: ⟨"", tree⟩ :: others := by
  unfold segmentTrees spanTree
  rw [spanSegments]
  · cases spanExpr env line (offset + text.length + 1) span with
    | error fault => rfl
    | ok e =>
      cases spanSegments env line (offset + text.length + 1 + span.length + 1) rest with
      | error fault => rfl
      | ok others => rfl
  · exact closed

theorem segmentTrees_moved : ∀ {pieces : List (List Char)} {offset offset' : Nat}, (∀ piece ∈ pieces, '\n' ∉ piece) →
    segmentTrees env' line' offset' pieces = segmentTrees env line offset pieces
  | [], _, _, _ => rfl
  | [_], _, _, _ => rfl
  | [_, _], _, _, _ => rfl
  | text :: span :: next :: rest, offset, offset', single => by
    rcases forall_mem_cons.mp (forall_mem_cons.mp single).2 with ⟨first, others⟩
    rw [segmentTrees_cons (by simp), segmentTrees_cons (by simp), spanTree_moved first, segmentTrees_moved others]

/-- A closed span of a line, with what is read before it and what is read behind it. -/
theorem segmentTrees_at (env : Env) (line : Token) {after : List (List Char)} (closed : after ≠ []) :
    ∀ {before : List (List Char)} (offset : Nat), before.length % 2 = 1 →
      ∃ (start : Nat) (front : Option (List Segment)),
      (∀ segments ∈ front, segments.length = before.length) ∧
      ∀ span, segmentTrees env line offset (before ++ span :: after) =
        front.bind fun segments => (spanTree env line start span).bind fun tree =>
          (segmentTrees env line (start + span.length + 1) after).map fun others => segments ++ ⟨"", tree⟩ :: others
  | [text], offset, _ =>
    ⟨offset + text.length + 1, some [⟨String.ofList text, .hole⟩], by simp, fun _ => segmentTrees_cons closed⟩
  | text :: shown :: before, offset, odd => by
    have odd' : before.length % 2 = 1 := by
      simp only [length_cons] at odd
      omega
    rcases segmentTrees_at env line closed (offset + text.length + 1 + shown.length + 1) odd' with
      ⟨start, front, length, whole⟩
    refine ⟨start, (spanTree env line (offset + text.length + 1) shown).bind fun tree =>
      front.map fun segments => ⟨String.ofList text, .hole⟩ :: ⟨"", tree⟩ :: segments, ?_, fun span => ?_⟩
    · intro segments member
      rcases Option.bind_eq_some_iff.mp member with ⟨tree, _, found⟩
      rcases Option.map_eq_some_iff.mp found with ⟨segments', member', rfl⟩
      simp [length segments' member']
    · rw [cons_append, cons_append, segmentTrees_cons (by simp), whole]
      cases spanTree env line (offset + text.length + 1) shown with
      | none => rfl
      | some tree =>
        cases front with
        | none => rfl
        | some segments =>
          cases spanTree env line start span <;> simp [Function.comp_def]

end

/-- A line with a text between two dollar signs. -/
structure HasSpan (line : Token) (before : List (List Char)) (span : String) (after : List (List Char)) : Prop where
  single : '\n' ∉ line.value.toList
  cut : Text.splitWhere (· == '$') line.value.toList = before ++ span.toList :: after
  opened : before.length % 2 = 1
  closed : after ≠ []

/-- The segments of a line of prose, without the places of their formulas. -/
def lineTrees (env : Env) (line : Token) : Option (List Segment) :=
  (lineSegments env .prose line).toOption.map (List.map Segment.unplaced)

namespace HasSpan

variable {line : Token} {before after : List (List Char)} {span : String} (has : HasSpan line before span after)
include has

theorem feedless : ∀ piece ∈ before ++ span.toList :: after, '\n' ∉ piece := by
  intro piece member feed
  rw [← has.cut] at member
  exact has.single ((Text.arePieces_splitWhere '$' _).subset piece member feed)

theorem lineTrees_eq (env : Env) : lineTrees env line = segmentTrees env line 0 (before ++ span.toList :: after) := by
  rw [← has.cut]
  rfl

theorem lineTrees_eq_none {env : Env} (refused : ∀ offset, spanTree env line offset span.toList = none) :
    lineTrees env line = none := by
  rcases segmentTrees_at env line has.closed 0 has.opened with ⟨start, front, _, whole⟩
  rw [has.lineTrees_eq, whole, refused]
  cases front <;> rfl

theorem getElem?_of_lineTrees {env : Env} {tree : Expr}
    (shown : ∀ offset, spanTree env line offset span.toList = some tree) :
    ∀ segments ∈ lineTrees env line, segments[before.length]? = some ⟨"", tree⟩ := by
  rcases segmentTrees_at env line has.closed 0 has.opened with ⟨start, front, length, whole⟩
  rw [has.lineTrees_eq, whole, shown]
  intro segments member
  rcases Option.bind_eq_some_iff.mp member with ⟨first, found, rest⟩
  rcases Option.map_eq_some_iff.mp rest with ⟨others, _, rfl⟩
  rw [← length first found]
  simp

/-- The other segments stay when a span is replaced by another one with the same tree. -/
theorem lineTrees_replaced {env : Env} {line' : Token} {span' : String} (has' : HasSpan line' before span' after)
    (alike : ∀ offset, spanTree env line offset span'.toList = spanTree env line offset span.toList) :
    lineTrees env line' = lineTrees env line := by
  have behind : ∀ piece ∈ after, '\n' ∉ piece := fun piece member => has.feedless piece (by simp [member])
  rcases segmentTrees_at env line has.closed 0 has.opened with ⟨start, front, _, whole⟩
  have moved : lineTrees env line' = segmentTrees env line 0 (before ++ span'.toList :: after) :=
    (has'.lineTrees_eq env).trans (segmentTrees_moved has'.feedless)
  have onward : segmentTrees env line (start + span'.toList.length + 1) after =
      segmentTrees env line (start + span.toList.length + 1) after := segmentTrees_moved behind
  rw [moved, has.lineTrees_eq, whole, whole, alike, onward]

end HasSpan

/-! ## Labels of parts -/

theorem head_of_label : ∀ label ∈ partLabels,
    ((Token.Reading.tokens {} ("(" ++ label ++ ")")).toOption.bind List.head?).map Token.kind = some .partLabel := by
  decide

/-- No expression begins with the label of a part. -/
theorem not_reads_of_label {label : String} (labels : label ∈ partLabels) {toks : List Token}
    (tokens : Token.Reading.tokens {} ("(" ++ label ++ ")") = .ok toks) :
    skipNewlines (body toks) = body toks ∧ ∀ env v rest, ¬Reads env (.binary 1) (body toks) v rest := by
  have head := head_of_label label labels
  rw [tokens] at head
  cases toks with
  | nil => cases head
  | cons t toks =>
    have kind : t.kind = .partLabel := Option.some.inj head
    have first : body (t :: toks) = t :: body toks := takeWhile_cons_of_pos (by simp [kind])
    rw [first]
    refine ⟨dropWhile_cons_of_neg (by simp [kind]), fun env v rest reads => ?_⟩
    have opens := opens_of_reads (by simp [kind]) reads
    simp [opensExpr, kind] at opens

end Parse

/-! ## Redundant parentheses -/

namespace Options

open Parse

theorem expression_eq_ok_iff {source : String} {e : Expr} : ({} : Options).expression source = .ok e ↔
    ∃ toks, Token.Reading.tokens {} source = .ok toks ∧ Expr.ofTokens "" toks = .ok e := by
  constructor
  · intro read
    rcases bind_eq_ok.mp read with ⟨toks, tokens, parsed⟩
    exact ⟨toks, mapError_eq_ok tokens, mapError_eq_ok parsed⟩
  · rintro ⟨toks, tokens, parsed⟩
    exact bind_eq_ok.mpr ⟨toks, congrArg (Except.mapError (Fault.inSource · source)) tokens,
      congrArg (Except.mapError (Fault.inSource · source)) parsed⟩

/-- A formula may stand in parentheses, as a source and between the dollar signs of a line of prose: the tree is the
same up to its places, and so are all segments of the line.  Only the labels of parts are refused there. -/
theorem enclosed_unless_label {source : String} (single : '\n' ∉ source.toList) (noComment : '%' ∉ source.toList)
    {e : Expr} (read : ({} : Options).expression source = .ok e) :
    (source ∉ partLabels →
      (∃ e', ({} : Options).expression ("(" ++ source ++ ")") = .ok e' ∧ e'.unplaced = e.unplaced) ∧
      ∀ env line line' before after, HasSpan line before source after →
        HasSpan line' before ("(" ++ source ++ ")") after →
        lineTrees env line' = lineTrees env line ∧
          ∀ segments ∈ lineTrees env line, segments[before.length]? = some ⟨"", e.unplaced⟩) ∧
    (source ∈ partLabels → (∀ e', ({} : Options).expression ("(" ++ source ++ ")") ≠ .ok e') ∧
      ∀ env line before after, HasSpan line before ("(" ++ source ++ ")") after → lineTrees env line = none) := by
  rcases expression_eq_ok_iff.mp read with ⟨toks, tokens, parsed⟩
  constructor
  · intro unlabelled
    have holds := holds_of_ofTokens single tokens parsed
    rcases holds_enclosed rfl single noComment unlabelled tokens parsed with ⟨toks', tokens', holds'⟩
    rcases holds'.ofTokens "" with ⟨e', parsed', same⟩
    refine ⟨⟨e', expression_eq_ok_iff.mpr ⟨toks', tokens', parsed'⟩, same⟩, ?_⟩
    intro env line line' before after has has'
    have plain := holds.spanTree_eq tokens env line
    have enclosed := holds'.spanTree_eq tokens' env line
    exact ⟨has.lineTrees_replaced has' fun offset => (enclosed offset).trans (plain offset).symm,
      has.getElem?_of_lineTrees plain⟩
  · intro labels
    constructor
    · intro e' read'
      rcases expression_eq_ok_iff.mp read' with ⟨toks', tokens', parsed'⟩
      rcases reads_of_ofTokens parsed' with ⟨rest, reads, _⟩
      rcases not_reads_of_label labels tokens' with ⟨same, refused⟩
      rw [same] at reads
      exact refused _ _ _ reads
    · intro env line before after has
      refine has.lineTrees_eq_none fun offset => Option.eq_none_iff_forall_ne_some.mpr fun tree found => ?_
      rcases spanTree_eq_some_iff.mp found with ⟨e', shown, _⟩
      rcases spanExpr_eq_ok_iff.mp shown with ⟨toks', rest, tokens', reads, _⟩
      rw [String.ofList_toList] at tokens'
      exact (not_reads_of_label labels tokens').2 _ _ _ reads

theorem sum_enclosed : ∃ e, ({} : Options).expression "x + y" = .ok e ∧
    (∃ e', ({} : Options).expression ("(" ++ "x + y" ++ ")") = .ok e' ∧ e'.unplaced = e.unplaced) ∧
    ∃ segments, lineTrees (envOf "" []) { kind := .text, value := "So $x + y$ is $z$." } = some segments ∧
      lineTrees (envOf "" []) { kind := .text, value := "So $(x + y)$ is $z$." } = some segments ∧
      segments[1]? = some ⟨"", e.unplaced⟩ := by
  have accepted : (({} : Options).expression "x + y").toOption.isSome = true := by decide +kernel
  have shown : (lineTrees (envOf "" []) { kind := .text, value := "So $x + y$ is $z$." }).isSome = true := by
    decide +kernel
  rcases Option.isSome_iff_exists.mp shown with ⟨segments, found⟩
  cases read : ({} : Options).expression "x + y" with
  | error fault =>
    rw [read] at accepted
    cases accepted
  | ok e =>
    rcases (enclosed_unless_label (by decide) (by decide) read).1 (by decide) with ⟨same, spans⟩
    have has : HasSpan { kind := .text, value := "So $x + y$ is $z$." } ["So ".toList] "x + y"
        [" is ".toList, "z".toList, ".".toList] := ⟨by decide, by decide, by decide, by decide⟩
    have has' : HasSpan { kind := .text, value := "So $(x + y)$ is $z$." } ["So ".toList] ("(" ++ "x + y" ++ ")")
        [" is ".toList, "z".toList, ".".toList] := ⟨by decide, by decide, by decide, by decide⟩
    rcases spans (envOf "" []) _ _ _ _ has has' with ⟨alike, segment⟩
    exact ⟨e, rfl, same, segments, found, alike.trans found, segment segments found⟩

/-- Whether the text is an expression by itself, and whether it is one in prose. -/
def isShown (text : String) : Bool × Bool :=
  ((({} : Options).expression text).toOption.isSome,
    (lineTrees (envOf "" []) { kind := .text, value := "So $" ++ text ++ "$." }).isSome)

/-- Every label of a part is an expression, and none is one in parentheses. -/
theorem labels_not_enclosed :
    (partLabels.all fun label => isShown label == (true, true)) = true ∧
      (partLabels.all fun label => isShown ("(" ++ label ++ ")") == (false, false)) = true := by
  constructor
  all_goals decide +kernel

end Options
end Whiteboard
