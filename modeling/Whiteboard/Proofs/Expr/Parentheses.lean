import Whiteboard.Proofs.Expr.Insertion
import Whiteboard.Proofs.Token.Enclosed

namespace Whiteboard

open List
namespace Parse

/-!
# Formulas in parentheses

A formula that fills a line is read in parentheses as the same tree, up to its places: its row is the same one column
further on, a group of one expression is that expression, and no rule of the grammar steps over the parenthesis that
closes it.  The one exception is a formula that reads, in its parentheses, as the label of a part.
-/

open Token (bracketsAfter opening right)
open Token.Reading (IsFormula IsPlain partLabels)

/-! ## Brackets of a formula -/

/-- The open brackets after a token. -/
def trackToken (b : Brackets) (t : Token) : Brackets := if t.kind == .delimiter then b.track t.value else b

theorem bracketsAfter_append (row earlier : List Token) :
    bracketsAfter (row.reverse ++ earlier) = row.foldl trackToken (bracketsAfter earlier) := by
  induction row generalizing earlier with
  | nil => rfl
  | cons t row ih =>
    rw [reverse_cons, append_assoc, singleton_append, ih]
    rfl

theorem track_pair {opening closing : String} (pair : (opening, closing) ∈ bracketPairs) (b : Brackets) :
    (b.track opening).track closing = b := by
  simp only [bracketPairs, mem_cons, Prod.mk.injEq, not_mem_nil, or_false] at pair
  rcases pair with ⟨rfl, rfl⟩ | ⟨rfl, rfl⟩ | ⟨rfl, rfl⟩ | ⟨rfl, rfl⟩ | ⟨rfl, rfl⟩ | ⟨rfl, rfl⟩ <;>
    simp [Brackets.track]

/-- Only brackets are kept track of. -/
theorem foldl_trackToken (toks : List Token) (b : Brackets) :
    toks.foldl trackToken b = ((toks.filter isBracket).map (·.value)).foldl Brackets.track b := by
  induction toks generalizing b with
  | nil => rfl
  | cons t toks ih =>
    cases bracket : isBracket t with
    | true =>
      have tracks : trackToken b t = b.track t.value := if_pos (by simpa using kind_of_isBracket bracket)
      rw [filter_cons_of_pos bracket, map_cons, foldl_cons, foldl_cons, tracks]
      exact ih _
    | false =>
      have idle : trackToken b t = b := by
        simp_all [trackToken, Brackets.track, isBracket, bracketPairs]
      rw [filter_cons_of_neg (by simp [bracket]), foldl_cons, idle]
      exact ih b

namespace Balanced

variable {bs : List String} (balanced : Balanced bs)
include balanced

theorem foldl_track (b : Brackets) : bs.foldl Brackets.track b = b := by
  induction balanced generalizing b with
  | nil => rfl
  | append _ _ first second => rw [foldl_append, first, second]
  | enclose pair _ ih => rw [foldl_cons, foldl_append, ih, foldl_cons, track_pair pair, foldl_nil]

theorem head : ∀ b ∈ bs.head?, b ∈ bracketPairs.map (·.1) := by
  induction balanced with
  | nil => simp
  | @append bs bs' _ _ first second =>
    cases bs with
    | nil => exact second
    | cons b bs => exact first
  | enclose pair =>
    intro b first
    cases first
    exact mem_map_of_mem pair

end Balanced

/-! ## Sources of one line -/

/-- A row, the end of its line and the end of input. -/
structure IsLine (row : List Token) (eol eof : Token) : Prop where
  written : ∀ t ∈ row, t.kind.IsWritten
  ends : eol.kind = .newline
  final : eof.kind = .endOfInput

theorem isLine_of_tokens {r : Token.Reading} {source : String} (single : '\n' ∉ source.toList) {toks : List Token}
    (read : r.tokens source = .ok toks) : ∃ row eol eof, toks = row ++ [eol, eof] ∧ IsLine row eol eof := by
  rcases (Token.Reading.tokens_eq_ok_iff r single).mp read with ⟨s, capture, line, rfl⟩
  refine ⟨_, _, _, rfl, fun t member => ?_, rfl, rfl⟩
  exact ((Token.Reading.plainLine_written line).2 t (mem_reverse.mp member)).1

namespace IsLine

variable {row : List Token} {eol eof : Token} (line : IsLine row eol eof)
include line

theorem oneLine : ∀ t ∈ row, t.kind ≠ .newline := fun t member => (line.written t member).1

theorem body_eq : body (row ++ [eol, eof]) = row ++ [eol] := by
  rw [body_front fun t member => (line.written t member).2]
  simp [body, line.ends, line.final]

theorem finalToken_eq : finalToken (row ++ [eol, eof]) = eof := by
  have none : row.find? (fun t => t.kind == .endOfInput) = none :=
    List.find?_eq_none.mpr fun t member => by simpa using (line.written t member).2
  simp [finalToken, List.find?_append, none, line.ends, line.final]

theorem ending {env : Env} (final : env.final = eof) : Ending env [eol] where
  mute t member := .inl (mem_singleton.mp member ▸ line.ends)
  final := .inr (.inl (final ▸ line.final))
  line n t rest whole := by cases whole

/-- A line that is read at another place. -/
theorem carrying {shift : Token → Token} {move : Location → Location} {stop' : List Token} {env env' : Env}
    (final : env.final = eof) (unseen : Unseen shift) (product : env'.product = env.product)
    (places : ∀ t, env'.loc (shift t) = move (env.loc t)) (there : Ending env' stop')
    (unbroken : ∀ t ∈ env'.final :: stop', t.isDelim "\\" = false) :
    Carrying ⟨.none, shift, move, [eol], stop'⟩ env env' where
  unseen := unseen
  nested some := absurd rfl some
  whole some := absurd rfl some
  product := product
  places := places
  here := line.ending final
  there := there
  unclosed := by simp [Token.isDelim, Token.is, final, line.ends, line.final]
  unbroken := unbroken

end IsLine

theorem unseen_right : Unseen right := ⟨fun _ => rfl, fun _ => rfl, fun _ => rfl, fun _ => rfl⟩

/-- An expression that fills its row fills it at its new place. -/
theorem Reads.fills {env env' : Env} {row : List Token} {eol : Token} {e : Expr} {rest : List Token}
    {shift : Token → Token} {move : Location → Location} {stop' : List Token}
    (reads : Reads env (.binary 1) (row ++ [eol]) (.expr e) rest) (ended : skipNewlines rest = [])
    (oneLine : ∀ t ∈ row, t.kind ≠ .newline) (carrying : Carrying ⟨.none, shift, move, [eol], stop'⟩ env env') :
    Reads env' (.binary 1) (row.map shift ++ stop') (.expr (e.relocate move)) stop' := by
  rcases reads.relocate carrying (by simp)
    ⟨row, fun t member newline => absurd newline (oneLine t member), rfl, rfl⟩ with
    ⟨_, ⟨part, inLines, rfl, rfl⟩, landed⟩
  cases part with
  | nil => exact landed
  | cons t part =>
    have inLine : t.kind ≠ .newline := fun newline => inLines t mem_cons_self newline rfl
    rw [cons_append, skipNewlines, dropWhile_cons_of_neg (by simpa using inLine)] at ended
    cases ended

/-- An expression does not reach over a mark of continuation at the end of its line. -/
theorem not_ended_of_broken {env : Env} {row : List Token} {mark eol eof : Token} {v : Value} {rest : List Token}
    (line : IsLine (row ++ [mark]) eol eof) (final : env.final = eof) (breaks : mark.isDelim "\\" = true)
    (reads : Reads env (.binary 1) (row ++ [mark] ++ [eol]) v rest) : skipNewlines rest ≠ [] := by
  have delimiter := is_iff.mp breaks
  have ending := line.ending final
  have carrying : Carrying ⟨.none, id, id, [mark, eol], [eol]⟩ env env :=
    { unseen := unseen_id
      nested := fun _ => rfl
      whole := fun some => absurd rfl some
      product := rfl
      places := fun _ => rfl
      here := ending.cons (.inr (.inr ⟨delimiter.1, by simp [delimiter.2]⟩)) (by simp [delimiter.1])
      there := ending
      unclosed := by simp [Token.isDelim, Token.is, final, line.ends, line.final, delimiter.2]
      unbroken := by simp [Token.isDelim, Token.is, final, line.ends, line.final] }
  have inLines : InLines ⟨.none, id, id, [mark, eol], [eol]⟩ row :=
    fun t member newline => absurd newline (line.oneLine t (mem_append_left _ member))
  rcases reads.relocate carrying (by simp) ⟨row, inLines, append_assoc .., rfl⟩ with ⟨_, ⟨part, _, rfl, _⟩, _⟩
  intro ended
  have newline := dropWhile_eq_nil_iff.mp ended mark (by simp)
  simp [delimiter.1] at newline

theorem opens_of_reads {env : Env} {least : Precedence} {t : Token} {toks : List Token} {v : Value} {rest : List Token}
    (inLine : t.kind ≠ .newline) (reads : Reads env (.binary least) (t :: toks) v rest) :
    opensExpr t.kind t.value = true := by
  rw [← Bool.not_eq_false]
  intro closed
  exact not_binary_of_not_opens (by rw [Env.peek_cons inLine]; exact closed) reads

section
variable {r : Token.Reading} {source file : String} {row : List Token} {eol eof : Token} {e : Expr}

/-- The row of an expression, and the end of the line behind it. -/
theorem reads_of_line (line : IsLine row eol eof) (read : Expr.ofTokens file (row ++ [eol, eof]) = .ok e) :
    (∃ t more, row = t :: more ∧ opensExpr t.kind t.value = true) ∧
      ∃ rest, Reads (envOf file (row ++ [eol, eof])) (.binary 1) (row ++ [eol]) (.expr e) rest ∧
        skipNewlines rest = [] := by
  rcases reads_of_ofTokens read with ⟨rest, reads, ended⟩
  have ending : Ending (envOf file (row ++ [eol, eof])) [eol] := line.ending line.finalToken_eq
  rw [line.body_eq] at reads
  cases row with
  | nil =>
    have skipped : skipNewlines ([] ++ [eol]) = [] := by simp [skipNewlines, line.ends]
    rw [skipped] at reads
    exact absurd reads (not_binary_of_not_opens (ending.peek nil_suffix).not_opens)
  | cons t more =>
    have inLine := line.oneLine t mem_cons_self
    have kept : skipNewlines (t :: more ++ [eol]) = t :: more ++ [eol] := dropWhile_cons_of_neg (by simpa using inLine)
    rw [kept] at reads
    exact ⟨⟨t, more, rfl, opens_of_reads inLine reads⟩, rest, reads, ended⟩

section
variable (single : '\n' ∉ source.toList) (line : IsLine row eol eof)
  (tokens : r.tokens source = .ok (row ++ [eol, eof])) (read : Expr.ofTokens file (row ++ [eol, eof]) = .ok e)
include single line tokens read

/-- What is read as an expression goes on at no line end. -/
theorem unbroken_of_ofTokens : ∀ t ∈ row, t.isDelim "\\" = false := by
  rcases reads_of_line line read with ⟨⟨t, more, first, opens⟩, rest, reads, ended⟩
  rcases (Token.Reading.tokens_eq_ok_iff r single).mp tokens with ⟨s, capture, found, same⟩
  rcases append_inj' same rfl with ⟨rfl, _⟩
  rcases Token.Reading.scan_of_plainLine found (by rw [← List.head?_reverse, first]; rfl) opens with ⟨_, _, scanned⟩
  have unbroken := (Token.Reading.scan_eq_ok_iff.mp scanned).unbroken (by simp)
  cases tokens : s.tokens with
  | nil => simp
  | cons u earlier =>
    rw [tokens] at unbroken line reads
    rw [reverse_cons] at line reads ⊢
    intro t member
    rcases mem_append.mp member with before | last
    · exact unbroken t (mem_reverse.mp before)
    · cases mem_singleton.mp last
      apply Bool.eq_false_iff.mpr
      intro breaks
      exact not_ended_of_broken line line.finalToken_eq breaks reads ended

/-- The row of an expression is a formula. -/
theorem isFormula_of_ofTokens : IsFormula row := by
  have balanced : Balanced _ := (lists_of_ofTokens read).closes_brackets
  have accounted := (lists_of_ofTokens read).accounted
  rw [line.body_eq] at balanced accounted
  refine ⟨(reads_of_line line read).1, fun t member => ?_, ?_, ?_⟩
  · have unbroken := unbroken_of_ofTokens single line tokens read t member
    refine ⟨?_, ?_, unbroken⟩ <;> intro kind
    all_goals
      rcases accounted t (mem_append_left _ member) with sign | bracket | mark | newline
      · simp [isSignificant, kind] at sign
      · simp [isBracket, kind] at bracket
      · simp [kind] at mark
      · simp [kind] at newline
  · have idle (b : Brackets) : trackToken b eol = b := if_neg (by simp [line.ends])
    have closed := foldl_trackToken (row ++ [eol]) {}
    rw [balanced.foldl_track, foldl_append, foldl_cons, idle, foldl_nil] at closed
    have whole := bracketsAfter_append row []
    rw [append_nil] at whole
    rw [whole]
    exact Int.le_of_eq (congrArg Brackets.images closed)
  · rintro t u rest rfl kind
    apply Bool.eq_false_iff.mpr
    intro closes
    have delimiter := is_iff.mp closes
    have name : isBracket t = false := by simp [isBracket, kind]
    have bracket : isBracket u = true := isBracket_of_closing delimiter.1 (by rw [delimiter.2]; decide)
    rw [cons_append, cons_append, filter_cons_of_neg (by simp [name]), filter_cons_of_pos bracket, map_cons,
      delimiter.2] at balanced
    exact absurd (balanced.head _ rfl) (by decide)

end

end

/-! ## A group -/

/-- A group of one expression is that expression. -/
theorem Reads.enclosed {env : Env} {start close eol : Token} {row : List Token} {e : Expr}
    (reads : Reads env.inside (.binary 1) (row ++ [close, eol]) (.expr e) [close, eol])
    (opens : start.isDelim "(" = true) (closes : close.isDelim ")" = true) (ending : Ending env [eol]) :
    Reads env (.binary 1) (start :: (row ++ [close, eol])) (.expr e) [eol] := by
  have delimiter := is_iff.mp opens
  have delimiter' := is_iff.mp closes
  have inLine : start.kind ≠ .newline := by simp [delimiter.1]
  have inLine' : close.kind ≠ .newline := by simp [delimiter'.1]
  have lead : env.leadAt (start :: (row ++ [close, eol])) = .group := by
    simp [Env.leadAt, Env.peek_cons inLine, Token.isOp, Token.isDelim, Token.is, delimiter]
  have form : env.formAt (start :: (row ++ [close, eol])) = some .group := by
    simp [Env.formAt, Env.peek_cons inLine, delimiter]
  have closed : env.inside.atDelim ")" [close, eol] = true := by
    rw [Env.atDelim, Env.peek_cons inLine']
    exact closes
  have noComma : env.inside.atDelim "," [close, eol] = false := by
    rw [Env.atDelim, Env.peek_cons inLine']
    simp [Token.isDelim, Token.is, delimiter']
  have mute := ending.peek suffix_rfl
  have group : Reads env .primary (start :: (row ++ [close, eol])) (.expr e) [eol] := by
    have elements : Reads env.inside .elements (env.rest (start :: (row ++ [close, eol]))) (.list [e])
        [close, eol] := by
      rw [Env.rest_cons inLine]
      exact .last reads noComma
    have grouped := Reads.grouped form elements closed
    rw [Env.rest_cons inLine'] at grouped
    exact grouped
  refine .binary (.group lead group (.groupAlone (groupSuffixAt_of_mute mute _ _)) (.bare (suffixAt_of_mute mute _ _)))
    (.stop fun name prec assoc found => ?_)
  cases (mute.infixAt env).symm.trans found

/-! ## Formulas at any place -/

/-- The tokens hold the expression, up to its places, wherever they stand. -/
def Holds (toks : List Token) (e : Expr) : Prop :=
  ∀ env : Env, env.final = finalToken toks → env.product = false →
    ∃ e' rest, Reads env (.binary 1) (body toks) (.expr e') rest ∧ skipNewlines rest = [] ∧ e'.unplaced = e.unplaced

/-- Where the environment puts what stands in the tokens at a place. -/
def Env.place (env : Env) (loc : Location) : Location :=
  match env.origin with
  | some (line, shift) => ⟨env.file, line, shift + loc.column⟩
  | none => ⟨env.file, loc.line, loc.column⟩

theorem Env.loc_eq_place (env : Env) (file : String) (toks : List Token) (t : Token) :
    env.loc t = env.place ((envOf file toks).loc t) := by
  unfold Env.loc Env.place
  cases env.origin <;> rfl

section
variable {r : Token.Reading} {source file : String} {toks : List Token} {e : Expr}

theorem Holds.ofTokens (holds : Holds toks e) (file : String) :
    ∃ e', Expr.ofTokens file toks = .ok e' ∧ e'.unplaced = e.unplaced := by
  rcases holds (envOf file toks) rfl rfl with ⟨e', rest, reads, ended, same⟩
  have kept : skipNewlines (body toks) = body toks := by
    cases all : body toks with
    | nil => rfl
    | cons t more =>
      refine dropWhile_cons_of_neg fun newline => ?_
      have closed : opensExpr ((envOf file toks).peek (t :: more)).kind ((envOf file toks).peek (t :: more)).value =
          false := by
        change opensExpr t.kind t.value = false
        rw [eq_of_beq newline]
        rfl
      rw [all] at reads
      exact not_binary_of_not_opens closed reads
  rw [← kept] at reads
  exact ⟨e', ofTokens_of_expr ((expr_eq_ok_iff (Env.ends_envOf file toks)).mpr reads) ended, same⟩

theorem holds_of_ofTokens (single : '\n' ∉ source.toList) (tokens : r.tokens source = .ok toks)
    (read : Expr.ofTokens file toks = .ok e) : Holds toks e := by
  rcases isLine_of_tokens single tokens with ⟨row, eol, eof, rfl, line⟩
  rcases reads_of_line line read with ⟨_, rest, reads, ended⟩
  intro env final product
  rw [line.finalToken_eq] at final
  have ending := line.ending final
  have carrying : Carrying ⟨.none, id, env.place, [eol], [eol]⟩ (envOf file (row ++ [eol, eof])) env :=
    line.carrying line.finalToken_eq unseen_id product (env.loc_eq_place file _) ending
      (by simp [Token.isDelim, Token.is, final, line.ends, line.final])
  have filled := reads.fills ended line.oneLine carrying
  rw [map_id] at filled
  rw [line.body_eq]
  exact ⟨_, _, filled, by simp [skipNewlines, line.ends], Expr.unplaced_relocate ..⟩

theorem holds_enclosed (standard : r.rules = ProseRules.standard) (single : '\n' ∉ source.toList)
    (noComment : '%' ∉ source.toList) (unlabelled : source ∉ partLabels) (tokens : r.tokens source = .ok toks)
    (read : Expr.ofTokens file toks = .ok e) :
    ∃ toks', r.tokens ("(" ++ source ++ ")") = .ok toks' ∧ Holds toks' e := by
  rcases isLine_of_tokens single tokens with ⟨row, eol, eof, rfl, line⟩
  rcases reads_of_line line read with ⟨_, rest, reads, ended⟩
  have formula := isFormula_of_ofTokens single line tokens read
  rcases Token.Reading.tokens_enclosed standard single noComment unlabelled tokens formula with
    ⟨close, eol', eof', tokens', closes, ends, final⟩
  have delimiter := is_iff.mp closes
  have line' : IsLine (opening :: (row.map right ++ [close])) eol' eof' :=
    { written := by
        intro t member
        rcases mem_cons.mp member with rfl | later
        · simp [Token.Kind.IsWritten, opening]
        · rcases mem_append.mp later with inside | last
          · rcases mem_map.mp inside with ⟨u, within, rfl⟩
            exact line.written u within
          · cases mem_singleton.mp last
            simp [Token.Kind.IsWritten, delimiter.1]
      ends := ends
      final := final }
  have whole : opening :: (row.map right ++ [close, eol', eof']) =
      opening :: (row.map right ++ [close]) ++ [eol', eof'] := by simp
  refine ⟨_, tokens', fun env here product => ?_⟩
  rw [whole, line'.finalToken_eq] at here
  have ending : Ending env [eol'] := line'.ending here
  have ending' : Ending env.inside [eol'] := line'.ending here
  have carrying : Carrying
      ⟨.none, right, fun loc => env.place { loc with column := loc.column + 1 }, [eol], [close, eol']⟩
      (envOf file (row ++ [eol, eof])) env.inside :=
    line.carrying line.finalToken_eq unseen_right product (fun t => env.loc_eq_place file (row ++ [eol, eof]) (right t))
      (ending'.cons (.inr (.inr ⟨delimiter.1, by simp [delimiter.2]⟩)) (by simp [delimiter.1]))
      (by simp [Token.isDelim, Token.is, Env.inside, here, ends, final, delimiter.2])
  have filled := (reads.fills ended line.oneLine carrying).enclosed (by decide : opening.isDelim "(" = true) closes
    ending
  have whole' : opening :: (row.map right ++ [close, eol']) = opening :: (row.map right ++ [close]) ++ [eol'] := by simp
  rw [whole'] at filled
  rw [whole, line'.body_eq]
  exact ⟨_, _, filled, by simp [skipNewlines, ends], Expr.unplaced_relocate ..⟩

end

end Parse
end Whiteboard
