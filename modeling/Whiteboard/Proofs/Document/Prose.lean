import Mathlib.Data.List.Chain
import Whiteboard.Proofs.Document.Outcome
import Whiteboard.Proofs.Document.Span

namespace Whiteboard

open List Text

/-!
# Text is kept as it stands

A block of text is cut at the dollar signs of its lines, and what stands between two of them is read as a formula.  The
segments spell the lines of the block and no more: prose runs on over the ends of lines and from one formula to the
next, and every formula is the tree of its characters alone, moved to where they stand in the source.
-/

namespace Parse

/-! ## One formula -/

/-- The place of something in a formula that begins at a column of a line, from its place in the formula alone. -/
def inLine (file : String) (number column : Int) (loc : Location) : Location :=
  ⟨file, number, loc.column + (column - 1)⟩

variable {source : String} {toks : List Token}

theorem line_eq_one_of_tokens (single : '\n' ∉ source.toList)
    (read : Token.Reading.tokens {} source = .ok toks) : ∀ t ∈ toks, t.line = 1 := by
  intro t member
  rcases (places_of_tokens read).2 t member with ⟨i, chars, found, line, _⟩
  rw [Token.Reading.sourceLines_of_single single, List.getElem?_singleton] at found
  split at found
  next first => omega
  next => cases found

section
variable {env : Env} {line : Token} {offset : Nat} {span : List Char} {e : Expr}

/-- A formula alone is read between dollar signs too. -/
theorem spanExpr_of_expression (single : '\n' ∉ span) (read : ({} : Options).expression (String.ofList span) = .ok e) :
    spanExpr env line offset span = .ok (e.relocate (inLine env.file line.line (line.column + offset))) := by
  rcases Options.expression_eq_ok_iff.mp read with ⟨toks, tokens, parsed⟩
  rcases isLine_of_tokens (by rwa [String.toList_ofList]) tokens with ⟨row, eol, eof, rfl, isLine⟩
  rcases reads_of_line isLine parsed with ⟨_, rest, reads, ended⟩
  let there := spanEnv env line offset (row ++ [eol, eof])
  have final : there.final = eof := isLine.finalToken_eq
  have places (t : Token) : there.loc t =
      inLine env.file line.line (line.column + offset) ((envOf "" (row ++ [eol, eof])).loc t) := by
    simp only [there, spanEnv, Env.loc, inLine, envOf, Int.add_comm]
  have carrying : Carrying ⟨.none, id, inLine env.file line.line (line.column + offset), [eol], [eol]⟩
      (envOf "" (row ++ [eol, eof])) there :=
    isLine.carrying isLine.finalToken_eq unseen_id rfl places (isLine.ending final)
      (by simp [Token.isDelim, Token.is, final, isLine.ends, isLine.final])
  have filled := reads.fills ended isLine.oneLine carrying
  rw [map_id, ← isLine.body_eq] at filled
  exact spanExpr_eq_ok_iff.mpr ⟨_, _, tokens, filled, by simp [skipNewlines, isLine.ends]⟩

/-- What is read between dollar signs is a formula alone: its tokens are all on one line, so that their places in the
source tell no more than their columns. -/
theorem expression_of_spanExpr (single : '\n' ∉ span) (read : spanExpr env line offset span = .ok e) :
    ∃ alone, ({} : Options).expression (String.ofList span) = .ok alone := by
  rcases spanExpr_eq_ok_iff.mp read with ⟨toks, rest, tokens, reads, ended⟩
  have single : '\n' ∉ (String.ofList span).toList := by rwa [String.toList_ofList]
  have first := line_eq_one_of_tokens single tokens
  rcases isLine_of_tokens single tokens with ⟨row, eol, eof, rfl, isLine⟩
  have holds : Holds (row ++ [eol, eof]) e := by
    intro env' final product
    rw [isLine.finalToken_eq] at final
    let atFirst (t : Token) : Token := { t with line := 1 }
    let move (loc : Location) : Location := env'.place ⟨"", 1, loc.column - (line.column + offset - 1)⟩
    have unseen : Unseen atFirst := ⟨fun _ => rfl, fun _ => rfl, fun _ => rfl, fun _ => rfl⟩
    have places (t : Token) : env'.loc (atFirst t) = move ((spanEnv env line offset (row ++ [eol, eof])).loc t) := by
      have back : line.column + offset - 1 + t.column - (line.column + offset - 1) = t.column := by omega
      cases origin : env'.origin <;> simp only [move, atFirst, spanEnv, Env.loc, Env.place, back, origin]
    have carrying : Carrying ⟨.none, atFirst, move, [eol], [eol]⟩
        (spanEnv env line offset (row ++ [eol, eof])) env' :=
      isLine.carrying isLine.finalToken_eq unseen product places (isLine.ending final)
        (by simp [Token.isDelim, Token.is, final, isLine.ends, isLine.final])
    have same : row.map atFirst = row := by
      conv_rhs => rw [← map_id row]
      refine map_congr_left fun t member => ?_
      have number := first t (mem_append_left _ member)
      simp only [atFirst, ← number, id]
    rw [isLine.body_eq] at reads
    have filled := reads.fills ended isLine.oneLine carrying
    rw [same, ← isLine.body_eq] at filled
    exact ⟨_, _, filled, by simp [skipNewlines, isLine.ends], Expr.unplaced_relocate ..⟩
  rcases holds.ofTokens "" with ⟨alone, parsed, _⟩
  exact ⟨alone, Options.expression_eq_ok_iff.mpr ⟨_, tokens, parsed⟩⟩

/-- The formula of a span is the formula of its characters alone, in its place. -/
theorem spanExpr_eq_ok_iff_expression (single : '\n' ∉ span) : spanExpr env line offset span = .ok e ↔
      ∃ alone, ({} : Options).expression (String.ofList span) = .ok alone ∧
        e = alone.relocate (inLine env.file line.line (line.column + offset)) := by
  constructor
  · grind [expression_of_spanExpr, spanExpr_of_expression, Except.ok.inj]
  · rintro ⟨alone, found, rfl⟩
    exact spanExpr_of_expression single found

end

/-! ## Segments that spell a text -/

/-- The lines, each with its end. -/
def textAbove (lines : List Token) : List Char := lines.flatMap fun line => line.value.toList ++ ['\n']

theorem intercalate_concat (above : List Token) (line : Token) :
    ['\n'].intercalate ((above ++ [line]).map fun line => line.value.toList) =
      textAbove above ++ line.value.toList := by
  induction above with
  | nil => simp [textAbove]
  | cons first rest ih =>
    rw [textAbove, flatMap_cons, ← textAbove, append_assoc, ← ih]
    cases rest <;> simp [List.intercalate]

/-- The segments spell the front of some lines of text.  Prose stands as it is, is not empty and follows no prose; a
formula stands between dollar signs on one of the lines, and its segment is the formula of its characters alone, moved
to the column where they begin. -/
inductive Restores (file : String) (lines : List Token) : List Char → List Segment → Prop
  | nothing : Restores file lines [] []
  | prose {text segments piece} : Restores file lines text segments →
      (∀ s ∈ segments.getLast?, s.math.isHole = false) → piece ≠ [] →
      Restores file lines (text ++ piece) (segments ++ [⟨String.ofList piece, .hole⟩])
  | math {above line below before span after segments e} : Restores file lines (textAbove above ++ before) segments →
      lines = above ++ line :: below → line.value.toList = before ++ '$' :: (span ++ '$' :: after) →
      ({} : Options).expression (String.ofList span) = .ok e → e.isHole = false →
      Restores file lines (textAbove above ++ before ++ '$' :: (span ++ ['$']))
        (segments ++ [⟨"", e.relocate (inLine file line.line (line.column + before.length + 1))⟩])

theorem isHole_relocate (move : Location → Location) (e : Expr) : (e.relocate move).isHole = e.isHole := by
  cases e <;> rfl

theorem addText_concat (segments : List Segment) (s : Segment) (text : String) : addText (segments ++ [s]) text =
      segments ++ if s.math.isHole then [⟨s.text ++ text, .hole⟩] else [s, ⟨text, .hole⟩] := by
  induction segments with
  | nil => simp only [nil_append, addText]
  | cons first rest ih =>
    cases rest with
    | nil =>
      simp only [cons_append, nil_append] at ih ⊢
      rw [addText, ih]
      simp
    | cons second rest =>
      simp only [cons_append] at ih ⊢
      rw [addText, ih]
      simp

namespace Restores

variable {file : String} {lines : List Token} {text : List Char} {segments : List Segment}

/-- No prose is empty, and none follows prose. -/
theorem apart (restores : Restores file lines text segments) : (∀ s ∈ segments, s.math.isHole = true → s.text ≠ "") ∧
    segments.IsChain fun s t => (s.math.isHole && t.math.isHole) = false := by
  induction restores with
  | nothing => simp
  | @prose _ segments piece _ last some ih =>
    have written : String.ofList piece ≠ "" := by simpa [← String.toList_inj] using some
    refine ⟨forall_mem_append.mpr ⟨ih.1, forall_mem_singleton.mpr fun _ => written⟩, ?_⟩
    refine isChain_append.mpr ⟨ih.2, .singleton _, fun s behind t here => ?_⟩
    rw [last s behind, Bool.false_and]
  | @math _ _ _ _ _ _ segments e _ _ _ _ present ih =>
    have shown (move : Location → Location) : (e.relocate move).isHole = false := by rwa [isHole_relocate]
    refine ⟨forall_mem_append.mpr ⟨ih.1, forall_mem_singleton.mpr fun gap => ?_⟩, ?_⟩
    · rw [shown] at gap
      cases gap
    · refine isChain_append.mpr ⟨ih.2, .singleton _, fun s _ t here => ?_⟩
      cases here
      rw [shown, Bool.and_false]

theorem addProse (restores : Restores file lines text segments) (piece : List Char) :
    Restores file lines (text ++ piece) (addSegment segments ⟨String.ofList piece, .hole⟩) := by
  unfold addSegment
  rw [if_neg (by simp [Expr.isHole])]
  split
  next empty => simp_all
  next some =>
    have some : piece ≠ [] := by simpa [String.isEmpty_iff] using some
    cases restores with
    | nothing => exact prose nothing (by simp) some
    | @prose text segments before restores last _ =>
      have joined : addText (segments ++ [⟨String.ofList before, .hole⟩]) (String.ofList piece) =
          segments ++ [⟨String.ofList (before ++ piece), .hole⟩] := by
        simp [addText_concat, Expr.isHole]
      rw [joined, append_assoc]
      exact prose restores last (by simp [some])
    | @math above line below before span after segments e restores split stands read present =>
      have shown := math restores split stands read present
      rw [addText_concat, if_neg (by simp [isHole_relocate, present])]
      have apart := @prose _ _ _ _ piece shown (by simp [isHole_relocate, present]) some
      rwa [append_assoc segments] at apart

variable {above below : List Token}

theorem addMath {line : Token} {before span after : List Char} {e : Expr}
    (restores : Restores file lines (textAbove above ++ before) segments) (split : lines = above ++ line :: below)
    (stands : line.value.toList = before ++ '$' :: (span ++ '$' :: after))
    (read : ({} : Options).expression (String.ofList span) = .ok e) :
    Restores file lines (textAbove above ++ before ++ '$' :: (span ++ ['$']))
      (addSegment segments ⟨"", e.relocate (inLine file line.line (line.column + before.length + 1))⟩) := by
  rcases Options.expression_eq_ok_iff.mp read with ⟨toks, _, parsed⟩
  have present : e.isHole = false := (formed_of_ofTokens parsed).isHole_eq_false
  unfold addSegment
  rw [if_pos (by simp [isHole_relocate, present])]
  exact math restores split stands read present

theorem addLine {env : Env} {line : Token} (split : lines = above ++ line :: below)
    (feedless : '\n' ∉ line.value.toList) {done rest : List Char} {pieces : List (List Char)}
    (whole : line.value.toList = done ++ rest) (cut : Text.ArePieces '$' rest pieces) {segments : List Segment}
    (restores : Restores env.file lines (textAbove above ++ done) segments) {more : List Segment}
    (read : spanSegments env line done.length pieces = .ok more) :
    Restores env.file lines (textAbove above ++ line.value.toList) (more.foldl addSegment segments) := by
  match cut with
  | .last _ =>
    cases read
    rw [whole, ← append_assoc]
    exact restores.addProse rest
  | @Text.ArePieces.next _ piece _ _ free (@Text.ArePieces.last _ span spanFree) => cases read
  | @Text.ArePieces.next _ piece _ _ free (@Text.ArePieces.next _ span after others spanFree cut') =>
    have ⟨first, others', same⟩ : ∃ first others', others = first :: others' := by
      cases cut' <;> exact ⟨_, _, rfl⟩
    rw [same] at read
    rcases bind_eq_ok.mp read with ⟨e, formula, later⟩
    rcases bind_eq_ok.mp later with ⟨segments', onward, together⟩
    cases together
    have stands : line.value.toList = (done ++ piece) ++ '$' :: (span ++ '$' :: after) := by simpa using whole
    have single : '\n' ∉ span := fun inside => feedless (by simp [stands, inside])
    rcases (spanExpr_eq_ok_iff_expression single).mp formula with ⟨alone, found, rfl⟩
    have shown := restores.addProse piece
    rw [append_assoc] at shown
    have placed := shown.addMath split stands found
    have column : line.column + ((done ++ piece).length : Int) + 1 =
        line.column + ((done.length + piece.length + 1 : Nat) : Int) := by
      rw [length_append]
      omega
    have reached : ((done ++ piece) ++ '$' :: (span ++ ['$'])).length =
        done.length + piece.length + 1 + span.length + 1 := by
      simp
      omega
    rw [column, append_assoc] at placed
    rw [← reached, ← same] at onward
    have whole' : line.value.toList = ((done ++ piece) ++ '$' :: (span ++ ['$'])) ++ after := by simp [stands]
    have finished := addLine split feedless whole' cut' placed onward
    exact finished

/-- Line after line is added, with the end of the line before it. -/
theorem addLines {env : Env} {line : Token} (split : lines = above ++ line :: below)
    (feedless : ∀ other ∈ below, '\n' ∉ other.value.toList)
    (restores : Restores env.file lines (textAbove above ++ line.value.toList) segments) {result : List Segment}
    (read : moreSegments env .prose segments below = .ok result) :
    Restores env.file lines (['\n'].intercalate (lines.map fun line => line.value.toList)) result := by
  induction below generalizing above line segments with
  | nil =>
    cases read
    rwa [← intercalate_concat, ← split] at restores
  | cons next rest ih =>
    rcases bind_eq_ok.mp read with ⟨more, cut, onward⟩
    have ⟨here, later⟩ := forall_mem_cons.mp feedless
    have ended := restores.addProse ['\n']
    have above' : textAbove above ++ line.value.toList ++ ['\n'] = textAbove (above ++ [line]) ++ [] := by
      simp [textAbove]
    have split' : lines = (above ++ [line]) ++ next :: rest := by simpa using split
    rw [above'] at ended
    have added := ended.addLine split' here (nil_append _).symm (arePieces_splitWhere '$' _) cut
    exact ih split' later added onward

end Restores

/-- The segments of lines of prose spell the lines. -/
theorem restores_textSegments {env : Env} {lines : List Token} (feedless : ∀ line ∈ lines, '\n' ∉ line.value.toList)
    {segments : List Segment} (read : textSegments env .prose lines = .ok segments) :
    Restores env.file lines (['\n'].intercalate (lines.map fun line => line.value.toList)) segments := by
  cases lines with
  | nil =>
    cases read
    exact .nothing
  | cons line rest =>
    rcases bind_eq_ok.mp read with ⟨more, cut, onward⟩
    have ⟨here, later⟩ := forall_mem_cons.mp feedless
    have split : line :: rest = [] ++ line :: rest := rfl
    have first := Restores.nothing.addLine split here (nil_append _).symm (arePieces_splitWhere '$' _) cut
    exact first.addLines split later onward

/-! ## Texts of a source -/

/-- The text of a token goes from its column to the end of its line in the source, but for white space. -/
def Stands (source : String) (line : Token) : Prop :=
  ∃ (i : Nat) (chars blanks : List Char), (sourceLines source)[i]? = some chars ∧ line.line = i + 1 ∧
    1 ≤ line.column ∧ blanks.all isBlank = true ∧
    chars.drop (line.column - 1).toNat = line.value.toList ++ blanks

theorem stands_of_tokens {r : Token.Reading} (lexed : r.tokens source = .ok toks)
    {line : Token} (member : line ∈ toks) (text : line.kind = .text) : Stands source line := by
  rcases (Token.Reading.yields_tokens r source).value lexed line member with
    ⟨⟨i, chars, found, numbered, starts, run⟩, _⟩
  rcases run text with ⟨blanks, blank, split⟩
  exact ⟨i, chars, blanks, found, by omega, starts, blank, split⟩

theorem feedless_of_mem_sourceLines {chars : List Char} (member : chars ∈ sourceLines source) : '\n' ∉ chars := by
  have are := areLines_sourceLines source
  generalize source.toList = cs at are
  generalize sourceLines source = lines at are member
  have free {piece line : List Char} (is : Text.IsLine piece line) : '\n' ∉ line := by
    rcases is.returns with ⟨returns, rfl, _⟩
    exact fun inside => is.feedless (mem_append_left _ inside)
  induction are with
  | last is => exact mem_singleton.mp member ▸ free is
  | next is _ ih => grind

theorem Stands.feedless {line : Token} (stands : Stands source line) : '\n' ∉ line.value.toList := by
  rcases stands with ⟨i, chars, blanks, found, _, _, _, split⟩
  intro inside
  have within : '\n' ∈ chars.drop (line.column - 1).toNat := split ▸ mem_append_left blanks inside
  exact feedless_of_mem_sourceLines (mem_of_getElem? found) (mem_of_mem_drop within)

theorem ProseAt.text {file : String} {lines : List Token} {loc : Location} (at_ : ProseAt file toks lines loc) :
    ∀ line ∈ lines, line ∈ toks ∧ line.kind = .text := by
  cases at_ with
  | alone text => exact forall_mem_singleton.mpr ⟨mem_cons_self, text⟩
  | inLine _ text => exact forall_mem_singleton.mpr ⟨mem_cons_of_mem _ mem_cons_self, text⟩
  | below _ _ rows =>
    exact fun line member => ⟨mem_cons_of_mem _ (mem_cons_of_mem _ (rows.text line member).1),
      (rows.text line member).2⟩

end Parse

namespace Options

open Parse

/-- Prose is lossless, and its formulas are read in place.  A text of a document comes of lines of the source; its
segments spell these lines, no prose among them is empty, and no prose follows prose. -/
theorem prose_spells_its_lines (o : Options) {source : String} {doc : Document} {p : Placed} {segments : List Segment}
    {loc : Location} (read : o.document source = .ok doc) (member : p ∈ doc.placed)
    (prose : p.entry = .item (.text .prose segments loc)) :
    ∃ toks front rest lines, o.tokens source = .ok toks ∧ body toks = front ++ rest ∧
      ProseAt o.file rest lines loc ∧ (∀ line ∈ lines, Stands source line) ∧
      Restores o.file lines (['\n'].intercalate (lines.map fun line => line.value.toList)) segments ∧
      (∀ s ∈ segments, s.math.isHole = true → s.text ≠ "") ∧
      segments.IsChain fun s t => (s.math.isHole && t.math.isHole) = false := by
  rcases bind_eq_ok.mp read with ⟨toks, lexed, parsed⟩
  have tokens := mapError_eq_ok lexed
  rcases bind_eq_ok.mp (mapError_eq_ok parsed) with ⟨entries, found, same⟩
  cases same
  have listed : p.entry ∈ entries := by
    rw [← (outlines_ofEntries (leaf_of_documentEntries found)).listing]
    exact mem_map_of_mem member
  have told := (shares_entries (List.Subset.refl toks) ((Token.Reading.finds_tokens o.reading source).value tokens)
    (places_of_tokens tokens).1 (fun _ _ _ => trivial) o.file o.file).yields.value found _ listed
  rw [prose] at told
  rcases told.quotes rfl with ⟨env, rest, lines, file, ⟨front, whole⟩, at_, segmented⟩
  have whole : front ++ rest = body toks := whole
  have stands : ∀ line ∈ lines, Stands source line := by
    intro line among
    have inBody : line ∈ body toks := whole ▸ mem_append_right front (at_.text line among).1
    exact stands_of_tokens tokens (takeWhile_subset _ inBody) (at_.text line among).2
  have restores := restores_textSegments (fun line among => (stands line among).feedless) segmented
  rw [show env.file = o.file from file] at restores
  exact ⟨toks, front, rest, lines, lexed, whole.symm, at_, stands, restores, restores.apart⟩

/-- The text of a document that holds nothing else. -/
def soleText : Document → Option (List Segment)
  | [.text .prose segments _] => some segments
  | _ => none

theorem two_lines_spelled : ∃ segments loc,
    ({} : Options).document "TEXT:\nFür $x$ gilt\n$x ∈ S$." = .ok [.text .prose segments loc] ∧
    segments.map (·.text) = ["Für ", "", " gilt\n", "", "."] ∧
    ∃ toks front rest lines, ({} : Options).tokens "TEXT:\nFür $x$ gilt\n$x ∈ S$." = .ok toks ∧
      body toks = front ++ rest ∧ ProseAt "" rest lines loc ∧
      Restores "" lines (['\n'].intercalate (lines.map fun line => line.value.toList)) segments := by
  have texts : ((({} : Options).document "TEXT:\nFür $x$ gilt\n$x ∈ S$.").toOption.bind soleText).map
      (·.map (·.text)) = some ["Für ", "", " gilt\n", "", "."] := by decide +kernel
  cases read : ({} : Options).document "TEXT:\nFür $x$ gilt\n$x ∈ S$." with
  | error d =>
    rw [read] at texts
    cases texts
  | ok doc =>
    rw [read] at texts
    match doc, texts with
    | [.text .prose segments loc], texts =>
      have ⟨toks, front, rest, lines, lexed, whole, at_, _, restores, _⟩ :=
        prose_spells_its_lines {} read mem_cons_self rfl
      exact ⟨segments, loc, rfl, Option.some.inj texts, toks, front, rest, lines, lexed, whole, at_, restores⟩

end Options
end Whiteboard
