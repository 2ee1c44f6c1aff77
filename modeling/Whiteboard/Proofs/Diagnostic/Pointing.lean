import Whiteboard.Proofs.Document.Outcome

namespace Whiteboard

/-!
# Diagnostics point into the source

A fault of the token stream is on the line that cannot be read, and a fault of the document is at a token
or in a formula of a line of text.  Tokens and the values of text lie in the lines of the source, so every
diagnostic has a line and a column of the source, and its excerpt shows them.
-/

/-- The diagnostic is about the characters or the tokens of the source, and shows one of its places. -/
structure Diagnostic.PointsInto (file source : String) (d : Diagnostic) : Prop where
  stage : (∃ cause, d.problem = .lex cause) ∨ ∃ expected found hint, d.problem = .parse expected found hint
  file_eq : d.loc.file = file
  inside : d.loc.LiesIn (Text.sourceLines source)
  visible : d.snippet ≠ ""
  caret : ∃ chars ∈ (Text.sourceLines source)[(d.loc.line - 1).toNat]?, Snippet.CaretUnder chars d.loc d.snippet

theorem Fault.OfSource.stage {fault : Fault} (sourced : fault.OfSource) :
    (∃ cause, fault.problem = .lex cause) ∨ ∃ expected found hint, fault.problem = .parse expected found hint := by
  unfold Fault.OfSource at sourced
  split at sourced
  · cases sourced
  next other =>
    cases problem : fault.problem with
    | lex cause => exact .inl ⟨cause, rfl⟩
    | parse expected found hint => exact .inr ⟨expected, found, hint, rfl⟩
    | generation node cause => exact absurd problem (other node cause)

/-- A fault at a place of the source is shown there. -/
theorem Fault.OfSource.pointsInto {fault : Fault} {file source : String} (sourced : fault.OfSource)
    (file_eq : fault.loc.file = file) (inside : fault.loc.LiesIn (Text.sourceLines source)) :
    (fault.inSource source).PointsInto file source ∧ (fault.inSource source).toFault = fault := by
  have shown : fault.inSource source = { fault with snippet := Snippet.render source fault.loc } := by
    unfold Fault.inSource
    rcases sourced.stage with ⟨cause, problem⟩ | ⟨expected, found, hint, problem⟩
    · rw [problem]
    · rw [problem]
  rcases Snippet.caretUnder_render inside with ⟨chars, line, caret⟩
  have visible : Snippet.render source fault.loc ≠ "" := by
    rcases caret with ⟨padding, excerpt, _⟩
    rw [excerpt]
    simp [← String.toList_inj]
  rw [shown]
  exact ⟨⟨sourced.stage, file_eq, inside, visible, chars, line, caret⟩, rfl⟩

namespace Parse

variable {r : Token.Reading} {source : String} {toks : List Token}

theorem InFormula.liesIn {file : String} {line : Token} {fault : Fault} (inFormula : InFormula file line fault)
    (lexed : r.tokens source = .ok toks) (member : line ∈ toks) :
    fault.loc.LiesIn (Text.sourceLines source) := by
  rcases (Token.Reading.yields_tokens r source).value lexed line member with
    ⟨⟨i, chars, found, numbered, starts, run⟩, _⟩
  rcases run inFormula.text with ⟨blanks, _, split⟩
  have length := congrArg List.length split
  rw [List.length_drop, List.length_append] at length
  refine ⟨i, chars, found, inFormula.line_eq.trans (by omega), ?_⟩
  rcases inFormula.place with ⟨before, span, _, _, ⟨after, whole, low, high⟩ | ⟨whole, column⟩⟩
  · rw [whole] at length
    simp at length
    omega
  · rw [whole] at length
    simp at length
    omega

theorem Pinpoints.pointsInto {file : String} {fault : Fault} (pinned : Pinpoints file toks fault)
    (lexed : r.tokens source = .ok toks) :
    (fault.inSource source).PointsInto file source ∧ (fault.inSource source).toFault = fault := by
  rcases pinned with ⟨⟨expected, found, hint, problem⟩, t, member, loc⟩ | ⟨line, member, inFormula⟩
  · rcases (places_of_tokens lexed).2 t member with ⟨i, chars, there, numbered, lies⟩
    have starts := lies.starts
    have ordered := lies.ordered
    have ends := lies.ends
    refine Fault.OfSource.pointsInto ?_ (by rw [loc]; rfl) ?_
    · unfold Fault.OfSource
      rw [problem]
      trivial
    · rw [loc]
      exact ⟨i, chars, there, numbered, starts, by show t.column ≤ _; omega⟩
  · exact inFormula.sourced.pointsInto inFormula.file_eq (inFormula.liesIn lexed member)

end Parse

namespace Options

variable {o : Options} {source : String} {d : Diagnostic}

theorem error_of_mapError {α : Type} {outcome : Except Fault α}
    (failed : outcome.mapError (·.inSource source) = .error d) :
    ∃ fault, outcome = .error fault ∧ d = fault.inSource source := by
  cases outcome with
  | ok value => cases failed
  | error fault =>
    cases failed
    exact ⟨fault, rfl, rfl⟩

/-- A diagnostic of the token stream is lexical. -/
theorem pointsInto_of_tokens (failed : o.tokens source = .error d) :
    d.PointsInto o.file source ∧ ∃ cause, d.problem = .lex cause := by
  rcases error_of_mapError failed with ⟨fault, stray, rfl⟩
  have stray := (Token.Reading.yields_tokens o.reading source).fault stray
  have inside := stray.liesIn
  rcases stray with ⟨i, chars, found, unreadable⟩
  rcases unreadable.lexical with ⟨cause, problem⟩
  have sourced : fault.OfSource := by
    unfold Fault.OfSource
    rw [problem]
    trivial
  rcases sourced.pointsInto unreadable.file_eq inside with ⟨points, same⟩
  exact ⟨points, cause, by rw [same]; exact problem⟩

theorem document_of_tokens_error (unread : o.tokens source = .error d) : o.document source = .error d := by
  unfold document
  rw [unread]
  rfl

/-- A diagnostic of a document is at one of the tokens, or in a formula of one. -/
theorem pointsInto_of_document {toks : List Token} (read : o.tokens source = .ok toks)
    (failed : o.document source = .error d) :
    d.PointsInto o.file source ∧ Parse.Pinpoints o.file toks d.toFault := by
  have lexed : o.reading.tokens source = .ok toks := mapError_eq_ok read
  unfold document at failed
  rw [read] at failed
  rcases error_of_mapError failed with ⟨fault, unparsed, rfl⟩
  have pinned := (yields_ofTokens lexed o.file).fault unparsed
  rcases pinned.pointsInto lexed with ⟨points, same⟩
  rw [same]
  exact ⟨points, pinned⟩

/-- If a source has no tokens or no document, the diagnostic points into it: it concerns its characters or
tokens, names its file, a line of it and a column of that line or the one behind it, and shows a caret under
the column.  Where something else was expected, this is the place of a token of the stream, or it lies in a
formula of a line of text. -/
theorem diagnostic_points_into_source (o : Options) (source : String) (d : Diagnostic)
    (failed : o.tokens source = .error d ∨ o.document source = .error d) :
    d.PointsInto o.file source ∧ ((∃ expected found hint, d.problem = .parse expected found hint) →
        ∃ toks, o.tokens source = .ok toks ∧ ((∃ t ∈ toks, d.loc = Parse.placeIn o.file t) ∨
            ∃ line ∈ toks, Parse.InFormula o.file line d.toFault)) := by
  cases read : o.tokens source with
  | error d' =>
    have same : d' = d := by
      rcases failed with first | second
      · exact Except.error.inj (read.symm.trans first)
      · exact Except.error.inj ((document_of_tokens_error read).symm.trans second)
    rw [same] at read
    rcases pointsInto_of_tokens read with ⟨points, cause, lexical⟩
    refine ⟨points, ?_⟩
    rintro ⟨_, _, _, parse⟩
    cases lexical.symm.trans parse
  | ok toks =>
    have unread : o.document source = .error d := by
      rcases failed with first | second
      · cases read.symm.trans first
      · exact second
    rcases pointsInto_of_document read unread with ⟨points, ⟨_, t, member, loc⟩ | inFormula⟩
    · exact ⟨points, fun _ => ⟨toks, rfl, .inl ⟨t, member, loc⟩⟩⟩
    · exact ⟨points, fun _ => ⟨toks, rfl, .inr inFormula⟩⟩

theorem unfinishedFormula_pointed_at :
    ∃ d, ({ file := "f" } : Options).document "given A\r\n\tTEXT: see $x + $ there" = .error d ∧
      d.loc = ⟨"f", 2, 17⟩ ∧ d.PointsInto "f" "given A\r\n\tTEXT: see $x + $ there" := by
  have found : (match ({ file := "f" } : Options).document "given A\r\n\tTEXT: see $x + $ there" with
      | .error d => d.loc
      | .ok _ => {}) = ⟨"f", 2, 17⟩ := by
    decide +kernel
  cases read : ({ file := "f" } : Options).document "given A\r\n\tTEXT: see $x + $ there" with
  | ok doc =>
    have nowhere : ({} : Location) ≠ ⟨"f", 2, 17⟩ := by decide
    rw [read] at found
    exact absurd found nowhere
  | error d =>
    rw [read] at found
    exact ⟨d, rfl, found, (diagnostic_points_into_source _ _ d (.inr read)).1⟩

end Options
end Whiteboard
