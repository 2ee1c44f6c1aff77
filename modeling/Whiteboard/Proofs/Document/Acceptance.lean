import Mathlib.Data.List.Basic
import Whiteboard.Proofs.Document.Outcome
import Whiteboard.Proofs.Latex.Setting

namespace Whiteboard

/-!
# Accepted documents can be rendered

Every reader of the document grammar either finds a part of a document that lacks nothing, or faults a
token.  With the rendering of whole items this makes a source fail on account of its characters or its
tokens only.
-/

theorem Parse.Pinpoints.ofSource {file : String} {supply : List Token} {fault : Fault}
    (pinned : Parse.Pinpoints file supply fault) : fault.OfSource := by
  rcases pinned with ⟨⟨expected, found, hint, problem⟩, _⟩ | ⟨line, _, inFormula⟩
  · unfold Fault.OfSource
    rw [problem]
    trivial
  · exact inFormula.sourced

/-- The document of shaped tokens consists of whole items. -/
theorem finds_ofTokens (file : String) {toks : List Token} (shaped : ∀ t ∈ toks, t.Shaped) :
    Finds (fun doc => ∀ i ∈ doc, i.Whole True) (Document.ofTokens file toks) := by
  have ends := Parse.Env.ends_envOf file toks
  -- The tokens need not be those of a source, so the final token is added to them.
  have supplied := List.forall_mem_cons.mpr ⟨ends.shaped_final, shaped⟩
  have yields := (shares_document (List.subset_cons_self _ toks) supplied List.mem_cons_self
    (fun _ _ _ => trivial) file file).yields
  cases read : Document.ofTokens file toks with
  | error fault => exact (yields.fault read).ofSource
  | ok doc => exact yields.value read

namespace Options

theorem sound_of_document {o : Options} {source : String} {doc : Document} (read : o.document source = .ok doc) :
    ∀ i ∈ doc, i.Whole True := by
  rcases bind_eq_ok.mp read with ⟨toks, lexed, parsed⟩
  have shaped := Finds.value (mapError_eq_ok lexed) (Token.Reading.finds_tokens o.reading source)
  exact Finds.value (mapError_eq_ok parsed) (finds_ofTokens o.file shaped)

/-- Shown in its source, a fault is about the same problem. -/
theorem problem_inSource (fault : Fault) (source : String) : (fault.inSource source).problem = fault.problem := by
  unfold Fault.inSource
  split <;> rfl

/-- Every source either has a document that is rendered, or is faulted for its characters or its
tokens: no compilation ends with a fault of rendering. -/
theorem compile_renders_every_document (o : Options) (source : String) :
    (∃ doc rendered, o.document source = .ok doc ∧ doc.render o.layout = .ok rendered ∧
      o.compile source = .ok rendered) ∨
    (∃ d, o.document source = .error d ∧ o.compile source = .error d ∧
      ∀ node cause, d.problem ≠ .generation node cause) := by
  have failing {fault : Fault} (sourced : fault.OfSource) (node : String) (cause : RenderCause) :
      (fault.inSource source).problem ≠ .generation node cause := by
    rw [problem_inSource]
    intro rendering
    unfold Fault.OfSource at sourced
    rw [rendering] at sourced
    exact sourced
  have lexed := Token.Reading.finds_tokens o.reading source
  unfold compile document tokens
  cases found : o.reading.tokens source with
  | error fault => exact Or.inr ⟨_, rfl, rfl, failing (Finds.fault found lexed)⟩
  | ok toks =>
    have parsed := finds_ofTokens o.file (Finds.value found lexed)
    cases read : Document.ofTokens o.file toks with
    | error fault =>
      apply Or.inr
      refine ⟨fault.inSource source, ?_, ?_, failing (Finds.fault read parsed)⟩
      · simp [Except.mapError, bind, Except.bind, read]
      · simp [Except.mapError, bind, Except.bind, read]
    | ok doc =>
      apply Or.inl
      rcases Latex.succeeds_render (Finds.value read parsed) o.layout with ⟨rendered, finished⟩
      refine ⟨doc, rendered, ?_, finished, ?_⟩
      · simp [Except.mapError, bind, Except.bind, read]
      · simp [Except.mapError, bind, Except.bind, read, finished]

end Options
end Whiteboard
