import Whiteboard.Proofs.Document.Outcome
import Whiteboard.Proofs.Latex.Setting

namespace Whiteboard

/-!
# The output of a source is well bracketed

The one way to have text of the source in the output as it stands is a block of LaTeX; a source without such
blocks has well-bracketed output in every layout.
-/

theorem Latex.sets_render {doc : Document} (whole : ∀ i ∈ doc, i.Whole False) (lay : Layout) :
    Yields (fun r => WellBracketed r.text) (fun _ => False) (doc.render lay) :=
  (sets_document "" whole lay).yields.mono (fun _ closed => closed id) fun _ fault => fault

namespace Options

/-- Whatever is set of a source without blocks of LaTeX is well bracketed, in every layout. -/
theorem compile_wellBracketed (o : Options) (source : String) (toks : List Token) (out : Rendered)
    (lexed : o.tokens source = .ok toks) (none : ∀ t ∈ toks, t.isKeyword "LATEX:" = false)
    (compiled : o.compile source = .ok out) : Latex.WellBracketed out.text := by
  rcases bind_eq_ok.mp compiled with ⟨doc, read, rendered⟩
  rw [document, lexed] at read
  have formed := (yields_ofTokens (mapError_eq_ok lexed) o.file).value (mapError_eq_ok read)
  have escaped : (∃ t ∈ toks, t.isKeyword "LATEX:" = true) = False := by
    refine eq_false ?_
    rintro ⟨t, member, keyword⟩
    rw [none t member] at keyword
    cases keyword
  rw [escaped] at formed
  exact (Latex.sets_render formed o.layout).value (mapError_eq_ok rendered)

/-- Braces and a backslash in prose, a formula, a schema, and a justification with a brace in it. -/
def bracketsSource : String :=
  "TEXT: a \\ b \x7b $x_1 in \x7b1\x7d$ #\nschema S_1\n  x : N\nwhere\n  x = y^\x7b2\x7d\nend\n" ++
    "PROOF:\n  p and q [\x7b and elim]\n    [1] p [assumption]\n"

theorem bracketsSource_wellBracketed :
    ∃ toks out, ({ layout := { dialect := .zed, standalone := true } } : Options).tokens bracketsSource = .ok toks ∧
      (∀ t ∈ toks, t.isKeyword "LATEX:" = false) ∧
      ({ layout := { dialect := .zed, standalone := true } } : Options).compile bracketsSource = .ok out ∧
      Latex.WellBracketed out.text := by
  have plain : (({ layout := { dialect := .zed, standalone := true } } : Options).tokens
      bracketsSource).toOption.any (fun toks => toks.all fun t => !t.isKeyword "LATEX:") = true := by
    decide +kernel
  have renders : (({ layout := { dialect := .zed, standalone := true } } : Options).compile
      bracketsSource).toOption.isSome = true := by
    decide +kernel
  cases lexed : ({ layout := { dialect := .zed, standalone := true } } : Options).tokens bracketsSource with
  | error d =>
    rw [lexed] at plain
    cases plain
  | ok toks =>
    cases compiled : ({ layout := { dialect := .zed, standalone := true } } : Options).compile bracketsSource with
    | error d =>
      rw [compiled] at renders
      cases renders
    | ok out =>
      rw [lexed] at plain
      have each : (toks.all fun t => !t.isKeyword "LATEX:") = true := plain
      have none : ∀ t ∈ toks, t.isKeyword "LATEX:" = false := by simpa using each
      exact ⟨toks, out, rfl, none, rfl, compile_wellBracketed _ _ toks out lexed none compiled⟩

end Options
end Whiteboard
