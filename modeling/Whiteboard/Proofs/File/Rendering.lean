import Whiteboard.Proofs.Document.Acceptance

namespace Whiteboard

/-!
# Rendering a source under another name

The places of a document show in its warnings only, which are placed where the item is.  So the rendering of a
source under another name is the same text, and its warnings are the same up to the file of their places.
-/

namespace Options

/-- The same options for a source of another name. -/
def inFile (f : String) (o : Options) : Options := { o with file := f }

theorem mirrors_document (f : String) (o : Options) (source : String) :
    Mirrors (List.map (Item.inFile f)) (o.document source) ((o.inFile f).document source) := by
  intro doc read
  rcases bind_eq_ok.mp read with ⟨toks, lexed, parsed⟩
  have tokens := mapError_eq_ok lexed
  have again := Token.Reading.mirrors_tokens f o.reading source toks tokens
  have shaped := Finds.value tokens (Token.Reading.finds_tokens o.reading source)
  have moved := (shares_document (List.Subset.refl toks) shaped (Parse.places_of_tokens tokens).1
    (fun _ _ _ => trivial) o.file f).mirrors doc (mapError_eq_ok parsed)
  have lexed' : (o.inFile f).tokens source = .ok toks := congrArg (Except.mapError _) again
  rw [document, lexed']
  exact congrArg (Except.mapError _) moved

/-- A source renders to the same text under every name, with the same warnings up to the name. -/
theorem mirrors_compile (f : String) (o : Options) (source : String) :
    Mirrors (Rendered.inFile f) (o.compile source) ((o.inFile f).compile source) := by
  intro rendered compiled
  rcases bind_eq_ok.mp compiled with ⟨doc, read, set⟩
  have again := (Latex.sets_document f (sound_of_document read) o.layout).mirrors rendered (mapError_eq_ok set)
  rw [compile, mirrors_document f o source doc read]
  exact congrArg (Except.mapError _) again

/-- The warnings of a source are placed in the file of its name. -/
theorem compile_inFile {o : Options} {source : String} {r : Rendered} (compiled : o.compile source = .ok r) :
    r.inFile o.file = r := by
  have again : o.compile source = .ok (r.inFile o.file) := mirrors_compile o.file o source r compiled
  rw [compiled] at again
  exact (Except.ok.inj again).symm

end Options
end Whiteboard
