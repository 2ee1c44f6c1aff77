import Whiteboard.Document.Grammar
import Whiteboard.Latex.Document

namespace Whiteboard

/-!
From a source to LaTeX: tokens, document, text.  The first fault ends the work and is shown in its
source.
-/

/-- How a source is compiled: its name, the rules for prose, and the layout of the output. -/
structure Options where
  file : String := ""
  rules : ProseRules := ProseRules.standard
  layout : Latex.Layout := {}
  deriving Inhabited

namespace Options

def reading (o : Options) : Token.Reading where
  file := o.file
  rules := o.rules

def tokens (o : Options) (source : String) : Except Diagnostic (List Token) :=
  (o.reading.tokens source).mapError (·.inSource source)

def document (o : Options) (source : String) : Except Diagnostic Document := do
  let toks ← o.tokens source
  (Document.ofTokens o.file toks).mapError (·.inSource source)

/-- A source that holds one expression. -/
def expression (o : Options) (source : String) : Except Diagnostic Expr := do
  let toks ← o.tokens source
  (Expr.ofTokens o.file toks).mapError (·.inSource source)

def compile (o : Options) (source : String) : Except Diagnostic Rendered := do
  let doc ← o.document source
  (doc.render o.layout).mapError (·.inSource source)

end Options
end Whiteboard
