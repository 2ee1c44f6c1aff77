import Whiteboard.Watch
import Whiteboard.Main
import Whiteboard.Repository.Revision
import Whiteboard.Text.Shortest
import Whiteboard.Proofs.RoundTrip.Row
import Whiteboard.Proofs.Fuzz.Suffix
import Whiteboard.Proofs.Diagnostic.Pointing
import Whiteboard.Proofs.Diagnostic.Suggestion
import Whiteboard.Proofs.Latex.Balance
import Whiteboard.Proofs.Document.LineEnds
import Whiteboard.Proofs.Document.Record
import Whiteboard.Proofs.Cache.Ambiguity
import Whiteboard.Proofs.Cache.Interchange
import Whiteboard.Proofs.Latex.Failure
import Whiteboard.Proofs.Latex.Figure
import Whiteboard.Proofs.Document.Prose
import Whiteboard.Proofs.Token.Reuse
import Whiteboard.Proofs.Service.Lifecycle
import Whiteboard.Proofs.Service.Routes
import Whiteboard.Proofs.Settings.Loading
import Whiteboard.Proofs.Cache.Rounds
import Whiteboard.Proofs.Command.Batch
import Whiteboard.Proofs.Watch.Debounce
import Whiteboard.Proofs.Latex.Superscript
import Whiteboard.Proofs.Token.Sequence
import Whiteboard.Proofs.Latex.Width
import Whiteboard.Proofs.Expr.Order
