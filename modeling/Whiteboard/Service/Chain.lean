import Whiteboard.Http
import Whiteboard.Log
import Whiteboard.Span

namespace Whiteboard
namespace Service

/-!
What surrounds every handler: identifiers for the request and its trace, a note in the log, and
an answer if the handler breaks off.
-/

/-- Identifiers and texts that are not decided here. -/
structure Fresh where
  requestId : String
  traceId : String
  stack : String := ""
  latency : Int := 0
  client : String := ""

/-- The answer of a handler, or the text with which it broke off. -/
abbrev Handled := Except String Http.Response

def errorResponse (status : Int) (error : Data) : Http.Response :=
  .ofData status (.record [("output", .text ""), ("warnings", .null), ("error", error)])

def stated (kind message : String) : Data :=
  .record [("type", .text kind), ("message", .text message)]

/-- Failures of the service are errors, failures of the client warnings. -/
def levelOf (status : Int) : Log.Level :=
  if 500 ≤ status then .error else if 400 ≤ status then .warn else .debug

def requestId (r : Http.Request) (fresh : Fresh) : String :=
  let given := r.header "X-Request-ID"
  if given.isEmpty then fresh.requestId else given

def traceId (r : Http.Request) (fresh : Fresh) : String :=
  (Trace.parent (r.header "traceparent")).getD fresh.traceId

def completed (r : Http.Request) (id : String) (status : Int) (fresh : Fresh) : Log.Note where
  level := levelOf status
  message := "request completed"
  fields :=
    [("request_id", .text id), ("method", .text r.method), ("path", .text r.path),
     ("status", .int status), ("latency_ms", .int fresh.latency),
     ("remote_addr", .text fresh.client)]

def brokeOff (r : Http.Request) (reason : String) (fresh : Fresh) : Log.Note where
  level := .error
  message := "panic in handler"
  fields :=
    [("error", .text reason), ("method", .text r.method), ("path", .text r.path),
     ("stack", .text fresh.stack)]

/-- The response and the note for what a handler did.  Why it broke off is told in the log only. -/
def finish (traced : Bool) (r : Http.Request) (fresh : Fresh) (handled : Handled) :
    Http.Response × Log.Note :=
  let id := requestId r fresh
  let marked (response : Http.Response) : Http.Response :=
    let response := response.adding "X-Request-ID" id
    if traced then response.adding "X-Trace-ID" (traceId r fresh) else response
  match handled with
  | .ok response => (marked response, completed r id response.status fresh)
  | .error reason =>
    (marked (errorResponse 500 (stated "internal" "internal server error")),
      brokeOff r reason fresh)

/-- May a response with this status have a body? -/
def allowsBody (status : Int) : Bool :=
  200 ≤ status && status != 204 && status != 304

/-- A handler that only sends a status and a text.  A status without three digits cannot be sent. -/
def fixed (status : Int) (text : String) : Handled :=
  if status < 100 || 999 < status then .error ("invalid WriteHeader code " ++ toString status)
  else .ok { status := status, body := .text (if allowsBody status then text else "") }

end Service
end Whiteboard
