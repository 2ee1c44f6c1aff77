import Whiteboard.Compiler
import Whiteboard.Data.Reader
import Whiteboard.Health
import Whiteboard.Report
import Whiteboard.Service.Chain

namespace Whiteboard

/-!
The compiler as a service: sources come in requests, and probes and counts can be asked for.
-/

namespace Service

/-- What a path leads to. -/
inductive Target where
  | compile
  | liveness
  | readiness
  | metrics
  deriving DecidableEq

def compilePath : String := "/v1/compile"

/-- The paths of the service; those for probes and counts may be missing. -/
structure Routes where
  liveness : Option String := none
  readiness : Option String := none
  metrics : Option String := none

namespace Routes

def ofSettings (s : Settings) : Routes where
  liveness := if s.telemetry.health.enabled then some s.telemetry.health.livenessPath else none
  readiness := if s.telemetry.health.enabled then some s.telemetry.health.readinessPath else none
  metrics :=
    if s.telemetry.metrics.enabled && !s.telemetry.metrics.path.isEmpty then
      some s.telemetry.metrics.path
    else none

def table (r : Routes) : List (String × Target) :=
  let optional (path : Option String) (t : Target) : List (String × Target) :=
    path.toList.map fun p => (p, t)
  (compilePath, .compile) :: optional r.liveness .liveness ++ optional r.readiness .readiness ++
    optional r.metrics .metrics

def paths (r : Routes) : List String :=
  r.table.map (·.1)

def leads (pattern path : String) : Bool :=
  pattern == path ||
    (pattern.toList.getLast? == some '/' && pattern.toList.isPrefixOf path.toList)

/-- The longest pattern that leads a path. -/
def target? (r : Routes) (path : String) : Option Target :=
  ((r.table.filter fun route => leads route.1 path).foldl (fun (best : Option (String × Target)) route =>
    match best with
    | some b => if b.1.length < route.1.length then some route else best
    | none => some route) none).map (·.2)

end Routes

/-- What a request for a compilation asks for; an empty dialect is that of the service. -/
structure Job where
  source : String := ""
  dialect : String := ""
  name : String := ""

namespace Job

def fieldName (name : String) : List Char :=
  name.toList.map fun c =>
    if 'A' ≤ c && c ≤ 'Z' then Char.ofNat (c.toNat + 32)
    else if c.toNat == 0x17F then 's' else c

/-- Sets a field; `null` leaves it as it is. -/
def set (job : Job) (field : String × Data) : Option Job :=
  let slot (put : String → Job) : Option Job :=
    match field.2 with
    | .text s => some (put s)
    | .null => some job
    | _ => none
  if fieldName field.1 == "source".toList then slot fun s => { job with source := s }
  else if fieldName field.1 == "dialect".toList then slot fun s => { job with dialect := s }
  else if fieldName field.1 == "name".toList then slot fun s => { job with name := s }
  else none

def ofData : Data → Option Job
  | .null => some {}
  | .record fields => fields.foldlM set {}
  | _ => none

end Job

/-- The characters that lie, at least in part, within the first `n` bytes. -/
def firstBytes : Nat → List Char → List Char
  | _, [] => []
  | n, c :: cs => if n == 0 then [] else c :: firstBytes (n - c.utf8Size) cs

/-- Does a value end only where something else begins? -/
def isOpenEnded : Data → Bool
  | .record _ => false
  | .list _ => false
  | _ => true

/-- The job in a body, or the response that refuses it.  A limit that is not positive is none. -/
def readJob (maxBody : Int) (body : String) : Except Http.Response Job :=
  let limited := 0 < maxBody
  let cut := limited && maxBody < body.utf8ByteSize
  let invalid := errorResponse 400 (stated "request" "invalid JSON body")
  let early : Http.Response :=
    if cut then
      errorResponse 413
        (stated "request" ("request body exceeds " ++ toString maxBody ++ " bytes"))
    else invalid
  match Json.read (if limited then firstBytes maxBody.toNat body.toList else body.toList) with
  | .malformed => .error invalid
  | .unfinished => .error early
  | .done d rest =>
    if rest.isEmpty && cut && isOpenEnded d then .error early
    else
      match Job.ofData d with
      | some job => .ok job
      | none => .error invalid

end Service

/-- A compiler with what the service adds to it: a limit for bodies, the routes, whether requests
are traced, and the version that probes tell. -/
structure Service (σ : Type) where
  compiler : Compiler σ
  maxBody : Int := 0
  routes : Service.Routes := {}
  traced : Bool := false
  version : String := ""

namespace Service

variable {σ : Type} [Cache.Storage σ]

def compiledResponse (c : Compiled) (runId : String) : Http.Response :=
  .ofData 200 (.record
    ([("output", .text c.rendered.text), ("warnings", .list (c.rendered.warnings.map Warning.toData)),
      ("error", .null)] ++ Data.textField "run_id" runId ++ Data.boolField "cached" c.cached))

def compile (s : Service σ) (r : Http.Request) (m : Moment) : Http.Response × Service σ :=
  if r.method != "POST" then
    ((errorResponse 405 (stated "request" "method not allowed, use POST")).adding "Allow" "POST", s)
  else
    match readJob s.maxBody r.body with
    | .error response => (response, s)
    | .ok job =>
      let dialect : Except String Dialect :=
        if job.dialect.isEmpty then .ok s.compiler.options.layout.dialect
        else Dialect.ofName job.dialect
      match dialect with
      | .error reason => (errorResponse 400 (stated "request" reason), s)
      | .ok d =>
        let (result, compiler, _) :=
          s.compiler.compile { name := job.name, source := job.source, dialect := d } m
        let response :=
          match result with
          | .ok c => compiledResponse c m.runId
          | .error d => errorResponse 422 (Failure.diagnostic d).toData
        (response, { s with compiler := compiler })

/-- The checks of the service: the compiler compiles its probe, and the store can be read. -/
def checker (s : Service σ) : Health.Checker × Service σ :=
  let verdict (r : Except String Unit) : Health.Verdict :=
    match r with
    | .ok _ => .passed
    | .error reason => .failed reason
  let (found, compiler, _) := s.compiler.healthCheck
  let base : Health.Checker := { version := s.version }
  let checker := base.register "compiler" (verdict (found.mapError Failure.text))
  let checker :=
    match s.compiler.store with
    | some store =>
      checker.register "cache"
        (verdict (((Cache.Storage.stats store).map fun _ => ()).mapError Cache.Fault.message))
    | none => checker
  (checker, { s with compiler := compiler })

def metricsResponse (m : Metrics) : Http.Response where
  status := 200
  headers := [("Content-Type", "text/plain; version=0.0.4; charset=utf-8; escaping=underscores")]
  body := .text (String.join (m.lines.map (· ++ "\n")))

/-- What the service answers to a request, before the chain around it. -/
def answer (s : Service σ) (r : Http.Request) (m : Moment) (time : String) :
    Http.Response × Service σ :=
  match Http.redirection? r, s.routes.target? r.path with
  | some response, _ => (response, s)
  | none, none => (.notFound, s)
  | none, some .compile => s.compile r m
  | none, some .liveness => (({ version := s.version } : Health.Checker).liveResponse r time, s)
  | none, some .readiness =>
    if r.method == "GET" || r.method == "HEAD" then
      let (checker, s) := s.checker
      (checker.readyResponse r time, s)
    else (.refused 405 "Method not allowed", s)
  | none, some .metrics => (metricsResponse s.compiler.metrics, s)

/-- The response to a request, and what is logged about it. -/
def handle (s : Service σ) (r : Http.Request) (m : Moment) (time : String) (fresh : Fresh) :
    Http.Response × Log.Note × Service σ :=
  let (response, next) := s.answer r m time
  let (response, note) := finish s.traced r fresh (.ok response)
  (response, { note with fields := ("component", .text "server") :: note.fields }, next)

end Service
end Whiteboard
