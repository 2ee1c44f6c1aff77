import Whiteboard.Cache.Key
import Whiteboard.Cache.Pruning
import Whiteboard.Document.Walk
import Whiteboard.Log
import Whiteboard.Span

namespace Whiteboard

/-!
A compiler that serves requests: it keeps finished compilations in a store, counts what it does,
and tells about it in notes and spans.  What it answers does not depend on the telemetry.
-/

structure Request where
  name : String := ""
  source : String
  dialect : Dialect := .fuzz

/-- What belongs to one run and is not decided here: its identifier, the time, and how long it
took as it is written in the log. -/
structure Moment where
  runId : String
  now : Int
  elapsed : String

/-- A finished compilation; `tokens` is zero if it came from the store. -/
structure Compiled where
  name : String
  dialect : Dialect
  rendered : Rendered
  tokens : Nat
  cached : Bool

/-- What was noticed during a run, in order. -/
structure Telemetry where
  metrics : Metrics := {}
  notes : List Log.Note := []
  spans : List Span := []

namespace Telemetry

def note (t : Telemetry) (level : Log.Level) (message : String) (context : Log.Context)
    (fields : List Log.Field) : Telemetry :=
  { t with notes := t.notes ++
      [⟨level, message, ("component", .text "compiler") :: context.fields ++ fields⟩] }

def span (t : Telemetry) (s : Span) : Telemetry :=
  { t with spans := t.spans ++ [s] }

def stage (t : Telemetry) (name : String) (attributes : List (String × Data))
    (error : Option Diagnostic) : Telemetry :=
  let s : Span := { name := "zedtex." ++ name, attributes := attributes, isChild := true }
  { t with
    metrics := t.metrics.stage name
    spans := t.spans ++ [match error with
      | some d => s.failed d.text
      | none => s] }

end Telemetry

/-- The base options, the version that is part of every key, the store and the counts. -/
structure Compiler (σ : Type) where
  options : Options := {}
  version : String := "dev"
  store : Option σ := none
  metrics : Metrics := {}

namespace Compiler

/-- A count as an attribute or a field of a note. -/
def counted (name : String) (n : Nat) : String × Data :=
  (name, .int n)

def lexing (o : Options) (source : String) (t : Telemetry) :
    Except Diagnostic (List Token) × Telemetry :=
  match o.tokens source with
  | .ok toks => (.ok toks, t.stage "lex" [counted "zedtex.tokens" toks.length] none)
  | .error d => (.error d, t.stage "lex" [] (some d))

def parsing (o : Options) (source : String) (toks : List Token) (context : Log.Context)
    (t : Telemetry) : Except Diagnostic Document × Telemetry :=
  match Document.ofTokens o.file toks with
  | .ok doc =>
    let nodes := doc.nodes.length
    (.ok doc,
      (t.stage "parse" [counted "zedtex.items" doc.length, counted "zedtex.nodes" nodes]
        none).note .debug "parsed document" context
          [counted "items" doc.length, counted "nodes" nodes])
  | .error f =>
    let d := f.inSource source
    (.error d, t.stage "parse" [] (some d))

def rendering (o : Options) (source : String) (doc : Document) (t : Telemetry) :
    Except Diagnostic Rendered × Telemetry :=
  match doc.render o.layout with
  | .ok r => (.ok r, t.stage "generate" [counted "zedtex.warnings" r.warnings.length] none)
  | .error f =>
    let d := f.inSource source
    (.error d, t.stage "generate" [] (some d))

/-- The three stages; the result comes with the number of tokens. -/
def run (o : Options) (source : String) (context : Log.Context) (t : Telemetry) :
    Except Diagnostic (Rendered × Nat) × Telemetry :=
  match lexing o source t with
  | (.error d, t) => (.error d, t)
  | (.ok toks, t) =>
    let t := { t with metrics := t.metrics.tokens o.layout.dialect.name toks.length }
    match parsing o source toks context t with
    | (.error d, t) => (.error d, t)
    | (.ok doc, t) =>
      match rendering o source doc t with
      | (.error d, t) => (.error d, t)
      | (.ok r, t) => (.ok (r, toks.length), t)

variable {σ : Type} [Cache.Storage σ]

/-- The base options with the name and the dialect of a request. -/
def optionsFor (c : Compiler σ) (r : Request) : Options :=
  { c.options with file := r.name, layout := { c.options.layout with dialect := r.dialect } }

def keyFor (c : Compiler σ) (r : Request) : String :=
  Cache.key c.version (c.optionsFor r) r.source

/-- Looks a key up.  A store that fails is as good as one without the key. -/
def lookup (c : Compiler σ) (key : String) (context : Log.Context) (t : Telemetry) :
    Option Cache.Entry × Telemetry :=
  match c.store with
  | none => (none, t)
  | some store =>
    let backend := Cache.Storage.backend store
    match Cache.Storage.get store key with
    | .error f => (none, t.note .warn "cache lookup failed" context [("error", .text f.message)])
    | .ok (some e) => (some e, { t with metrics := t.metrics.cacheHit backend })
    | .ok none => (none, { t with metrics := t.metrics.cacheMiss backend })

/-- Keeps an entry.  A store that fails is left as it is. -/
def save (c : Compiler σ) (e : Cache.Entry) (context : Log.Context) (t : Telemetry) :
    Option σ × Telemetry :=
  match c.store with
  | none => (none, t)
  | some store =>
    match Cache.Storage.put store e with
    | .error f =>
      (some store, t.note .warn "cache store failed" context [("error", .text f.message)])
    | .ok store =>
      match Cache.Storage.stats store with
      | .ok s => (some store, { t with metrics := t.metrics.cacheSize s.backend s.entries })
      | .error _ => (some store, t)

def spanAttributes (c : Compiler σ) (r : Request) (m : Moment) (hit : Bool) :
    List (String × Data) :=
  [("zedtex.run_id", .text m.runId), ("zedtex.dialect", .text r.dialect.name)] ++
    Data.textField "zedtex.file" r.name ++
    (match c.store with
    | some store =>
      [("zedtex.cache.hit", .bool hit), ("zedtex.cache.backend", .text (Cache.Storage.backend store))]
    | none => [])

/-- Compiles a request, or takes the result from the store. -/
def compile (c : Compiler σ) (r : Request) (m : Moment) :
    Except Diagnostic Compiled × Compiler σ × Telemetry :=
  let dialect := r.dialect.name
  let size := r.source.utf8ByteSize
  let context : Log.Context := { runId := m.runId, sourceFile := r.name, dialect := dialect }
  let key := c.keyFor r
  let whole (hit : Bool) : Span :=
    { name := "zedtex.compile", attributes := c.spanAttributes r m hit }
  let recorded (t : Telemetry) (status : String) : Telemetry :=
    { t with metrics := t.metrics.compiled dialect status size }
  match c.lookup key context { metrics := c.metrics } with
  | (some e, t) =>
    let t := ((recorded t "cached").note .debug "served from cache" context
      [("key", .text (String.ofList (key.toList.take 12)))]).span (whole true)
    (.ok ⟨r.name, r.dialect, e.rendered, 0, true⟩, { c with metrics := t.metrics }, t)
  | (none, t) =>
    match run (c.optionsFor r) r.source context t with
    | (.error d, t) =>
      let stage := d.problem.stage
      let failed := ((whole false).failed d.text).adding
        [("zedtex.error.type", .text stage), ("zedtex.error.line", .int d.loc.line),
         ("zedtex.error.column", .int d.loc.column)]
      let t := ((recorded { t with metrics := t.metrics.error stage } "error").note .debug
        "compile failed" context
        [("type", .text stage), ("location", .text d.loc.text), ("error", .text d.text)]).span failed
      (.error d, { c with metrics := t.metrics }, t)
    | (.ok (rendered, tokens), t) =>
      let warnings := rendered.warnings.length
      let t := recorded t "success"
      let t := { t with metrics := t.metrics.warnings dialect warnings }
      let t := t.note .debug "compiled" context
        [counted "tokens" tokens, counted "warnings" warnings, ("duration", .text m.elapsed)]
      let entry : Cache.Entry :=
        { key := key, dialect := dialect, text := rendered.text, warnings := rendered.warnings,
          createdAt := m.now }
      let (store, t) := c.save entry context t
      let t := t.span { whole false with status := .ok }
      (.ok ⟨r.name, r.dialect, rendered, tokens, false⟩,
        { c with store := store, metrics := t.metrics }, t)

def tokens (c : Compiler σ) (name source : String) :
    Except Diagnostic (List Token) × Compiler σ × Telemetry :=
  let (r, t) := lexing { c.options with file := name } source { metrics := c.metrics }
  (r, { c with metrics := t.metrics }, t)

def document (c : Compiler σ) (name source : String) :
    Except Diagnostic Document × Compiler σ × Telemetry :=
  let o := { c.options with file := name }
  let (r, t) : Except Diagnostic Document × Telemetry :=
    match lexing o source { metrics := c.metrics } with
    | (.error d, t) => (.error d, t)
    | (.ok toks, t) => parsing o source toks {} t
  (r, { c with metrics := t.metrics }, t)

def probe : String := "p and q => r"

def probeText : String := "\\[ p \\land q \\implies r \\]\n"

/-- Compiles the probe, not looking at the store, and compares the text with what it has to be. -/
def healthCheck (c : Compiler σ) : Except Failure Unit × Compiler σ × Telemetry :=
  let o := { c.options with layout := { c.options.layout with dialect := .fuzz, standalone := false } }
  let (r, t) := run o probe {} { metrics := c.metrics }
  let verdict : Except Failure Unit :=
    match r with
    | .error d => .error (.within "canary compile failed" (.diagnostic d))
    | .ok (out, _) =>
      if out.text == probeText then .ok ()
      else .error (.stated ("canary output " ++ Text.quoted out.text ++ ", want " ++
        Text.quoted probeText))
  (verdict, { c with metrics := t.metrics }, t)

def prune (c : Compiler σ) (now ttl : Int) : Except Failure (Nat × Compiler σ) :=
  match c.store with
  | none => .ok (0, c)
  | some store =>
    match Cache.pruneOnce store now ttl c.metrics with
    | .ok (store, removed, m) => .ok (removed, { c with store := some store, metrics := m })
    | .error f => .error f.toFailure

end Compiler
end Whiteboard
