import Whiteboard.Duration

namespace Whiteboard

/-!
The settings of the program, section by section.  A field that was not set has the neutral value
of its type; `withDefaults` replaces these.  Lengths of time are in nanoseconds.
-/

namespace Settings

/-- How sources are compiled. -/
structure Compiler where
  dialect : String := ""
  maxLineWidth : Int := 0
  standalone : Bool := false

/-- How prose is told from formulas; empty lists stand for the standard ones. -/
structure Prose where
  starters : List String := []
  indicators : List String := []
  lookahead : Int := 0

/-- Where results are kept, and for how long. -/
structure Cache where
  enabled : Bool := false
  backend : String := ""
  driver : String := ""
  path : String := ""
  ttl : Int := 0
  pruneSchedule : String := ""

/-- The service over the network. -/
structure Server where
  listenAddress : String := ""
  readTimeout : Int := 0
  writeTimeout : Int := 0
  idleTimeout : Int := 0
  shutdownTimeout : Int := 0
  maxBodyBytes : Int := 0

/-- Which files are watched, and how long changes settle. -/
structure Watch where
  debounce : Int := 0
  extensions : List String := []

structure Logging where
  level : String := ""
  format : String := ""
  addSource : Bool := false

structure Metrics where
  enabled : Bool := false
  path : String := ""
  nameSpace : String := ""
  subsystem : String := ""
  durationBuckets : List Float := []

structure Tracing where
  enabled : Bool := false
  sampler : String := ""
  sampleRatio : Float := 0.0
  endpoint : String := ""
  serviceName : String := ""
  insecure : Bool := false

structure Health where
  enabled : Bool := false
  livenessPath : String := ""
  readinessPath : String := ""
  checkTimeout : Int := 0

/-- What the program tells about its own work. -/
structure Telemetry where
  logging : Logging := {}
  metrics : Metrics := {}
  tracing : Tracing := {}
  health : Health := {}

end Settings

structure Settings where
  compiler : Settings.Compiler := {}
  prose : Settings.Prose := {}
  cache : Settings.Cache := {}
  server : Settings.Server := {}
  watch : Settings.Watch := {}
  telemetry : Settings.Telemetry := {}

namespace Settings

/-- The value, or the default if it is empty. -/
def orText (value default : String) : String :=
  if value.isEmpty then default else value

/-- The value, or the default if it is zero. -/
def orInt (value default : Int) : Int :=
  if value == 0 then default else value

/-- The value, or the default if it is zero. -/
def orReal (value default : Float) : Float :=
  if value == 0.0 then default else value

/-- The value, or the default if it is empty. -/
def orList {α : Type} (value default : List α) : List α :=
  if value.isEmpty then default else value

def defaultBuckets : List Float :=
  [0.0005, 0.001, 0.005, 0.01, 0.05, 0.1, 0.5, 1.0]

def Compiler.withDefaults (c : Compiler) : Compiler :=
  { c with dialect := orText c.dialect "fuzz", maxLineWidth := orInt c.maxLineWidth 80 }

def Prose.withDefaults (p : Prose) : Prose :=
  { p with lookahead := orInt p.lookahead 6 }

def Cache.withDefaults (c : Cache) : Cache :=
  { c with
    backend := orText c.backend "memory"
    driver := orText c.driver "modernc"
    path := orText c.path "zedtex-cache.db"
    ttl := orInt c.ttl (7 * 24 * Duration.hour)
    pruneSchedule := orText c.pruneSchedule "0 4 * * *" }

def Server.withDefaults (s : Server) : Server where
  listenAddress := orText s.listenAddress "127.0.0.1:8080"
  readTimeout := orInt s.readTimeout (30 * Duration.second)
  writeTimeout := orInt s.writeTimeout (30 * Duration.second)
  idleTimeout := orInt s.idleTimeout (120 * Duration.second)
  shutdownTimeout := orInt s.shutdownTimeout (15 * Duration.second)
  maxBodyBytes := orInt s.maxBodyBytes 1048576

def Watch.withDefaults (w : Watch) : Watch where
  debounce := orInt w.debounce (200 * Duration.millisecond)
  extensions := orList w.extensions [".txt", ".zed"]

def Logging.withDefaults (l : Logging) : Logging :=
  { l with level := orText l.level "info", format := orText l.format "console" }

def Metrics.withDefaults (m : Metrics) : Metrics :=
  { m with
    path := orText m.path "/metrics"
    nameSpace := orText m.nameSpace "zedtex"
    subsystem := orText m.subsystem "compiler"
    durationBuckets := orList m.durationBuckets defaultBuckets }

def Tracing.withDefaults (t : Tracing) : Tracing :=
  { t with
    sampler := orText t.sampler "always"
    sampleRatio := orReal t.sampleRatio 1.0
    serviceName := orText t.serviceName "zedtex" }

def Health.withDefaults (h : Health) : Health :=
  { h with
    livenessPath := orText h.livenessPath "/health"
    readinessPath := orText h.readinessPath "/ready"
    checkTimeout := orInt h.checkTimeout (5 * Duration.second) }

def Telemetry.withDefaults (t : Telemetry) : Telemetry where
  logging := t.logging.withDefaults
  metrics := t.metrics.withDefaults
  tracing := t.tracing.withDefaults
  health := t.health.withDefaults

/-- Replaces every field that was not set; switches stay as they are. -/
def withDefaults (s : Settings) : Settings where
  compiler := s.compiler.withDefaults
  prose := s.prose.withDefaults
  cache := s.cache.withDefaults
  server := s.server.withDefaults
  watch := s.watch.withDefaults
  telemetry := s.telemetry.withDefaults

/-- The settings of a program that was told nothing: cache, metrics and health checks are on. -/
def default : Settings :=
  withDefaults
    { cache := { enabled := true }
      telemetry := { metrics := { enabled := true }, health := { enabled := true } } }

instance : Inhabited Settings := ⟨default⟩

end Settings
end Whiteboard
