import Whiteboard.Address
import Whiteboard.Failure
import Whiteboard.Settings
import Whiteboard.Text.Case

namespace Whiteboard
namespace Settings

/-!
Which settings are allowed.  A check lists the fields that break a rule, in the order of the
sections.  Which texts are schedules is for the timetable to say.
-/

def breach (broken : Bool) (field message : String) : List Violation :=
  if broken then [⟨field, message⟩] else []

def Compiler.violations (c : Compiler) : List Violation :=
  breach (["fuzz", "zed", "zed-cm"].all (· != Text.lowerText c.dialect)) "compiler.dialect"
      ("invalid dialect " ++ Text.quoted c.dialect ++ ": must be 'fuzz' or 'zed'") ++
    breach (decide (c.maxLineWidth < 0)) "compiler.max_line_width"
      "max line width must be non-negative"

def Prose.violations (p : Prose) : List Violation :=
  breach (decide (p.lookahead < 0)) "prose.lookahead" "lookahead must be non-negative"

/-- Which stores there are, and what the one on disk needs. -/
def Cache.storeViolations (c : Cache) : List Violation :=
  match c.backend with
  | "memory" => []
  | "sqlite" =>
    breach c.path.isEmpty "cache.path" "path is required for the sqlite backend" ++
      breach (c.driver != "modernc" && c.driver != "cgo") "cache.driver"
        ("invalid driver " ++ Text.quoted c.driver ++ ": must be 'modernc' or 'cgo'")
  | other =>
    breach true "cache.backend"
      ("invalid backend " ++ Text.quoted other ++ ": must be 'memory' or 'sqlite'")

/-- A cache that is switched off breaks no rule. -/
def Cache.violations (isSchedule : String → Bool) (c : Cache) : List Violation :=
  if c.enabled then
    c.storeViolations ++
      breach (decide (c.ttl < 0)) "cache.ttl" "ttl must be positive" ++
      breach (!c.pruneSchedule.isEmpty && !isSchedule c.pruneSchedule)
        "cache.prune_schedule" ("invalid cron expression " ++ Text.quoted c.pruneSchedule)
  else []

def Server.violations (s : Server) : List Violation :=
  (if s.listenAddress.isEmpty then
    breach true "server.listen_address" "listen address is required"
  else
    breach (Address.read s.listenAddress).isNone "server.listen_address"
      ("invalid listen address " ++ Text.quoted s.listenAddress)) ++
    breach (decide (s.readTimeout < 0)) "server.read_timeout" "read timeout must be positive" ++
    breach (decide (s.writeTimeout < 0)) "server.write_timeout" "write timeout must be positive" ++
    breach (decide (s.idleTimeout < 0)) "server.idle_timeout" "idle timeout must be positive" ++
    breach (decide (s.shutdownTimeout < 0)) "server.shutdown_timeout"
      "shutdown timeout must be positive" ++
    breach (decide (s.maxBodyBytes < 0)) "server.max_body_bytes"
      "max body bytes must be non-negative"

def Watch.violations (w : Watch) : List Violation :=
  breach (decide (w.debounce < 0)) "watch.debounce" "debounce must be positive" ++
    (w.extensions.mapIdx fun i ext =>
      breach (!Text.opensWith '.' ext) ("watch.extensions[" ++ toString i ++ "]")
        ("extension " ++ Text.quoted ext ++ " must start with '.'")).flatten

/-- A field that must hold one of a few words. -/
def wordViolations (field what allowed : String) (words : List String) (value : String) :
    List Violation :=
  if value.isEmpty then [⟨field, what ++ " is required"⟩]
  else
    breach (!words.contains value) field
      ("invalid " ++ what ++ " " ++ Text.quoted value ++ ": must be " ++ allowed)

def Logging.violations (l : Logging) : List Violation :=
  wordViolations "telemetry.logging.level" "logging level" "'debug', 'info', 'warn', or 'error'"
      ["debug", "info", "warn", "error"] l.level ++
    wordViolations "telemetry.logging.format" "logging format" "'json', 'text' or 'console'"
      ["json", "text", "console"] l.format

def increasing : List Float → Bool
  | a :: b :: rest => !decide (b ≤ a) && increasing (b :: rest)
  | _ => true

def Metrics.violations (m : Metrics) : List Violation :=
  breach (m.enabled && !Text.opensWith '/' m.path) "telemetry.metrics.path"
      "metrics path must start with '/' when metrics are enabled" ++
    breach (!increasing m.durationBuckets) "telemetry.metrics.duration_buckets"
      "buckets must be strictly increasing"

def Tracing.violations (t : Tracing) : List Violation :=
  breach (t.enabled && t.endpoint.isEmpty) "telemetry.tracing.endpoint"
      "tracing endpoint is required when tracing is enabled" ++
    breach (["", "always", "never", "ratio"].all (· != t.sampler)) "telemetry.tracing.sampler"
      ("invalid sampler " ++ Text.quoted t.sampler ++ ": must be 'always', 'never' or 'ratio'") ++
    breach (decide (t.sampleRatio < 0.0) || decide (1.0 < t.sampleRatio))
      "telemetry.tracing.sample_ratio" "sample ratio must be between 0.0 and 1.0"

def Health.violations (h : Health) : List Violation :=
  breach (h.enabled && h.livenessPath.isEmpty) "telemetry.health.liveness_path"
      "liveness path is required when health checks are enabled" ++
    breach (h.enabled && h.readinessPath.isEmpty) "telemetry.health.readiness_path"
      "readiness path is required when health checks are enabled"

def Telemetry.violations (t : Telemetry) : List Violation :=
  t.logging.violations ++ t.metrics.violations ++ t.tracing.violations ++ t.health.violations

def violations (isSchedule : String → Bool) (s : Settings) : List Violation :=
  s.compiler.violations ++ s.prose.violations ++ s.cache.violations isSchedule ++
    s.server.violations ++ s.watch.violations ++ s.telemetry.violations

/-- The settings themselves, if no field breaks a rule. -/
def check (isSchedule : String → Bool) (s : Settings) : Except Failure Settings :=
  if (s.violations isSchedule).isEmpty then .ok s else .error (.settings (s.violations isSchedule))

end Settings
end Whiteboard
