import Whiteboard.Settings

namespace Whiteboard
namespace Settings

/-!
The fields of the settings by name.  The same table serves configuration files, patches and the
environment.
-/

structure Access (α : Type) where
  get : Settings → α
  set : α → Settings → Settings

/-- A field with the kind of its values. -/
inductive Slot where
  | text (field : Access String)
  | int (field : Access Int)
  | duration (field : Access Int)
  | bool (field : Access Bool)
  | real (field : Access Float)
  | texts (field : Access (List String))
  | reals (field : Access (List Float))

/-- A field: its path of names, and whether the environment can set it. -/
structure Entry where
  path : List String
  slot : Slot
  inEnvironment : Bool := true

def schema : List Entry :=
  [⟨["compiler", "dialect"],
      .text ⟨(·.compiler.dialect), fun v s => { s with compiler.dialect := v }⟩, true⟩,
   ⟨["compiler", "max_line_width"],
      .int ⟨(·.compiler.maxLineWidth), fun v s => { s with compiler.maxLineWidth := v }⟩, true⟩,
   ⟨["compiler", "standalone"],
      .bool ⟨(·.compiler.standalone), fun v s => { s with compiler.standalone := v }⟩, true⟩,
   ⟨["prose", "starters"],
      .texts ⟨(·.prose.starters), fun v s => { s with prose.starters := v }⟩, true⟩,
   ⟨["prose", "indicators"],
      .texts ⟨(·.prose.indicators), fun v s => { s with prose.indicators := v }⟩, true⟩,
   ⟨["prose", "lookahead"],
      .int ⟨(·.prose.lookahead), fun v s => { s with prose.lookahead := v }⟩, true⟩,
   ⟨["cache", "enabled"],
      .bool ⟨(·.cache.enabled), fun v s => { s with cache.enabled := v }⟩, true⟩,
   ⟨["cache", "backend"],
      .text ⟨(·.cache.backend), fun v s => { s with cache.backend := v }⟩, true⟩,
   ⟨["cache", "driver"],
      .text ⟨(·.cache.driver), fun v s => { s with cache.driver := v }⟩, true⟩,
   ⟨["cache", "path"],
      .text ⟨(·.cache.path), fun v s => { s with cache.path := v }⟩, true⟩,
   ⟨["cache", "ttl"],
      .duration ⟨(·.cache.ttl), fun v s => { s with cache.ttl := v }⟩, true⟩,
   ⟨["cache", "prune_schedule"],
      .text ⟨(·.cache.pruneSchedule), fun v s => { s with cache.pruneSchedule := v }⟩, true⟩,
   ⟨["server", "listen_address"],
      .text ⟨(·.server.listenAddress), fun v s => { s with server.listenAddress := v }⟩, true⟩,
   ⟨["server", "read_timeout"],
      .duration ⟨(·.server.readTimeout), fun v s => { s with server.readTimeout := v }⟩, true⟩,
   ⟨["server", "write_timeout"],
      .duration ⟨(·.server.writeTimeout), fun v s => { s with server.writeTimeout := v }⟩, true⟩,
   ⟨["server", "idle_timeout"],
      .duration ⟨(·.server.idleTimeout), fun v s => { s with server.idleTimeout := v }⟩, true⟩,
   ⟨["server", "shutdown_timeout"],
      .duration ⟨(·.server.shutdownTimeout),
        fun v s => { s with server.shutdownTimeout := v }⟩, true⟩,
   ⟨["server", "max_body_bytes"],
      .int ⟨(·.server.maxBodyBytes), fun v s => { s with server.maxBodyBytes := v }⟩, true⟩,
   ⟨["watch", "debounce"],
      .duration ⟨(·.watch.debounce), fun v s => { s with watch.debounce := v }⟩, true⟩,
   ⟨["watch", "extensions"],
      .texts ⟨(·.watch.extensions), fun v s => { s with watch.extensions := v }⟩, true⟩,
   ⟨["telemetry", "logging", "level"],
      .text ⟨(·.telemetry.logging.level),
        fun v s => { s with telemetry.logging.level := v }⟩, true⟩,
   ⟨["telemetry", "logging", "format"],
      .text ⟨(·.telemetry.logging.format),
        fun v s => { s with telemetry.logging.format := v }⟩, true⟩,
   ⟨["telemetry", "logging", "add_source"],
      .bool ⟨(·.telemetry.logging.addSource),
        fun v s => { s with telemetry.logging.addSource := v }⟩, false⟩,
   ⟨["telemetry", "metrics", "enabled"],
      .bool ⟨(·.telemetry.metrics.enabled),
        fun v s => { s with telemetry.metrics.enabled := v }⟩, true⟩,
   ⟨["telemetry", "metrics", "path"],
      .text ⟨(·.telemetry.metrics.path),
        fun v s => { s with telemetry.metrics.path := v }⟩, true⟩,
   ⟨["telemetry", "metrics", "namespace"],
      .text ⟨(·.telemetry.metrics.nameSpace),
        fun v s => { s with telemetry.metrics.nameSpace := v }⟩, false⟩,
   ⟨["telemetry", "metrics", "subsystem"],
      .text ⟨(·.telemetry.metrics.subsystem),
        fun v s => { s with telemetry.metrics.subsystem := v }⟩, false⟩,
   ⟨["telemetry", "metrics", "duration_buckets"],
      .reals ⟨(·.telemetry.metrics.durationBuckets),
        fun v s => { s with telemetry.metrics.durationBuckets := v }⟩, false⟩,
   ⟨["telemetry", "tracing", "enabled"],
      .bool ⟨(·.telemetry.tracing.enabled),
        fun v s => { s with telemetry.tracing.enabled := v }⟩, true⟩,
   ⟨["telemetry", "tracing", "sampler"],
      .text ⟨(·.telemetry.tracing.sampler),
        fun v s => { s with telemetry.tracing.sampler := v }⟩, true⟩,
   ⟨["telemetry", "tracing", "sample_ratio"],
      .real ⟨(·.telemetry.tracing.sampleRatio),
        fun v s => { s with telemetry.tracing.sampleRatio := v }⟩, true⟩,
   ⟨["telemetry", "tracing", "endpoint"],
      .text ⟨(·.telemetry.tracing.endpoint),
        fun v s => { s with telemetry.tracing.endpoint := v }⟩, true⟩,
   ⟨["telemetry", "tracing", "service_name"],
      .text ⟨(·.telemetry.tracing.serviceName),
        fun v s => { s with telemetry.tracing.serviceName := v }⟩, false⟩,
   ⟨["telemetry", "tracing", "insecure"],
      .bool ⟨(·.telemetry.tracing.insecure),
        fun v s => { s with telemetry.tracing.insecure := v }⟩, true⟩,
   ⟨["telemetry", "health", "enabled"],
      .bool ⟨(·.telemetry.health.enabled),
        fun v s => { s with telemetry.health.enabled := v }⟩, true⟩,
   ⟨["telemetry", "health", "liveness_path"],
      .text ⟨(·.telemetry.health.livenessPath),
        fun v s => { s with telemetry.health.livenessPath := v }⟩, false⟩,
   ⟨["telemetry", "health", "readiness_path"],
      .text ⟨(·.telemetry.health.readinessPath),
        fun v s => { s with telemetry.health.readinessPath := v }⟩, false⟩,
   ⟨["telemetry", "health", "check_timeout"],
      .duration ⟨(·.telemetry.health.checkTimeout),
        fun v s => { s with telemetry.health.checkTimeout := v }⟩, false⟩]

end Settings
end Whiteboard
