import Whiteboard.Data.Json
import Whiteboard.Failure
import Whiteboard.Text.Case

namespace Whiteboard
namespace Log

/-!
Log lines: a level, a message and named values, as text or as JSON.
-/

inductive Level where
  | debug
  | info
  | warn
  | error
  deriving DecidableEq, Inhabited

namespace Level

def name : Level → String
  | debug => "DEBUG"
  | info => "INFO"
  | warn => "WARN"
  | error => "ERROR"

def rank : Level → Nat
  | debug => 0
  | info => 1
  | warn => 2
  | error => 3

/-- The level with a name in any case; no name is `info`. -/
def ofName (s : String) : Except Failure Level :=
  match Text.lowerText s with
  | "debug" => .ok debug
  | "info" => .ok info
  | "" => .ok info
  | "warn" => .ok warn
  | "warning" => .ok warn
  | "error" => .ok error
  | _ => .error (.within "invalid log level" (.stated ("unknown log level: " ++ s)))

end Level

/-- JSON, text, or text without the time. -/
inductive Format where
  | json
  | text
  | console
  deriving DecidableEq, Inhabited

/-- The format with a name in any case; no name is JSON. -/
def Format.ofName (s : String) : Except Failure Format :=
  match Text.lowerText s with
  | "json" => .ok json
  | "" => .ok json
  | "text" => .ok text
  | "console" => .ok console
  | _ => .error (.within "invalid log format" (.stated ("unknown log format: " ++ s)))

abbrev Field := String × Data

structure Note where
  level : Level
  message : String
  fields : List Field := []

/-- Pairs names with the values after them.  A value without a name, and a name without a value,
is filed under `!BADKEY`. -/
def pairs : List Data → List Field
  | [] => []
  | .text name :: value :: rest => (name, value) :: pairs rest
  | value :: rest => ("!BADKEY", value) :: pairs rest

/-- What is known about the work that a line belongs to; empty parts are left out. -/
structure Context where
  runId : String := ""
  sourceFile : String := ""
  dialect : String := ""
  requestId : String := ""
  traceId : String := ""
  spanId : String := ""

namespace Context

def values (c : Context) : List (String × String) :=
  [("run_id", c.runId), ("source_file", c.sourceFile), ("dialect", c.dialect),
   ("request_id", c.requestId), ("trace_id", c.traceId), ("span_id", c.spanId)]

def fields (c : Context) : List Field :=
  c.values.flatMap fun (name, value) => Data.textField name value

end Context

def needsQuotes (s : String) : Bool :=
  s.isEmpty || s.toList.any fun c =>
    c == ' ' || c == '=' || c == '"' || c.toNat < 32 ||
      (127 < c.toNat && (Text.isBlank c || !Text.isPrintable c || c.toNat == 0xFFFD))

def word (s : String) : String :=
  if needsQuotes s then Text.quoted s else s

def textLine (fields : List Field) : String :=
  Text.joinWith " " (fields.map fun (name, value) => word name ++ "=" ++ word value.plainText)

def jsonLine (fields : List Field) : String :=
  Json.write .logged ⟨none⟩ 0 (.record fields)

/-- What is logged, in which form, and what every line tells. -/
structure Logger where
  level : Level
  format : Format
  fields : List Field := []

namespace Logger

def ofNames (level format : String) : Except Failure Logger := do
  return { level := ← Level.ofName level, format := ← Format.ofName format }

def adding (l : Logger) (fields : List Field) : Logger :=
  { l with fields := l.fields ++ fields }

/-- The line of a note; none if its level is too low.  An empty time is left out. -/
def line (l : Logger) (n : Note) (time : String := "") : Option String :=
  if n.level.rank < l.level.rank then none
  else
    let fields :=
      ("level", .text n.level.name) :: ("msg", .text n.message) :: (l.fields ++ n.fields)
    match l.format with
    | .json => some (jsonLine (Data.textField "time" time ++ fields))
    | .text => some (textLine (Data.textField "time" time ++ fields))
    | .console => some (textLine fields)

def lines (l : Logger) (ns : List Note) : List String :=
  ns.filterMap (fun n => l.line n)

end Logger
end Log
end Whiteboard
