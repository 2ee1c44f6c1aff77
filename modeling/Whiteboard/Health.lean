import Whiteboard.Http

namespace Whiteboard
namespace Health

/-!
Whether a service lives and whether it is ready: it is ready if all its checks pass.
-/

/-- What a check found; one that does not answer in time is `late`. -/
inductive Verdict where
  | passed
  | failed (reason : String)
  | late
  deriving DecidableEq, Inhabited

namespace Verdict

def status : Verdict → String
  | passed => "ok"
  | _ => "unhealthy"

def message : Verdict → String
  | passed => ""
  | failed reason => reason
  | late => "health check timeout"

def toData (v : Verdict) : Data :=
  .record (("status", .text v.status) :: Data.textField "message" v.message)

end Verdict

/-- Named checks, each with what it finds now. -/
structure Checker where
  version : String := ""
  checks : List (String × Verdict) := []

namespace Checker

def unregister (c : Checker) (name : String) : Checker :=
  { c with checks := c.checks.filter fun check => check.1 != name }

/-- Adds a check in the place of another of its name. -/
def register (c : Checker) (name : String) (v : Verdict) : Checker :=
  { c with checks := (name, v) :: (c.unregister name).checks }

def names (c : Checker) : List String :=
  (c.checks.map (·.1)).mergeSort fun a b => decide (a ≤ b)

def isReady (c : Checker) : Bool :=
  c.checks.all fun check => check.2 == .passed

end Checker

structure Status where
  status : String
  version : String
  checks : List (String × Verdict) := []

/-- A service that can answer lives. -/
def Checker.live (c : Checker) : Status where
  status := "ok"
  version := c.version

def Checker.ready (c : Checker) : Status where
  status := if c.isReady then "ready" else "degraded"
  version := c.version
  checks := c.checks

def Status.toData (s : Status) (time : String) : Data :=
  .record
    ([("status", .text s.status)] ++ Data.textField "version" s.version ++
      (if s.checks.isEmpty then []
       else [("checks", .record (s.checks.map fun (name, v) => (name, v.toData)))]) ++
      [("timestamp", .text time)])

/-- The response to a probe; only its head is sent if that is all that is asked for. -/
def Status.response (s : Status) (status : Int) (r : Http.Request) (time : String) : Http.Response :=
  if r.method == "GET" then .ofData status (s.toData time)
  else if r.method == "HEAD" then { Http.Response.ofData status .null with body := .text "" }
  else .refused 405 "Method not allowed"

def Checker.liveResponse (c : Checker) (r : Http.Request) (time : String) : Http.Response :=
  c.live.response 200 r time

def Checker.readyResponse (c : Checker) (r : Http.Request) (time : String) : Http.Response :=
  c.ready.response (if c.isReady then 200 else 503) r time

/-- The answer of a checker whose probes have the given paths, if they have any. -/
def Checker.answer (c : Checker) (paths : Option (String × String)) (r : Http.Request)
    (time : String) : Http.Response :=
  match Http.redirection? r, paths with
  | some response, _ => response
  | none, none => .notFound
  | none, some (live, ready) =>
    if r.path == live then c.liveResponse r time
    else if r.path == ready then c.readyResponse r time
    else .notFound

end Health
end Whiteboard
