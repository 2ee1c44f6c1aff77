import Whiteboard.Command.Cache
import Whiteboard.Command.Compile
import Whiteboard.Command.Inspect

namespace Whiteboard
namespace Command

/-!
The program: the words of a command line, and what a run with them does.
-/

inductive Verb where
  | compile
  | tokens
  | ast
  | cachePrune
  | cacheStats
  | serve
  | watch
  | version
  deriving DecidableEq

namespace Verb

def words : Verb → List String
  | compile => ["compile"]
  | tokens => ["tokens"]
  | ast => ["ast"]
  | cachePrune => ["cache", "prune"]
  | cacheStats => ["cache", "stats"]
  | serve => ["serve"]
  | watch => ["watch"]
  | version => ["version"]

def all : List Verb :=
  [compile, tokens, ast, cachePrune, cacheStats, serve, watch, version]

def flags (v : Verb) : List Flag :=
  commonFlags ++
    match v with
    | compile => compileFlags
    | tokens => inspectFlags
    | ast => inspectFlags
    | cachePrune => pruneFlags
    | cacheStats => statsFlags
    | serve => [{ name := "listen", letter := some 'l' }, { name := "dry-run", kind := .switch }]
    | watch => [{ name := "dialect", letter := some 'd' }, { name := "output-dir" }]
    | version => []

def checkRest (v : Verb) (rest : List String) : Except Failure Unit :=
  let none : Except Failure Unit :=
    match rest with
    | [] => .ok ()
    | word :: _ =>
      .error (.stated ("unknown command " ++ Text.quoted word ++ " for " ++
        Text.quoted (Text.joinWith " " ("zedtex" :: v.words))))
  let one : Except Failure Unit :=
    if rest.length == 1 then .ok ()
    else .error (.stated ("accepts 1 arg(s), received " ++ toString rest.length))
  match v with
  | compile => .ok ()
  | tokens => one
  | ast => one
  | watch =>
    if rest.isEmpty then .error (.stated "requires at least 1 arg(s), only received 0") else .ok ()
  | version => .ok ()
  | _ => none

end Verb

structure Invocation where
  verb : Verb
  arguments : Arguments

def findVerb (words : List String) : Except Failure (Verb × List String) :=
  match takeWord commonFlags words with
  | none => .error (.stated "no command given")
  | some (first, rest) =>
    match Verb.all.find? fun v => v.words == [first] with
    | some v => .ok (v, rest)
    | none =>
      let unknown : Except Failure (Verb × List String) :=
        .error (.stated ("unknown command " ++ Text.quoted first ++ " for \"zedtex\""))
      match takeWord commonFlags rest with
      | none => unknown
      | some (second, rest) =>
        match Verb.all.find? fun v => v.words == [first, second] with
        | some v => .ok (v, rest)
        | none => unknown

/-- Reads a command line: first the verb, then the flags, then the number of arguments. -/
def Invocation.read (words : List String) : Except Failure Invocation := do
  let (verb, rest) ← findVerb words
  let arguments ← Arguments.read verb.flags rest
  verb.checkRest arguments.rest
  return ⟨verb, arguments⟩

def Invocation.paths (i : Invocation) : List String :=
  (i.arguments.text "config" :: i.arguments.text "output" :: i.arguments.rest).filter fun p =>
    !p.isEmpty && p != "-"

def Invocation.readsInput (i : Invocation) : Bool :=
  i.arguments.rest.contains "-" || (i.verb == .compile && i.arguments.rest.isEmpty)

def serve (h : Host) (a : Arguments) (d : Desk) : Except Failure Desk := do
  let s ← settings h a
  let address := if (a.text "listen").isEmpty then s.server.listenAddress else a.text "listen"
  let t ← tools s
  if a.switch "dry-run" then
    return d.log t.logger
      [{ level := .info, message := "configuration valid",
         fields := [("listen_address", .text address)] }]
  else throw (.stated ("failed to listen on " ++ address ++ ": no network here"))

def Invocation.run (i : Invocation) (h : Host) (d : Desk) : Except Failure (Desk × Ending) :=
  let a := i.arguments
  let input := a.rest.headD ""
  let plain (r : Except Failure Desk) : Except Failure (Desk × Ending) := r.map fun d => (d, .done)
  match i.verb with
  | .compile => compile h a d
  | .tokens => plain (showTokens h a d input)
  | .ast => plain (showTree h a d input)
  | .cachePrune => plain (prune h a d)
  | .cacheStats => plain (stats h a d)
  | .serve => plain (serve h a d)
  | .watch => .error (.stated "nothing can be watched here")
  | .version => .ok (d.print ("zedtex " ++ version ++ "\n"), .done)

structure Outcome where
  exit : Nat
  out : String
  err : String
  written : List (String × String)

def run (h : Host) (words : List String) : Outcome :=
  let d := Desk.ofHost h
  let (d, ending) :=
    match Invocation.read words >>= fun i => i.run h d with
    | .ok r => r
    | .error f => (d, .failed f)
  let (exit, last) :=
    match ending with
    | .done => (0, "")
    | .failed f => (1, Report.failure f)
    | .batch failed total =>
      (1, if 1 < total then Failure.batchText failed total ++ "\n" else "")
  { exit := exit, out := d.out, err := d.err ++ last, written := h.files.changes d.files }

end Command
end Whiteboard
