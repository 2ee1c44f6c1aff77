import Whiteboard.Data
import Whiteboard.Failure
import Whiteboard.Text.Decimal

namespace Whiteboard

/-!
Traces: spans of work with attributes, which of them are kept, and how a trace is continued from
another program.
-/

inductive Span.Status where
  | unset
  | ok
  | error (description : String)
  deriving DecidableEq, Inhabited

namespace Span.Status

def name : Span.Status → String
  | unset => "Unset"
  | ok => "Ok"
  | error _ => "Error"

def description : Span.Status → String
  | error text => text
  | _ => ""

end Span.Status

/-- A piece of work; `events` counts the failures that were recorded in it. -/
structure Span where
  name : String
  attributes : List (String × Data) := []
  status : Span.Status := .unset
  events : Nat := 0
  isChild : Bool := false

namespace Span

def adding (s : Span) (attributes : List (String × Data)) : Span :=
  { s with attributes := s.attributes ++ attributes }

/-- A span that ended in a failure. -/
def failed (s : Span) (message : String) : Span :=
  { s.adding [("error", .bool true), ("error.message", .text message)] with
    status := .error message, events := s.events + 1 }

end Span

/-- Which traces are kept: all, none, or a share of them. -/
inductive Sampler where
  | always
  | never
  | ratio (share : Float)

namespace Sampler

/-- The sampler with a name; no name is `always`. -/
def ofName (name : String) (share : Float) : Except Failure Sampler :=
  let refused (reason : String) : Except Failure Sampler :=
    .error (.within "failed to create sampler" (.stated reason))
  match name with
  | "always" => .ok always
  | "" => .ok always
  | "never" => .ok never
  | "ratio" =>
    if decide (share < 0.0) || decide (1.0 < share) then
      refused ("sample ratio must be between 0.0 and 1.0, got " ++ Text.fixed 6 share)
    else .ok (ratio share)
  | other =>
    refused ("unknown sampler strategy: " ++ other ++ " (valid: always, never, ratio)")

/-- Is a trace kept?  `draw` is a number below `2 ^ 63` that belongs to the trace. -/
def keeps (s : Sampler) (draw : Nat) : Bool :=
  match s with
  | always => true
  | never => false
  | ratio share =>
    decide (1.0 ≤ share) || decide (draw < (share * 9223372036854775808.0).toUInt64.toNat)

end Sampler

namespace Trace

/-- Lower-case hexadecimal digits, `n` of them. -/
def isHex (n : Nat) (cs : List Char) : Bool :=
  cs.length == n && cs.all fun c => c.isDigit || ('a' ≤ c && c ≤ 'f')

/-- The identifier of the trace that a `traceparent` header continues: version, trace, span and
flags.  Neither identifier may be all zeros; the first version has no further parts and knows two
flags. -/
def parent (header : String) : Option String :=
  match Text.splitWhere (· == '-') header.toList with
  | version :: trace :: span :: flags :: rest =>
    let nonzero (cs : List Char) : Bool := cs.any (· != '0')
    let first := version == ['0', '0']
    if isHex 2 version && version != ['f', 'f'] && isHex 32 trace && isHex 16 span &&
        isHex 2 flags && nonzero trace && nonzero span &&
        (!first || ((rest == [] || rest == [[]]) &&
          (flags == ['0', '0'] || flags == ['0', '1'] || flags == ['0', '2'])))
    then some (String.ofList trace)
    else none
  | _ => none

end Trace
end Whiteboard
