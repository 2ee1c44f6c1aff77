import Whiteboard.Text.Blank

namespace Whiteboard

/-!
Network addresses of a host and a port.
-/

/-- A host and a port; either may be empty. -/
structure Address where
  host : String
  port : String
  deriving DecidableEq, Inhabited

namespace Address

def splitLastColon (cs : List Char) : Option (List Char × List Char) :=
  if cs.contains ':' then
    let port := (cs.reverse.takeWhile (· != ':')).reverse
    some (cs.take (cs.length - port.length - 1), port)
  else none

/-- Reads `host:port`.  A host that has colons itself stands in brackets, and brackets stand
nowhere else. -/
def read (s : String) : Option Address := do
  let (before, port) ← splitLastColon s.toList
  let bracket (c : Char) : Bool := c == '[' || c == ']'
  let host ←
    match before with
    | '[' :: inner =>
      match inner.getLast? with
      | some ']' => if inner.dropLast.any bracket then none else some inner.dropLast
      | _ => none
    | plain => if plain.contains ':' || plain.any bracket then none else some plain
  if port.any bracket then none else some ⟨String.ofList host, String.ofList port⟩

end Address
end Whiteboard
