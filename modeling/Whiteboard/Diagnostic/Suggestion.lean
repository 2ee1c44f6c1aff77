import Whiteboard.Text.Case
import Whiteboard.Text.Distance

namespace Whiteboard
namespace Suggestion

/-!
Hints attached to diagnostics.
-/

/-- The first word of the list at the least distance from `unknown`, with that distance; case
does not count. -/
def nearest (unknown : String) : List String → Option (Nat × String)
  | [] => none
  | word :: rest =>
    let here := Text.editDistance (Text.lowerText unknown) (Text.lowerText word)
    match nearest unknown rest with
    | none => some (here, word)
    | some (d, w) => if d < here then some (d, w) else some (here, word)

/-- A hint for a misspelt keyword: the nearest keyword, at most two edits away and fewer than its
own length.  Short words and correct keywords get none. -/
def keyword (unknown : String) (keywords : List String) : Option String :=
  if unknown.utf8ByteSize < 3 || keywords.contains unknown then none
  else
    match nearest unknown keywords with
    | some (d, word) =>
      if d ≤ 2 && d < word.utf8ByteSize then some ("Did you mean '" ++ word ++ "'?") else none
    | none => none

def closing (opener closer : String) : String :=
  "Add '" ++ closer ++ "' to close the '" ++ opener ++ "'"

end Suggestion
end Whiteboard
