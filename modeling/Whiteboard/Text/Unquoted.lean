import Whiteboard.Text.Real

namespace Whiteboard
namespace Text

/-!
The escapes of quoted text.
-/

/-- The escapes of a single letter that every format knows. -/
def simpleEscape (c : Char) : Option Char :=
  match c with
  | 'b' => some '\x08'
  | 't' => some '\t'
  | 'n' => some '\n'
  | 'f' => some '\x0c'
  | 'r' => some '\r'
  | '"' => some '"'
  | '\\' => some '\\'
  | _ => none

/-- The character whose code point is written in exactly `n` hexadecimal digits at the front. -/
def codePoint (n : Nat) (cs : List Char) : Option Char :=
  let digits := cs.take n
  let code := hexValue digits
  if digits.length == n && digits.all isHexDigit && code.isValidChar then some (Char.ofNat code)
  else none

end Text
end Whiteboard
