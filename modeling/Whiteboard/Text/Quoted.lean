import Whiteboard.Text.Printable

namespace Whiteboard
namespace Text

/-!
Quoted text for messages.  Between the quotes a backslash and the quote itself are escaped, the
usual control characters have their letters, and every other character without a visible form
is written by its code point: two hexadecimal digits after `\x` for the controls of ASCII, four
after `\u` up to `0xFFFF`, and eight after `\U` beyond.
-/

/-- The lower-case hexadecimal digits of `n`, padded with zeros to `width`. -/
def hexDigits (width n : Nat) : List Char :=
  let digits := Nat.toDigits 16 n
  List.replicate (width - digits.length) '0' ++ digits

def escapeChar (q c : Char) : List Char :=
  if c == q || c == '\\' then ['\\', c]
  else if isPrintable c then [c]
  else
    match c.toNat with
    | 7 => ['\\', 'a']
    | 8 => ['\\', 'b']
    | 9 => ['\\', 't']
    | 10 => ['\\', 'n']
    | 11 => ['\\', 'v']
    | 12 => ['\\', 'f']
    | 13 => ['\\', 'r']
    | n =>
      if n < 32 || n == 127 then '\\' :: 'x' :: hexDigits 2 n
      else if n < 0x10000 then '\\' :: 'u' :: hexDigits 4 n
      else '\\' :: 'U' :: hexDigits 8 n

def quoted (s : String) : String :=
  String.ofList (('"' :: s.toList.flatMap (escapeChar '"')) ++ ['"'])

def quotedChar (c : Char) : String :=
  String.ofList (('\'' :: escapeChar '\'' c) ++ ['\''])

end Text
end Whiteboard
