import Whiteboard.Data
import Whiteboard.Text.Unquoted

namespace Whiteboard
namespace Json

/-!
Reading JSON from the front of a text.  A text that ends too early is told apart from one that is
wrong, because the rest of the first may still be on its way.
-/

/-- What a reader finds: a value and the text after it, an error, or the end of the text. -/
inductive Read (α : Type) where
  | done (value : α) (rest : List Char)
  | malformed
  | unfinished

def Read.andThen {α β : Type} (r : Read α) (next : α → List Char → Read β) : Read β :=
  match r with
  | done value rest => next value rest
  | malformed => malformed
  | unfinished => unfinished

def isSpace (c : Char) : Bool :=
  c == ' ' || c == '\t' || c == '\r' || c == '\n'

def skipSpace (cs : List Char) : List Char :=
  cs.dropWhile isSpace

def expect : List Char → List Char → Read Unit
  | [], rest => .done () rest
  | _ :: _, [] => .unfinished
  | w :: word, c :: cs => if c == w then expect word cs else .malformed

def hexNumber : Nat → Nat → List Char → Read Nat
  | 0, value, rest => .done value rest
  | _ + 1, _, [] => .unfinished
  | n + 1, value, c :: cs =>
    if Text.isHexDigit c then hexNumber n (value * 16 + Text.hexValue [c]) cs else .malformed

/-- A piece of a text: a character, or a unit of UTF-16 that was written as a number. -/
inductive Piece where
  | char (c : Char)
  | unit (n : Nat)

def escaped : List Char → Read Piece
  | [] => .unfinished
  | '"' :: rest => .done (.char '"') rest
  | '\\' :: rest => .done (.char '\\') rest
  | '/' :: rest => .done (.char '/') rest
  | 'b' :: rest => .done (.char '\x08') rest
  | 'f' :: rest => .done (.char '\x0c') rest
  | 'n' :: rest => .done (.char '\n') rest
  | 'r' :: rest => .done (.char '\r') rest
  | 't' :: rest => .done (.char '\t') rest
  | 'u' :: rest => (hexNumber 4 0 rest).andThen fun n rest => .done (.unit n) rest
  | _ => .malformed

def pieces : Nat → List Piece → List Char → Read (List Piece)
  | 0, _, _ => .unfinished
  | _ + 1, _, [] => .unfinished
  | _ + 1, seen, '"' :: rest => .done seen.reverse rest
  | bound + 1, seen, '\\' :: rest =>
    (escaped rest).andThen fun p rest => pieces bound (p :: seen) rest
  | bound + 1, seen, c :: rest =>
    if c.toNat < 32 then .malformed else pieces bound (.char c :: seen) rest

def isSurrogate (n : Nat) : Bool :=
  0xD800 ≤ n && n < 0xE000

/-- The characters of pieces.  Two surrogates that belong together are one character; any other
is replaced. -/
def joinPieces : List Piece → List Char
  | [] => []
  | .char c :: rest => c :: joinPieces rest
  | .unit high :: .unit low :: rest =>
    if 0xD800 ≤ high && high < 0xDC00 && 0xDC00 ≤ low && low < 0xE000 then
      Char.ofNat (0x10000 + (high - 0xD800) * 0x400 + (low - 0xDC00)) :: joinPieces rest
    else (if isSurrogate high then Char.ofNat 0xFFFD else Char.ofNat high) ::
      joinPieces (.unit low :: rest)
  | .unit n :: rest => (if isSurrogate n then Char.ofNat 0xFFFD else Char.ofNat n) :: joinPieces rest

def textAfterQuote (cs : List Char) : Read String :=
  (pieces (cs.length + 1) [] cs).andThen fun ps rest => .done (String.ofList (joinPieces ps)) rest

def digits (cs : List Char) : Read (List Char) :=
  match cs with
  | [] => .unfinished
  | c :: _ => if c.isDigit then .done (Text.spanDigits cs).1 (Text.spanDigits cs).2 else .malformed

/-- The digits before the point: a single zero, or digits that do not start with one. -/
def wholeDigits (cs : List Char) : Read (List Char) :=
  match cs with
  | '0' :: rest => .done ['0'] rest
  | cs => digits cs

def fractionDigits (cs : List Char) : Read (List Char) :=
  match cs with
  | '.' :: rest => (digits rest).andThen fun ds rest => .done ('.' :: ds) rest
  | cs => .done [] cs

def exponent (cs : List Char) : Read (List Char) :=
  match cs with
  | c :: rest =>
    if c == 'e' || c == 'E' then
      match rest with
      | s :: more =>
        if s == '+' || s == '-' then
          (digits more).andThen fun ds rest => .done (c :: s :: ds) rest
        else (digits rest).andThen fun ds rest => .done (c :: ds) rest
      | [] => .unfinished
    else .done [] cs
  | [] => .done [] []

def magnitude (negative : Bool) (cs : List Char) : Read Data :=
  (wholeDigits cs).andThen fun whole rest =>
    (fractionDigits rest).andThen fun below rest =>
      (exponent rest).andThen fun power rest =>
        if below.isEmpty && power.isEmpty then
          let n : Int := Text.digitsValue whole
          .done (.int (if negative then -n else n)) rest
        else
          .done (.number (String.ofList ((if negative then ['-'] else []) ++ whole ++ below ++ power)))
            rest

mutual

/-- A value; `depth` more levels may be nested in it. -/
def value (bound depth : Nat) (cs : List Char) : Read Data :=
  match bound with
  | 0 => .unfinished
  | bound + 1 =>
    match skipSpace cs with
    | [] => .unfinished
    | '{' :: rest =>
      match depth with
      | 0 => .malformed
      | depth + 1 =>
        match skipSpace rest with
        | '}' :: rest => .done (.record []) rest
        | rest => members bound depth [] rest
    | '[' :: rest =>
      match depth with
      | 0 => .malformed
      | depth + 1 =>
        match skipSpace rest with
        | ']' :: rest => .done (.list []) rest
        | rest => elements bound depth [] rest
    | '"' :: rest => (textAfterQuote rest).andThen fun s rest => .done (.text s) rest
    | 't' :: rest => (expect ['r', 'u', 'e'] rest).andThen fun _ rest => .done (.bool true) rest
    | 'f' :: rest => (expect ['a', 'l', 's', 'e'] rest).andThen fun _ rest => .done (.bool false) rest
    | 'n' :: rest => (expect ['u', 'l', 'l'] rest).andThen fun _ rest => .done .null rest
    | '-' :: rest => magnitude true rest
    | rest => magnitude false rest

def elements (bound depth : Nat) (seen : List Data) (cs : List Char) : Read Data :=
  match bound with
  | 0 => .unfinished
  | bound + 1 =>
    (value bound depth cs).andThen fun d rest =>
      match skipSpace rest with
      | [] => .unfinished
      | ',' :: rest => elements bound depth (d :: seen) rest
      | ']' :: rest => .done (.list (d :: seen).reverse) rest
      | _ => .malformed

def members (bound depth : Nat) (seen : List (String × Data)) (cs : List Char) : Read Data :=
  match bound with
  | 0 => .unfinished
  | bound + 1 =>
    match skipSpace cs with
    | [] => .unfinished
    | '"' :: rest =>
      (textAfterQuote rest).andThen fun name rest =>
        match skipSpace rest with
        | [] => .unfinished
        | ':' :: rest =>
          (value bound depth rest).andThen fun d rest =>
            match skipSpace rest with
            | [] => .unfinished
            | ',' :: rest => members bound depth ((name, d) :: seen) rest
            | '}' :: rest => .done (.record ((name, d) :: seen).reverse) rest
            | _ => .malformed
        | _ => .malformed
    | _ => .malformed

end

/-- Values may be nested this deep. -/
def maxDepth : Nat := 10000

def read (cs : List Char) : Read Data :=
  value (2 * cs.length + 2) maxDepth cs

end Json
end Whiteboard
