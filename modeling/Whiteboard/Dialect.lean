import Whiteboard.Symbol.Table
import Whiteboard.Text.Blank
import Whiteboard.Text.Case
import Whiteboard.Text.Quoted

namespace Whiteboard

/-!
The two output vocabularies.  `fuzz` is the strict one that the type checker of that name reads,
`zed` the conventional one for typesetting.  Every choice that depends on the vocabulary is a
field of its style.
-/

/-- An output vocabulary; `other` is a code that names none and is set like `fuzz`. -/
inductive Dialect where
  | fuzz
  | zed
  | other (code : Int)
  deriving DecidableEq, Inhabited

namespace Dialect

def ofCode (n : Int) : Dialect :=
  if n == 0 then fuzz else if n == 1 then zed else other n

def name : Dialect → String
  | fuzz => "fuzz"
  | zed => "zed"
  | other n => "dialect(" ++ toString n ++ ")"

/-- The vocabulary that is really used. -/
def effective : Dialect → Dialect
  | zed => zed
  | _ => fuzz

/-- The dialect with a name; case and white space around it do not count, and the empty name is
`fuzz`. -/
def ofName (s : String) : Except String Dialect :=
  let key := Text.lowerText (Text.trim s)
  if key == "fuzz" || key == "" then .ok fuzz
  else if key == "zed" || key == "zed-cm" then .ok zed
  else .error ("unknown dialect " ++ Text.quoted s ++ " (want fuzz or zed)")

end Dialect

/-- The choices that depend on the vocabulary: which commands symbols become, what separates a
constraint from a body, what stands around `if`, `then` and `else`, the packages of a complete
document, whether an application under a prefix operator is parenthesized, and whether a
quantifier stays bare where nothing follows it. -/
structure Style where
  conventional : Bool
  spot : String
  keywordGap : String
  packages : List String
  wrapsApplications : Bool
  bareInTail : Bool
  deriving DecidableEq

namespace Style

def strict : Style where
  conventional := false
  spot := "@"
  keywordGap := " "
  packages := ["fuzz"]
  wrapsApplications := true
  bareInTail := false

def typeset : Style where
  conventional := true
  spot := "\\spot"
  keywordGap := "~"
  packages := ["zed-cm", "amssymb"]
  wrapsApplications := false
  bareInTail := true

def command (st : Style) (s : Symbol) : String :=
  s.command st.conventional

def commandOf (st : Style) (name : String) : String :=
  ((Symbol.lookup name).map st.command).getD ""

end Style

def Dialect.style (d : Dialect) : Style :=
  match d with
  | .zed => Style.typeset
  | _ => Style.strict

end Whiteboard
