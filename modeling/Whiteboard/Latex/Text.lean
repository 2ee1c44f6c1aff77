import Whiteboard.Dialect

namespace Whiteboard
namespace Latex

/-!
The pieces LaTeX text is put together from: groups, commands, environments and escaped text.
-/

def braced (s : String) : String :=
  "\x7b" ++ s ++ "\x7d"

def command (name arg : String) : String :=
  "\\" ++ name ++ braced arg

def parens (s : String) : String :=
  "(" ++ s ++ ")"

/-- An environment; `header` follows its opening. -/
def environment (name header body : String) : String :=
  command "begin" name ++ header ++ "\n" ++ body ++ "\n" ++ command "end" name

/-- The indentation mark of a continued line. -/
def tab (level : Nat) : String :=
  if level == 0 then "" else "\\t" ++ toString level ++ " "

def escapeChar (c : Char) : List Char :=
  if c == '\\' then "\\textbackslash\x7b\x7d".toList
  else if c == '~' then "\\textasciitilde\x7b\x7d".toList
  else if c == '^' then "\\textasciicircum\x7b\x7d".toList
  else if "&%$#_\x7b\x7d".toList.contains c then ['\\', c]
  else [c]

def escapeText (s : String) : String :=
  String.ofList (s.toList.flatMap escapeChar)

/-- Underscores in a name are escaped. -/
def escapeUnderscores (s : String) : String :=
  String.ofList (s.toList.flatMap (fun c => if c == '_' then ['\\', '_'] else [c]))

/-- A name.  A reserved constant, or a prefix word used as a name, becomes its command; a name
with underscores is set as one word in the conventional style. -/
def identifier (st : Style) (name : String) : String :=
  match (Symbol.lookup name).filter (fun s => s.role == .constant) with
  | some s => st.command s
  | none =>
    match (Symbol.ofWord name).filter (fun s => s.role == .prefixOp && !s.applied) with
    | some s => st.command s
    | none =>
      if name.toList.contains '_' then
        if st.conventional then command "mathit" (escapeUnderscores name)
        else escapeUnderscores name
      else name

def names (st : Style) (ns : List String) : String :=
  ", ".intercalate (ns.map (identifier st))

end Latex
end Whiteboard
