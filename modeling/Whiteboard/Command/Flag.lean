import Whiteboard.Duration
import Whiteboard.Failure

namespace Whiteboard
namespace Command

/-!
Flags and arguments of a command.  Flags may stand between arguments; `--` ends them.
-/

inductive FlagKind where
  | switch
  | text
  | number
  | duration
  deriving DecidableEq

structure Flag where
  name : String
  letter : Option Char := none
  kind : FlagKind := .text

def Flag.shown (f : Flag) : String :=
  match f.letter with
  | some c => "-" ++ c.toString ++ ", --" ++ f.name
  | none => "--" ++ f.name

inductive FlagValue where
  | switch (on : Bool)
  | text (s : String)
  | number (n : Int)
  | duration (d : Int)

def Flag.value (f : Flag) (s : String) : Except Failure (String × FlagValue) :=
  let read : Option FlagValue :=
    match f.kind with
    | .switch => (Text.readBool s).map .switch
    | .text => some (.text s)
    | .number => (Text.readInt s).map .number
    | .duration => (Duration.read s).map .duration
  match read with
  | some v => .ok (f.name, v)
  | none =>
    .error (.stated ("invalid argument " ++ Text.quoted s ++ " for " ++ Text.quoted f.shown ++ " flag"))

/-- The flags that were set, the last first, and the arguments. -/
structure Arguments where
  set : List (String × FlagValue) := []
  rest : List String := []

namespace Arguments

def text (a : Arguments) (name : String) (otherwise : String := "") : String :=
  match a.set.lookup name with
  | some (.text s) => s
  | _ => otherwise

def switch (a : Arguments) (name : String) : Bool :=
  match a.set.lookup name with
  | some (.switch on) => on
  | _ => false

def number (a : Arguments) (name : String) (otherwise : Int) : Int :=
  match a.set.lookup name with
  | some (.number n) => n
  | _ => otherwise

def duration (a : Arguments) (name : String) : Int :=
  match a.set.lookup name with
  | some (.duration d) => d
  | _ => 0

end Arguments

/-- What one word of a command line sets, and whether the word after it was used as a value. -/
abbrev Setting := List (String × FlagValue) × Bool

def nextValue (f : Flag) (next : Option String) (needed : String) : Except Failure Setting :=
  match next with
  | some s => (f.value s).map fun v => ([v], true)
  | none => .error (.stated ("flag needs an argument: " ++ needed))

def longFlag (flags : List Flag) (word : List Char) (next : Option String) : Except Failure Setting :=
  let name := String.ofList (word.takeWhile (· != '='))
  let after := word.dropWhile (· != '=')
  if word.head? == some '-' || word.head? == some '=' then
    .error (.stated ("bad flag syntax: --" ++ String.ofList word))
  else
    match flags.find? fun f => f.name == name with
    | none => .error (.stated ("unknown flag: --" ++ name))
    | some f =>
      match after with
      | _ :: value => (f.value (String.ofList value)).map fun v => ([v], false)
      | [] =>
        if f.kind == .switch then .ok ([(f.name, .switch true)], false)
        else nextValue f next ("--" ++ name)

/-- Letters after one dash: switches, and at the end perhaps a flag with a value. -/
def shortFlags (flags : List Flag) (word : List Char) (next : Option String) :
    List Char → Except Failure Setting
  | [] => .ok ([], false)
  | c :: rest =>
    let shown := Text.quotedChar c ++ " in -" ++ String.ofList word
    match flags.find? fun f => f.letter == some c with
    | none => .error (.stated ("unknown shorthand flag: " ++ shown))
    | some f =>
      match rest with
      | '=' :: v :: value => (f.value (String.ofList (v :: value))).map fun v => ([v], false)
      | rest =>
        if f.kind == .switch then do
          let (more, used) ← shortFlags flags word next rest
          return (more ++ [(f.name, .switch true)], used)
        else if rest.isEmpty then nextValue f next shown
        else (f.value (String.ofList rest)).map fun v => ([v], false)

def Arguments.read (flags : List Flag) : List String → Except Failure Arguments
  | [] => .ok {}
  | word :: words => do
    let argument : Except Failure Arguments := do
      let a ← Arguments.read flags words
      return { a with rest := word :: a.rest }
    match word.toList with
    | ['-', '-'] => return { rest := words }
    | ['-'] => argument
    | '-' :: letters =>
      let (set, used) ←
        match letters with
        | '-' :: name => longFlag flags name words.head?
        | letters => shortFlags flags letters words.head? letters
      match words with
      | next :: more =>
        let a ← if used then Arguments.read flags more else Arguments.read flags (next :: more)
        return { a with set := a.set ++ set }
      | [] => return { set := set }
    | _ => argument

/-- The first word that is neither a flag nor the value of one, and the words without it. -/
def takeWord (flags : List Flag) : List String → Option (String × List String)
  | [] => none
  | word :: words =>
    let cs := word.toList
    let takesNext : Bool :=
      !cs.contains '=' &&
        match cs with
        | '-' :: '-' :: name =>
          !flags.any fun f => f.name == String.ofList name && f.kind == .switch
        | ['-', c] => !flags.any fun f => f.letter == some c && f.kind == .switch
        | _ => false
    if word == "--" then none
    else if cs.head? != some '-' && !cs.isEmpty then some (word, words)
    else
      match words with
      | value :: more =>
        if takesNext then (takeWord flags more).map fun (w, rest) => (w, word :: value :: rest)
        else (takeWord flags (value :: more)).map fun (w, rest) => (w, word :: rest)
      | [] => none

end Command
end Whiteboard
