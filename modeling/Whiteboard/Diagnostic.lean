import Whiteboard.Diagnostic.Snippet
import Whiteboard.Text.Quoted

namespace Whiteboard

/-!
What can be wrong with a source or a tree.  A fault is a problem at a place; a diagnostic is a
fault shown in its source.
-/

inductive LexCause where
  | unterminated (what mark : String)
  | unexpectedCharacter (c : Char)
  | stated (text : String)
  deriving DecidableEq

def LexCause.message : LexCause → String
  | unterminated what mark =>
    "unterminated " ++ what ++ ": missing closing " ++ Text.quoted mark
  | unexpectedCharacter c => "unexpected character " ++ Text.quotedChar c
  | stated text => text

inductive RenderCause where
  | missingExpression
  | missingItem
  | unknownOperator (op : String)
  | chainWithoutRelation
  | unknownRelation (op : String)
  | unknownQuantifier (name : String)
  | noPredicate
  | noBoundVariables
  | unknownCollection (name : String)
  | emptyScript
  | noNames
  | noBranches
  | namelessSchema
  | unknownBox (name : String)
  | incompleteDeclaration
  | emptyZedLine
  | noConclusion
  | noSteps
  | unknownConnective (name : String)
  | noColumns
  | rowWidth (row cells expected : Nat)
  | mathInText (flavour : String)
  | stated (text : String)
  deriving DecidableEq

def RenderCause.message : RenderCause → String
  | missingExpression => "missing expression"
  | missingItem => "missing document item"
  | unknownOperator op => "unknown operator " ++ Text.quoted op
  | chainWithoutRelation => "relation chain without a relation"
  | unknownRelation op => "unknown relation " ++ Text.quoted op
  | unknownQuantifier name => "unknown quantifier " ++ Text.quoted name
  | noPredicate => "quantifier without a predicate"
  | noBoundVariables => "no bound variables"
  | unknownCollection name => "unknown collection type " ++ Text.quoted name
  | emptyScript => "script without superscript or subscript"
  | noNames => "given type without names"
  | noBranches => "free type without branches"
  | namelessSchema => "schema without a name"
  | unknownBox name => "unknown box type " ++ Text.quoted name
  | incompleteDeclaration => "declaration needs names and a type"
  | emptyZedLine => "empty line in zed block"
  | noConclusion => "proof without a conclusion"
  | noSteps => "equivalence chain without steps"
  | unknownConnective name => "unknown connective " ++ Text.quoted name
  | noColumns => "truth table without columns"
  | rowWidth row cells expected =>
    "row " ++ toString row ++ " has " ++ toString cells ++ " cells, want " ++ toString expected
  | mathInText flavour => "math in a " ++ flavour ++ " block"
  | stated text => text

/-- The three stages at which a source can fail. -/
inductive Problem where
  | lex (cause : LexCause)
  | parse (expected found : String) (suggestion : Option String)
  | generation (node : String) (cause : RenderCause)
  deriving DecidableEq

namespace Problem

def stage : Problem → String
  | lex _ => "lex"
  | parse .. => "parse"
  | generation .. => "generation"

def message : Problem → String
  | lex cause => cause.message
  | parse expected found _ => "expected " ++ expected ++ ", found " ++ found
  | generation node cause =>
    if node.isEmpty then cause.message else cause.message ++ " (node: " ++ node ++ ")"

def suggestion : Problem → Option String
  | parse _ _ hint => hint
  | _ => none

end Problem

structure Fault where
  problem : Problem
  loc : Location
  deriving DecidableEq

/-- A fault with the excerpt of the source it points at; empty if there is none. -/
structure Diagnostic extends Fault where
  snippet : String := ""
  deriving DecidableEq

/-- Shows a fault in its source.  Rendering faults concern the tree and show no source. -/
def Fault.inSource (fault : Fault) (source : String) : Diagnostic :=
  match fault.problem with
  | .generation .. => { fault with }
  | _ => { fault with snippet := Snippet.render source fault.loc }

/-- The message of a diagnostic: headline, place, excerpt and hint. -/
def Diagnostic.text (d : Diagnostic) : String :=
  "[" ++ d.problem.stage ++ "] " ++ d.problem.message ++
    (if d.loc.isValid then "\n  --> " ++ d.loc.text else "") ++
    (if d.snippet.isEmpty then ""
      else "\n" ++ String.ofList (Text.dropTrailing (· == '\n') d.snippet.toList)) ++
    (match d.problem.suggestion with
      | some hint => "\n  = suggestion: " ++ hint
      | none => "")

end Whiteboard
