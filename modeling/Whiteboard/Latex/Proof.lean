import Whiteboard.Document
import Whiteboard.Latex.Expr

namespace Whiteboard
namespace Latex

/-!
Proof trees as inference figures.  A step stands under its premises with the rule beside the
line; a case branch is a derivation under its hypothesis.
-/

/-- The symbols a justification may name: connectives, quantifiers and equality. -/
def ruleNames : List String :=
  ["and", "or", "not", "implies", "iff", "forall", "exists", "exists1", "eq"]

def ruleSymbol (word : String) : Option String :=
  let spelled :=
    match word.toList with
    | c :: _ =>
      if c.toNat < 0x7F && Text.isLetter c then Symbol.ofWord word else Symbol.ofSpelling word
    | [] => none
  (spelled.filter (fun s => ruleNames.contains s.name)).map (fun s => s.command true)

def ruleText (words : List String) : List String :=
  if words.isEmpty then [] else [command "mbox" (escapeText (" ".intercalate words))]

/-- The parts of a justification, where `pending` holds the words since the last symbol. -/
def ruleParts (pending : List String) : List String → List String
  | [] => ruleText pending
  | w :: rest =>
    match ruleSymbol w with
    | some symbol => ruleText pending ++ symbol :: ruleParts [] rest
    | none => ruleParts (pending ++ [w]) rest

/-- The name of a rule: connectives become symbols, other words run together as text. -/
def justification (text : String) : String :=
  "~".intercalate (ruleParts [] (Text.words text))

def rule (step : ProofStep) : String :=
  if step.justification.isEmpty && step.discharge.isEmpty then ""
  else
    let labels :=
      if step.discharge.isEmpty then ""
      else "^" ++ braced (",".intercalate (step.discharge.map toString))
    "[" ++ justification step.justification ++ labels ++ "]"

/-- The conclusion of a step; an assumption stands in brackets with its label. -/
def conclusion (step : ProofStep) (formula : String) : String :=
  if step.isAssumption then "[" ++ formula ++ "]^" ++ braced (toString step.label) else formula

/-- Does the step stand alone, without a line above it? -/
def standsAlone (step : ProofStep) (premises : List ProofTree) : Bool :=
  premises.isEmpty && step.justification.isEmpty && (step.isAssumption || step.discharge.isEmpty)

/-- What separates premises; case branches need the more room the deeper the proof is. -/
def premiseGap (t : ProofTree) : String :=
  if t.premises.any (·.step.isCase) then " & \\hskip " ++ toString t.depth ++ "em " else " & "

mutual

/-- The inference figure of a proof; a missing step lacks its formula. -/
def proofTree (st : Style) : ProofTree → Except Fault String
  | .hole => expr st {} .hole
  | .node step premises => do
    let formula ← expr st {} step.expr
    let concluded := conclusion step formula
    if standsAlone step premises then return concluded
    else do
      let above ← proofPremises st premises
      return "\\infer" ++ rule step ++ braced concluded ++
        braced ((premiseGap (.node step premises)).intercalate above)

/-- The figures of premises, case branches set as such. -/
def proofPremises (st : Style) : List ProofTree → Except Fault (List String)
  | [] => .ok []
  | t :: rest => do
    let first ← if t.step.isCase then caseBranch st t else proofTree st t
    let others ← proofPremises st rest
    return first :: others

/-- A case branch: its hypothesis, and the derivation that rests on it. -/
def caseBranch (st : Style) : ProofTree → Except Fault String
  | .hole => expr st {} .hole
  | .node step premises => do
    let formula ← expr st {} step.expr
    let hypothesis := "[" ++ command "mbox" "case" ++ "~" ++ formula ++ "]"
    if premises.isEmpty then return hypothesis
    else do
      let steps ← proofSteps st premises
      return "\\deduce" ++ braced (" \\quad ".intercalate steps) ++ braced hypothesis

def proofSteps (st : Style) : List ProofTree → Except Fault (List String)
  | [] => .ok []
  | t :: rest => do
    let first ← proofTree st t
    let others ← proofSteps st rest
    return first :: others

end

end Latex
end Whiteboard
