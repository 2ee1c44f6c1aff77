import Whiteboard.Symbol.Table
import Whiteboard.Text.Blank
import Whiteboard.Text.Case
import Whiteboard.Text.Punctuation

namespace Whiteboard

/-!
Telling prose from formulas.  A text reads as prose if it opens with a word that starts a
sentence and one of the next few words is typical of sentences.
-/

/-- The word lists, and how many words after the first are searched for an indicator. -/
structure ProseRules where
  starters : List String
  indicators : List String
  lookahead : Int
  deriving DecidableEq

namespace ProseRules

def defaultStarters : List String :=
  ["The", "A", "An", "This", "That", "These", "Those", "We", "It", "Let",
   "Note", "Hence", "Thus", "Therefore", "Since", "Suppose", "Consider",
   "Here", "There", "Then", "When", "If", "For", "In", "Show", "Prove"]

def defaultIndicators : List String :=
  ["is", "are", "was", "were", "be", "been", "by", "has", "have", "can",
   "will", "must", "should", "may", "means", "denotes", "holds", "follows",
   "gives", "shows", "that", "which", "the", "of", "we", "it", "its",
   "this", "because", "therefore"]

def defaultLookahead : Int := 6

def standard : ProseRules where
  starters := defaultStarters
  indicators := defaultIndicators
  lookahead := defaultLookahead

instance : Inhabited ProseRules := ⟨standard⟩

/-- The rules with every empty list, and a lookahead that is not positive, replaced by the
standard one. -/
def effective (rules : ProseRules) : ProseRules where
  starters := if rules.starters.isEmpty then defaultStarters else rules.starters
  indicators := if rules.indicators.isEmpty then defaultIndicators else rules.indicators
  lookahead := if rules.lookahead ≤ 0 then defaultLookahead else rules.lookahead

end ProseRules

namespace Prose

/-- A word without punctuation at its ends; an apostrophe stays. -/
def trimPunctuation (w : String) : String :=
  let mark (c : Char) : Bool := Text.isPunctuation c && c != '\''
  String.ofList (Text.dropTrailing mark (w.toList.dropWhile mark))

/-- Does the word open sentences under the given rules? -/
def isStarter (rules : ProseRules) (word : String) : Bool :=
  rules.effective.starters.contains word

/-- Is the word typical of sentences?  Case and punctuation around it do not count. -/
def isIndicator (rules : ProseRules) (word : String) : Bool :=
  (rules.effective.indicators.map Text.lowerText).contains (Text.lowerText (trimPunctuation word))

/-- Can `word` be the first word of a sentence?  A comma may follow it, no other mark.  At the
start of a line any capitalized word of two letters or more will do. -/
def opensSentence (rules : ProseRules) (word : String) (lineStart : Bool) : Bool :=
  let first := trimPunctuation word
  (first == word || word.toList.getLast? == some ',') &&
    !first.isEmpty && first.toList.all Text.isLetter &&
    (Symbol.ofWord first).isNone &&
    (isStarter rules first ||
      (lineStart && decide (2 ≤ first.length) && (first.toList.head?.map Text.isUpper).getD false))

/-- Does the text read as a sentence? -/
def isProse (rules : ProseRules) (text : String) (lineStart : Bool) : Bool :=
  match Text.words text with
  | first :: second :: rest =>
    opensSentence rules first lineStart &&
      ((second :: rest).take rules.effective.lookahead.toNat).any (isIndicator rules)
  | _ => false

end Prose
end Whiteboard
