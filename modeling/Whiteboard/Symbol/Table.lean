import Whiteboard.Symbol

namespace Whiteboard
namespace Symbol

/-!
The symbol table, and the look-ups by canonical name and by spelling.  Spellings fall into three
classes that do not mix: words, block keywords, and symbolic spellings, of which the longest that
fits is read.
-/

def infixOp (name : String) (aliases : List String) (prec : Precedence) (assoc : Assoc)
    (fuzz : String) (zed : Option String := none) : Symbol where
  name := name
  aliases := aliases
  role := .infixOp
  prec := prec
  assoc := assoc
  fuzz := fuzz
  zed := zed

/-- Arrows between types all bind alike and group to the right. -/
def arrow (name : String) (aliases : List String) (fuzz : String) : Symbol :=
  infixOp name aliases Precedence.arrow .right fuzz

/-- Adjacent relations chain into a conjunction instead of grouping. -/
def relation (name : String) (aliases : List String) (fuzz : String) : Symbol where
  name := name
  aliases := aliases
  role := .relation
  prec := Precedence.relation
  assoc := .none
  fuzz := fuzz

def prefixOp (name : String) (aliases : List String) (fuzz : String)
    (prec : Precedence := Precedence.prefixed) : Symbol where
  name := name
  aliases := aliases
  role := .prefixOp
  prec := prec
  fuzz := fuzz

/-- A prefix word that is set like a function with an argument. -/
def appliedWord (name : String) : Symbol where
  name := name
  aliases := [name]
  role := .prefixOp
  prec := Precedence.prefixed
  fuzz := name
  applied := true

def postfixOp (name : String) (aliases : List String) (fuzz zed : String) : Symbol where
  name := name
  aliases := aliases
  role := .postfixOp
  prec := Precedence.postfixed
  fuzz := fuzz
  zed := some zed

def quantifier (name : String) (aliases : List String) (fuzz : String) : Symbol where
  name := name
  aliases := aliases
  role := .quantifier
  fuzz := fuzz

def constant (name : String) (aliases : List String) (fuzz : String)
    (zed : Option String := none) : Symbol where
  name := name
  aliases := aliases
  role := .constant
  prec := Precedence.atom
  fuzz := fuzz
  zed := zed

def keyword (name : String) (fuzz : String := "") (zed : Option String := none)
    (prec : Precedence := Precedence.lowest) : Symbol where
  name := name
  aliases := [name]
  role := .keyword
  prec := prec
  fuzz := fuzz
  zed := zed

/-- Every reserved symbol.  Negation and the two closures have no spelling of their own: they
are read off `-`, `+` and `*` by position. -/
def table : List Symbol :=
  [infixOp "iff" ["<=>", "⇔", "iff"] Precedence.equivalence .left "\\iff"
     (some "\\Leftrightarrow"),
   infixOp "implies" ["=>", "⇒", "implies"] Precedence.implication .right "\\implies"
     (some "\\Rightarrow"),
   infixOp "or" ["or", "∨"] Precedence.disjunction .left "\\lor",
   infixOp "and" ["and", "∧"] Precedence.conjunction .left "\\land",
   prefixOp "not" ["not", "¬"] "\\lnot" Precedence.negation,
   quantifier "forall" ["forall", "∀"] "\\forall",
   quantifier "exists" ["exists", "∃"] "\\exists",
   quantifier "exists1" ["exists1", "∃₁"] "\\exists_1",
   quantifier "mu" ["mu", "μ"] "\\mu",
   quantifier "lambda" ["lambda", "λ"] "\\lambda",
   relation "eq" ["="] "=",
   relation "neq" ["/=", "!=", "≠"] "\\neq",
   relation "lt" ["<"] "<",
   relation "leq" ["<=", "≤"] "\\leq",
   relation "gt" [">"] ">",
   relation "geq" [">=", "≥"] "\\geq",
   relation "in" ["in", "∈"] "\\in",
   relation "notin" ["notin", "not in", "∉"] "\\notin",
   relation "subset" ["subset", "⊂"] "\\subset",
   relation "subseteq" ["subseteq", "⊆"] "\\subseteq",
   relation "prefix" ["prefix"] "\\prefix",
   arrow "rel" ["<->", "↔"] "\\rel",
   arrow "fun" ["-->", "→"] "\\fun",
   arrow "pfun" ["+->", "⇸"] "\\pfun",
   arrow "inj" [">->", "↣"] "\\inj",
   arrow "pinj" [">+>", "⤔"] "\\pinj",
   arrow "surj" ["-->>", "↠"] "\\surj",
   arrow "psurj" ["+->>", "⤀"] "\\psurj",
   arrow "bij" [">->>", "⤖"] "\\bij",
   arrow "ffun" ["++->", "⇻"] "\\ffun",
   arrow "finj" [">++->", "⤕"] "\\finj",
   infixOp "cross" ["cross", "×"] Precedence.product .left "\\cross",
   infixOp "mapsto" ["|->", "↦"] Precedence.maplet .left "\\mapsto",
   infixOp "upto" [".."] Precedence.range .none "\\upto",
   infixOp "union" ["union", "∪"] Precedence.union .left "\\cup",
   infixOp "setminus" ["\\", "setminus", "∖"] Precedence.union .left "\\setminus",
   infixOp "cat" ["^", "⁀"] Precedence.union .left "\\cat",
   infixOp "uplus" ["uplus", "⊎"] Precedence.union .left "\\uplus",
   infixOp "oplus" ["++", "⊕"] Precedence.union .left "\\oplus",
   infixOp "intersect" ["intersect", "∩"] Precedence.intersection .left "\\cap",
   infixOp "dres" ["<|", "◁"] Precedence.intersection .left "\\dres",
   infixOp "rres" ["|>", "▷"] Precedence.intersection .left "\\rres",
   infixOp "ndres" ["<<|", "⩤"] Precedence.intersection .left "\\ndres",
   infixOp "nrres" ["|>>", "⩥"] Precedence.intersection .left "\\nrres",
   infixOp "comp" ["o9", "comp", "⨾"] Precedence.intersection .left "\\comp",
   infixOp "circ" ["circ", "∘"] Precedence.intersection .left "\\circ",
   infixOp "plus" ["+"] Precedence.additive .left "+",
   infixOp "minus" ["-"] Precedence.additive .left "-",
   infixOp "times" ["*"] Precedence.multiplicative .left "*",
   infixOp "div" ["div"] Precedence.multiplicative .left "\\div",
   infixOp "mod" ["mod"] Precedence.multiplicative .left "\\mod",
   prefixOp "neg" [] "-",
   prefixOp "card" ["#"] "\\#",
   prefixOp "power" ["P", "ℙ"] "\\power",
   prefixOp "power1" ["P1", "ℙ₁"] "\\power_1",
   prefixOp "finset" ["F", "𝔽"] "\\finset",
   prefixOp "finset1" ["F1", "𝔽₁"] "\\finset_1",
   prefixOp "dom" ["dom"] "\\dom",
   prefixOp "ran" ["ran"] "\\ran",
   prefixOp "seq" ["seq"] "\\seq",
   prefixOp "seq1" ["seq1"] "\\seq_1",
   prefixOp "iseq" ["iseq"] "\\iseq",
   prefixOp "bag" ["bag"] "\\bag",
   prefixOp "id" ["id"] "\\id",
   prefixOp "bigcup" ["bigcup", "⋃"] "\\bigcup",
   prefixOp "bigcap" ["bigcap", "⋂"] "\\bigcap",
   appliedWord "head",
   appliedWord "tail",
   appliedWord "front",
   appliedWord "last",
   appliedWord "rev",
   appliedWord "max",
   appliedWord "min",
   prefixOp "Delta" ["Delta", "Δ"] "\\Delta",
   prefixOp "Xi" ["Xi", "Ξ"] "\\Xi",
   postfixOp "inv" ["~", "∼"] "\\inv" "^\x7b\\sim\x7d",
   postfixOp "tcl" [] "\\plus" "^\x7b+\x7d",
   postfixOp "rtcl" [] "\\star" "^\x7b*\x7d",
   constant "N" ["N", "ℕ"] "\\nat" (some "\\mathbb\x7bN\x7d"),
   constant "N1" ["N1", "ℕ₁"] "\\nat_1" (some "\\mathbb\x7bN\x7d_1"),
   constant "Z" ["Z", "ℤ"] "\\num" (some "\\mathbb\x7bZ\x7d"),
   constant "emptyset" ["emptyset", "∅"] "\\emptyset",
   constant "true" ["true"] "true" (some "\\mathit\x7btrue\x7d"),
   constant "false" ["false"] "false" (some "\\mathit\x7bfalse\x7d"),
   keyword "if" "\\IF" (some "\\mathbf\x7bif\x7d") Precedence.conditional,
   keyword "then" "\\THEN" (some "\\mathbf\x7bthen\x7d"),
   keyword "else" "\\ELSE" (some "\\mathbf\x7belse\x7d"),
   keyword "given",
   keyword "axdef" "axdef",
   keyword "schema" "schema",
   keyword "gendef" "gendef",
   keyword "zed" "zed",
   keyword "where" "\\where",
   keyword "end",
   keyword "case",
   keyword "TEXT:",
   keyword "PURETEXT:",
   keyword "LATEX:",
   keyword "PROOF:",
   keyword "EQUIV:",
   keyword "TRUTH TABLE:",
   keyword "PAGEBREAK:" "\\newpage"]

def lookup (name : String) : Option Symbol :=
  table.find? (fun s => s.name == name)

/-- The spellings of the table that satisfy `p`, with their symbols. -/
def spellings (p : String → Bool) : List (String × Symbol) :=
  table.flatMap (fun s => (s.aliases.filter p).map (fun a => (a, s)))

def wordSpellings : List (String × Symbol) :=
  spellings (fun a => !isBlockSpelling a && isWordSpelling a)

def symbolicSpellings : List (String × Symbol) :=
  spellings (fun a => !isBlockSpelling a && !isWordSpelling a)

/-- The symbol spelled by a word such as `and` or `P1`. -/
def ofWord (word : String) : Option Symbol :=
  wordSpellings.lookup word

def ofSpelling (spelling : String) : Option Symbol :=
  symbolicSpellings.lookup spelling

/-- The length of the longest symbolic spelling. -/
def maxSpellingLength : Nat := 5

def spellingsOfLength (n : Int) : List String :=
  ((symbolicSpellings.map Prod.fst).filter (fun a => (a.length : Int) == n)).mergeSort
    (fun a b => decide (a ≤ b))

/-- The block keywords, longest first. -/
def blockKeywords : List String :=
  ["TRUTH TABLE:", "PAGEBREAK:", "PURETEXT:", "LATEX:", "PROOF:", "EQUIV:", "TEXT:"]

def names : List String :=
  table.map (·.name)

def keywords : List String :=
  (table.filter (fun s => s.role == .keyword && !isBlockSpelling s.name)).map (·.name)

/-- Binding power and grouping of an infix operator or relation. -/
def asInfix (name : String) : Option (Precedence × Assoc) :=
  match lookup name with
  | some s => if s.role == .infixOp || s.role == .relation then some (s.prec, s.assoc) else none
  | none => none

/-- Is `name` a relation, so that neighbours chain? -/
def isRelation (name : String) : Bool :=
  match lookup name with
  | some s => s.role == .relation
  | none => false

end Symbol
end Whiteboard
