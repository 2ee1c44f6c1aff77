import Whiteboard.Proofs.Token.Line

namespace Whiteboard

open List Text
namespace Token

/-!
# Operands and operators with spaces between them

A row is one operand, or several with infix operators between them, all set apart by single spaces.
However its operators are spelled, each operand and each operator is one token: a space after a sign
keeps it from being read as part of a longer one, and `<`, `^` and `\` between spaces are the operators
they look like.
-/

/-- A small letter, and after it letters and digits; neither the word nor its first letter is
reserved. -/
structure IsPlainName (name : String) : Prop where
  shape : ∃ c rest, name.toList = c :: rest ∧ isLetter c = true ∧ isLower c = true ∧
    Symbol.ofSpelling (String.singleton c) = none ∧
    rest.all (fun d => isLetter d || isDigit d) = true
  unreserved : Symbol.ofWord name = none

/-- A plain name or a number. -/
inductive Operand where
  | name (text : String) (plain : IsPlainName text)
  | number (text : String) (digits : IsNumberText text.toList)

namespace Operand

def text : Operand → String
  | name text _ => text
  | number text _ => text

def kind : Operand → Kind
  | name .. => .identifier
  | number .. => .number

end Operand

/-- An infix operator or relation in one of its spellings; the range is none of them. -/
structure Operator where
  symbol : Symbol
  spelling : String
  known : symbol ∈ Symbol.table
  role : symbol.role = .infixOp ∨ symbol.role = .relation
  notRange : symbol.name ≠ "upto"
  spelled : spelling ∈ symbol.aliases

/-- Operands with operators between them. -/
structure Formula where
  first : Operand
  rest : List (Operator × Operand)

/-- The operators and the operands to their right, each after a space. -/
def spaced (pairs : List (Operator × Operand)) : List Char :=
  pairs.flatMap fun (p, o) => ' ' :: (p.spelling.toList ++ ' ' :: o.text.toList)

namespace Formula

def line (f : Formula) : List Char := f.first.text.toList ++ spaced f.rest

def source (f : Formula) : String := String.ofList f.line

end Formula

/-! ## Operands -/

/-- A word or a number ends before a space and at the end of the line. -/
def Separate (after : List Char) : Prop := ∀ c ∈ after.head?, c = ' '

theorem separate_spaced (pairs : List (Operator × Operand)) : Separate (spaced pairs) := by
  cases pairs with
  | nil => simp [Separate, spaced]
  | cons pair rest => simp [Separate, spaced]

variable {after : List Char}

theorem takeWhile_append_of_separate {p : Char → Bool} {front : List Char}
    (inside : ∀ c ∈ front, p c = true) (apart : Separate after) (ends : p ' ' = false) :
    (front ++ after).takeWhile p = front := by
  rw [takeWhile_append_of_pos inside]
  cases after with
  | nil => simp
  | cons c rest =>
    cases apart c rfl
    rw [takeWhile_cons_of_neg (by simp [ends]), append_nil]

theorem not_lower_head_delimiters : ∀ p ∈ Lexeme.delimiters, (p.1.toList.head?.all fun c => !isLetter c) = true := by
  decide +kernel

/-- A sign that begins with a small letter is that letter. -/
theorem singleton_of_lower_head : ∀ p ∈ Symbol.symbolicSpellings,
    (p.1.toList.head?.all fun c => !isLower c || p.1 == String.singleton c) = true := by
  decide +kernel

variable {c : Char} {rest : List Char}

theorem longest_eq_none {b : Brackets} (letter : isLetter c = true)
    (lower : isLower c = true) (free : Symbol.ofSpelling (String.singleton c) = none) :
    Lexeme.longest b (c :: rest) = none := by
  rw [Lexeme.longest, List.findSome?_eq_none_iff]
  intro n member
  have positive : n ≠ 0 := by
    rintro rfl
    simp at member
  have head : (String.ofList ((c :: rest).take n)).toList.head? = some c := by
    rw [String.toList_ofList, List.head?_take, if_neg positive]
    rfl
  apply spelledBy_eq_none
  · intro value found
    have other := not_lower_head_delimiters _ found
    rw [head, Option.all_some, letter] at other
    cases other
  · intro s found
    have single := singleton_of_lower_head _ (mem_of_lookup found)
    rw [head, Option.all_some, lower, Bool.not_true, Bool.false_or] at single
    have alone : String.ofList ((c :: rest).take n) = String.singleton c := eq_of_beq single
    rw [alone, free] at found
    cases found

theorem starters_capitalized : ∀ word ∈ ProseRules.defaultStarters,
    (word.toList.head?.all fun c => !isLower c) = true := by
  decide

variable {name : String}

theorem isStarter_eq_false (spelled : name.toList = c :: rest)
    (lower : isLower c = true) : Prose.isStarter ProseRules.standard name = false := by
  apply Bool.eq_false_iff.mpr
  intro starter
  have member : name ∈ ProseRules.defaultStarters := contains_iff_mem.mp starter
  have capital := starters_capitalized name member
  rw [spelled, List.head?_cons, Option.all_some, lower] at capital
  cases capital

theorem IsPlainName.isNamePart (plain : IsPlainName name) : ∀ c ∈ name.toList, Lexeme.isNamePart c = true := by
  obtain ⟨⟨c, rest, spelled, letter, _, _, others⟩, _⟩ := plain
  intro d member
  rw [spelled] at member
  rcases mem_cons.mp member with rfl | later
  · simp [Lexeme.isNamePart, letter]
  · have part := all_eq_true.mp others d later
    simp only [Bool.or_eq_true] at part
    rcases part with part | part <;> simp [Lexeme.isNamePart, part]

theorem decorations_eq_nil (apart : Separate after) : Lexeme.decorations after = [] := by
  cases after with
  | nil => rfl
  | cons c rest =>
    cases apart c rfl
    rfl

theorem word_of_plain (plain : IsPlainName name) (midLine : Bool) (apart : Separate after) :
    Lexeme.word ProseRules.standard midLine (name.toList ++ after) = ⟨.identifier, name, name.length⟩ := by
  obtain ⟨c, rest, spelled, _, lower, _, _⟩ := plain.shape
  have taken := takeWhile_append_of_separate plain.isNamePart apart (by decide)
  have different : (name == "not") = false := by
    apply beq_false_of_ne
    rintro rfl
    exact absurd plain.unreserved (by decide)
  unfold Lexeme.word
  simp only [taken, String.ofList_toList, different, Bool.false_and, plain.unreserved,
    isStarter_eq_false spelled lower, Bool.and_false, drop_left, decorations_eq_nil apart]
  simp [String.length_toList]

variable {cs : List Char}

theorem number_of_digits (digits : IsNumberText cs) (apart : Separate after) :
    Lexeme.number (cs ++ after) = ⟨.number, String.ofList cs, cs.length⟩ := by
  have blank : isDigit ' ' = false := by decide
  unfold Lexeme.number
  dsimp only
  cases digits with
  | whole _ all =>
    rw [takeWhile_append_of_separate (all_eq_true.mp all) apart blank, drop_left]
    cases after with
    | nil => simp
    | cons c rest =>
      cases apart c rfl
      simp
  | @decimal ds es _ all some more =>
    have whole : (ds ++ '.' :: es ++ after).takeWhile isDigit = ds := by
      rw [append_assoc, takeWhile_append_of_pos (all_eq_true.mp all), cons_append,
        takeWhile_cons_of_neg (by decide), append_nil]
    have nonempty : es.isEmpty = false := by simpa using some
    rw [whole, append_assoc, drop_left]
    simp [takeWhile_append_of_separate (all_eq_true.mp more) apart blank, nonempty]

theorem IsNumberText.head (digits : IsNumberText cs) : ∃ c rest, cs = c :: rest ∧ isDigit c = true := by
  have first {ds : List Char} (some : ds ≠ []) (all : ds.all isDigit = true) :
      ∃ c rest, ds = c :: rest ∧ isDigit c = true := by
    obtain ⟨c, rest, rfl⟩ := exists_cons_of_ne_nil some
    exact ⟨c, rest, rfl, all_eq_true.mp all c mem_cons_self⟩
  cases digits with
  | whole some all => exact first some all
  | decimal some all _ _ => grind

/-- An operand begins with a small letter or a digit. -/
theorem Operand.head (o : Operand) : ∃ c rest, o.text.toList = c :: rest ∧
    ((isLetter c = true ∧ isLower c = true) ∨ isDigit c = true) := by
  cases o with
  | name text plain =>
    obtain ⟨c, rest, spelled, letter, lower, _⟩ := plain.shape
    exact ⟨c, rest, spelled, .inl ⟨letter, lower⟩⟩
  | number text digits =>
    obtain ⟨c, rest, spelled, digit⟩ := digits.head
    exact ⟨c, rest, spelled, .inr digit⟩

/-- Letters and digits are neither white space nor one of the signs that are read apart. -/
theorem visible_of_head (head : isLetter c = true ∨ isDigit c = true) :
    isBlank c = false ∧ (c == '%') = false ∧ (c == '\\') = false ∧ (c == '[') = false := by
  have different {d : Char} (letter : isLetter d = false) (digit : isDigit d = false) : (c == d) = false := by grind
  refine ⟨?_, different (by decide) (by decide),
    different (by decide) (by decide), different (by decide) (by decide)⟩
  rcases head with letter | digit
  · exact not_blank_of_isLetter letter
  · exact not_blank_of_isDigit digit

variable {s : Scan}

theorem lexemeAt_operand (r : Reading) (rules : r.rules = ProseRules.standard) (defines : Bool)
    (closers : s.closers = []) (pos : Nat) (o : Operand)
    (apart : Separate after) (here : o.text.toList ++ after = c :: cs) :
    r.lexemeAt defines s pos c cs = .ok (s, ⟨o.kind, o.text, o.text.length⟩) := by
  cases o with
  | name text plain =>
    obtain ⟨d, rest, spelled, letter, lower, free, _⟩ := plain.shape
    have word := word_of_plain plain (!s.tokens.isEmpty) apart
    rw [Operand.text] at here
    rw [here] at word
    rw [spelled, cons_append] at here
    obtain ⟨rfl, rfl⟩ := List.cons.inj here
    obtain ⟨_, _, backslash, bracket⟩ := visible_of_head (.inl letter)
    simp [Reading.lexemeAt, closers, backslash, bracket, not_digit_of_isLetter letter, letter,
      longest_eq_none letter lower free, rules, word, Operand.kind, Operand.text]
  | number text digits =>
    obtain ⟨d, rest, spelled, digit⟩ := digits.head
    have number := number_of_digits digits apart
    rw [String.ofList_toList, String.length_toList] at number
    rw [Operand.text] at here
    rw [here] at number
    rw [spelled, cons_append] at here
    obtain ⟨rfl, rfl⟩ := List.cons.inj here
    obtain ⟨_, _, backslash, bracket⟩ := visible_of_head (.inr digit)
    simp [Reading.lexemeAt, closers, backslash, bracket, digit, number, Operand.kind, Operand.text]

/-! ## Operators -/

/-- A sign begins with no digit, it opens no comment or bracket, and only the backslash begins with one. -/
def opensSign (a : String) (c : Char) : Bool := !isDigit c && c != '%' && c != '[' && (c != '\\' || a == "\\")

variable {a : String}

theorem opensSign_parts (opens : opensSign a c = true) :
    isDigit c = false ∧ (c == '%') = false ∧ (c == '[') = false ∧ (c = '\\' → a = "\\") := by
  simp only [opensSign, Bool.and_eq_true, Bool.or_eq_true, Bool.not_eq_true', bne_iff_ne, beq_iff_eq] at opens
  obtain ⟨⟨⟨digit, comment⟩, bracket⟩, backslash⟩ := opens
  refine ⟨digit, beq_false_of_ne comment, beq_false_of_ne bracket, ?_⟩
  intro own
  rcases backslash with other | alone
  · exact absurd own other
  · exact alone

/-- What the table holds of a sign for an operator. -/
theorem sign_known : ∀ s ∈ Symbol.table, s.role = .infixOp ∨ s.role = .relation → ∀ a ∈ s.aliases,
    Symbol.isWordSpelling a = false →
    Symbol.ofSpelling a = some s ∧ Lexeme.delimiters.lookup a = none ∧ a.toList.length ∈ [5, 4, 3, 2, 1] ∧
    (s.name = "lt" → a = "<") ∧
    a.toList.head?.all (opensSign a) = true := by
  decide

/-- What the table holds of a word for an operator. -/
theorem word_known : ∀ s ∈ Symbol.table, s.role = .infixOp ∨ s.role = .relation → ∀ a ∈ s.aliases,
    Symbol.isWordSpelling a = true →
    (a = "not in" ∧ s.name = "notin") ∨
      (Symbol.ofWord a = some s ∧ a ≠ "not" ∧ a.toList.all Lexeme.isNamePart = true) := by
  decide

theorem visible_sign {s : Symbol} (found : Symbol.ofSpelling a = some s) : ∀ c ∈ a.toList, isBlank c = false :=
  visible_spellings _ (mem_of_lookup found)

/-- A sign before a space is the longest that can be read. -/
theorem longest_sign {s : Symbol} (known : Symbol.ofSpelling a = some s)
    (other : Lexeme.delimiters.lookup a = none) (length : a.toList.length ∈ [5, 4, 3, 2, 1]) (b : Brackets)
    (more : List Char) :
    Lexeme.longest b (a.toList ++ ' ' :: more) = some ⟨Lexeme.kindOf s, s.name, a.length⟩ := by
  have itself : Lexeme.spelledBy b (a.toList ++ ' ' :: more) a.toList.length =
      some ⟨Lexeme.kindOf s, s.name, a.length⟩ := by
    simp [Lexeme.spelledBy, other, known, String.length_toList]
  -- more characters would take the space in
  have longer {n : Nat} (beyond : a.toList.length < n) : Lexeme.spelledBy b (a.toList ++ ' ' :: more) n = none := by
    have space : ' ' ∈ (String.ofList ((a.toList ++ ' ' :: more).take n)).toList := by
      obtain ⟨k, rfl⟩ := Nat.exists_eq_add_of_lt beyond
      rw [String.toList_ofList, Nat.add_assoc, take_length_add_append]
      simp
    apply spelledBy_eq_none
    · intro value found
      have blank := visible_delimiters _ found _ space
      cases blank
    · intro s found
      have blank := visible_sign found _ space
      cases blank
  rw [Lexeme.longest, List.findSome?_eq_some_iff]
  obtain ⟨before, after, split⟩ := append_of_mem length
  refine ⟨before, a.toList.length, after, split, itself, fun n earlier => longer ?_⟩
  have descending : List.Pairwise (fun m n : Nat => n < m) [5, 4, 3, 2, 1] := by decide
  rw [split, pairwise_append] at descending
  exact descending.2.2 n earlier _ mem_cons_self

theorem kindOf_operator {s : Symbol} (role : s.role = .infixOp ∨ s.role = .relation) : Lexeme.kindOf s = .operator := by
  unfold Lexeme.kindOf
  rcases role with role | role <;> rw [role]

/-- Between spaces a sign is the operator it spells. -/
theorem symbolAt_sign (r : Reading) (defines : Bool) (gap : s.gap = true) (pos : Nat)
    {symbol : Symbol} (role : symbol.role = .infixOp ∨ symbol.role = .relation)
    {length : Nat} (longest : Lexeme.longest s.brackets (c :: cs) = some ⟨Lexeme.kindOf symbol, symbol.name, length⟩)
    (compares : symbol.name = "lt" → cs.head? = some ' ') :
    r.symbolAt defines s pos c cs = .ok (s, ⟨.operator, symbol.name, length⟩) := by
  have loose : s.isTight = false := by
    unfold Scan.isTight
    split <;> simp [gap]
  rw [kindOf_operator role] at longest
  unfold Reading.symbolAt
  simp only [longest, loose, Bool.and_false, beq_self_eq_true, if_true]
  split
  next less =>
    cases cs with
    | nil => cases compares (eq_of_beq less)
    | cons d rest =>
      cases compares (eq_of_beq less)
      rfl
  next => rfl

theorem restIsBlank_operand {o : Operand} : Lexeme.restIsBlank (' ' :: (o.text.toList ++ after)) = false := by
  obtain ⟨c, rest, spelled, head⟩ := o.head
  obtain ⟨visible, comment, _⟩ := visible_of_head (head.imp_left And.left)
  have space : isBlank ' ' = true := by decide
  simp [Lexeme.restIsBlank, dropBlanks, space, spelled, visible, comment]

theorem lexemeAt_sign (r : Reading) (defines : Bool) (closers : s.closers = [])
    (gap : s.gap = true) (pos : Nat) (p : Operator) (o : Operand)
    (spelled : p.spelling.toList = c :: rest) (sign : Symbol.isWordSpelling p.spelling = false) :
    r.lexemeAt defines s pos c (rest ++ ' ' :: (o.text.toList ++ after)) =
      .ok (s, ⟨.operator, p.symbol.name, p.spelling.length⟩) := by
  obtain ⟨known, other, length, compares, head⟩ := sign_known _ p.known p.role _ p.spelled sign
  have longest := longest_sign known other length s.brackets (o.text.toList ++ after)
  rw [spelled, List.head?_cons, Option.all_some] at head
  obtain ⟨digit, _, bracket, backslash⟩ := opensSign_parts head
  rw [Symbol.isWordSpelling, spelled] at sign
  rw [spelled, cons_append] at longest
  have inMidLine : (c == '\\' && Lexeme.restIsBlank (rest ++ ' ' :: (o.text.toList ++ after))) = false := by
    cases found : c == '\\' with
    | false => rfl
    | true =>
      rw [backslash (eq_of_beq found)] at spelled
      cases spelled
      exact restIsBlank_operand
  have noWord : (isLetter c && (decide (c.toNat < 0x7F) || (Lexeme.longest s.brackets
      (c :: (rest ++ ' ' :: (o.text.toList ++ after)))).isNone)) = false := by
    rw [longest, Option.isNone_some, Bool.or_false, Bool.and_comm]
    simp only [Bool.and_eq_false_iff, decide_eq_false_iff_not] at sign ⊢
    exact sign.imp_left (fun large small => large (by omega))
  have symbol := symbolAt_sign r defines gap pos p.role longest fun less => by
    rw [compares less] at spelled
    cases spelled
    rfl
  simp only [Reading.lexemeAt, closers, contains_nil, inMidLine, bracket, digit, noWord, symbol,
    Bool.false_eq_true, if_false]

theorem word_reserved {s : Symbol} (known : Symbol.ofWord a = some s) (different : a ≠ "not")
    (parts : ∀ c ∈ a.toList, Lexeme.isNamePart c = true) (rules : ProseRules) (midLine : Bool)
    (more : List Char) :
    Lexeme.word rules midLine (a.toList ++ ' ' :: more) = ⟨Lexeme.kindOf s, s.name, a.length⟩ := by
  have apart : Separate (' ' :: more) := by simp [Separate]
  have taken := takeWhile_append_of_separate parts apart (by decide)
  unfold Lexeme.word
  simp only [taken, String.ofList_toList, beq_false_of_ne different, Bool.false_and, known,
    String.length_toList, Bool.false_eq_true, if_false]

theorem word_notIn (rules : ProseRules) (midLine : Bool) (more : List Char) :
    Lexeme.word rules midLine ("not in".toList ++ ' ' :: more) = ⟨.operator, "notin", 6⟩ := by
  have apart : Separate (' ' :: 'i' :: 'n' :: ' ' :: more) := by simp [Separate]
  have parts : ∀ c ∈ "not".toList, Lexeme.isNamePart c = true := all_eq_true.mp (by decide)
  have taken := takeWhile_append_of_separate parts apart (by decide)
  have blanks : (' ' :: 'i' :: 'n' :: ' ' :: more).takeWhile (fun c => c == ' ' || c == '\t') = [' '] := rfl
  have spaced : Lexeme.spacedIn (' ' :: 'i' :: 'n' :: ' ' :: more) = 3 := by
    unfold Lexeme.spacedIn
    rw [blanks]
    rfl
  change Lexeme.word rules midLine ("not".toList ++ ' ' :: 'i' :: 'n' :: ' ' :: more) = _
  unfold Lexeme.word
  simp only [taken, drop_left, String.ofList_toList, spaced]
  rfl

theorem lexemeAt_word (r : Reading) (defines : Bool) (closers : s.closers = []) (pos : Nat)
    (p : Operator) {more : List Char} (spelled : p.spelling.toList = c :: rest)
    (word : Symbol.isWordSpelling p.spelling = true) :
    r.lexemeAt defines s pos c (rest ++ ' ' :: more) = .ok (s, ⟨.operator, p.symbol.name, p.spelling.length⟩) := by
  have read : Lexeme.word r.rules (!s.tokens.isEmpty) (p.spelling.toList ++ ' ' :: more) =
      ⟨.operator, p.symbol.name, p.spelling.length⟩ := by
    rcases word_known _ p.known p.role _ p.spelled word with ⟨spelling, name⟩ | ⟨known, different, parts⟩
    · rw [spelling, name]
      exact word_notIn _ _ _
    · rw [word_reserved known different (all_eq_true.mp parts), kindOf_operator p.role]
  rw [Symbol.isWordSpelling, spelled] at word
  rw [spelled, cons_append] at read
  simp only [Bool.and_eq_true, decide_eq_true_eq] at word
  obtain ⟨ascii, letter⟩ := word
  obtain ⟨_, _, backslash, bracket⟩ := visible_of_head (.inl letter)
  have below : c.toNat < 0x7F := by
    apply Nat.lt_of_not_le
    intro above
    have last : c.toNat = 0x7F := by omega
    rw [isLetter, last] at letter
    cases letter
  simp [Reading.lexemeAt, closers, backslash, bracket, not_digit_of_isLetter letter, letter, below, read]

theorem lexemeAt_operator (r : Reading) (defines : Bool) (closers : s.closers = [])
    (gap : s.gap = true) (pos : Nat) (p : Operator) (o : Operand)
    (spelled : p.spelling.toList = c :: rest) :
    r.lexemeAt defines s pos c (rest ++ ' ' :: (o.text.toList ++ after)) =
      .ok (s, ⟨.operator, p.symbol.name, p.spelling.length⟩) := by
  cases word : Symbol.isWordSpelling p.spelling with
  | false => exact lexemeAt_sign r defines closers gap pos p o spelled word
  | true => exact lexemeAt_word r defines closers pos p spelled word

/-! ## No prose -/

theorem IsNumberText.mem (digits : IsNumberText cs) : ∀ c ∈ cs, isDigit c = true ∨ c = '.' := by
  cases digits with
  | whole _ digits => exact fun c member => .inl (all_eq_true.mp digits c member)
  | decimal _ before _ after => grind

theorem Operand.visible (o : Operand) : ∀ c ∈ o.text.toList, isBlank c = false := by
  intro c member
  cases o with
  | name text plain => exact not_blank_of_isNamePart (plain.isNamePart c member)
  | number text digits =>
    rcases digits.mem c member with digit | rfl
    · exact not_blank_of_isDigit digit
    · decide

/-- Trimming keeps a first character that is no punctuation. -/
theorem trimPunctuation_cons {w : String} (spelled : w.toList = c :: rest)
    (kept : isPunctuation c = false) : ∃ more, (Prose.trimPunctuation w).toList = c :: more := by
  have unmarked : (fun c => isPunctuation c && c != '\'') c = false := by simp [kept]
  unfold Prose.trimPunctuation
  dsimp only
  rw [spelled, dropWhile_cons_of_neg (by simp [kept]), String.toList_ofList]
  exact dropTrailing_cons unmarked rest

theorem IsPlainName.opensSentence_eq_false (plain : IsPlainName name) (lineStart : Bool) :
    Prose.opensSentence ProseRules.standard name lineStart = false := by
  obtain ⟨c, rest, spelled, _, lower, _, _⟩ := plain.shape
  obtain ⟨more, trimmed⟩ := trimPunctuation_cons spelled (not_punctuation_of_isLower lower)
  unfold Prose.opensSentence
  simp [trimmed, isStarter_eq_false trimmed lower, not_upper_of_isLower lower]

theorem mem_of_mem_trimPunctuation {w : String} (member : c ∈ (Prose.trimPunctuation w).toList) : c ∈ w.toList := by
  unfold Prose.trimPunctuation at member
  dsimp only at member
  rw [String.toList_ofList] at member
  obtain ⟨tail, split, _⟩ := dropTrailing_append (fun c => isPunctuation c && c != '\'')
    (w.toList.dropWhile fun c => isPunctuation c && c != '\'')
  apply (dropWhile_suffix _).subset
  rw [split]
  exact mem_append_left tail member

theorem IsNumberText.opensSentence_eq_false {w : String} (digits : IsNumberText w.toList) (lineStart : Bool) :
    Prose.opensSentence ProseRules.standard w lineStart = false := by
  apply Bool.eq_false_iff.mpr
  intro opens
  simp only [Prose.opensSentence, Bool.and_eq_true] at opens
  obtain ⟨⟨⟨⟨_, nonempty⟩, letters⟩, _⟩, _⟩ := opens
  cases spelled : (Prose.trimPunctuation w).toList with
  | nil =>
    rw [String.toList_eq_nil_iff.mp spelled] at nonempty
    cases nonempty
  | cons c more =>
    rw [spelled] at letters
    have letter : isLetter c = true := all_eq_true.mp letters c mem_cons_self
    have member : c ∈ w.toList := mem_of_mem_trimPunctuation (by rw [spelled]; exact mem_cons_self)
    rcases digits.mem c member with digit | rfl
    · rw [not_digit_of_isLetter letter] at digit
      cases digit
    · cases letter

theorem Operand.opensSentence_eq_false (o : Operand) (lineStart : Bool) :
    Prose.opensSentence ProseRules.standard o.text lineStart = false := by
  cases o with
  | name text plain => exact plain.opensSentence_eq_false lineStart
  | number text digits => exact digits.opensSentence_eq_false lineStart

/-! ## The row of a formula -/

/-- The classes and values of operators and the operands to their right. -/
def spellingsOf (pairs : List (Operator × Operand)) : List (Kind × String) :=
  pairs.flatMap fun (p, o) => [(.operator, p.symbol.name), (o.kind, o.text)]

/-- The tokens stand for operators and operands, each after a space. -/
structure AreSpaced (pairs : List (Operator × Operand)) (row : List Token) : Prop where
  spelled : row.map (fun t => (t.kind, t.value)) = spellingsOf pairs
  spaces : ∀ t ∈ row, t.spaceBefore = true

/-- What is read at a place is one token, and reading goes on behind it. -/
theorem scan_text (r : Reading) (defines : Bool) {pos : Nat} {kind : Kind} {value text : String}
    (spelled : text.toList = c :: rest)
    (visible : isBlank c = false) (code : (c == '%') = false)
    (read : r.lexemeAt defines s pos c (rest ++ after) = .ok (s, ⟨kind, value, text.length⟩)) :
    r.scan defines pos 0 s (text.toList ++ after) =
      r.scan defines (pos + text.length) 0 (s.emit kind value text pos (pos + text.length)) after := by
  have length : text.length = rest.length + 1 := by rw [← String.length_toList, spelled, length_cons]
  have literal : String.ofList ((c :: (rest ++ after)).take text.length) = text := by
    rw [← cons_append, ← spelled, ← String.length_toList, take_left, String.ofList_toList]
  rw [spelled, cons_append, Reading.scan]
  simp only [visible, code, Bool.false_eq_true, if_false, read, literal]
  rw [length, Nat.add_sub_cancel, Reading.scan_skip r defines _ (by simp), drop_left, Nat.add_assoc, Nat.add_comm 1]

theorem Operator.head (p : Operator) :
    ∃ c rest, p.spelling.toList = c :: rest ∧ isBlank c = false ∧ (c == '%') = false := by
  cases word : Symbol.isWordSpelling p.spelling with
  | false =>
    obtain ⟨known, _, length, _, head⟩ := sign_known _ p.known p.role _ p.spelled word
    cases spelled : p.spelling.toList with
    | nil =>
      rw [spelled] at length
      simp at length
    | cons c rest =>
      rw [spelled, List.head?_cons, Option.all_some] at head
      refine ⟨c, rest, rfl, visible_sign known c ?_, (opensSign_parts head).2.1⟩
      rw [spelled]
      exact mem_cons_self
  | true =>
    unfold Symbol.isWordSpelling at word
    split at word
    next => cases word
    next c rest spelled => grind [visible_of_head]

theorem scan_operand (r : Reading) (rules : r.rules = ProseRules.standard) (defines : Bool)
    (closers : s.closers = []) (pos : Nat) (o : Operand) (apart : Separate after) :
    r.scan defines pos 0 s (o.text.toList ++ after) = r.scan defines (pos + o.text.length) 0
        (s.emit o.kind o.text o.text pos (pos + o.text.length)) after := by
  obtain ⟨c, rest, spelled, head⟩ := o.head
  obtain ⟨visible, code, _⟩ := visible_of_head (head.imp_left And.left)
  refine scan_text r defines spelled visible code (lexemeAt_operand r rules defines closers pos o apart ?_)
  rw [spelled, cons_append]

theorem scan_operator (r : Reading) (defines : Bool) (closers : s.closers = [])
    (gap : s.gap = true) (pos : Nat) (p : Operator) (o : Operand) (after : List Char) :
    r.scan defines pos 0 s (p.spelling.toList ++ ' ' :: (o.text.toList ++ after)) =
      r.scan defines (pos + p.spelling.length) 0
        (s.emit .operator p.symbol.name p.spelling pos (pos + p.spelling.length))
        (' ' :: (o.text.toList ++ after)) := by
  obtain ⟨c, rest, spelled, visible, code⟩ := p.head
  exact scan_text r defines spelled visible code (lexemeAt_operator r defines closers gap pos p o spelled)

theorem tokens_emit (s : Scan) (kind : Kind) (value literal : String) (start stop : Nat) :
    ∃ t, (s.emit kind value literal start stop).tokens = t :: s.tokens ∧ t.kind = kind ∧ t.value = value :=
  ⟨_, rfl, rfl, rfl⟩

/-- The scan after a space. -/
def Scan.spaced (s : Scan) : Scan := { s with gap := true }

/-- The scan after an operator and an operand. -/
def Scan.afterPair (s : Scan) (pos : Nat) (p : Operator) (o : Operand) : Scan :=
  let stop := pos + 1 + p.spelling.length
  (s.spaced.emit .operator p.symbol.name p.spelling (pos + 1) stop).spaced.emit o.kind o.text o.text
    (stop + 1) (stop + 1 + o.text.length)

theorem tokens_afterPair (s : Scan) (pos : Nat) (p : Operator) (o : Operand) :
    ∃ t u, (s.afterPair pos p o).tokens = u :: t :: s.tokens ∧ AreSpaced [(p, o)] [t, u] :=
  ⟨_, _, rfl, rfl, by simp [Scan.spaced]⟩

theorem scan_pair (r : Reading) (rules : r.rules = ProseRules.standard) (defines : Bool)
    (closers : s.closers = []) (pos : Nat) (p : Operator) (o : Operand) (rest : List (Operator × Operand)) :
    r.scan defines pos 0 s (spaced ((p, o) :: rest)) =
      r.scan defines (pos + 1 + p.spelling.length + 1 + o.text.length) 0 (s.afterPair pos p o) (spaced rest) := by
  have line : spaced ((p, o) :: rest) = ' ' :: (p.spelling.toList ++ ' ' :: (o.text.toList ++ spaced rest)) := by
    simp [spaced]
  have closers₁ : s.spaced.closers = [] := closers
  have closers₂ : (s.spaced.emit .operator p.symbol.name p.spelling (pos + 1)
      (pos + 1 + p.spelling.length)).spaced.closers = [] := closers
  rw [line]
  calc
    _ = r.scan defines (pos + 1) 0 s.spaced (p.spelling.toList ++ ' ' :: (o.text.toList ++ spaced rest)) := rfl
    _ = r.scan defines (pos + 1 + p.spelling.length) 0 (s.spaced.emit .operator p.symbol.name p.spelling
          (pos + 1) (pos + 1 + p.spelling.length)) (' ' :: (o.text.toList ++ spaced rest)) :=
        scan_operator r defines closers₁ rfl (pos + 1) p o (spaced rest)
    _ = _ := scan_operand r rules defines closers₂ _ o (separate_spaced rest)

theorem AreSpaced.append {pairs rest : List (Operator × Operand)} {row more : List Token}
    (first : AreSpaced pairs row) (second : AreSpaced rest more) : AreSpaced (pairs ++ rest) (row ++ more) where
  spelled := by
    rw [map_append, first.spelled, second.spelled, spellingsOf, spellingsOf, spellingsOf, flatMap_append]
  spaces := fun t member => (mem_append.mp member).elim (first.spaces t) (second.spaces t)

theorem scan_spaced (r : Reading) (rules : r.rules = ProseRules.standard) (defines : Bool)
    (pairs : List (Operator × Operand)) (closers : s.closers = []) (pos : Nat) :
    ∃ row s', AreSpaced pairs row ∧ r.scan defines pos 0 s (spaced pairs) = .ok s' ∧
      s'.tokens = row.reverse ++ s.tokens := by
  induction pairs generalizing s pos with
  | nil => exact ⟨[], s, ⟨rfl, by simp⟩, rfl, rfl⟩
  | cons pair rest ih =>
    obtain ⟨p, o⟩ := pair
    have kept : (s.afterPair pos p o).closers = [] := closers
    obtain ⟨t, u, added, here⟩ := tokens_afterPair s pos p o
    obtain ⟨row, s', others, read, tokens⟩ := ih kept (pos + 1 + p.spelling.length + 1 + o.text.length)
    rw [scan_pair r rules defines closers]
    refine ⟨[t, u] ++ row, s', here.append others, read, ?_⟩
    rw [tokens, added]
    simp

theorem aliases_feedless : ∀ s ∈ Symbol.table, ∀ a ∈ s.aliases, '\n' ∉ a.toList := by
  decide +kernel

theorem blockKeywords_capitalized : ∀ k ∈ Symbol.blockKeywords,
    (k.toList.head?.all fun c => !isLower c && !isDigit c) = true := by
  decide

namespace Formula

theorem line_feedless (f : Formula) : '\n' ∉ f.line := by
  have operand (o : Operand) : '\n' ∉ o.text.toList := by
    intro member
    cases o.visible _ member
  intro member
  rcases mem_append.mp member with first | later
  · exact operand f.first first
  · obtain ⟨⟨p, o⟩, _, inside⟩ := mem_flatMap.mp later
    have feedless := aliases_feedless _ p.known _ p.spelled
    simp [feedless, operand o] at inside

theorem last_visible (f : Formula) : ∀ c ∈ f.line.getLast?, isBlank c = false := by
  have ends : ∃ (front : List Char) (o : Operand), f.line = front ++ o.text.toList := by
    rw [line]
    rcases eq_nil_or_concat f.rest with none | ⟨before, ⟨p, o⟩, more⟩
    · exact ⟨[], f.first, by rw [none]; simp [spaced]⟩
    · exact ⟨f.first.text.toList ++ spaced before ++ ' ' :: p.spelling.toList ++ [' '], o, by
        rw [more]; simp [spaced]⟩
  obtain ⟨front, o, split⟩ := ends
  obtain ⟨d, rest, spelled, _⟩ := o.head
  intro c last
  rw [split, List.getLast?_append] at last
  cases ending : o.text.toList.getLast? with
  | none =>
    rw [List.getLast?_eq_none_iff.mp ending] at spelled
    cases spelled
  | some d =>
    rw [ending] at last
    cases last
    exact o.visible c (mem_of_getLast? ending)

theorem isProse_eq_false (f : Formula) : Prose.isProse ProseRules.standard (String.ofList f.line) true = false := by
  obtain ⟨c, rest, spelled, _⟩ := f.first.head
  have apart : ∀ c ∈ (spaced f.rest).head?, isBlank c = true := by
    intro c head
    rw [separate_spaced f.rest c head]
    decide
  obtain ⟨more, split⟩ := splitWhere_append f.first.visible apart
  have words : ∃ others, words (String.ofList f.line) = f.first.text :: others := by
    refine ⟨(more.filter fun piece => !piece.isEmpty).map String.ofList, ?_⟩
    rw [words, piecesBetween, String.toList_ofList, line, split,
      filter_cons_of_pos (by simp [spelled]), map_cons, String.ofList_toList]
  obtain ⟨others, words⟩ := words
  unfold Prose.isProse
  rw [words]
  cases others with
  | nil => rfl
  | cons second rest => simp [f.first.opensSentence_eq_false]

section
variable (f : Formula) (r : Reading) (rules : r.rules = ProseRules.standard)
include f r rules

/-- No heading, block keyword, label or prose is read at the front of the line. -/
theorem plainLine_eq (s : Scan) :
    r.plainLine s f.line = (r.scan (occursIn "::=".toList f.line) 0 0 s f.line).map (fun s => (s, Capture.off)) := by
  obtain ⟨c, rest, spelled, head⟩ := f.first.head
  obtain ⟨visible, _⟩ := visible_of_head (head.imp_left And.left)
  have cons : f.line = c :: (rest ++ spaced f.rest) := by rw [line, spelled]; rfl
  have different {d : Char} (letter : isLower d = false) (digit : isDigit d = false) : c ≠ d := by
    rintro rfl
    rw [letter, digit] at head
    simp at head
  have trimmed : trimBlanks f.line = f.line := by
    rw [trimBlanks, dropBlanks, cons, dropWhile_cons_of_neg (by simp [visible]), ← cons,
      dropTrailing_eq_self f.last_visible]
  have noProse := f.isProse_eq_false
  rw [← rules, ← trimmed] at noProse
  rw [cons] at noProse ⊢
  refine Reading.plainLine_of_head visible ?_ (fun k member first => ?_) ?_ noProse s
  · have marks : (['%', '=', '*', '['].all fun d => !isLower d && !isDigit d) = true := by decide
    intro listed
    have other := all_eq_true.mp marks c listed
    simp only [Bool.and_eq_true, Bool.not_eq_true'] at other
    exact different other.1 other.2 rfl
  · have others := blockKeywords_capitalized k member
    simp only [first, Option.all_some, Bool.and_eq_true, Bool.not_eq_true'] at others
    exact different others.1 others.2 rfl
  · unfold Reading.partLabel
    split
    next opens =>
      cases opens
      exact absurd rfl (different (by decide) (by decide))
    next => rfl

theorem scan_line (defines : Bool) :
    ∃ t row s, r.scan defines 0 0 { number := 1 } f.line = .ok s ∧ s.tokens.reverse = t :: row ∧
      (t.kind = f.first.kind ∧ t.value = f.first.text) ∧ AreSpaced f.rest row := by
  have none : ({ number := 1 } : Scan).closers = [] := rfl
  have kept : (({ number := 1 } : Scan).emit f.first.kind f.first.text f.first.text 0
      (0 + f.first.text.length)).closers = [] := rfl
  obtain ⟨row, s, areSpaced, read, tokens⟩ := scan_spaced r rules defines f.rest kept (0 + f.first.text.length)
  rw [line, scan_operand r rules defines none 0 f.first (separate_spaced f.rest)]
  obtain ⟨t, added, first⟩ := tokens_emit { number := 1 } f.first.kind f.first.text f.first.text 0
    (0 + f.first.text.length)
  refine ⟨t, row, s, read, ?_, first, areSpaced⟩
  rw [tokens, added, reverse_append, reverse_reverse]
  rfl

/-- A formula is read as its operands and operators, and the line and the source end behind them. -/
theorem tokens_source : ∃ t row newline final, r.tokens f.source = .ok (t :: (row ++ [newline, final])) ∧
      (t.kind = f.first.kind ∧ t.value = f.first.text) ∧ AreSpaced f.rest row ∧
      newline.kind = .newline ∧ final.kind = .endOfInput := by
  obtain ⟨t, row, s, scanned, tokens, first, areSpaced⟩ := f.scan_line r rules (occursIn "::=".toList f.line)
  have unreturned : dropReturns f.source.toList = f.line := by
    rw [source, String.toList_ofList, dropReturns, dropTrailing_eq_self]
    intro c last
    apply beq_false_of_ne
    rintro rfl
    cases f.last_visible _ last
  have single : '\n' ∉ f.source.toList := by
    rw [source, String.toList_ofList]
    exact f.line_feedless
  have read := f.plainLine_eq r rules { number := 1 }
  rw [scanned, ← unreturned] at read
  have whole := (Reading.tokens_eq_ok_iff r single).mpr ⟨s, .off, read, rfl⟩
  rw [tokens, cons_append] at whole
  exact ⟨t, row, _, _, whole, first, areSpaced, rfl, rfl⟩

end

end Formula
end Token
end Whiteboard
