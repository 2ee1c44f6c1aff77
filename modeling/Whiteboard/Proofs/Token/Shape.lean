import Whiteboard.Proofs.Diagnostic.Outcome
import Whiteboard.Proofs.Token.Lexeme

namespace Whiteboard

open List Text Lexeme
namespace Token

/-!
# The tokens of a source

What the characters of names and numbers are, and where the operators that are written as words come
from.  The reader of a line adds one token at a time; each addition is of a lexeme with the right
shape, so every token of a source has it.
-/

/-- The characters a name may go on with. -/
def isNameChar (c : Char) : Bool := isNamePart c || c == '\'' || c == '?' || c == '!'

/-- A letter, and after it the characters of names. -/
def isNameText : List Char → Bool
  | [] => false
  | c :: cs => isLetter c && !isDigit c && cs.all isNameChar

/-- Digits, or digits on both sides of a point. -/
inductive IsNumberText : List Char → Prop
  | whole {ds : List Char} : ds ≠ [] → ds.all isDigit = true → IsNumberText ds
  | decimal {ds es : List Char} : ds ≠ [] → ds.all isDigit = true → es ≠ [] →
      es.all isDigit = true → IsNumberText (ds ++ '.' :: es)

/-- What value and literal of a token are, by its kind. -/
def ShapedAs (kind : Kind) (value literal : String) : Prop :=
  match kind with
  | .identifier => isNameText value.toList = true
  | .number => IsNumberText value.toList
  | .operator =>
    Symbol.isWordSpelling literal = true → value = "notin" ∨ ∃ s, Symbol.ofWord literal = some s ∧ s.name = value
  | _ => True

def Shaped (t : Token) : Prop := ShapedAs t.kind t.value t.literal

/-! ## Lexemes -/

variable {s : Symbol}

theorem mem_table_of_lookup {p : String → Bool} {key : String} (found : (Symbol.spellings p).lookup key = some s) :
    s ∈ Symbol.table ∧ key ∈ s.aliases ∧ p key = true := by
  rw [lookup_eq_some_iff] at found
  rcases found with ⟨before, after, split, _⟩
  have member : (key, s) ∈ Symbol.spellings p := by
    rw [split]
    simp
  rcases mem_flatMap.mp member with ⟨symbol, inTable, spelled⟩
  rcases mem_map.mp spelled with ⟨word, named, same⟩
  cases same
  exact ⟨inTable, mem_filter.mp named⟩

theorem mem_table_of_ofWord {word : String} (found : Symbol.ofWord word = some s) :
    s ∈ Symbol.table ∧ word ∈ s.aliases := by
  rcases mem_table_of_lookup found with ⟨member, named, _⟩
  exact ⟨member, named⟩

/-- A symbolic spelling is no word. -/
theorem mem_table_of_ofSpelling {spelling : String} (found : Symbol.ofSpelling spelling = some s) :
    s ∈ Symbol.table ∧ Symbol.isWordSpelling spelling = false := by
  rcases mem_table_of_lookup found with ⟨member, _, plain⟩
  refine ⟨member, ?_⟩
  simp at plain
  exact plain.2

theorem isNameText_of_constant : ∀ s ∈ Symbol.table, s.role = .constant → isNameText s.name.toList = true := by
  decide

theorem kindOf_eq_identifier (named : kindOf s = .identifier) : s.role = .constant := by
  unfold kindOf at named
  split at named
  · assumption
  · cases named
  · cases named
  · cases named

theorem kindOf_ne_number (s : Symbol) : kindOf s ≠ .number := by
  unfold kindOf
  split <;> simp

/-- What a symbol of the table is read as has the right shape. -/
theorem shapedAs_kindOf (member : s ∈ Symbol.table) {literal : String}
    (spelled : Symbol.isWordSpelling literal = true → Symbol.ofWord literal = some s) :
    ShapedAs (kindOf s) s.name literal := by
  unfold ShapedAs
  split
  next named => exact isNameText_of_constant s member (kindOf_eq_identifier named)
  next numeral => exact absurd numeral (kindOf_ne_number s)
  next =>
    intro word
    exact Or.inr ⟨s, spelled word, rfl⟩
  next => trivial

/-- The shape of what a lexeme becomes where the line goes on with `rest`. -/
def LexemeShaped (rest : List Char) (lexeme : Lexeme) : Prop :=
  ShapedAs lexeme.kind lexeme.value (String.ofList (rest.take lexeme.length))

theorem shaped_of_longest {b : Brackets} {rest : List Char} {lexeme : Lexeme}
    (found : longest b rest = some lexeme) : LexemeShaped rest lexeme := by
  rcases of_longest found with ⟨n, _, _, ⟨_, _, rfl⟩ | ⟨s, spelled, rfl⟩⟩
  · trivial
  · rcases mem_table_of_ofSpelling spelled with ⟨member, symbolic⟩
    apply shapedAs_kindOf member
    intro word
    rw [symbolic] at word
    cases word

theorem take_takeWhile {α : Type} (p : α → Bool) (xs : List α) : xs.take (xs.takeWhile p).length = xs.takeWhile p :=
  (prefix_iff_eq_take.mp <| takeWhile_prefix p).symm

theorem isNameChar_of_decorations {cs : List Char} {c : Char} (member : c ∈ decorations cs) : isNameChar c = true := by
  fun_induction decorations cs with
  | case1 cs ih | case2 cs ih =>
    rcases mem_cons.mp member with rfl | later
    · decide
    · exact ih later
  | case3 => cases member
  | case4 cs _ ih =>
    rcases mem_cons.mp member with rfl | later
    · decide
    · exact ih later
  | case5 => cases member

theorem shaped_word (rules : ProseRules) (midLine : Bool) {c : Char} (cs : List Char)
    (letter : isLetter c = true) (plain : isDigit c = false) :
    LexemeShaped (c :: cs) (word rules midLine (c :: cs)) := by
  unfold LexemeShaped word
  dsimp only
  split
  · exact fun _ => Or.inl rfl
  · split
    next s found =>
      apply shapedAs_kindOf (mem_table_of_ofWord found).1
      intro _
      dsimp only
      rw [take_takeWhile]
      exact found
    next =>
      split
      · trivial
      · show isNameText (String.ofList _).toList = true
        rw [String.toList_ofList, takeWhile_cons_of_pos (by simp [isNamePart, letter])]
        simp only [cons_append, isNameText, letter, plain, all_append, Bool.not_false,
          Bool.and_self, Bool.true_and, Bool.and_eq_true, all_eq_true]
        constructor
        · intro d member
          have part := all_eq_true.mp all_takeWhile d member
          simp [isNameChar, part]
        · intro d member
          exact isNameChar_of_decorations member

theorem shaped_number {c : Char} (cs : List Char) (digit : isDigit c = true) :
    LexemeShaped (c :: cs) (number (c :: cs)) := by
  have nonempty : (c :: cs).takeWhile isDigit ≠ [] := by
    rw [takeWhile_cons_of_pos digit]
    exact cons_ne_nil _ _
  show IsNumberText (String.ofList _).toList
  rw [String.toList_ofList]
  dsimp only
  split
  · next tail _ =>
      split
      · rw [append_nil]
        exact .whole nonempty all_takeWhile
      · next some =>
          exact .decimal nonempty all_takeWhile (by simpa using some) all_takeWhile
  · rw [append_nil]
    exact .whole nonempty all_takeWhile

/-- A spelling that begins with a caret is no word. -/
theorem isWordSpelling_caret (cs : List Char) (n : Nat) :
    Symbol.isWordSpelling (String.ofList (('^' :: cs).take n)) = false := by
  cases n with
  | zero => rfl
  | succ n =>
    simp only [Symbol.isWordSpelling, String.toList_ofList, take_succ_cons]
    decide

namespace Reading

theorem shaped_of_lexemeAt {r : Reading} {defines : Bool} {s s₁ : Scan} {pos : Nat} {c : Char} {cs : List Char}
    {lexeme : Lexeme} (found : LexemeAt r defines s pos c cs s₁ lexeme) :
    s₁.tokens = s.tokens ∧ LexemeShaped (c :: cs) lexeme := by
  cases found with
  | closer | continuation => exact ⟨rfl, trivial⟩
  | rule _ _ named =>
    refine ⟨rfl, ?_⟩
    unfold LexemeShaped
    rw [kind_of_justification named]
    trivial
  | number _ digit => exact ⟨rfl, shaped_number cs digit⟩
  | word _ opens =>
    have letter := letter_of_opensWord opens
    exact ⟨rfl, shaped_word _ _ cs letter (not_digit_of_isLetter letter)⟩
  | sign _ _ _ _ _ sign =>
    cases sign with
    | sequence => exact ⟨rfl, trivial⟩
    | raised _ _ _ caret =>
      refine ⟨rfl, fun word => ?_⟩
      rw [caret, isWordSpelling_caret] at word
      cases word
    | less longest | operator longest | delimiter longest | other longest =>
      exact ⟨rfl, shaped_of_longest longest⟩

end Reading
end Token
end Whiteboard
