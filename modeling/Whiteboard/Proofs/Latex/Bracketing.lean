import Whiteboard.Latex.Document
import Whiteboard.Proofs.Latex.Escape
import Whiteboard.Proofs.Token.Shape

namespace Whiteboard

open List
namespace Latex

/-!
# Bracketed text

LaTeX text is read from left to right with a list of what is open.  A backslash escapes the character
after it, and the commands `begin` and `end` open and close environments; braces and dollar signs that
are not escaped open and close the others.  Whatever is closed was opened last, so braces are balanced,
dollar signs come in pairs and environments are nested.

The pieces that output is put together from are closed: reading goes on behind them as if they were not
there.
-/

/-- What may be open in LaTeX text. -/
inductive Delimiter where
  | brace
  | math
  | environment (name : List Char)
  deriving DecidableEq

namespace Delimiter

/-- What stands behind a sign up to the next closing brace, if the characters begin with the sign. -/
def argumentOf (sign : List Char) (cs : List Char) : Option (List Char) :=
  if sign.isPrefixOf cs then some ((cs.drop sign.length).takeWhile (· != '\x7d')) else none

/-- What is open after the innermost delimiter is closed; it must be this one. -/
def close (d : Delimiter) : List Delimiter → Option (List Delimiter)
  | [] => none
  | innermost :: others => if innermost = d then some others else none

/-- What is open after a backslash, by the characters behind it. -/
def escape (opened : List Delimiter) (cs : List Char) : Option (List Delimiter) :=
  match argumentOf "begin\x7b".toList cs with
  | some name => some (environment name :: opened)
  | none =>
    match argumentOf "end\x7b".toList cs with
    | some name => (environment name).close opened
    | none => some opened

/-- What is open after a text; nothing if it closes what is not open. -/
def read (opened : List Delimiter) : List Char → Option (List Delimiter)
  | [] => some opened
  | c :: cs =>
    if c = '\\' then
      match cs with
      | [] => none
      | _ :: rest => (escape opened cs).bind fun now => read now rest
    else if c = '\x7b' then read (brace :: opened) cs
    else if c = '\x7d' then (brace.close opened).bind fun now => read now cs
    else if c = '$' then read ((math.close opened).getD (math :: opened)) cs
    else read opened cs

theorem read_escape (opened : List Delimiter) (c : Char) (cs : List Char) :
    read opened ('\\' :: c :: cs) = (escape opened (c :: cs)).bind fun now => read now cs := by
  rw [read.eq_def]
  rfl

@[simp] theorem read_opening (opened : List Delimiter) (cs : List Char) :
    read opened ('\x7b' :: cs) = read (brace :: opened) cs := by
  rw [read.eq_def]
  rfl

@[simp] theorem read_closing (opened : List Delimiter) (cs : List Char) :
    read (brace :: opened) ('\x7d' :: cs) = read opened cs := by
  rw [read.eq_def]
  rfl

theorem read_dollar (opened : List Delimiter) (cs : List Char) :
    read opened ('$' :: cs) = read ((math.close opened).getD (math :: opened)) cs := by
  rw [read.eq_def]
  rfl

theorem read_plain {c : Char} (plain : c ≠ '\\' ∧ c ≠ '\x7b' ∧ c ≠ '\x7d' ∧ c ≠ '$')
    (opened : List Delimiter) (cs : List Char) : read opened (c :: cs) = read opened cs := by
  rw [read.eq_def]
  simp [plain]

end Delimiter

/-- Everything that a text opens is closed in it again, the last first. -/
def WellBracketed (text : String) : Prop := Delimiter.read [] text.toList = some []

instance (text : String) : Decidable (WellBracketed text) := inferInstanceAs (Decidable (_ = _))

/-- Reading goes on behind the text as if it were not there.  Text with formulas in it is read so only
where no formula is open. -/
def Closed (inMath : Bool) (text : String) : Prop :=
  ∀ opened, (inMath = true ∨ opened.head? ≠ some .math) → ∀ rest,
    Delimiter.read opened (text.toList ++ rest) = Delimiter.read opened rest

/-! ## Pieces of a text -/

namespace Closed

variable {inMath : Bool} {s t : String}

theorem wellBracketed (closed : Closed inMath t) : WellBracketed t := by
  have whole := closed [] (.inr (by simp)) []
  rw [append_nil] at whole
  exact whole

/-- What is closed in a formula is closed outside of one. -/
theorem weaken (closed : Closed true t) : Closed inMath t := fun opened _ rest => closed opened (.inl rfl) rest

theorem empty : Closed inMath "" := fun _ _ _ => rfl

theorem append (first : Closed inMath s) (second : Closed inMath t) : Closed inMath (s ++ t) := by
  intro opened place rest
  rw [String.toList_append, append_assoc, first opened place, second opened place]

theorem join {parts : List String} (each : ∀ p ∈ parts, Closed inMath p) : Closed inMath (String.join parts) := by
  induction parts with
  | nil => exact empty
  | cons p rest ih =>
    rw [String.join_cons]
    exact (each p mem_cons_self).append (ih fun q member => each q (mem_cons_of_mem p member))

theorem intercalate {parts : List String} (gap : Closed inMath s) (each : ∀ p ∈ parts, Closed inMath p) :
    Closed inMath (s.intercalate parts) := by
  induction parts with
  | nil => exact empty
  | cons p rest ih =>
    have first := each p mem_cons_self
    have others := ih fun q member => each q (mem_cons_of_mem p member)
    cases rest with
    | nil =>
      rw [String.intercalate_singleton]
      exact first
    | cons q more =>
      rw [String.intercalate_cons_cons]
      exact (first.append gap).append others

theorem braced (closed : Closed inMath t) : Closed inMath (Latex.braced t) := by
  intro opened place rest
  have inside := closed (.brace :: opened) (.inr (by simp)) ('\x7d' :: rest)
  have spelled : (Latex.braced t).toList ++ rest = '\x7b' :: (t.toList ++ '\x7d' :: rest) := by
    simp [Latex.braced]
  rw [spelled, Delimiter.read_opening, inside, Delimiter.read_closing]

theorem dollars (closed : Closed true t) : Closed false ("$" ++ t ++ "$") := by
  intro opened place rest
  have outside : Delimiter.math.close opened = none := by
    cases opened with
    | nil => rfl
    | cons d others =>
      refine if_neg fun same => ?_
      simp [same] at place
  have inside := closed (.math :: opened) (.inl rfl) ('$' :: rest)
  have spelled : ("$" ++ t ++ "$").toList ++ rest = '$' :: (t.toList ++ '$' :: rest) := by simp
  rw [spelled, Delimiter.read_dollar, outside, Option.getD_none, inside, Delimiter.read_dollar]
  rfl

end Closed

/-! ## Fixed pieces -/

/-- Can the characters behind a backslash be the front of an environment's end? -/
def mayDelimit (cs : List Char) : Bool :=
  ("begin\x7b".toList.isPrefixOf cs || cs.isPrefixOf "begin\x7b".toList) ||
    ("end\x7b".toList.isPrefixOf cs || cs.isPrefixOf "end\x7b".toList)

/-- Does the text close the braces that it opens, and `depth` more of them, and nothing else? -/
def closes (depth : Nat) : List Char → Bool
  | [] => depth == 0
  | c :: cs =>
    if c = '\\' then
      match cs with
      | [] => false
      | _ :: rest => !mayDelimit cs && closes depth rest
    else if c = '\x7b' then closes (depth + 1) cs
    else if c = '\x7d' then decide (0 < depth) && closes (depth - 1) cs
    else c != '$' && closes depth cs

theorem argumentOf_append {sign cs : List Char}
    (apart : (sign.isPrefixOf cs || cs.isPrefixOf sign) = false) (rest : List Char) :
    Delimiter.argumentOf sign (cs ++ rest) = none := by
  rw [Bool.or_eq_false_iff] at apart
  refine if_neg fun called => ?_
  have leads := isPrefixOf_iff_prefix.mp called
  rcases prefix_or_prefix_of_prefix leads (prefix_append cs rest) with before | behind
  · cases apart.1.symm.trans <| isPrefixOf_iff_prefix.mpr before
  · cases apart.2.symm.trans <| isPrefixOf_iff_prefix.mpr behind

theorem escape_append {cs : List Char} (other : mayDelimit cs = false) (opened : List Delimiter)
    (rest : List Char) : Delimiter.escape opened (cs ++ rest) = some opened := by
  rw [mayDelimit, Bool.or_eq_false_iff] at other
  rw [Delimiter.escape, argumentOf_append other.1 rest, argumentOf_append other.2 rest]

theorem read_of_closes {depth : Nat} {cs : List Char} (closed : closes depth cs = true)
    (opened : List Delimiter) (rest : List Char) :
    Delimiter.read (List.replicate depth .brace ++ opened) (cs ++ rest) = Delimiter.read opened rest := by
  fun_induction closes depth cs with
  | case1 depth =>
    rw [eq_of_beq closed]
    rfl
  | case2 => cases closed
  | case3 depth c cs ih =>
    rw [Bool.and_eq_true, Bool.not_eq_true'] at closed
    have passed := escape_append closed.1 (List.replicate depth .brace ++ opened) rest
    rw [cons_append] at passed
    rw [cons_append, cons_append, Delimiter.read_escape, passed]
    exact ih closed.2
  | case4 depth cs _ ih =>
    rw [cons_append, Delimiter.read_opening]
    exact ih closed
  | case5 depth cs _ _ ih =>
    rw [Bool.and_eq_true, decide_eq_true_eq] at closed
    rcases Nat.exists_eq_succ_of_ne_zero (Nat.pos_iff_ne_zero.mp closed.1) with ⟨outer, rfl⟩
    rw [cons_append, replicate_succ, cons_append, Delimiter.read_closing]
    exact ih closed.2
  | case6 depth c cs notEscape notOpening notClosing ih =>
    rw [Bool.and_eq_true, bne_iff_ne] at closed
    rw [cons_append, Delimiter.read_plain ⟨notEscape, notOpening, notClosing, closed.1⟩]
    exact ih closed.2

theorem Closed.fixed {inMath : Bool} {t : String} (closed : closes 0 t.toList = true) : Closed inMath t :=
  fun opened _ rest => read_of_closes closed opened rest

/-- Characters that neither open nor close nor escape. -/
def isPlain (c : Char) : Bool := !(['\\', '\x7b', '\x7d', '$'].contains c)

theorem ne_of_isPlain {c : Char} (plain : isPlain c = true) : c ≠ '\\' ∧ c ≠ '\x7b' ∧ c ≠ '\x7d' ∧ c ≠ '$' := by
  simpa [isPlain] using plain

theorem closes_of_plain {cs : List Char} (plain : cs.all isPlain = true) : closes 0 cs = true := by
  induction cs with
  | nil => rfl
  | cons c rest ih =>
    rw [all_cons, Bool.and_eq_true] at plain
    have here := ne_of_isPlain plain.1
    have others := ih plain.2
    rw [closes.eq_def]
    simp [here, others]

theorem Closed.plain {inMath : Bool} {t : String} (plain : t.toList.all isPlain = true) : Closed inMath t :=
  .fixed (closes_of_plain plain)

/-! ## Environments -/

theorem argumentOf_eq {sign name : List Char} (plain : name.all isPlain = true) (rest : List Char) :
    Delimiter.argumentOf sign (sign ++ (name ++ '\x7d' :: rest)) = some name := by
  have inside : ∀ c ∈ name, (c != '\x7d') = true :=
    fun c member => bne_iff_ne.mpr (ne_of_isPlain (all_eq_true.mp plain c member)).2.2.1
  rw [Delimiter.argumentOf, if_pos <| isPrefixOf_iff_prefix.mpr <| prefix_append sign _, drop_left,
    takeWhile_append_of_pos inside]
  simp

/-- The braces of a command's argument are closed, so what is open changes only by the command itself. -/
theorem read_command {sign name : String} {c : Char} {cs : List Char} (begins : sign.toList = c :: cs)
    (plainSign : cs.all isPlain = true) (plain : name.toList.all isPlain = true)
    (opened : List Delimiter) (rest : List Char) :
    Delimiter.read opened ((command sign name).toList ++ rest) =
      (Delimiter.escape opened ((sign ++ "\x7b").toList ++ (name.toList ++ '\x7d' :: rest))).bind
        fun now => Delimiter.read now rest := by
  have passed : Closed true (String.ofList cs ++ braced name) :=
    (Closed.plain (by rwa [String.toList_ofList])).append (Closed.plain plain).braced
  have spelled : (command sign name).toList ++ rest =
      '\\' :: c :: ((String.ofList cs ++ braced name).toList ++ rest) := by
    simp [command, begins]
  have called : (sign ++ "\x7b").toList ++ (name.toList ++ '\x7d' :: rest) =
      c :: ((String.ofList cs ++ braced name).toList ++ rest) := by
    simp [braced, begins]
  rw [spelled, called, Delimiter.read_escape]
  congr 1
  funext now
  exact passed now (.inl rfl) rest

section
variable {name : String} (plain : name.toList.all isPlain = true) (opened : List Delimiter) (rest : List Char)
include plain opened rest

theorem read_begin : Delimiter.read opened ((command "begin" name).toList ++ rest) =
      Delimiter.read (.environment name.toList :: opened) rest := by
  have argument : Delimiter.argumentOf "begin\x7b".toList
      (("begin" ++ "\x7b").toList ++ (name.toList ++ '\x7d' :: rest)) = some name.toList :=
    argumentOf_eq plain rest
  have begins : Delimiter.escape opened (("begin" ++ "\x7b").toList ++ (name.toList ++ '\x7d' :: rest)) =
      some (.environment name.toList :: opened) := by
    rw [Delimiter.escape, argument]
  rw [@read_command "begin" name 'b' "egin".toList (by cbv) (by cbv) plain, begins]
  rfl

theorem read_end : Delimiter.read (.environment name.toList :: opened) ((command "end" name).toList ++ rest) =
      Delimiter.read opened rest := by
  have other : Delimiter.argumentOf "begin\x7b".toList
      (("end" ++ "\x7b").toList ++ (name.toList ++ '\x7d' :: rest)) = none :=
    argumentOf_append (by cbv) _
  have argument : Delimiter.argumentOf "end\x7b".toList
      (("end" ++ "\x7b").toList ++ (name.toList ++ '\x7d' :: rest)) = some name.toList :=
    argumentOf_eq plain rest
  have ends : Delimiter.escape (.environment name.toList :: opened)
      (("end" ++ "\x7b").toList ++ (name.toList ++ '\x7d' :: rest)) = some opened := by
    rw [Delimiter.escape, other, argument]
    exact if_pos rfl
  rw [@read_command "end" name 'e' "nd".toList (by cbv) (by cbv) plain, ends]
  rfl

end

theorem Closed.enclosed {inMath : Bool} {name t : String} (plain : name.toList.all isPlain = true)
    (closed : Closed inMath t) : Closed inMath (command "begin" name ++ t ++ command "end" name) := by
  intro opened place rest
  have inside := closed (.environment name.toList :: opened) (.inr (by simp))
  rw [String.toList_append, String.toList_append, append_assoc, append_assoc, read_begin plain, inside, read_end plain]

theorem Closed.environment {inMath : Bool} {name header body : String}
    (plain : name.toList.all isPlain = true) (headed : Closed inMath header)
    (closed : Closed inMath body) : Closed inMath (Latex.environment name header body) := by
  have lineEnd : Closed inMath "\n" := .fixed (by cbv)
  have inside := ((headed.append lineEnd).append closed).append lineEnd
  have whole := inside.enclosed plain
  rw [← String.append_assoc, ← String.append_assoc, ← String.append_assoc] at whole
  exact whole

/-! ## Texts of the notation -/

theorem isPlain_of {p : Char → Bool} (others : ['\\', '\x7b', '\x7d', '$'].all (fun c => !p c) = true)
    {c : Char} (holds : p c = true) : isPlain c = true := by
  cases plain : isPlain c with
  | true => rfl
  | false =>
    simp only [isPlain, Bool.not_eq_false', contains_iff_mem] at plain
    have fails := all_eq_true.mp others c plain
    rw [holds] at fails
    cases fails

theorem isPlain_of_isNameText {cs : List Char} (named : Token.isNameText cs = true) : cs.all isPlain = true := by
  have signs : ['\\', '\x7b', '\x7d', '$'].all (fun c => !Token.isNameChar c) = true := by decide
  cases cs with
  | nil => cases named
  | cons c rest =>
    simp only [Token.isNameText, Bool.and_eq_true] at named
    have first : Token.isNameChar c = true := by
      simp [Token.isNameChar, Lexeme.isNamePart, named.1.1]
    have others : rest.all isPlain = true :=
      all_eq_true.mpr fun d member => isPlain_of signs (all_eq_true.mp named.2 d member)
    rw [all_cons, isPlain_of signs first, others]
    rfl

theorem isPlain_of_isNumberText {cs : List Char} (number : Token.IsNumberText cs) : cs.all isPlain = true := by
  have digits {ds : List Char} (all : ds.all Text.isDigit = true) : ds.all isPlain = true :=
    all_eq_true.mpr fun d member => isPlain_of (by cbv) (all_eq_true.mp all d member)
  cases number with
  | whole _ all => exact digits all
  | decimal _ before _ behind =>
    rw [all_append, all_cons, digits before, digits behind]
    rfl

theorem Closed.count {inMath : Bool} (n : Nat) : Closed inMath (toString n) := by
  refine .plain (all_eq_true.mpr fun c member => ?_)
  rw [Nat.toString_eq_repr, Nat.toList_repr] at member
  exact isPlain_of (by decide) (Nat.isDigit_of_mem_toDigits (by decide) (by decide) member)

theorem Closed.label {inMath : Bool} (n : Int) : Closed inMath (toString n) := by
  rw [Int.toString_eq_repr, Int.repr_eq_if]
  split
  · exact .count _
  · exact .append (.fixed (by cbv)) (.count _)

theorem Closed.tab {inMath : Bool} (level : Nat) : Closed inMath (Latex.tab level) := by
  unfold Latex.tab
  split
  · exact .empty
  · exact .append (.append (.fixed (by cbv)) (.count level)) (.fixed (by cbv))

theorem Closed.flatMap {inMath : Bool} {f : Char → List Char} {cs : List Char}
    (each : ∀ c ∈ cs, Closed inMath (String.ofList (f c))) : Closed inMath (String.ofList (cs.flatMap f)) := by
  induction cs with
  | nil => exact .empty
  | cons c rest ih =>
    rw [flatMap_cons, String.ofList_append]
    exact (each c mem_cons_self).append (ih fun d member => each d (mem_cons_of_mem c member))

theorem closes_escapeChar (c : Char) : closes 0 (escapeChar c) = true := by
  rcases writes_escapeChar c with member | ⟨plain, written⟩
  · have closed : (sequences.all fun p => closes 0 p.2.toList) = true := by decide +kernel
    simpa using all_eq_true.mp closed _ member
  · have neutral : isPlain c = true := @isPlain_of (fun d => !isSpecial d) (by cbv) c (by rw [plain]; rfl)
    rw [written]
    exact closes_of_plain (by rw [all_cons, neutral]; rfl)

/-- Whatever a text is, it is closed once it is escaped. -/
theorem Closed.escapeText {inMath : Bool} (t : String) : Closed inMath (Latex.escapeText t) :=
  .flatMap fun c _ => .fixed (by rw [String.toList_ofList]; exact closes_escapeChar c)

/-! ## Symbols and names -/

/-- The commands of the table close the braces that they open. -/
theorem closes_of_mem_table : ∀ s ∈ Symbol.table, ∀ conventional : Bool,
    closes 0 (s.command conventional).toList = true := by
  decide +kernel

theorem Closed.symbol {inMath : Bool} {s : Symbol} (member : s ∈ Symbol.table) (conventional : Bool) :
    Closed inMath (s.command conventional) :=
  .fixed (closes_of_mem_table s member conventional)

theorem mem_table_of_lookup {name : String} {s : Symbol} (found : Symbol.lookup name = some s) : s ∈ Symbol.table :=
  mem_of_find?_eq_some found

theorem Closed.commandOf {inMath : Bool} (st : Style) (name : String) : Closed inMath (st.commandOf name) := by
  unfold Style.commandOf
  cases found : Symbol.lookup name with
  | none => exact .empty
  | some s => exact .symbol (mem_table_of_lookup found) st.conventional

theorem Closed.identifier {inMath : Bool} {name : String} (plain : name.toList.all isPlain = true)
    (st : Style) : Closed inMath (Latex.identifier st name) := by
  have underscored : Closed inMath (escapeUnderscores name) := by
    refine .flatMap fun c member => ?_
    split
    · exact .fixed (by cbv)
    · exact .plain (by simpa using all_eq_true.mp plain c member)
  unfold Latex.identifier
  split
  next s found =>
    exact .symbol (mem_table_of_lookup (Option.filter_eq_some_iff.mp found).1) st.conventional
  next =>
    split
    next s found =>
      exact .symbol (Token.mem_table_of_ofWord (Option.filter_eq_some_iff.mp found).1).1 st.conventional
    next =>
      split
      · split
        · exact .append (.fixed (by cbv)) underscored.braced
        · exact underscored
      · exact .plain plain

theorem Closed.names {inMath : Bool} {ns : List String} (named : ∀ n ∈ ns, Token.isNameText n.toList = true)
    (st : Style) : Closed inMath (Latex.names st ns) :=
  .intercalate (.fixed (by cbv))
    (forall_mem_map.mpr fun n member => .identifier (isPlain_of_isNameText (named n member)) st)

end Latex
end Whiteboard
