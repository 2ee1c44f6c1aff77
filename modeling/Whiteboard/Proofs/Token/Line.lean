import Whiteboard.Proofs.Token.Row

namespace Whiteboard

open List Text
namespace Token
namespace Reading

/-!
# Lines that are read token by token

A heading, a block of text and prose are taken whole.  Every other line has at most a block keyword or a label at
its front and a row of ordinary tokens behind it, and a source of one such line is its row and the tokens that
end it.
-/

/-- Is the line read token by token?  It is no heading, no block of text and no prose. -/
def isScanned (r : Reading) (line : List Char) : Bool :=
  let trimmed := trimBlanks line
  if trimmed.isEmpty || trimmed.head? == some '%' then true
  else if "===".toList.isPrefixOf trimmed || "**".toList.isPrefixOf trimmed then false
  else
    match Symbol.blockKeywords.find? (fun k => k.toList.isPrefixOf trimmed) with
    | some keyword => !(keyword == "TEXT:" || keyword == "PURETEXT:" || keyword == "LATEX:")
    | none => !Prose.isProse r.rules (String.ofList trimmed) true

/-- What is read of a line before its ordinary tokens, a block keyword or a label, and where these begin. -/
def front (s : Scan) (line : List Char) : Nat × Scan :=
  let rest := dropBlanks line
  let start := line.length - rest.length
  match Symbol.blockKeywords.find? (fun k => k.toList.isPrefixOf (trimBlanks line)) with
  | some keyword =>
    (start + keyword.length, { s.emit .keyword keyword keyword start (start + keyword.length) with gap := true })
  | none =>
    match label rest with
    | some digits =>
      (start + digits.length + 2,
        s.emit .label (String.ofList digits) (String.ofList (rest.take (digits.length + 2))) start
          (start + digits.length + 2))
    | none =>
      match partLabel rest with
      | some letters =>
        (start + letters.length + 2,
          s.emit .partLabel (String.ofList letters) (String.ofList (rest.take (letters.length + 2))) start
            (start + letters.length + 2))
      | none => (start, s)

theorem scan_dropBlanks (r : Reading) (defines : Bool) {s : Scan} (gap : s.gap = true) (pos : Nat) (cs : List Char) :
    r.scan defines pos 0 s cs = r.scan defines (pos + (cs.length - (dropBlanks cs).length)) 0 s (dropBlanks cs) := by
  induction cs generalizing pos with
  | nil => rfl
  | cons c cs ih =>
    cases blank : isBlank c with
    | false =>
      have whole : dropBlanks (c :: cs) = c :: cs := dropWhile_cons_of_neg (by simp [blank])
      rw [whole, Nat.sub_self, Nat.add_zero]
    | true =>
      have passed : dropBlanks (c :: cs) = dropBlanks cs := dropWhile_cons_of_pos blank
      have unmoved : ({ s with gap := true } : Scan) = s := by rw [← gap]
      have shorter := length_dropBlanks_le cs
      rw [scan, if_pos blank, unmoved, ih, passed, length_cons]
      congr 1
      omega

variable {line : List Char}

theorem keyword_leads {keyword : String}
    (opened : Symbol.blockKeywords.find? (fun k => k.toList.isPrefixOf (trimBlanks line)) = some keyword) :
    keyword.toList <+: dropBlanks line := by
  have leads : keyword.toList <+: trimBlanks line := isPrefixOf_iff_prefix.mp (List.find?_some opened :)
  rcases dropTrailing_append isBlank (dropBlanks line) with ⟨gap, split, _⟩
  exact leads.trans ⟨gap, split.symm⟩

theorem front_le (s : Scan) (line : List Char) : (front s line).1 ≤ line.length := by
  have shorter := length_dropBlanks_le line
  unfold front
  dsimp only
  split
  next keyword opened =>
    have inside := (keyword_leads opened).length_le
    rw [String.length_toList] at inside
    dsimp only
    omega
  next =>
    split
    next digits found =>
      have inside := (label_leads found).length_le
      rw [length_append, length_cons, length_singleton] at inside
      dsimp only
      omega
    next =>
      split
      next letters found =>
        have inside := (partLabel_leads found).length_le
        rw [length_append, length_cons, length_singleton] at inside
        dsimp only
        omega
      next => exact Nat.sub_le _ _

/-- A line that is read token by token is a row behind its front. -/
theorem plainLine_of_isScanned {r : Reading} {s : Scan} (scanned : r.isScanned line = true)
    (content : ((trimBlanks line).isEmpty || (trimBlanks line).head? == some '%') = false) :
    r.plainLine s line = (r.scan (occursIn "::=".toList line) (front s line).1 0 (front s line).2
      (line.drop (front s line).1)).map fun s => (s, Capture.off) := by
  have content := Bool.eq_false_iff.mp content
  unfold isScanned at scanned
  dsimp only at scanned
  rw [if_neg content] at scanned
  unfold plainLine
  dsimp only
  rw [if_neg content]
  split at scanned
  next => cases scanned
  next heading =>
    rw [Bool.or_eq_true, not_or] at heading
    rw [if_neg heading.1, if_neg heading.2]
    unfold front
    dsimp only
    cases opened : Symbol.blockKeywords.find? fun k => k.toList.isPrefixOf (trimBlanks line) with
    | some keyword =>
      rw [opened] at scanned
      dsimp only at scanned ⊢
      unfold block
      dsimp only
      rw [if_neg (by simpa using scanned)]
      have inside := front_le s line
      rw [front, opened] at inside
      dsimp only at inside
      have shorter := length_dropBlanks_le (line.drop (line.length - (dropBlanks line).length + keyword.length))
      rw [length_drop] at shorter
      rw [scan_dropBlanks r _ (s := { s.emit .keyword keyword keyword _ _ with gap := true }) rfl _
        (line.drop (line.length - (dropBlanks line).length + keyword.length)), length_drop,
        ← Nat.add_sub_assoc shorter, Nat.add_sub_cancel' inside]
      split
      next read => rw [read]; rfl
      next read => rw [read]; rfl
    | none => grind [dropBlanks_eq_drop]

/-- The front is a keyword or a label, if anything. -/
theorem front_cases (s : Scan) (line : List Char) :
    (front s line).2 = s ∨ ∃ t : Token, (front s line).2.tokens = t :: s.tokens ∧
      (front s line).2.brackets = s.brackets ∧ t.kind ∈ [Kind.keyword, .label, .partLabel] := by
  unfold front
  dsimp only
  split
  next => exact .inr ⟨_, rfl, rfl, by simp⟩
  next =>
    split
    next => exact .inr ⟨_, rfl, rfl, by simp⟩
    next =>
      split
      next => exact .inr ⟨_, rfl, rfl, by simp⟩
      next => exact .inl rfl

/-- A line whose first character is no percent sign is neither empty nor a comment. -/
theorem content_of_head {rest : List Char} {c : Char} (found : dropBlanks line = c :: rest) (noComment : c ≠ '%') :
    ((trimBlanks line).isEmpty || (trimBlanks line).head? == some '%') = false := by
  rcases trimBlanks_cons found with ⟨more, trimmed⟩
  rw [trimmed]
  simp [noComment]

theorem blockKeywords_nonempty : ∀ k ∈ Symbol.blockKeywords, k.toList ≠ [] := by
  decide

/-- A line is a row if its first character opens no heading, keyword or label and it is no prose. -/
theorem plainLine_of_head {r : Reading} {c : Char} {rest : List Char} (visible : isBlank c = false)
    (other : c ∉ ['%', '=', '*', '[']) (keywordless : ∀ k ∈ Symbol.blockKeywords, k.toList.head? ≠ some c)
    (unlabelled : partLabel (c :: rest) = none)
    (noProse : Prose.isProse r.rules (String.ofList (trimBlanks (c :: rest))) true = false) (s : Scan) :
    r.plainLine s (c :: rest) =
      (r.scan (occursIn "::=".toList (c :: rest)) 0 0 s (c :: rest)).map fun s => (s, Capture.off) := by
  have whole : dropBlanks (c :: rest) = c :: rest := dropWhile_cons_of_neg (by simp [visible])
  have content := content_of_head whole (by rintro rfl; simp at other)
  rcases trimBlanks_cons whole with ⟨more, trimmed⟩
  have leads {mark : List Char} {d : Char} (first : mark.head? = some d) (different : c ≠ d) :
      mark.isPrefixOf (trimBlanks (c :: rest)) = false := by
    obtain ⟨marks, rfl⟩ := head?_eq_some_iff.mp first
    rw [trimmed, isPrefixOf_cons_cons, beq_false_of_ne different.symm, Bool.false_and]
  have noBlock : Symbol.blockKeywords.find? (fun k => k.toList.isPrefixOf (trimBlanks (c :: rest))) = none := by
    rw [List.find?_eq_none]
    intro k member
    cases first : k.toList.head? with
    | none => exact absurd (head?_eq_none_iff.mp first) (blockKeywords_nonempty k member)
    | some d => simp [leads first fun same => keywordless k member (same ▸ first)]
  have noSection : "===".toList.isPrefixOf (trimBlanks (c :: rest)) = false :=
    leads (d := '=') (by simp) (by rintro rfl; simp at other)
  have noSolution : "**".toList.isPrefixOf (trimBlanks (c :: rest)) = false :=
    leads (d := '*') (by simp) (by rintro rfl; simp at other)
  have noLabel : label (c :: rest) = none := by
    unfold label
    split
    next opens =>
      cases opens
      simp at other
    next => rfl
  unfold plainLine
  simp only [content, whole, noSection, noSolution, noBlock, noProse, noLabel, unlabelled, Nat.sub_self,
    Bool.false_eq_true, if_false]

/-! ## Sources of one line -/

/-- The tokens that end a source of one line. -/
def lineEnd (s : Scan) (line : List Char) : List Token :=
  [{ kind := .newline
     value := "\n"
     line := s.number
     column := line.length + 1
     endColumn := line.length + 1
     spaceBefore := s.gap || (s.tokens.isEmpty && decide (0 < line.length)) },
   { kind := .endOfInput, line := 1, column := line.length + 1, endColumn := line.length + 1 }]

theorem sourceLines_of_single {source : String} (single : '\n' ∉ source.toList) :
    sourceLines source = [dropReturns source.toList] := by
  rw [sourceLines, splitLines, splitWhere_eq_self]
  · rfl
  · grind

theorem tokens_eq_ok_iff (r : Reading) {source : String} (single : '\n' ∉ source.toList) {toks : List Token} :
    r.tokens source = .ok toks ↔ ∃ s capture, r.plainLine { number := 1 } (dropReturns source.toList) =
      .ok (s, capture) ∧ toks = s.tokens.reverse ++ lineEnd s (dropReturns source.toList) := by
  rw [tokens, sourceLines_of_single single, readLines, readLine]
  dsimp only
  rw [if_pos (by decide)]
  cases r.plainLine { number := 1 } (dropReturns source.toList) with
  | error fault =>
    constructor
    · intro failed
      cases failed
    · rintro ⟨_, _, failed, _⟩
      cases failed
  | ok result =>
    rcases result with ⟨s, capture⟩
    have ends : (s.emit .newline "\n" "" (dropReturns source.toList).length
          (dropReturns source.toList).length).tokens.reverse ++
        [{ kind := .endOfInput, line := 1, column := (dropReturns source.toList).length + 1,
           endColumn := (dropReturns source.toList).length + 1 }] =
        s.tokens.reverse ++ lineEnd s (dropReturns source.toList) := by
      simp [Scan.emit, lineEnd]
    constructor
    · intro read
      cases read
      exact ⟨s, capture, rfl, ends⟩
    · rintro ⟨_, _, found, rfl⟩
      cases found
      exact congrArg Except.ok ends

theorem isWritten_of_written {number : Int} {opened first : Bool} {pos : Nat} {row : List Token}
    (written : Written number line opened first pos row) :
    ∀ t ∈ row, t.kind.IsWritten ∧ ∀ c ∈ t.literal.toList, c ∈ line := by
  induction written with
  | done => exact fun _ member => absurd member not_mem_nil
  | @token first pos start stop t rest _ _ _ _ _ placed _ _ _ ih =>
    refine forall_mem_cons.mpr ⟨⟨placed.written, fun c member => ?_⟩, ih⟩
    have covered : c ∈ (line.drop start).take (stop - start) := by
      rcases placed.literal_eq with whole | ⟨_, blanks, _, trimmed⟩
      · rwa [← whole]
      · rw [trimmed]
        exact mem_append_left blanks member
    exact mem_of_mem_drop (mem_of_mem_take covered)

/-- The tokens of a line end in the line, and what they were read from is in it. -/
theorem plainLine_written {r : Reading} {s : Scan} {capture : Capture}
    (read : r.plainLine { number := 1 } line = .ok (s, capture)) :
    s.number = 1 ∧ ∀ t ∈ s.tokens, t.kind.IsWritten ∧ ∀ c ∈ t.literal.toList, c ∈ line := by
  rcases adds_plainLine r rfl rfl read with ⟨opened, ⟨row, tokens, number, written⟩, _⟩
  refine ⟨number, fun t member => isWritten_of_written written t ?_⟩
  rw [tokens] at member
  simpa using member

end Reading
end Token
end Whiteboard
