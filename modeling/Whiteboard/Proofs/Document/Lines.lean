import Whiteboard.Proofs.Expr.Formed

namespace Whiteboard

/-!
# What a line can be

A reader of the grammar that succeeds finds an item of its own kind: a block behind a keyword, a free type
or an abbreviation is neither a heading nor a formula, and no item that is read is a heading.  Headings come
of lines of their own.
-/

/-- An item that takes more than an expression to write and has no items under it. -/
def Item.IsBlock : Item → Prop
  | .hole | .heading .. | .formula .. => False
  | _ => True

/-- An item with no items under it. -/
def Item.IsLeaf : Item → Prop
  | .hole | .heading .. => False
  | _ => True

theorem Item.IsBlock.isLeaf {i : Item} (block : i.IsBlock) : i.IsLeaf := by
  cases i with
  | hole | heading | formula => exact block.elim
  | _ => trivial

namespace Parse

/-- Whatever item comes out, it has the property. -/
def Brings (P : Item → Prop) (outcome : Except Fault (Parsed Item)) : Prop := ∀ i after, outcome = .ok (i, after) → P i

variable {P : Item → Prop}

theorem brings_bind {α : Type} {first : Except Fault α} {next : α → Except Fault (Parsed Item)}
    (each : ∀ a, Brings P (next a)) : Brings P (first >>= next) := by
  intro i after found
  rcases bind_eq_ok.mp found with ⟨a, _, later⟩
  exact each a i after later

theorem brings_ok {i : Item} (holds : P i) (after : List Token) : Brings P (.ok (i, after)) := by
  intro _ _ found
  cases found
  exact holds

theorem brings_error (fault : Fault) : Brings P (.error fault) := by
  intro _ _ found
  cases found

variable {env : Env}

theorem brings_endingLine {i : Item} (holds : P i) (toks : List Token) : Brings P (endingLine env i toks) :=
  brings_bind fun after => brings_ok holds after

theorem brings_textBlock (env : Env) (kind : TextKind) (keyword : Token) (toks : List Token) :
    Brings Item.IsBlock (textBlock env kind keyword toks) := by
  unfold textBlock
  split
  · exact brings_bind fun _ => brings_endingLine trivial _
  · refine brings_bind fun _ => brings_bind ?_
    rintro ⟨lines, after⟩
    dsimp only
    split
    · exact brings_error _
    · exact brings_bind fun _ => brings_ok trivial _

theorem brings_truthTable (env : Env) (keyword : Token) (toks : List Token) :
    Brings Item.IsBlock (truthTable env keyword toks) := by
  refine brings_bind fun _ => ?_
  split
  · exact brings_error _
  · exact brings_bind fun _ => brings_bind fun _ => brings_bind fun _ => brings_ok trivial _

theorem brings_equivChain (env : Env) (keyword : Token) (toks : List Token) :
    Brings Item.IsBlock (equivChain env keyword toks) := by
  refine brings_bind fun _ => brings_bind ?_
  rintro ⟨steps, after⟩
  dsimp only
  split
  · exact brings_error _
  · exact brings_ok trivial _

theorem brings_box (env : Env) (keyword : Token) (toks : List Token) : Brings Item.IsBlock (box env keyword toks) :=
  brings_bind fun _ => brings_bind fun _ => brings_bind fun _ => brings_bind fun _ => brings_ok trivial _

theorem brings_block {t : Token} {rest : List Token} {outcome : Except Fault (Parsed Item)}
    (opened : block env t rest = some outcome) : Brings Item.IsBlock outcome := by
  unfold block at opened
  split at opened
  · cases opened
  · split at opened
    all_goals cases opened
    · exact brings_bind fun _ => brings_endingLine trivial _
    · exact brings_box env t rest
    · exact brings_box env t rest
    · exact brings_box env t rest
    · exact brings_bind fun _ => brings_bind fun _ => brings_ok trivial _
    · exact brings_textBlock env _ t rest
    · exact brings_textBlock env _ t rest
    · exact brings_textBlock env _ t rest
    · exact brings_bind fun _ => brings_bind fun _ => brings_ok trivial _
    · exact brings_equivChain env t rest
    · exact brings_truthTable env t rest
    · exact brings_endingLine trivial _

theorem brings_freeType (env : Env) (name : Token) (toks : List Token) : Brings Item.IsBlock (freeType env name toks) :=
  brings_bind fun _ => brings_endingLine trivial _

theorem brings_abbreviation (env : Env) (name : Token) (toks : List Token) :
    Brings Item.IsBlock (abbreviation env name toks) :=
  brings_bind fun _ => brings_bind fun _ => brings_bind fun _ => brings_endingLine trivial _

theorem brings_formula (env : Env) (toks : List Token) : Brings Item.IsLeaf (formula env toks) := by
  have read : Brings Item.IsLeaf (expr env toks >>= fun parsed =>
      endingLine env (.formula parsed.1 (env.loc (env.peek toks))) parsed.2) :=
    brings_bind fun _ => brings_endingLine trivial _
  exact fun i after found => read i after (mapError_eq_ok found)

/-- No item that is read is a heading. -/
theorem brings_item (env : Env) (toks : List Token) : Brings Item.IsLeaf (item env toks) := by
  have leaf {outcome : Except Fault (Parsed Item)} (blocks : Brings Item.IsBlock outcome) :
      Brings Item.IsLeaf outcome :=
    fun i after found => (blocks i after found).isLeaf
  unfold item
  dsimp only
  split
  next opened => exact leaf (brings_block opened)
  next => grind [brings_freeType, brings_abbreviation, brings_formula]

variable {found : List Entry}

/-- A line is a heading, perhaps with more of the line behind it, or prose, or an item. -/
theorem cases_entries {t : Token} {rest after : List Token} (read : entries env (t :: rest) = .ok (found, after)) :
    (∃ level title loc more, found = .heading level title loc :: more ∧
      (more = [] ∨ entries env rest = .ok (more, after))) ∨
    (∃ segments loc, found = [.item (.text .prose segments loc)]) ∨
    t.kind ∉ [.sectionHeader, .solutionHeader, .partLabel, .text] ∧
      ∃ i, found = [.item i] ∧ item env (t :: rest) = .ok (i, after) := by
  have ending {line : List Entry} {toks : List Token} (ended : endingLine env line toks = .ok (found, after)) :
      found = line := by
    rcases bind_eq_ok.mp ended with ⟨_, _, same⟩
    cases same
    rfl
  rw [entries] at read
  split at read
  next => exact .inl ⟨_, _, _, [], ending read, .inl rfl⟩
  next => exact .inl ⟨_, _, _, [], ending read, .inl rfl⟩
  next =>
    dsimp only at read
    split at read
    · exact .inl ⟨_, _, _, [], ending read, .inl rfl⟩
    · rcases bind_eq_ok.mp read with ⟨⟨more, _⟩, others, same⟩
      cases same
      exact .inl ⟨_, _, _, more, rfl, .inr others⟩
  next =>
    rcases bind_eq_ok.mp read with ⟨segments, _, ended⟩
    exact .inr (.inl ⟨segments, _, ending ended⟩)
  next notSection notSolution notPart notText =>
    rcases bind_eq_ok.mp read with ⟨⟨i, _⟩, found, same⟩
    cases same
    refine .inr (.inr ⟨?_, i, rfl, found⟩)
    simp only [List.mem_cons, List.not_mem_nil, or_false, not_or]
    exact ⟨notSection, notSolution, notPart, notText⟩

theorem leaf_of_entries {toks after : List Token}
    (read : entries env toks = .ok (found, after)) : ∀ i, .item i ∈ found → i.IsLeaf := by
  induction toks generalizing found after with
  | nil => cases read
  | cons t rest ih =>
    intro i member
    rcases cases_entries read with ⟨_, _, _, more, rfl, nothing | others⟩ | ⟨_, _, rfl⟩ | ⟨_, j, rfl, item⟩
    · simp [nothing] at member
    · exact ih others i (by simpa using member)
    · cases List.mem_singleton.mp member
      trivial
    · cases List.mem_singleton.mp member
      exact brings_item _ _ i _ item

/-- The items that a document is read as are no headings. -/
theorem leaf_of_documentEntries {bound : Nat} {toks : List Token}
    (read : documentEntries env bound toks = .ok found) : ∀ i, .item i ∈ found → i.IsLeaf := by
  induction bound generalizing toks found with
  | zero =>
    cases read
    simp
  | succ bound ih =>
    rw [documentEntries] at read
    split at read
    next =>
      cases read
      simp
    next =>
      rcases bind_eq_ok.mp read with ⟨⟨first, after⟩, line, later⟩
      rcases bind_eq_ok.mp later with ⟨others, rest, same⟩
      cases same
      intro i member
      rcases List.mem_append.mp member with here | there
      · exact leaf_of_entries line i here
      · exact ih rest i there

end Parse
end Whiteboard
