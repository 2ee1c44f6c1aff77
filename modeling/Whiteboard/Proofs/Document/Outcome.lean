import Whiteboard.Proofs.Document.Assembly
import Whiteboard.Proofs.File.Assembly
import Whiteboard.Proofs.Document.Formed

namespace Whiteboard

open List Text

open Whiteboard.Expr (IsName)

/-!
# What reading a document can come to

The readers of the document grammar find parts of the shape that documents have, in which nothing is missing
that their rendering needs, or they fault a token of the supply, or a place inside a formula of a line of
text.  They take tokens off the front of the stream, and in a file of another name they find the same, with the
places in that file.  As in the grammar, one reader is put together from others, and those that go line by line
are followed by induction on their bound.
-/

namespace Parse
variable {source : String}

/-- Where a token stands. -/
def placeIn (file : String) (t : Token) : Location := ⟨file, t.line, t.column⟩

/-- A fault in a line of text, from the opening to the closing sign of a formula: it is behind the one and
not behind the other, or it is at an opening sign that is not closed. -/
structure InFormula (file : String) (line : Token) (fault : Fault) : Prop where
  text : line.kind = .text
  sourced : fault.OfSource
  file_eq : fault.loc.file = file
  line_eq : fault.loc.line = line.line
  place : ∃ before span : List Char, before.count '$' % 2 = 0 ∧ '$' ∉ span ∧
    ((∃ after, line.value.toList = before ++ '$' :: (span ++ '$' :: after) ∧
        line.column + before.length < fault.loc.column ∧
        fault.loc.column ≤ line.column + before.length + span.length + 1) ∨
      (line.value.toList = before ++ '$' :: span ∧ fault.loc.column = line.column + before.length))

/-- The fault is at a token of the supply or in a formula of one. -/
def Pinpoints (file : String) (supply : List Token) (fault : Fault) : Prop :=
  Blames (placeIn file) supply fault ∨ ∃ line ∈ supply, InFormula file line fault

/-- What a document is read from: a stream of tokens out of a supply, in a file that might have another name. -/
structure Ground where
  file : String
  other : String
  stream : List Token
  supply : List Token
  drawn : stream ⊆ supply
  shaped : ∀ t ∈ supply, t.Shaped

/-- The environment of a document on its ground. -/
structure Env.Over (env : Env) (g : Ground) : Prop where
  ends : env.Ends
  final : env.final ∈ g.supply
  plain : env.origin = none
  file_eq : env.file = g.file

/-- What is found has the property and leaves an end of the stream, and so it is under the other name; a fault is
pinpointed. -/
def Gives {α : Type} (g : Ground) (change : α → α) (P : α → Prop) :
    Except Fault (Parsed α) → Except Fault (Parsed α) → Prop :=
  Shares (onValue change) (fun p => P p.1 ∧ p.2 <:+ g.stream) (Pinpoints g.file g.supply)

/-- Rows of text at the front of a stream, each with the end of its line, as many as there are. -/
inductive Rows : List Token → List Token → Prop
  | none {toks} : (∀ t ∈ toks.head?, t.kind ≠ .text) → Rows toks []
  | last {line toks} : line.kind = .text → (∀ t ∈ toks.head?, t.kind = .endOfInput) → Rows (line :: toks) [line]
  | next {line newline toks lines} : line.kind = .text → newline.kind = .newline → Rows toks lines →
      Rows (line :: newline :: toks) (line :: lines)

/-- The lines of the prose at the front of a stream, and its place: it has a line to itself, or behind a keyword it
is the rest of the line or the rows below. -/
inductive ProseAt (file : String) : List Token → List Token → Location → Prop
  | alone {line toks} : line.kind = .text → ProseAt file (line :: toks) [line] (placeIn file line)
  | inLine {keyword line toks} : keyword.isKeyword "TEXT:" = true → line.kind = .text →
      ProseAt file (keyword :: line :: toks) [line] (placeIn file keyword)
  | below {keyword newline toks lines} : keyword.isKeyword "TEXT:" = true → newline.kind = .newline →
      Rows toks lines → lines ≠ [] → ProseAt file (keyword :: newline :: toks) lines (placeIn file keyword)

/-- Prose is read from lines of the stream. -/
def Quotes (g : Ground) : Item → Prop
  | .text kind segments loc => kind = .prose → ∃ (env : Env) (rest lines : List Token), env.file = g.file ∧
      rest <:+ g.stream ∧ ProseAt g.file rest lines loc ∧ textSegments env .prose lines = .ok segments
  | _ => True

/-- What is known of an item that is read. -/
structure Told (g : Ground) (verbatim : Prop) (i : Item) : Prop where
  whole : i.Whole verbatim
  quotes : Quotes g i

section
variable {α β : Type} {g : Ground} {change : α → α} {alter : β → β} {P : α → Prop} {Q : β → Prop}

theorem Gives.ok {a b : α} {rest : List Token} (same : b = change a) (holds : P a) (behind : rest <:+ g.stream) :
    Gives g change P (.ok (a, rest)) (.ok (b, rest)) :=
  Shares.ok (by rw [same]) ⟨holds, behind⟩

theorem Gives.bind {first second : Except Fault (Parsed α)} {next onward : Parsed α → Except Fault (Parsed β)}
    (gives : Gives g change P first second)
    (continues : ∀ value rest, P value → rest <:+ g.stream →
      Gives g alter Q (next (value, rest)) (onward (change value, rest))) :
    Gives g alter Q (first >>= next) (second >>= onward) :=
  Shares.bind gives fun p found => continues p.1 p.2 found.1 found.2

theorem Gives.ite {condition : Prop} [Decidable condition] {yes no yes' no' : Except Fault (Parsed α)}
    (ifYes : condition → Gives g change P yes yes') (ifNo : ¬ condition → Gives g change P no no') :
    Gives g change P (if condition then yes else no) (if condition then yes' else no') :=
  Shares.ite ifYes ifNo

theorem Gives.after {first second : Except Fault α} {next onward : α → Except Fault (Parsed β)}
    (shares : Shares change P (Pinpoints g.file g.supply) first second)
    (continues : ∀ a, P a → Gives g alter Q (next a) (onward (change a))) :
    Gives g alter Q (first >>= next) (second >>= onward) :=
  Shares.bind shares continues

end

section
variable {g : Ground} {env : Env} {t : Token} {toks : List Token}

theorem behind_cons (here : t :: toks <:+ g.stream) : toks <:+ g.stream := (suffix_cons t toks).trans here

theorem mem_supply (here : t :: toks <:+ g.stream) : t ∈ g.supply := g.drawn (here.subset mem_cons_self)

theorem behind_newlines (here : toks <:+ g.stream) : skipNewlines toks <:+ g.stream :=
  (dropWhile_suffix _).trans here

namespace Env.Over

theorem rest (here : toks <:+ g.stream) : env.rest toks <:+ g.stream := (env.rest_suffix toks).trans here

theorem optional (here : toks <:+ g.stream) (present : Bool) :
    (if present = true then env.rest toks else toks) <:+ g.stream := by
  split
  · exact rest here
  · exact here

variable (based : env.Over g)
include based

theorem inside : env.inside.Over g := ⟨based.ends, based.final, based.plain, based.file_eq⟩

theorem withProduct (product : Bool) : (env.withProduct product).Over g :=
  ⟨based.ends, based.final, based.plain, based.file_eq⟩

theorem draws (here : toks <:+ g.stream) : env.Draws g.supply toks :=
  ⟨based.final, List.Subset.trans here.subset g.drawn⟩

theorem loc_eq : env.loc = placeIn g.file := by
  funext t
  rw [Env.loc, based.plain, based.file_eq]
  rfl

theorem pinpoints {fault : Fault} (blames : Blames env.loc g.supply fault) : Pinpoints g.file g.supply fault := by
  rw [based.loc_eq] at blames
  exact .inl blames

theorem expected (here : toks <:+ g.stream) (what : String) :
    Pinpoints g.file g.supply (env.expected what toks) :=
  based.pinpoints ((based.draws here).blames_expected what)

theorem faultAt (member : t ∈ g.supply) (what found : String) (hint : Option String) :
    Pinpoints g.file g.supply (env.faultAt t what found hint) :=
  based.pinpoints ⟨⟨_, _, _, rfl⟩, t, member, rfl⟩

theorem peek_mem (here : toks <:+ g.stream) : env.peek toks ∈ g.supply := (based.draws here).peek_mem

omit based in
theorem isName (member : t ∈ g.supply) (named : isNameToken t = true) : IsName (nameOf t) :=
  isName_nameOf (g.shaped t member) named

omit based in
theorem isName_value (member : t ∈ g.supply) (kind : t.kind = .identifier) : IsName t.value := by
  have shaped := g.shaped t member
  unfold Token.Shaped Token.ShapedAs at shaped
  rw [kind] at shaped
  exact shaped

end Env.Over

variable (based : env.Over g) (here : toks <:+ g.stream)
include based here

/-! ## Steps -/

theorem shares_lineEnd : Shares id (· <:+ g.stream) (Pinpoints g.file g.supply) (env.expectLineEnd toks)
    ((env.inFile g.other).expectLineEnd toks) := by
  have same : (env.inFile g.other).peek toks = env.peek toks := rfl
  unfold Env.expectLineEnd
  rw [same]
  cases (env.peek toks).kind with
  | newline => exact .ok rfl (Env.Over.rest here)
  | endOfInput => exact .ok rfl here
  | _ => exact based.expected here _

theorem shares_delim (value : String) : Shares id (· <:+ g.stream) (Pinpoints g.file g.supply)
    (env.expectDelim value toks) ((env.inFile g.other).expectDelim value toks) :=
  .ite (fun _ => .ok rfl (Env.Over.rest here)) fun _ => based.expected here _

theorem shares_close (opener : Token) (closing : String) : Shares id (· <:+ g.stream) (Pinpoints g.file g.supply)
    (env.close opener closing toks) ((env.inFile g.other).close opener closing toks) :=
  .ite (fun _ => .ok rfl (Env.Over.rest here)) fun _ => based.faultAt (based.peek_mem here) _ _ _

theorem gives_endingLine {α : Type} {change : α → α} {P : α → Prop} {a b : α} (same : b = change a) (holds : P a) :
    Gives g change P (endingLine env a toks) (endingLine (env.inFile g.other) b toks) :=
  Gives.after (shares_lineEnd based here) fun _ behind => .ok same holds behind

theorem gives_expr : Gives g (Expr.inFile g.other) Expr.Whole (expr env toks) (expr (env.inFile g.other) toks) := by
  cases outcome : expr env toks with
  | error fault => exact based.pinpoints ((meets_expr (based.draws here)).fault outcome)
  | ok p =>
    have reads := (expr_eq_ok_iff based.ends).mp outcome
    have whole : p.1.Whole :=
      reads.formed based.ends (fun _ t member => g.shaped t (g.drawn (here.subset member))) trivial
    exact ⟨⟨whole, reads.suffix.trans here⟩, mirrors_expr g.other based.ends toks p outcome⟩

theorem gives_typeExpr :
    Gives g (Expr.inFile g.other) Expr.Whole (typeExpr env toks) (typeExpr (env.inFile g.other) toks) :=
  gives_expr (based.withProduct true) here

/-! ## Names and paragraphs -/

theorem gives_namesAfterComma : Gives g id (fun ns => ∀ n ∈ ns, IsName n) (namesAfterComma env toks)
    (namesAfterComma (env.inFile g.other) toks) := by
  fun_induction namesAfterComma env toks with
  | case1 => exact .ok rfl (forall_mem_nil _) here
  | case2 => exact based.expected nil_suffix _
  | case3 comma separated t rest named ih =>
    have behind := behind_cons here
    rw [namesAfterComma, if_pos separated]
    dsimp only
    rw [if_pos named]
    apply (ih (behind_cons behind)).bind
    intro names left each inside
    exact .ok rfl (forall_mem_cons.mpr ⟨Env.Over.isName (mem_supply behind) named, each⟩) inside
  | case4 comma separated t rest => exact based.expected (behind_cons here) _
  | case5 comma rest other =>
    rw [namesAfterComma.eq_def]
    dsimp only
    rw [if_neg other]
    exact .ok rfl (forall_mem_nil _) here

theorem gives_nameList : Gives g id (fun ns => ns ≠ [] ∧ ∀ n ∈ ns, IsName n) (nameList env toks)
    (nameList (env.inFile g.other) toks) := by
  cases toks with
  | nil => exact based.expected here _
  | cons t rest =>
    apply Gives.ite
    · intro named
      apply (gives_namesAfterComma based (behind_cons here)).bind
      intro names left each inside
      refine .ok rfl ⟨cons_ne_nil _ _, ?_⟩ inside
      exact forall_mem_cons.mpr ⟨Env.Over.isName (mem_supply here) named, each⟩
    · exact fun _ => based.expected here _

theorem gives_generics : Gives g id (fun ns => ∀ n ∈ ns, IsName n) (generics env toks)
    (generics (env.inFile g.other) toks) := by
  apply Gives.ite
  · intro _
    apply (gives_nameList based (Env.Over.rest here)).bind
    intro names after each inside
    apply Gives.after (shares_close based inside _ _)
    exact fun rest behind => .ok rfl each.2 behind
  · exact fun _ => .ok rfl (forall_mem_nil _) here

variable {verbatim : Prop}

theorem gives_givenType (keyword : Token) : Gives g (Item.inFile g.other) (Told g verbatim)
    (givenType env keyword toks) (givenType (env.inFile g.other) keyword toks) := by
  apply (gives_nameList based here).bind
  intro names rest each inside
  exact gives_endingLine based inside (by rw [Item.inFile, Env.loc_inFile]; rfl) ⟨.givenType each.1 each.2, trivial⟩

theorem gives_branch : Gives g (Branch.inFile g.other) Branch.Whole (branch env toks)
    (branch (env.inFile g.other) toks) := by
  apply Gives.ite
  · exact fun _ => based.expected here _
  · intro named
    have kind : (env.peek toks).kind = .identifier := by simpa using named
    have name := Env.Over.isName_value (based.peek_mem here) kind
    have after : env.rest toks <:+ g.stream := Env.Over.rest here
    have same : (env.inFile g.other).peek ((env.inFile g.other).rest toks) = env.peek (env.rest toks) := rfl
    dsimp only
    rw [same]
    split
    · exact .ok (by rw [Env.loc_inFile]; rfl) ⟨name, fun present => by cases present⟩ after
    · apply (gives_typeExpr based.inside (Env.Over.rest after)).bind
      intro param mid whole inside
      apply Gives.after (shares_close based.inside inside _ _)
      exact fun rest behind => .ok (by rw [Env.loc_inFile]; rfl) ⟨name, fun _ => whole⟩ behind

theorem gives_branches (bound : Nat) : Gives g (List.map (Branch.inFile g.other))
    (fun bs => bs ≠ [] ∧ ∀ b ∈ bs, b.Whole) (branches env bound toks) (branches (env.inFile g.other) bound toks) := by
  induction bound generalizing toks with
  | zero => exact based.expected here _
  | succ bound ih =>
    rw [branches, branches]
    apply (gives_branch based here).bind
    intro b mid whole inside
    have more {origin : List Token} (behind : origin <:+ g.stream) :
        Gives g (List.map (Branch.inFile g.other)) (fun bs => bs ≠ [] ∧ ∀ b ∈ bs, b.Whole)
          (branches env bound origin >>= fun p => pure (b :: p.1, p.2))
          (branches (env.inFile g.other) bound origin >>= fun p => pure (b.inFile g.other :: p.1, p.2)) := by
      apply (ih behind).bind
      intro bs rest others left
      exact .ok rfl ⟨cons_ne_nil _ _, forall_mem_cons.mpr ⟨whole, others.2⟩⟩ left
    apply Gives.ite
    · exact fun _ => more (Env.Over.rest inside)
    · intro _
      apply Gives.ite
      · exact fun _ => more ((tail_suffix _).trans (Env.Over.rest inside))
      · exact fun _ => .ok rfl ⟨cons_ne_nil _ _, by simpa using whole⟩ inside

theorem gives_freeType {name : Token} (named : IsName name.value) : Gives g (Item.inFile g.other)
    (Told g verbatim) (freeType env name toks) (freeType (env.inFile g.other) name toks) := by
  apply (gives_branches based here toks.length).bind
  intro bs rest whole inside
  exact gives_endingLine based inside (by rw [Item.inFile, Env.loc_inFile])
    ⟨.freeType named whole.1 whole.2, trivial⟩

theorem gives_abbreviation {name : Token} (named : IsName name.value) : Gives g (Item.inFile g.other)
    (Told g verbatim) (abbreviation env name toks) (abbreviation (env.inFile g.other) name toks) := by
  apply (gives_generics based here).bind
  intro params mid each inside
  apply Gives.after (shares_delim based inside _)
  intro mid inside
  apply (gives_typeExpr based inside).bind
  intro term rest whole left
  exact gives_endingLine based left (by rw [Item.inFile, Env.loc_inFile]; rfl)
    ⟨.abbreviation named each whole, trivial⟩

/-! ## Boxes -/

theorem gives_declaration : Gives g (Declaration.inFile g.other) Declaration.Whole (declaration env toks)
    (declaration (env.inFile g.other) toks) := by
  apply Gives.ite
  · intro _
    apply (gives_nameList based here).bind
    intro names mid each inside
    apply Gives.after (shares_delim based inside _)
    intro mid inside
    apply (gives_typeExpr based inside).bind
    intro type rest whole left
    exact .ok (by rw [Env.loc_inFile]; rfl) (.inr ⟨rfl, each.1, each.2, whole⟩) left
  · intro _
    apply (gives_expr based here).bind
    intro inclusion rest whole left
    exact .ok (by rw [Env.loc_inFile]; rfl) (.inl whole) left

theorem gives_declarationLine (bound : Nat) : Gives g (List.map (Declaration.inFile g.other))
    (fun ds => ∀ d ∈ ds, d.Whole) (declarationLine env bound toks)
    (declarationLine (env.inFile g.other) bound toks) := by
  induction bound generalizing toks with
  | zero => exact based.expected here _
  | succ bound ih =>
    rw [declarationLine, declarationLine]
    apply (gives_declaration based here).bind
    intro d mid whole inside
    apply Gives.ite
    · intro _
      apply (ih (Env.Over.rest inside)).bind
      intro ds rest others left
      exact .ok rfl (forall_mem_cons.mpr ⟨whole, others⟩) left
    · exact fun _ => gives_endingLine based (Env.Over.optional inside _) rfl (by simpa using whole)

omit here in
theorem unclosed_pinpoints (keyword : Token) : Pinpoints g.file g.supply (unclosed env keyword) :=
  based.faultAt based.final _ _ _

theorem gives_predicates (keyword : Token) (first : Bool) (bound : Nat) :
    Gives g (List.map (Predicate.inFile g.other)) (fun ps => ∀ p ∈ ps, p.expr.Whole)
      (predicates env keyword first bound toks) (predicates (env.inFile g.other) keyword first bound toks) := by
  induction bound generalizing first toks with
  | zero => exact unclosed_pinpoints based keyword
  | succ bound ih =>
    have behind := behind_newlines here
    rw [predicates, predicates]
    dsimp only
    generalize skipNewlines toks = ahead at behind ⊢
    cases ahead with
    | nil => exact unclosed_pinpoints based keyword
    | cons t rest =>
      apply Gives.ite
      · exact fun _ => gives_endingLine based (behind_cons behind) rfl (forall_mem_nil _)
      · intro _
        apply Gives.ite
        · exact fun _ => based.expected behind _
        · intro _
          apply (gives_expr based behind).bind
          intro e mid whole inside
          apply Gives.after (shares_lineEnd based inside)
          intro mid inside
          apply (ih inside _).bind
          intro ps rest others left
          exact .ok rfl (forall_mem_cons.mpr ⟨whole, others⟩) left

/-- The declarations and predicates of a box in another file. -/
def boxContentInFile (f : String) (content : List Declaration × List Predicate) : List Declaration × List Predicate :=
  (content.1.map (Declaration.inFile f), content.2.map (Predicate.inFile f))

theorem gives_boxLines (keyword : Token) (bound : Nat) : Gives g (boxContentInFile g.other)
    (fun content => (∀ d ∈ content.1, d.Whole) ∧ ∀ p ∈ content.2, p.expr.Whole)
    (boxLines env keyword bound toks) (boxLines (env.inFile g.other) keyword bound toks) := by
  induction bound generalizing toks with
  | zero => exact unclosed_pinpoints based keyword
  | succ bound ih =>
    have behind := behind_newlines here
    rw [boxLines, boxLines]
    generalize skipNewlines toks = ahead at behind ⊢
    cases ahead with
    | nil => exact unclosed_pinpoints based keyword
    | cons t rest =>
      have later := behind_cons behind
      apply Gives.ite
      · exact fun _ => gives_endingLine based later rfl ⟨forall_mem_nil _, forall_mem_nil _⟩
      · intro _
        apply Gives.ite
        · intro _
          apply Gives.after (shares_lineEnd based later)
          intro mid inside
          apply (gives_predicates based inside keyword true bound).bind
          intro ps rest each left
          exact .ok rfl ⟨forall_mem_nil _, each⟩ left
        · intro _
          apply (gives_declarationLine based behind _).bind
          intro ds mid whole inside
          apply (ih inside).bind
          rintro ⟨more, ps⟩ rest others left
          exact .ok (by simp [boxContentInFile]) ⟨forall_mem_append.mpr ⟨whole, others.1⟩, others.2⟩ left

theorem gives_boxName (keyword : Token) : Gives g id (fun name => keyword.value = "schema" → IsName name)
    (boxName env keyword toks) (boxName (env.inFile g.other) keyword toks) := by
  apply Gives.ite
  · intro _
    apply Gives.ite
    · intro named
      exact .ok rfl (fun _ => Env.Over.isName_value (based.peek_mem here) (eq_of_beq named)) (Env.Over.rest here)
    · exact fun _ => based.expected here _
  · intro other
    exact .ok rfl (fun schema => absurd (beq_iff_eq.mpr schema) other) here

omit based here in
/-- The keywords of boxes, and a name where the kind asks for one. -/
theorem names_ofName {keyword name : String} (known : keyword ∈ ["axdef", "schema", "gendef"])
    (named : keyword = "schema" → IsName name) : (BoxKind.ofName keyword).Names name := by
  simp only [mem_cons, not_mem_nil, or_false] at known
  rcases known with rfl | rfl | rfl
  · trivial
  · exact named rfl
  · trivial

theorem gives_box {keyword : Token} (known : keyword.value ∈ ["axdef", "schema", "gendef"]) :
    Gives g (Item.inFile g.other) (Told g verbatim) (box env keyword toks)
      (box (env.inFile g.other) keyword toks) := by
  apply (gives_boxName based here keyword).bind
  intro name mid named inside
  apply (gives_generics based inside).bind
  intro params mid each inside
  apply Gives.after (shares_lineEnd based inside)
  intro mid inside
  apply (gives_boxLines based inside keyword _).bind
  rintro ⟨ds, ps⟩ rest lines left
  exact .ok (by rw [Env.loc_inFile]; rfl) ⟨.box (names_ofName known named) each lines.1 lines.2, trivial⟩ left

theorem gives_zedLines (keyword : Token) (first : Bool) (bound : Nat) : Gives g (List.map (ZedLine.inFile g.other))
    (fun ls => ∀ l ∈ ls, l.Whole) (zedLines env keyword first bound toks)
    (zedLines (env.inFile g.other) keyword first bound toks) := by
  induction bound generalizing first toks with
  | zero => exact unclosed_pinpoints based keyword
  | succ bound ih =>
    have behind := behind_newlines here
    rw [zedLines, zedLines]
    dsimp only
    generalize skipNewlines toks = ahead at behind ⊢
    cases ahead with
    | nil => exact unclosed_pinpoints based keyword
    | cons t rest =>
      have onward {line : ZedLine} {mid : List Token} (whole : line.Whole) (inside : mid <:+ g.stream) :
          Gives g (List.map (ZedLine.inFile g.other)) (fun ls => ∀ l ∈ ls, l.Whole)
            (env.expectLineEnd mid >>= fun mid =>
              zedLines env keyword false bound mid >>= fun p => .ok (line :: p.1, p.2))
            ((env.inFile g.other).expectLineEnd mid >>= fun mid =>
              zedLines (env.inFile g.other) keyword false bound mid >>= fun p =>
                .ok (line.inFile g.other :: p.1, p.2)) := by
        apply Gives.after (shares_lineEnd based inside)
        intro mid inside
        apply (ih inside _).bind
        intro ls rest others left
        exact .ok rfl (forall_mem_cons.mpr ⟨whole, others⟩) left
      apply Gives.ite
      · exact fun _ => gives_endingLine based (behind_cons behind) rfl (forall_mem_nil _)
      · intro _
        apply Gives.ite
        · intro _
          apply (gives_declaration based behind).bind
          intro d mid whole inside
          exact onward whole inside
        · intro _
          apply (gives_expr based behind).bind
          intro e mid whole inside
          exact onward whole inside

theorem gives_zedBlock (keyword : Token) : Gives g (Item.inFile g.other) (Told g verbatim)
    (zedBlock env keyword toks) (zedBlock (env.inFile g.other) keyword toks) := by
  apply Gives.after (shares_lineEnd based here)
  intro mid inside
  apply (gives_zedLines based inside keyword true _).bind
  intro ls rest whole left
  exact .ok (by rw [Env.loc_inFile]; rfl) ⟨.zedBlock whole, trivial⟩ left

end

/-! ## Text -/

theorem length_le_of_mem_sourceLines {chars : List Char}
    (member : chars ∈ sourceLines source) : chars.length ≤ source.toList.length := by
  have are := areLines_sourceLines source
  generalize source.toList = cs at are
  generalize sourceLines source = lines at are member
  have shorter {piece line : List Char} (is : Text.IsLine piece line) : line.length ≤ piece.length := by
    rcases is.returns with ⟨returns, rfl, _⟩
    simp
  induction are with
  | last is =>
    rw [mem_singleton.mp member]
    exact shorter is
  | next is _ ih => grind

/-- The tokens of a source stand in its lines, and the last of them stands for its end. -/
theorem places_of_tokens {r : Token.Reading} {toks : List Token} (lexed : r.tokens source = .ok toks) :
    finalToken toks ∈ toks ∧ ∀ t ∈ toks, ∃ (i : Nat) (chars : List Char),
      (sourceLines source)[i]? = some chars ∧ t.line = i + 1 ∧ Token.LiesIn chars t := by
  rcases Token.Reading.covers_readLines r (areLines_sourceLines source).ne_nil lexed with
    ⟨covers, _, front, final, rfl, kind, _⟩
  constructor
  · unfold finalToken
    split
    next t found => exact mem_of_find?_eq_some found
    next none => simp [kind] at none
  · intro t member
    rcases covers.placed t member with ⟨i, chars, found, line, lies⟩
    exact ⟨i, chars, found, by omega, lies⟩

/-- The fault is in the formula of so many characters that begins at an offset of the line. -/
structure InSpan (file : String) (line : Token) (offset length : Nat) (fault : Fault) : Prop where
  sourced : fault.OfSource
  file_eq : fault.loc.file = file
  line_eq : fault.loc.line = line.line
  after : line.column + offset ≤ fault.loc.column
  before : fault.loc.column ≤ line.column + offset + length

theorem yields_spanExpr (env : Env) (line : Token) (offset : Nat) (span : List Char) :
    Yields Expr.Whole (InSpan env.file line offset span.length) (spanExpr env line offset span) := by
  have lexed := Token.Reading.yields_tokens {} (String.ofList span)
  have shaped := Token.Reading.finds_tokens {} (String.ofList span)
  have short {i : Nat} {chars : List Char}
      (found : (sourceLines (String.ofList span))[i]? = some chars) : chars.length ≤ span.length := by
    simpa using length_le_of_mem_sourceLines (mem_of_getElem? found)
  unfold spanExpr
  cases outcome : Token.Reading.tokens {} (String.ofList span) with
  | error fault =>
    rcases lexed.fault outcome with ⟨i, chars, found, unreadable⟩
    have length := short found
    have low := unreadable.positive
    have high := unreadable.inside
    refine ⟨?_, rfl, rfl, by dsimp only; omega, by dsimp only; omega⟩
    rcases unreadable.lexical with ⟨cause, problem⟩
    unfold Fault.OfSource
    rw [problem]
    trivial
  | ok toks =>
    rcases places_of_tokens outcome with ⟨final, places⟩
    have sound : ∀ t ∈ toks, t.Shaped := shaped.value outcome
    let inner : Env :=
      { file := env.file
        final := finalToken toks
        origin := some (line.line, line.column + offset - 1) }
    have ends : inner.Ends := Env.ends_envOf env.file toks
    have inBody : body toks ⊆ toks := takeWhile_subset _
    have inside {fault : Fault} (blames : Blames inner.loc toks fault) :
        InSpan env.file line offset span.length fault := by
      rcases blames with ⟨⟨expected, found, hint, problem⟩, t, member, loc⟩
      rcases places t member with ⟨i, chars, found, _, lies⟩
      have length := short found
      have low := lies.starts
      have high := lies.ends
      have ordered := lies.ordered
      refine ⟨?_, by rw [loc]; rfl, by rw [loc]; rfl, ?_, ?_⟩
      · unfold Fault.OfSource
        rw [problem]
        trivial
      · rw [loc]
        show _ ≤ line.column + offset - 1 + t.column
        omega
      · rw [loc]
        show line.column + offset - 1 + t.column ≤ _
        omega
    have draws : inner.Draws toks (body toks) := ⟨final, inBody⟩
    show Yields Expr.Whole _ (expr inner (body toks) >>= _)
    cases read : expr inner (body toks) with
    | error fault => exact inside ((meets_expr draws).fault read)
    | ok p =>
      have reads := (expr_eq_ok_iff ends).mp read
      dsimp only [bind, Except.bind]
      split
      · exact reads.formed ends (fun _ t member => sound t (inBody member)) trivial
      next rest _ =>
        have left : skipNewlines p.2 <:+ body toks := (dropWhile_suffix _).trans reads.suffix
        exact inside ((draws.suffix left).blames_expected _)

section
variable (f : String)

theorem addText_inFile (segments : List Segment) (text : String) :
    addText (segments.map (Segment.inFile f)) text = (addText segments text).map (Segment.inFile f) := by
  induction segments with
  | nil => rfl
  | cons s rest ih =>
    cases rest with
    | cons next others => exact congrArg (s.inFile f :: ·) ih
    | nil =>
      have gap : (s.inFile f).math.isHole = s.math.isHole := Expr.isHole_inFile f s.math
      rw [map_cons, map_nil, addText, addText, gap]
      by_cases isProse : s.math.isHole = true
      · rw [if_pos isProse, if_pos isProse]
        rfl
      · rw [if_neg isProse, if_neg isProse]
        rfl

theorem addSegment_inFile (segments : List Segment) (s : Segment) :
    addSegment (segments.map (Segment.inFile f)) (s.inFile f) = (addSegment segments s).map (Segment.inFile f) := by
  have gap : (s.inFile f).math.isHole = s.math.isHole := Expr.isHole_inFile f s.math
  unfold addSegment
  rw [gap]
  by_cases isMath : (!s.math.isHole) = true
  · rw [if_pos isMath, if_pos isMath, map_append]
    rfl
  · rw [if_neg isMath, if_neg isMath]
    by_cases empty : s.text.isEmpty = true
    · rw [if_pos empty]
      exact if_pos empty
    · rw [if_neg empty, ← addText_inFile]
      exact if_neg empty

theorem foldl_addSegment_inFile (more segments : List Segment) :
    (more.map (Segment.inFile f)).foldl addSegment (segments.map (Segment.inFile f)) =
      (more.foldl addSegment segments).map (Segment.inFile f) := by
  induction more generalizing segments with
  | nil => rfl
  | cons s rest ih => rw [map_cons, foldl_cons, foldl_cons, addSegment_inFile, ih]

theorem mirrors_spanExpr (env : Env) (line : Token) (offset : Nat) (span : List Char) :
    Mirrors (Expr.inFile f) (spanExpr env line offset span) (spanExpr (env.inFile f) line offset span) := by
  unfold spanExpr
  cases Token.Reading.tokens {} (String.ofList span) with
  | error fault => exact .error
  | ok toks =>
    have ends : Env.Ends
        { file := env.file
          final := finalToken toks
          origin := some (line.line, line.column + offset - 1) } :=
      Env.ends_envOf env.file toks
    apply (mirrors_expr f ends (body toks)).bind
    rintro ⟨e, rest⟩
    dsimp only
    cases skipNewlines rest with
    | nil => exact .ok rfl
    | cons t others => exact .error

end

/-- The text is what was read already, with all formulas closed, and the pieces that are left. -/
theorem shares_spanSegments (f : String) (env : Env) {line : Token} (text : line.kind = .text) {done rest : List Char}
    {pieces : List (List Char)} (closed : done.count '$' % 2 = 0) (whole : line.value.toList = done ++ rest)
    (cut : Text.ArePieces '$' rest pieces) :
    Shares (List.map (Segment.inFile f)) (fun ss => ∀ s ∈ ss, s.Whole .prose) (InFormula env.file line)
      (spanSegments env line done.length pieces) (spanSegments (env.inFile f) line done.length pieces) := by
  have even {piece : List Char} (free : '$' ∉ piece) : (done ++ piece).count '$' % 2 = 0 := by
    rw [count_append, count_eq_zero.mpr free, Nat.add_zero]
    exact closed
  match cut with
  | .last _ =>
    exact .ok rfl (forall_mem_singleton.mpr (Segment.whole_text _ _))
  | @Text.ArePieces.next _ piece _ _ free (@Text.ArePieces.last _ span spanFree) =>
    refine ⟨text, trivial, rfl, rfl, done ++ piece, span, even free, spanFree, .inr ⟨?_, ?_⟩⟩
    · simpa using whole
    · rw [length_append]
      dsimp only
      omega
  | @Text.ArePieces.next _ piece _ _ free (@Text.ArePieces.next _ span after others spanFree cut') =>
    have split : line.value.toList = (done ++ piece) ++ '$' :: (span ++ '$' :: after) := by
      simpa using whole
    have located {fault : Fault}
        (inSpan : InSpan env.file line (done.length + piece.length + 1) span.length fault) :
        InFormula env.file line fault := by
      have low := inSpan.after
      have high := inSpan.before
      refine ⟨text, inSpan.sourced, inSpan.file_eq, inSpan.line_eq, done ++ piece, span, even free,
        spanFree, .inl ⟨after, split, ?_, ?_⟩⟩
      · rw [length_append]
        omega
      · rw [length_append]
        omega
    have next : ((done ++ piece) ++ '$' :: (span ++ ['$'])).count '$' % 2 = 0 := by grind
    have onward := shares_spanSegments f env text next (by simp [split]) cut'
    have reached : ((done ++ piece) ++ '$' :: (span ++ ['$'])).length =
        done.length + piece.length + 1 + span.length + 1 := by
      simp
      omega
    rw [reached] at onward
    have ⟨first, more, same⟩ : ∃ first more, others = first :: more := by
      cases cut' <;> exact ⟨_, _, rfl⟩
    rw [same] at onward ⊢
    have spanned := ((yields_spanExpr env line (done.length + piece.length + 1) span).mono (fun _ whole => whole)
      (fun _ => located)).shares (mirrors_spanExpr f env line _ span)
    apply spanned.bind
    intro e whole
    apply onward.bind
    intro segments each
    exact .ok rfl (forall_mem_cons.mpr ⟨Segment.whole_text _ _, forall_mem_cons.mpr ⟨fun _ => ⟨rfl, whole⟩, each⟩⟩)

theorem shares_lineSegments (f : String) (env : Env) (kind : TextKind) {line : Token} (text : line.kind = .text) :
    Shares (List.map (Segment.inFile f)) (fun ss => ∀ s ∈ ss, s.Whole kind) (InFormula env.file line)
      (lineSegments env kind line) (lineSegments (env.inFile f) kind line) := by
  apply Shares.ite
  · intro isProse
    have nothing : ([] : List Char).count '$' % 2 = 0 := rfl
    rw [eq_of_beq isProse]
    exact shares_spanSegments f env text nothing (nil_append _).symm (arePieces_splitWhere '$' _)
  · exact fun _ => .ok rfl (forall_mem_singleton.mpr (Segment.whole_text _ _))

section
variable {g : Ground} {env : Env} (file_eq : env.file = g.file) (kind : TextKind)
include file_eq
variable {lines : List Token}

theorem shares_line {line : Token} (member : line ∈ g.supply) (text : line.kind = .text) :
    Shares (List.map (Segment.inFile g.other)) (fun ss => ∀ s ∈ ss, s.Whole kind) (Pinpoints g.file g.supply)
      (lineSegments env kind line) (lineSegments (env.inFile g.other) kind line) := by
  refine Yields.mono (shares_lineSegments g.other env kind text) (fun _ found => found) ?_
  intro fault inFormula
  rw [file_eq] at inFormula
  exact .inr ⟨line, member, inFormula⟩

theorem shares_moreSegments {segments : List Segment} (each : ∀ s ∈ segments, s.Whole kind)
    (text : ∀ line ∈ lines, line ∈ g.supply ∧ line.kind = .text) :
    Shares (List.map (Segment.inFile g.other)) (fun ss => ∀ s ∈ ss, s.Whole kind) (Pinpoints g.file g.supply)
      (moreSegments env kind segments lines)
      (moreSegments (env.inFile g.other) kind (segments.map (Segment.inFile g.other)) lines) := by
  induction lines generalizing segments with
  | nil => exact .ok rfl each
  | cons line rest ih =>
    have ⟨⟨member, here⟩, later⟩ := forall_mem_cons.mp text
    apply (shares_line file_eq kind member here).bind
    intro more added
    have prose := Segment.whole_text kind
    have next := ih (all_addSegments prose (all_addSegment prose each (prose "\n")) added) later
    rw [← foldl_addSegment_inFile, ← addSegment_inFile] at next
    exact next

theorem shares_textSegments (text : ∀ line ∈ lines, line ∈ g.supply ∧ line.kind = .text) :
    Shares (List.map (Segment.inFile g.other)) (fun ss => ∀ s ∈ ss, s.Whole kind) (Pinpoints g.file g.supply)
      (textSegments env kind lines) (textSegments (env.inFile g.other) kind lines) := by
  cases lines with
  | nil => exact .ok rfl (forall_mem_nil _)
  | cons line rest =>
    have ⟨⟨member, here⟩, later⟩ := forall_mem_cons.mp text
    apply (shares_line file_eq kind member here).bind
    intro first added
    have next := shares_moreSegments file_eq kind
      (all_addSegments (Segment.whole_text kind) (forall_mem_nil _) added) later
    rw [← foldl_addSegment_inFile] at next
    exact next

end

theorem Rows.text {toks : List Token} (rows : Rows toks lines) : ∀ line ∈ lines, line ∈ toks ∧ line.kind = .text := by
  induction rows with
  | none => exact forall_mem_nil _
  | last text => exact forall_mem_singleton.mpr ⟨mem_cons_self, text⟩
  | @next line newline toks lines text _ _ ih => grind

theorem Rows.eq_nil {toks : List Token} (rows : Rows toks lines)
    (last : ∀ t ∈ toks.head?, t.kind = .endOfInput) : lines = [] := by
  cases rows with
  | none => rfl
  | last text | next text => cases text.symm.trans (last _ rfl)

section
variable {g : Ground} {env : Env} {toks : List Token} (flat : env.nested = false)
include flat

theorem peek_of_flat (t : Token) : env.peek (t :: toks) = t := by simp [Env.peek, Env.view, flat]

theorem rest_of_flat (t : Token) : env.rest (t :: toks) = toks := by simp [Env.rest, Env.view, flat]

variable (based : env.Over g)
include based

theorem cons_of_text (text : (env.peek toks).kind = .text) : ∃ line rest, toks = line :: rest ∧ line.kind = .text := by
  cases toks with
  | nil =>
    have final : env.peek [] = env.final := by simp [Env.peek, Env.view, flat]
    rw [final, show env.final.kind = .endOfInput from based.ends] at text
    cases text
  | cons line rest =>
    rw [peek_of_flat flat] at text
    exact ⟨line, rest, rfl, text⟩

theorem of_expectLineEnd {after : List Token} (ended : env.expectLineEnd toks = .ok after) :
    (∃ newline, newline.kind = .newline ∧ toks = newline :: after) ∨
      (after = toks ∧ ∀ t ∈ toks.head?, t.kind = .endOfInput) := by
  cases toks with
  | nil =>
    have final : env.peek [] = env.final := by simp [Env.peek, Env.view, flat]
    rw [Env.expectLineEnd, final, show env.final.kind = .endOfInput from based.ends] at ended
    cases ended
    simp
  | cons t rest =>
    rw [Env.expectLineEnd, peek_of_flat flat, rest_of_flat flat] at ended
    split at ended
    next newline =>
      cases ended
      exact .inl ⟨t, newline, rfl⟩
    next last =>
      cases ended
      exact .inr ⟨rfl, by simpa using last⟩
    next => cases ended

variable (here : toks <:+ g.stream)
include here

theorem gives_textLines {bound : Nat} (enough : toks.length ≤ bound) : Gives g id (Rows toks)
    (textLines env bound toks) (textLines (env.inFile g.other) bound toks) := by
  induction bound generalizing toks with
  | zero =>
    rw [length_eq_zero_iff.mp (Nat.le_zero.mp enough)] at here ⊢
    exact .ok rfl (.none (by simp)) here
  | succ bound ih =>
    rw [textLines, textLines]
    apply Gives.ite
    · intro text
      rcases cons_of_text flat based (eq_of_beq text) with ⟨line, rest, rfl, isText⟩
      have peek : (env.inFile g.other).peek (line :: rest) = line := peek_of_flat flat line
      have after : (env.inFile g.other).rest (line :: rest) = rest := rest_of_flat flat line
      rw [peek_of_flat flat, rest_of_flat flat, peek, after]
      rw [length_cons] at enough
      apply Gives.after (shares_lineEnd based (behind_cons here)).self
      rintro mid ⟨inside, ended⟩
      rcases of_expectLineEnd flat based ended with ⟨newline, ends, rfl⟩ | ⟨rfl, last⟩
      · rw [length_cons] at enough
        apply (ih inside (by omega)).bind
        exact fun lines left rows behind => .ok rfl (.next isText ends rows) behind
      · apply (ih inside (by omega)).bind
        intro lines left rows behind
        rw [rows.eq_nil last]
        exact .ok rfl (.last isText last) behind
    · intro other
      refine .ok rfl (.none ?_) here
      cases toks with
      | nil => simp
      | cons t rest =>
        rw [peek_of_flat flat] at other
        simpa using other

end

section
variable {g : Ground} {env : Env} {t : Token} {toks : List Token} (based : env.Over g) {verbatim : Prop}
include based

theorem gives_textBlock (flat : env.nested = false) {kind : TextKind} (raw : kind = .latex → verbatim)
    (opens : kind = .prose → t.isKeyword "TEXT:" = true) (here : t :: toks <:+ g.stream) :
    Gives g (Item.inFile g.other) (Told g verbatim) (textBlock env kind t toks)
      (textBlock (env.inFile g.other) kind t toks) := by
  have behind := behind_cons here
  apply Gives.ite
  · intro text
    rcases cons_of_text flat based (eq_of_beq text) with ⟨line, rest, rfl, isText⟩
    have peek : (env.inFile g.other).peek (line :: rest) = line := peek_of_flat flat line
    have inLine : ∀ other ∈ [line], other ∈ g.supply ∧ other.kind = .text :=
      forall_mem_singleton.mpr ⟨mem_supply behind, isText⟩
    rw [peek_of_flat flat, peek]
    apply Gives.after (shares_textSegments based.file_eq kind inLine).self
    rintro segments ⟨each, read⟩
    refine gives_endingLine based (Env.Over.rest behind) (by rw [Item.inFile, Env.loc_inFile]) ⟨.text raw each, ?_⟩
    rintro rfl
    rw [based.loc_eq]
    exact ⟨env, _, [line], based.file_eq, here, .inLine (opens rfl) isText, read⟩
  · intro _
    apply Gives.after (shares_lineEnd based behind).self
    rintro mid ⟨inside, ended⟩
    apply (gives_textLines flat based inside (Nat.le_refl _)).bind
    intro lines rest rows left
    apply Gives.ite
    · exact fun _ => based.expected left _
    · intro present
      have text : ∀ line ∈ lines, line ∈ g.supply ∧ line.kind = .text := fun line member =>
        ⟨g.drawn (inside.subset (rows.text line member).1), (rows.text line member).2⟩
      apply Gives.after (shares_textSegments based.file_eq kind text).self
      rintro segments ⟨each, read⟩
      refine .ok (by rw [Env.loc_inFile]; rfl) ⟨.text raw each, ?_⟩ left
      rintro rfl
      rw [based.loc_eq]
      have some : lines ≠ [] := by simpa using present
      rcases of_expectLineEnd flat based ended with ⟨newline, ends, rfl⟩ | ⟨rfl, last⟩
      · exact ⟨env, _, lines, based.file_eq, here, .below (opens rfl) ends rows some, read⟩
      · exact absurd (rows.eq_nil last) some

variable (here : toks <:+ g.stream)
include here

/-! ## Proofs, equivalence chains and truth tables -/

theorem gives_assumptionLabel : Gives g id (fun _ => True) (assumptionLabel env toks)
    (assumptionLabel (env.inFile g.other) toks) := by
  have same : (env.inFile g.other).peek toks = env.peek toks := rfl
  unfold assumptionLabel
  rw [same]
  apply Gives.ite
  · intro _
    cases readInt (env.peek toks).value with
    | some n => exact .ok rfl trivial (Env.Over.rest here)
    | none => exact based.faultAt (based.peek_mem here) _ _ _
  · exact fun _ => .ok rfl trivial here

theorem gives_proofLine : Gives g (ProofStep.inFile g.other) (fun step => step.expr.Whole) (proofLine env toks)
    (proofLine (env.inFile g.other) toks) := by
  apply (gives_assumptionLabel based here).bind
  intro label mid _ inside
  apply (gives_expr based (Env.Over.optional (Env.Over.optional inside _) _)).bind
  intro e mid whole inside
  exact gives_endingLine based (Env.Over.optional (Env.Over.optional inside _) _) (by rw [Env.loc_inFile]; rfl) whole

/-- The lines of a proof go to the builder one by one. -/
theorem gives_proofLines (bound : Nat) (s : Derivation.State) : Gives g (ProofTree.inFile g.other)
    (fun tree => ∃ lines, (∀ l ∈ lines, l.step.expr.Whole) ∧ (Derivation.run s lines >>= Derivation.finish) = .ok tree)
    (proofLines env s bound toks) (proofLines (env.inFile g.other) (s.inFile g.other) bound toks) := by
  induction bound generalizing s toks with
  | zero => exact based.expected here _
  | succ bound ih =>
    have misfits (m : Derivation.Misfit) : Pinpoints g.file g.supply (misfit env (env.peek toks) m) :=
      based.faultAt (based.peek_mem here) _ _ _
    apply Gives.ite
    · intro _
      cases finished : Derivation.finish s with
      | error m => exact misfits m
      | ok tree =>
        rw [Derivation.mirrors_finish g.other s tree finished]
        exact .ok rfl ⟨[], forall_mem_nil _, finished⟩ here
    · intro _
      apply (gives_proofLine based here).bind
      intro step mid whole inside
      have same : (env.inFile g.other).peek toks = env.peek toks := rfl
      dsimp only
      rw [same]
      cases added : Derivation.add s (env.peek toks).column (env.peek toks).line step with
      | error m => exact misfits m
      | ok next =>
        rw [Derivation.mirrors_add g.other s _ _ step next added]
        refine Yields.mono (ih inside next) ?_ (fun _ pinned => pinned)
        rintro ⟨tree, rest⟩ ⟨⟨⟨lines, each, built⟩, left⟩, again⟩
        refine ⟨⟨⟨⟨(env.peek toks).column, (env.peek toks).line, step⟩ :: lines, ?_, ?_⟩, left⟩, again⟩
        · exact forall_mem_cons.mpr ⟨whole, each⟩
        · rw [Derivation.run_cons, added]
          exact built

theorem gives_proof (keyword : Token) : Gives g (Item.inFile g.other) (Told g verbatim) (proof env keyword toks)
    (proof (env.inFile g.other) keyword toks) := by
  apply Gives.after (shares_lineEnd based here)
  intro mid inside
  apply (gives_proofLines based inside _ {}).bind
  rintro tree rest ⟨lines, each, built⟩ left
  exact .ok (by rw [Env.loc_inFile]; rfl) ⟨.proof (Derivation.all_of_build each built), trivial⟩ left

omit based here in
/-- The connective of a step is one of the table; the first step has none. -/
theorem known_connective (t : Token) (first : Bool) :
    let connective :=
      if first then "" else if t.isOp "iff" || t.isOp "implies" then t.value else "iff"
    connective = "" ∨ (Symbol.lookup connective).isSome = true := by
  dsimp only
  split
  · exact Or.inl rfl
  · apply Or.inr
    split
    next isWritten =>
      simp only [Token.isOp, Token.is, Bool.or_eq_true, Bool.and_eq_true, beq_iff_eq] at isWritten
      rcases isWritten with ⟨_, value⟩ | ⟨_, value⟩
      · rw [value]
        rfl
      · rw [value]
        rfl
    next => rfl

theorem gives_equivSteps (first : Bool) (bound : Nat) : Gives g (List.map (EquivStep.inFile g.other))
    (fun steps => ∀ s ∈ steps, s.Whole) (equivSteps env first bound toks)
    (equivSteps (env.inFile g.other) first bound toks) := by
  induction bound generalizing first toks with
  | zero => exact .ok rfl (forall_mem_nil _) here
  | succ bound ih =>
    apply Gives.ite
    · exact fun _ => .ok rfl (forall_mem_nil _) here
    · intro _
      apply (gives_expr based (Env.Over.optional here _)).bind
      intro e mid whole inside
      apply Gives.after (shares_lineEnd based (Env.Over.optional inside _))
      intro mid inside
      apply (ih inside false).bind
      intro steps rest others left
      refine .ok (by rw [Env.loc_inFile]; rfl) (forall_mem_cons.mpr ⟨?_, others⟩) left
      exact ⟨whole, known_connective _ first⟩

theorem gives_equivChain (keyword : Token) : Gives g (Item.inFile g.other) (Told g verbatim)
    (equivChain env keyword toks) (equivChain (env.inFile g.other) keyword toks) := by
  apply Gives.after (shares_lineEnd based here)
  intro mid inside
  apply (gives_equivSteps based inside true _).bind
  intro steps rest each left
  dsimp only
  rw [isEmpty_map]
  apply Gives.ite
  · exact fun _ => based.expected left _
  · intro some
    exact .ok (by rw [Env.loc_inFile]; rfl) ⟨.equivChain (by simpa using some) each, trivial⟩ left

theorem gives_tableHeader (bound : Nat) : Gives g (List.map (Expr.inFile g.other))
    (fun es => es ≠ [] ∧ ∀ e ∈ es, e.Whole) (tableHeader env bound toks)
    (tableHeader (env.inFile g.other) bound toks) := by
  induction bound generalizing toks with
  | zero => exact based.expected here _
  | succ bound ih =>
    apply (gives_expr based here).bind
    intro e mid whole inside
    apply Gives.ite
    · intro _
      apply (ih (Env.Over.rest inside)).bind
      intro es rest others left
      exact .ok rfl ⟨cons_ne_nil _ _, forall_mem_cons.mpr ⟨whole, others.2⟩⟩ left
    · exact fun _ => .ok rfl ⟨cons_ne_nil _ _, forall_mem_singleton.mpr whole⟩ inside

/-- Every row of a table has as many cells as the table has columns. -/
theorem gives_tableRows (columns bound : Nat) : Gives g id (fun rows => ∀ row ∈ rows, row.length = columns)
    (tableRows env columns bound toks) (tableRows (env.inFile g.other) columns bound toks) := by
  induction bound generalizing toks with
  | zero => exact .ok rfl (forall_mem_nil _) here
  | succ bound ih =>
    apply Gives.ite
    · exact fun _ => .ok rfl (forall_mem_nil _) here
    · intro _
      apply Gives.after (shares_lineEnd based ((drop_suffix _ toks).trans here))
      intro after inside
      apply Gives.ite
      · exact fun _ => ih inside
      · intro _
        apply Gives.ite
        · exact fun _ => based.faultAt (based.peek_mem here) _ _ _
        · intro fits
          apply (ih inside).bind
          intro rows rest others left
          exact .ok rfl (forall_mem_cons.mpr ⟨by simpa using fits, others⟩) left

theorem gives_truthTable (keyword : Token) : Gives g (Item.inFile g.other) (Told g verbatim)
    (truthTable env keyword toks) (truthTable (env.inFile g.other) keyword toks) := by
  apply Gives.after (shares_lineEnd based here)
  intro mid inside
  apply Gives.ite
  · exact fun _ => based.expected inside _
  · intro _
    apply (gives_tableHeader based inside _).bind
    intro header mid each inside
    apply Gives.after (shares_lineEnd based inside)
    intro mid inside
    dsimp only
    rw [length_map]
    apply (gives_tableRows based inside _ _).bind
    intro rows rest rectangular left
    exact .ok (by rw [Env.loc_inFile]; rfl) ⟨.truthTable each.1 each.2 rectangular, trivial⟩ left

/-! ## Lines -/

omit based here in
/-- A hint changes neither the place of a fault nor its stage. -/
theorem pinpoints_withKeywordHint {file : String} {supply : List Token} (first second : Token) {fault : Fault}
    (pinned : Pinpoints file supply fault) : Pinpoints file supply (withKeywordHint first second fault) := by
  unfold withKeywordHint
  split
  next expected found problem =>
    split
    · rcases pinned with ⟨_, t, member, loc⟩ | ⟨line, member, inFormula⟩
      · exact .inl ⟨⟨_, _, _, rfl⟩, t, member, loc⟩
      · refine .inr ⟨line, member, inFormula.text, trivial, ?_, ?_, ?_⟩
        · exact inFormula.file_eq
        · exact inFormula.line_eq
        · exact inFormula.place
    · exact pinned
  next => exact pinned

theorem gives_formula : Gives g (Item.inFile g.other) (Told g verbatim) (formula env toks)
    (formula (env.inFile g.other) toks) := by
  apply Shares.mapError
  · apply (gives_expr based here).bind
    intro e rest whole left
    exact gives_endingLine based left (by rw [Env.loc_inFile]; rfl) ⟨.formula whole, trivial⟩
  · exact fun fault pinned => pinpoints_withKeywordHint _ _ pinned

omit here in
/-- Text is passed on as it is only behind its keyword. -/
theorem gives_block (flat : env.nested = false) (here : t :: toks <:+ g.stream)
    (raw : t.isKeyword "LATEX:" = true → verbatim) :
    (block env t toks = none ∧ block (env.inFile g.other) t toks = none) ∨
      ∃ first second, block env t toks = some first ∧ block (env.inFile g.other) t toks = some second ∧
        Gives g (Item.inFile g.other) (Told g verbatim) first second := by
  have behind := behind_cons here
  unfold block
  by_cases plain : (t.kind != .keyword) = true
  · rw [if_pos plain, if_pos plain]
    exact .inl ⟨rfl, rfl⟩
  · have opens {name : String} (value : t.value = name) : t.isKeyword name = true := by
      have kind : t.kind = .keyword := by simpa using plain
      simp [Token.isKeyword, Token.is, kind, value]
    rw [if_neg plain, if_neg plain]
    split
    next => exact .inr ⟨_, _, rfl, rfl, gives_givenType based behind t⟩
    next value => exact .inr ⟨_, _, rfl, rfl, gives_box based behind (by simp [value])⟩
    next value => exact .inr ⟨_, _, rfl, rfl, gives_box based behind (by simp [value])⟩
    next value => exact .inr ⟨_, _, rfl, rfl, gives_box based behind (by simp [value])⟩
    next => exact .inr ⟨_, _, rfl, rfl, gives_zedBlock based behind t⟩
    next value => exact .inr ⟨_, _, rfl, rfl, gives_textBlock based flat (by simp) (fun _ => opens value) here⟩
    next => exact .inr ⟨_, _, rfl, rfl, gives_textBlock based flat (by simp) (by simp) here⟩
    next value => exact .inr ⟨_, _, rfl, rfl, gives_textBlock based flat (fun _ => raw (opens value)) (by simp) here⟩
    next => exact .inr ⟨_, _, rfl, rfl, gives_proof based behind t⟩
    next => exact .inr ⟨_, _, rfl, rfl, gives_equivChain based behind t⟩
    next => exact .inr ⟨_, _, rfl, rfl, gives_truthTable based behind t⟩
    next => exact .inr ⟨_, _, rfl, rfl, gives_endingLine based behind (by rw [Item.inFile, Env.loc_inFile])
      ⟨.pageBreak, trivial⟩⟩
    next => exact .inl ⟨rfl, rfl⟩

omit here in
theorem gives_item (flat : env.nested = false) (here : t :: toks <:+ g.stream)
    (raw : ∀ t ∈ g.supply, t.isKeyword "LATEX:" = true → verbatim) : Gives g (Item.inFile g.other)
    (Told g verbatim) (item env (t :: toks)) (item (env.inFile g.other) (t :: toks)) := by
  have member := mem_supply here
  have behind := behind_cons here
  have named {present : Bool} (identifier : (t.kind == .identifier && present) = true) : IsName t.value :=
    Env.Over.isName_value member (eq_of_beq (Bool.and_eq_true_iff.mp identifier).1)
  have peek : (env.inFile g.other).peek (t :: toks) = t := peek_of_flat flat t
  have after : (env.inFile g.other).rest (t :: toks) = toks := rest_of_flat flat t
  unfold item
  dsimp only
  rw [peek_of_flat flat, rest_of_flat flat, peek, after]
  rcases gives_block based flat here (raw t member) with ⟨first, second⟩ | ⟨_, _, first, second, gives⟩
  · rw [first, second]
    apply Gives.ite
    · exact fun isName => gives_freeType based ((tail_suffix _).trans behind) (named isName)
    · intro _
      apply Gives.ite
      · exact fun isName => gives_abbreviation based behind (named isName)
      · exact fun _ => gives_formula based here
  · rw [first, second]
    exact gives

section
variable (flat : env.nested = false) (raw : ∀ t ∈ g.supply, t.isKeyword "LATEX:" = true → verbatim)
include flat raw

theorem gives_entries :
    Gives g (List.map (Entry.inFile g.other)) (fun found => ∀ entry ∈ found, entry.All (Told g verbatim))
      (entries env toks) (entries (env.inFile g.other) toks) := by
  induction toks with
  | nil => exact based.expected here _
  | cons t rest ih =>
    have behind := behind_cons here
    have heading (level : Heading) : Gives g (List.map (Entry.inFile g.other))
        (fun found => ∀ entry ∈ found, entry.All (Told g verbatim))
        (endingLine env [.heading level t.value (env.loc t)] rest)
        (endingLine (env.inFile g.other) [.heading level t.value ((env.inFile g.other).loc t)] rest) :=
      gives_endingLine based behind (by rw [Env.loc_inFile]; rfl) (forall_mem_singleton.mpr trivial)
    rw [entries, entries]
    cases kind : t.kind with
    | sectionHeader => exact heading .section
    | solutionHeader => exact heading .solution
    | partLabel =>
      apply Gives.ite
      · exact fun _ => heading .part
      · intro _
        apply (ih behind).bind
        intro more left others inside
        exact .ok (by rw [Env.loc_inFile]; rfl) (forall_mem_cons.mpr ⟨trivial, others⟩) inside
    | text =>
      have line : ∀ other ∈ [t], other ∈ g.supply ∧ other.kind = .text :=
        forall_mem_singleton.mpr ⟨mem_supply here, kind⟩
      apply Gives.after (shares_textSegments based.file_eq .prose line).self
      rintro segments ⟨each, read⟩
      refine gives_endingLine based behind (by rw [Env.loc_inFile]; rfl)
        (forall_mem_singleton.mpr ⟨.text (by simp) each, fun _ => ?_⟩)
      rw [based.loc_eq]
      exact ⟨env, _, [t], based.file_eq, here, .alone kind, read⟩
    | _ =>
      apply (gives_item based flat here raw).bind
      intro i left told inside
      exact .ok rfl (forall_mem_singleton.mpr told) inside

theorem shares_documentEntries (bound : Nat) :
    Shares (List.map (Entry.inFile g.other)) (fun found => ∀ entry ∈ found, entry.All (Told g verbatim))
      (Pinpoints g.file g.supply) (documentEntries env bound toks)
      (documentEntries (env.inFile g.other) bound toks) := by
  induction bound generalizing toks with
  | zero => exact .ok rfl (forall_mem_nil _)
  | succ bound ih =>
    have behind := behind_newlines here
    rw [documentEntries, documentEntries]
    generalize skipNewlines toks = ahead at behind ⊢
    cases ahead with
    | nil => exact .ok rfl (forall_mem_nil _)
    | cons t rest =>
      apply Shares.bind (gives_entries based behind flat raw)
      rintro ⟨first, after⟩ ⟨told, inside⟩
      apply (ih inside).bind
      intro others later
      exact .ok map_append.symm (forall_mem_append.mpr ⟨told, later⟩)

end

end

/-- The ground of a document: its tokens up to the end of the input. -/
def groundOf (file other : String) {toks supply : List Token} (drawn : toks ⊆ supply)
    (shaped : ∀ t ∈ supply, t.Shaped) : Ground where
  file := file
  other := other
  stream := body toks
  supply := supply
  drawn := List.Subset.trans (takeWhile_subset _) drawn
  shaped := shaped

end Parse

section
variable {toks supply : List Token} {verbatim : Prop} (drawn : toks ⊆ supply) (shaped : ∀ t ∈ supply, t.Shaped)
  (final : Parse.finalToken toks ∈ supply) (raw : ∀ t ∈ supply, t.isKeyword "LATEX:" = true → verbatim)
  (file other : String)
include final raw

theorem shares_entries : Shares (List.map (Entry.inFile other))
    (fun found => ∀ entry ∈ found, entry.All (Parse.Told (Parse.groundOf file other drawn shaped) verbatim))
    (Parse.Pinpoints file supply) (Parse.documentEntries (Parse.envOf file toks) (toks.length + 1) (Parse.body toks))
    (Parse.documentEntries (Parse.envOf other toks) (toks.length + 1) (Parse.body toks)) :=
  Parse.shares_documentEntries (g := Parse.groundOf file other drawn shaped)
    ⟨Parse.Env.ends_envOf file toks, final, rfl, rfl⟩ suffix_rfl rfl raw _

include drawn shaped

/-- The document of tokens that are drawn from a supply. -/
theorem shares_document : Shares (List.map (Item.inFile other)) (fun doc => ∀ i ∈ doc, Item.Whole verbatim i)
    (Parse.Pinpoints file supply) (Document.ofTokens file toks) (Document.ofTokens other toks) := by
  apply (shares_entries drawn shaped final raw file other).self.bind
  rintro entries ⟨told, read⟩
  refine .ok (Document.ofEntries_inFile other entries)
    (all_ofEntries ?_ (Parse.leaf_of_documentEntries read) fun entry member => ?_)
  · exact .heading
  · cases entry with
    | heading => trivial
    | item i => exact (told _ member).whole

end

/-- The document of the tokens of a source has the shape of documents; if there is none, the fault is at one
of the tokens or in a formula of one. -/
theorem yields_ofTokens {r : Token.Reading} {toks : List Token} (lexed : r.tokens source = .ok toks) (file : String) :
    Yields (fun doc => ∀ i ∈ doc, Item.Whole (∃ t ∈ toks, t.isKeyword "LATEX:" = true) i)
      (Parse.Pinpoints file toks) (Document.ofTokens file toks) :=
  (shares_document (List.Subset.refl toks) ((Token.Reading.finds_tokens r source).value lexed)
    (Parse.places_of_tokens lexed).1 (fun t member keyword => ⟨t, member, keyword⟩) file file).yields

end Whiteboard
