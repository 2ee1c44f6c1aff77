import Whiteboard.Proofs.Diagnostic.Outcome

namespace Whiteboard

/-!
# Where a fault points

A stage that fails says where.  `Yields` follows a value and a fault through the stages at once; `Mirrors` compares
the values of two runs, and `Shares` does both.  A place lies in a source if it is on one of its lines, at a
character or right behind the last one, and such a place can be shown: the excerpt repeats the line and has a caret
under the column.
-/

/-- A value has the one property and a fault the other. -/
def Yields {α : Type} (P : α → Prop) (F : Fault → Prop) : Except Fault α → Prop
  | .ok value => P value
  | .error fault => F fault

namespace Yields

variable {α β : Type} {P Q : α → Prop} {R : β → Prop} {F G : Fault → Prop}

theorem value {outcome : Except Fault α} {a : α} (yields : Yields P F outcome) (same : outcome = .ok a) :
    P a := by
  rw [same] at yields
  exact yields

theorem fault {outcome : Except Fault α} {fault : Fault} (yields : Yields P F outcome)
    (same : outcome = .error fault) : F fault := by
  rw [same] at yields
  exact yields

theorem bind {first : Except Fault α} {next : α → Except Fault β} (yields : Yields P F first)
    (onward : ∀ value, P value → Yields R F (next value)) : Yields R F (first >>= next) := by
  cases first with
  | error fault => exact yields
  | ok value => exact onward value yields

section
variable {outcome : Except Fault α} (yields : Yields P F outcome) (weaker : ∀ value, P value → Q value)
include yields weaker

theorem mono (milder : ∀ fault, F fault → G fault) : Yields Q G outcome := by
  cases outcome with
  | error fault => exact milder fault yields
  | ok value => exact weaker value yields

theorem imp : Yields Q F outcome :=
  yields.mono weaker fun _ fault => fault

end

theorem ite {condition : Prop} [Decidable condition] {yes no : Except Fault α}
    (ifYes : condition → Yields P F yes) (ifNo : ¬ condition → Yields P F no) :
    Yields P F (if condition then yes else no) := by
  by_cases holds : condition
  · rw [if_pos holds]
    exact ifYes holds
  · rw [if_neg holds]
    exact ifNo holds

end Yields

/-! ## Outcomes of two runs -/

/-- Where the first outcome is a value, the second is that value after the change. -/
def Mirrors {ε α : Type} (change : α → α) (first second : Except ε α) : Prop :=
  ∀ a, first = .ok a → second = .ok (change a)

namespace Mirrors

variable {ε α β : Type} {change : α → α} {alter : β → β}

theorem ok {a b : α} (same : b = change a) : Mirrors change (.ok a : Except ε α) (.ok b) := by
  rintro _ ⟨rfl⟩
  rw [same]

theorem error {fault : ε} {second : Except ε α} : Mirrors change (.error fault) second := by
  rintro _ ⟨⟩

theorem bind {first second : Except ε α} {next onward : α → Except ε β} (mirrors : Mirrors change first second)
    (continues : ∀ a, Mirrors alter (next a) (onward (change a))) :
    Mirrors alter (first >>= next) (second >>= onward) := by
  intro b found
  obtain ⟨a, here, there⟩ := bind_eq_ok.mp found
  rw [mirrors a here]
  exact continues a b there

theorem ite {condition : Prop} [Decidable condition] {yes no yes' no' : Except ε α}
    (ifYes : condition → Mirrors change yes yes') (ifNo : ¬ condition → Mirrors change no no') :
    Mirrors change (if condition then yes else no) (if condition then yes' else no') := by
  split
  next holds => exact ifYes holds
  next fails => exact ifNo fails

end Mirrors

/-- A value has the property, and the second outcome is that value after the change; a fault has its own property. -/
def Shares {α : Type} (change : α → α) (P : α → Prop) (F : Fault → Prop) (first second : Except Fault α) : Prop :=
  Yields (fun a => P a ∧ second = .ok (change a)) F first

theorem Yields.shares {α : Type} {change : α → α} {P : α → Prop} {F : Fault → Prop} {first second : Except Fault α}
    (yields : Yields P F first) (mirrors : Mirrors change first second) : Shares change P F first second := by
  cases first with
  | error fault => exact yields
  | ok a => exact ⟨yields, mirrors a rfl⟩

namespace Shares

variable {α β : Type} {change : α → α} {alter : β → β} {P : α → Prop} {Q : β → Prop} {F : Fault → Prop}
  {first second : Except Fault α}

theorem ok {a b : α} (same : b = change a) (holds : P a) : Shares change P F (.ok a) (.ok b) :=
  ⟨holds, congrArg Except.ok same⟩

section
variable (shares : Shares change P F first second)
include shares

theorem yields : Yields P F first :=
  Yields.mono shares (fun _ found => found.1) fun _ fault => fault

theorem mirrors : Mirrors change first second :=
  fun _ found => (Yields.value shares found).2

theorem bind {next onward : α → Except Fault β}
    (continues : ∀ a, P a → Shares alter Q F (next a) (onward (change a))) :
    Shares alter Q F (first >>= next) (second >>= onward) := by
  refine Yields.bind shares ?_
  rintro a ⟨holds, rfl⟩
  exact continues a holds

theorem self : Shares change (fun a => P a ∧ first = .ok a) F first second := by
  cases first with
  | error fault => exact shares
  | ok a => exact ⟨⟨shares.1, rfl⟩, shares.2⟩

end

theorem ite {condition : Prop} [Decidable condition] {yes no yes' no' : Except Fault α}
    (ifYes : condition → Shares change P F yes yes') (ifNo : ¬ condition → Shares change P F no no') :
    Shares change P F (if condition then yes else no) (if condition then yes' else no') := by
  split
  next holds => exact ifYes holds
  next fails => exact ifNo fails

theorem mapError {f g : Fault → Fault} (shares : Shares change P F first second)
    (kept : ∀ fault, F fault → F (f fault)) : Shares change P F (first.mapError f) (second.mapError g) := by
  cases first with
  | error fault => exact kept fault shares
  | ok a =>
    rw [shares.2]
    exact .ok rfl shares.1

end Shares

/-- The place is on one of the lines, at one of its characters or right behind them. -/
def Location.LiesIn (lines : List (List Char)) (loc : Location) : Prop :=
  ∃ (i : Nat) (chars : List Char), lines[i]? = some chars ∧ loc.line = i + 1 ∧ 1 ≤ loc.column ∧
    loc.column ≤ chars.length + 1

namespace Snippet

/-- The excerpt has two rows behind margins of the same width: the line, and a caret under the column.
Before the caret stand blanks, and tabs where the line has tabs. -/
def CaretUnder (chars : List Char) (loc : Location) (excerpt : String) : Prop :=
  ∃ padding : List Char, excerpt = "  " ++ toString loc.line ++ " | " ++ String.ofList chars ++ "\n" ++
      "  " ++ Text.spaces (toString loc.line).length ++ " | " ++ String.ofList padding ++ "^\n" ∧
    (padding.length : Int) = loc.column - 1 ∧
    ∀ (k : Nat) (c : Char), padding[k]? = some c → c = if chars[k]? = some '\t' then '\t' else ' '

theorem length_caretPadding (chars : List Char) {column : Int} (positive : 1 ≤ column) :
    ((caretPadding chars column).length : Int) = column - 1 := by
  simp only [caretPadding, List.length_append, List.length_map, List.length_take, List.length_replicate]
  omega

theorem getElem?_caretPadding {chars : List Char} {column : Int} {k : Nat} {c : Char}
    (found : (caretPadding chars column)[k]? = some c) : c = if chars[k]? = some '\t' then '\t' else ' ' := by
  simp only [caretPadding, List.getElem?_append, List.length_map, List.length_take, List.getElem?_map] at found
  split at found
  next inside =>
    have shorter : k < (column - 1).toNat := by omega
    rw [List.getElem?_take_of_lt shorter] at found
    rcases Option.map_eq_some_iff.mp found with ⟨d, here, rfl⟩
    simp [here]
  next outside =>
    rw [List.getElem?_replicate] at found
    split at found
    next less => grind
    next => cases found

/-- A place that lies in the source is shown. -/
theorem caretUnder_render {source : String} {loc : Location} (inside : loc.LiesIn (Text.sourceLines source)) :
    ∃ chars ∈ (Text.sourceLines source)[(loc.line - 1).toNat]?, CaretUnder chars loc (render source loc) := by
  rcases inside with ⟨i, chars, found, line, positive, _⟩
  have index : (loc.line - 1).toNat = i := by omega
  have shown : lineAt source loc.line = some chars := by
    rw [lineAt, if_neg (by omega), index]
    exact found
  rw [index]
  refine ⟨chars, found, caretPadding chars loc.column, ?_, length_caretPadding chars positive, ?_⟩
  · simp [render, shown, String.append_assoc]
  · exact fun k c => getElem?_caretPadding

end Snippet
end Whiteboard
