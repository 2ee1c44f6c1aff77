import Whiteboard.Diagnostic

namespace Whiteboard

/-!
# What a stage can come to

A stage either finds a value or a fault.  `Finds P` says of its outcome that a value has the property
`P` and that a fault concerns the source: its characters or its tokens, never the rendering of a
tree.
-/

theorem bind_eq_ok {ε α β : Type} {first : Except ε α} {next : α → Except ε β} {result : β} :
    (first >>= next) = .ok result ↔ ∃ value, first = .ok value ∧ next value = .ok result := by
  cases first <;> simp [bind, Except.bind]

theorem map_eq_ok {ε α β : Type} {first : Except ε α} {f : α → β} {result : β} :
    first.map f = .ok result ↔ ∃ value, first = .ok value ∧ f value = result := by
  cases first <;> simp [Except.map]

/-- The fault concerns the characters or the tokens of a source. -/
def Fault.OfSource (fault : Fault) : Prop :=
  match fault.problem with
  | .generation .. => False
  | _ => True

/-- A value has the property, and a fault concerns the source. -/
def Finds {α : Type} (P : α → Prop) : Except Fault α → Prop
  | .ok value => P value
  | .error fault => fault.OfSource

namespace Finds

variable {α : Type} {P : α → Prop}

theorem value {outcome : Except Fault α} {a : α} (same : outcome = .ok a) (found : Finds P outcome) :
    P a := by
  rw [same] at found
  exact found

theorem fault {outcome : Except Fault α} {fault : Fault} (same : outcome = .error fault)
    (found : Finds P outcome) : fault.OfSource := by
  rw [same] at found
  exact found

end Finds
end Whiteboard
