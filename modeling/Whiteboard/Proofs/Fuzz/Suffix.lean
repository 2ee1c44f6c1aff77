import Whiteboard.Compile
import Whiteboard.Proofs.Expr.Content
import Whiteboard.Proofs.Fuzz.Row

namespace Whiteboard
namespace Latex

/-!
# Brackets after a juxtaposed application

Arguments in parentheses, parameters in brackets and the set of an image follow what they apply to,
which is put in parentheses if it binds more loosely than a postfix operator.  A juxtaposed
application does not, but it ends in its argument: set before such a bracket, it reads as the
application to the argument with the bracket.
-/

/-- What may follow a base in brackets. -/
inductive Suffix where
  | arguments (args : List Expr)
  | parameters (params : List Expr)
  | image (set : Expr)

namespace Suffix

/-- The base with what follows it. -/
def on (base : Expr) (loc : Location) : Suffix → Expr
  | arguments args => .application base args false loc
  | parameters params => .instantiation base params loc
  | image set => .image base set loc

def row : Suffix → List Mark
  | arguments args => .opening .round :: listRow args ++ [.closing .round]
  | parameters params => .opening .square :: listRow params ++ [.closing .square]
  | image set => .opening .image :: Latex.row false set ++ [.closing .image]

/-- Nothing is missing in the brackets. -/
def Whole : Suffix → Prop
  | arguments es | parameters es => ∀ e ∈ es, Complete e
  | image set => Complete set

theorem complete_on {base : Expr} (complete : Complete base) {s : Suffix} (whole : s.Whole)
    (loc : Location) : Complete (s.on base loc) := by
  cases s with
  | arguments => exact .application complete whole
  | parameters => exact .instantiation complete whole
  | image => exact .image complete whole

@[simp] theorem precedence_on (base : Expr) (loc : Location) (s : Suffix) :
    precedence (s.on base loc) = Precedence.atom := by
  cases s <;> rfl

theorem row_on (bare : Bool) (base : Expr) (loc : Location) (s : Suffix) : Latex.row bare (s.on base loc) =
      operandRow (precedence base < Precedence.postfixed) base ++ s.row := by
  cases s with
  | arguments args => exact row_application bare loc base args
  | parameters params => exact row_instantiation bare loc base params
  | image set => exact row_image bare loc base set

section
variable (bare : Bool) (f x : Expr) (s : Suffix) (loc loc' : Location)

theorem row_on_juxtaposed : Latex.row bare (s.on (.application f [x] true loc) loc') =
    operandRow (precedence f < Precedence.postfixed) f ++
      .juxtaposition :: (operandRow (precedence x < Precedence.atom) x ++ s.row) := by
  have applied : decide (precedence (.application f [x] true loc) < Precedence.postfixed) = false := rfl
  rw [row_on, applied, operandRow_false, row_juxtaposed, List.append_assoc, List.cons_append]

theorem row_juxtaposed_on : Latex.row bare (.application f [s.on x loc'] true loc) =
    operandRow (precedence f < Precedence.postfixed) f ++
      .juxtaposition :: (operandRow (precedence x < Precedence.postfixed) x ++ s.row) := by
  have suffixed : decide (precedence (s.on x loc') < Precedence.atom) = false := by
    rw [precedence_on]
    rfl
  rw [row_juxtaposed, suffixed, operandRow_false, row_on]

end

end Suffix

/-- Parentheses show. -/
theorem textOf_operandRow_inj {st : Style} {wrap wrap' : Bool} {e : Expr} :
    Mark.textOf st (operandRow wrap e) = Mark.textOf st (operandRow wrap' e) ↔ wrap = wrap' := by
  have longer : (Mark.textOf st (operandRow true e)).length = (Mark.textOf st (operandRow false e)).length + 2 := by
    have parentheses : "(".length + ")".length = 2 := rfl
    simp only [operandRow, wrapMarks, if_true, Bool.false_eq_true, if_false, List.cons_append, Mark.textOf_cons,
      Mark.textOf_append, Mark.textOf_nil, Mark.text, Bracket.openingText, Bracket.closingText, String.length_append,
      String.append_empty]
    omega
  refine ⟨fun same => ?_, fun same => by rw [same]⟩
  have same := congrArg String.length same
  cases wrap <;> cases wrap' <;> first | rfl | omega

/-- Where brackets follow a juxtaposed application, its grouping is lost if the argument is an atom or stands in
parentheses anyway: the formula is that of the application to the argument with the brackets, which says something
else.  The formulas differ just if the argument binds like a postfix operator, since a function puts it in
parentheses and a bracket does not. -/
theorem brackets_captured_by_argument {f x : Expr} {s : Suffix} (function : Complete f)
    (argument : Complete x) (whole : s.Whole) (loc loc' loc'' : Location) :
    ((s.on (.application f [x] true loc) loc').render .fuzz = (Expr.application f [s.on x loc''] true loc).render .fuzz ↔
        (Precedence.postfixed ≤ precedence x → Precedence.atom ≤ precedence x)) ∧
      (s.on (.application f [x] true loc) loc').content ≠ (Expr.application f [s.on x loc''] true loc).content := by
  have applied : Complete (.application f [x] true loc) := .application function (by simpa using argument)
  have suffixed : Complete (s.on x loc'') := Suffix.complete_on argument whole loc''
  constructor
  · rw [(Suffix.complete_on applied whole loc').render_fuzz, Complete.render_fuzz
      (.application function (by simpa using suffixed)), Suffix.row_on_juxtaposed, Suffix.row_juxtaposed_on]
    simp only [Except.ok.injEq, Mark.textOf_append, Mark.textOf_cons, String.append_right_inj, String.append_left_inj,
      textOf_operandRow_inj, decide_eq_decide]
    grind [Precedence.atom, Precedence.postfixed]
  · cases s <;> simp [Suffix.on, Expr.content]

/-- A variable on its own. -/
def variableNamed (name : String) : Expr := .literal .identifier name {}

theorem argument_of_value_captured : ((Suffix.arguments [variableNamed "y"]).on
        (.application (variableNamed "f") [variableNamed "x"] true {}) {}).render .fuzz =
        (Expr.application (variableNamed "f")
          [(Suffix.arguments [variableNamed "y"]).on (variableNamed "x") {}] true {}).render .fuzz ∧
      ((Suffix.arguments [variableNamed "y"]).on
        (.application (variableNamed "f") [variableNamed "x"] true {}) {}).content ≠
        (Expr.application (variableNamed "f")
          [(Suffix.arguments [variableNamed "y"]).on (variableNamed "x") {}] true {}).content := by
  have whole : (Suffix.arguments [variableNamed "y"]).Whole := by
    intro e member
    rw [List.mem_singleton.mp member]
    exact .literal
  obtain ⟨alike, different⟩ := brackets_captured_by_argument (f := variableNamed "f") (x := variableNamed "x")
    .literal .literal whole {} {} {}
  exact ⟨alike.mpr fun _ => Int.le_refl _, different⟩

/-! ## Sources -/

/-- The form of an expression at its root, and whether it is a juxtaposed application. -/
def rootForm : Expr → String × Bool
  | .application _ _ juxtaposed _ => ("application", juxtaposed)
  | e => (e.kindName, false)

theorem rootForm_content (e : Expr) : rootForm e.content = rootForm e := by
  cases e <;> rfl

/-- Two sources whose expressions differ at the root have the same formula. -/
def collide (source source' : String) : Bool :=
  match ({} : Options).expression source, ({} : Options).expression source' with
  | .ok e, .ok e' =>
    match e.render .fuzz, e'.render .fuzz with
    | .ok text, .ok text' => text == text' && rootForm e != rootForm e'
    | _, _ => false
  | _, _ => false

/-- Two sources hold expressions of different content that have the same formula. -/
def SetAlike (source source' : String) : Prop :=
  ∃ e e' text, ({} : Options).expression source = .ok e ∧
    ({} : Options).expression source' = .ok e' ∧ e.render .fuzz = .ok text ∧
    e'.render .fuzz = .ok text ∧ e.content ≠ e'.content

theorem setAlike_of_collide {source source' : String} (found : collide source source' = true) :
    SetAlike source source' := by
  unfold collide at found
  split at found
  next e e' read read' =>
    split at found
    next text text' set set' =>
      rcases Bool.and_eq_true_iff.mp found with ⟨same, differ⟩
      refine ⟨e, e', text, read, read', set, ?_, ?_⟩
      · rw [set', eq_of_beq same]
      · grind [rootForm_content]
    next => cases found
  next => cases found

/-- The formulas of `(f x)(y)` and `f x(y)` are the same, and so are those of `(f x)[N]` and
`f x[N]` and of `(2).5` and `2.5`. -/
theorem different_groupings_set_alike :
    SetAlike "(f x)(y)" "f x(y)" ∧ SetAlike "(f x)[N]" "f x[N]" ∧ SetAlike "(2).5" "2.5" := by
  refine ⟨setAlike_of_collide ?_, setAlike_of_collide ?_, setAlike_of_collide ?_⟩
  all_goals decide +kernel

end Latex
end Whiteboard
