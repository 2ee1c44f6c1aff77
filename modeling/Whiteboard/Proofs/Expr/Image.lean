import Whiteboard.Proofs.Expr.Adequacy

namespace Whiteboard
namespace Parse

/-!
# What is read is there

A part of a tree that is missing is a gap.  Only the clauses of a quantifier or a comprehension and the domains of
variables may be missing: no other expression that the grammar yields is a gap.
-/

/-- What the goal starts from is no gap. -/
def Goal.Based : Goal → Prop
  | .climb _ left _ => left.isHole = false
  | .appliedGroup _ base | .suffixes _ base => base.isHole = false
  | _ => True

def Value.Present : Value → Prop
  | .expr e => e.isHole = false
  | .list es => ∀ e ∈ es, e.isHole = false
  | .groups _ => True

/-- What is found is no gap, unless it is a clause. -/
def Goal.Finds (v : Value) : Goal → Prop
  | .clause _ .expr => True
  | _ => v.Present

theorem isHole_joined (env : Env) (t : Token) (name : String) (left : Expr) (last : Option Expr) (right : Expr)
    (breakAfter : Bool) : (env.joined t name left last right breakAfter).1.isHole = false := by
  unfold Env.joined
  split
  · rfl
  · split
    · cases last <;> rfl
    · rfl

theorem isHole_nameExpr (name : String) (loc : Location) : (nameExpr name loc).isHole = false := by
  unfold nameExpr
  split <;> rfl

theorem isHole_superscript (base sup : Expr) : (superscript base sup).isHole = false := by
  unfold superscript
  split <;> rfl

theorem isHole_tupleOf {es : List Expr} (each : ∀ e ∈ es, e.isHole = false) (loc : Location) :
    (tupleOf loc es).isHole = false := by
  unfold tupleOf
  split
  · exact each _ List.mem_cons_self
  · rfl

theorem isHole_quantifierOf (q : Token) (spotted : Bool) (gs : List (Binding Expr)) (such body : Expr)
    (loc : Location) : (quantifierOf q spotted gs such body loc).isHole = false := by
  unfold quantifierOf
  split <;> rfl

/-- No expression that is read is a gap. -/
theorem Reads.finds {env goal toks v rest} (reads : Reads env goal toks v rest) (based : goal.Based) :
    goal.Finds v := by
  induction reads with
  | binary _ _ operand climb => exact climb (operand trivial)
  | stop | groupAlone | bare => exact based
  | climb _ _ _ _ _ ih => exact ih (isHole_joined ..)
  | prefixed | groupCall | groupArgument | number | collected | choice | comprehension => rfl
  | word _ _ ih | field _ _ ih | closure _ _ ih => exact ih rfl
  | group _ _ _ _ primary applied ih => exact ih (applied (primary trivial))
  | atom _ _ _ primary ih => exact ih (primary trivial)
  | call _ _ _ _ ih | parameters _ _ _ _ ih | image _ _ _ _ _ ih | argument _ _ _ _ ih => exact ih rfl
  | super _ _ _ _ ih => exact ih (isHole_superscript ..)
  | listedNone => exact List.forall_mem_nil _
  | listed _ _ _ ih | comprehended _ _ ih | bound _ _ ih => exact ih trivial
  | element _ _ first others => exact List.forall_mem_cons.mpr ⟨first trivial, others trivial⟩
  | name => exact isHole_nameExpr ..
  | grouped _ _ _ ih => exact isHole_tupleOf (ih trivial) _
  | quantified => exact isHole_quantifierOf ..
  | groups => trivial
  | @absent _ part => cases part <;> simp [Goal.Finds, Value.Present, Part.missing]
  | @present _ part _ _ _ _ ih =>
    cases part with
    | expr => trivial
    | elements | groups => exact ih trivial

/-- Whatever is read as an expression has a derivation, behind which there are line ends only. -/
theorem reads_of_ofTokens {file : String} {toks : List Token} {e : Expr} (read : Expr.ofTokens file toks = .ok e) :
    ∃ rest, Reads (envOf file toks) (.binary 1) (skipNewlines (body toks)) (.expr e) rest ∧ skipNewlines rest = [] := by
  unfold Expr.ofTokens at read
  obtain ⟨⟨e', rest⟩, first, next⟩ := bind_eq_ok.mp read
  dsimp only at next
  split at next
  next ended =>
    cases next
    exact ⟨rest, (expr_eq_ok_iff (Env.ends_envOf file toks)).mp first, ended⟩
  next => cases next

end Parse
end Whiteboard
