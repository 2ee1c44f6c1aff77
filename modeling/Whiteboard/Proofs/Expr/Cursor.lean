import Whiteboard.Expr.Grammar
import Whiteboard.Proofs.Diagnostic.Outcome

namespace Whiteboard

open List
namespace Parse

/-!
# Moving through a list of tokens

What the cursor hands back is always an end piece of what it was given, and it is a shorter one
whenever a token of the source was stepped over.  Both facts need that the token which stands for
the end of input is told from the tokens of a source by its kind.
-/

namespace Env
variable {toks : List Token}

/-- The token that stands for the end of input is no token of a source. -/
def Ends (env : Env) : Prop := env.final.kind = .endOfInput

variable {env : Env}

theorem Ends.inside (ends : env.Ends) : env.inside.Ends := ends

theorem Ends.withProduct (ends : env.Ends) (product : Bool) : (env.withProduct product).Ends := ends

theorem ends_envOf (file : String) (toks : List Token) : (envOf file toks).Ends := by
  unfold Ends envOf finalToken
  dsimp only
  split
  next t found =>
    exact eq_of_beq (List.find?_some found :)
  next => split <;> rfl

theorem view_suffix (env : Env) (toks : List Token) : env.view toks <:+ toks := by
  unfold view
  split
  · exact dropWhile_suffix _
  · exact suffix_refl toks

theorem rest_suffix (env : Env) (toks : List Token) : env.rest toks <:+ toks :=
  (tail_suffix _).trans (env.view_suffix toks)

theorem view_ne_nil (ends : env.Ends) (inSource : (env.peek toks).kind ≠ .endOfInput) : env.view toks ≠ [] := by
  intro empty
  apply inSource
  rw [peek, empty]
  exact ends

theorem rest_length_lt (ends : env.Ends)
    (inSource : (env.peek toks).kind ≠ .endOfInput) : (env.rest toks).length < toks.length := by
  have nonempty := view_ne_nil ends inSource
  have shorter := (env.view_suffix toks).length_le
  have positive : 0 < (env.view toks).length := length_pos_iff.mpr nonempty
  rw [rest, length_tail]
  omega

theorem peek_mem (env : Env) (toks : List Token) : env.peek toks ∈ toks ∨ env.peek toks = env.final := by
  unfold peek
  cases seen : env.view toks with
  | nil => exact Or.inr rfl
  | cons t after =>
    apply Or.inl
    apply (env.view_suffix toks).subset
    rw [seen]
    exact mem_cons_self

theorem continuation_suffix (env : Env) (toks : List Token) : (env.continuation toks).2 <:+ toks := by
  unfold continuation
  split
  · split
    · next t after remaining =>
        have whole := env.rest_suffix toks
        rw [remaining] at whole
        split
        · exact (suffix_cons t after).trans whole
        · exact whole
    · exact nil_suffix
  · exact suffix_refl toks

end Env

/-- A token with a role in the grammar is a token of the source. -/
theorem kind_ne_of_is {t : Token} {kind : Token.Kind} {value : String} (is : t.is kind value = true)
    (other : kind ≠ .endOfInput) : t.kind ≠ .endOfInput := by
  unfold Token.is at is
  have same : t.kind = kind := by simpa using (Bool.and_eq_true_iff.mp is).1
  rw [same]
  exact other

theorem moreNames_suffix (nested : Bool) (toks : List Token) : (moreNames nested toks).2 <:+ toks := by
  fun_induction moreNames nested toks with
  | case1 t u rest newline ih => exact ih.trans (suffix_cons t (u :: rest))
  | case2 t u rest _ named names after found ih => grind [suffix_cons]
  | case3 t u rest _ _ => exact suffix_refl _
  | case4 toks _ => exact suffix_refl _

theorem suffix_of_moreNames {nested : Bool} {after : List Token} {names : List String}
    (found : moreNames nested toks = (names, after)) : after <:+ toks := by
  have whole := moreNames_suffix nested toks
  rw [found] at whole
  exact whole

end Parse
end Whiteboard
