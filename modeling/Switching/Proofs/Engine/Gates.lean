import Switching.Expr.Gates
import Switching.Proofs.Engine.Value

/-!
# The value of a gate form

* `Gate.evalWith_build`: over one gate, a connective has the outcome that it had.
* **`Expr.evalWith_toGateForm`**: a gate form keeps the value of its expression.
-/

namespace Switching

variable {env : Environment} {enter : Enter} {scope : Scope}

/-- A connective over one gate has the outcome of the connective. The operands are evaluated more
than once, so they must not ask for anything. -/
theorem Gate.evalWith_build (g : Gate) (op : Operator) {a b : Expr} (s : Span)
    (ha : (a.evalWith env enter scope).Settled) (hb : (b.evalWith env enter scope).Settled) :
    (g.build op a b).evalWith env enter scope =
      (Expr.binary a op b s).evalWith env enter scope := by
  obtain ⟨x, hx⟩ := ha
  obtain ⟨y, hy⟩ := hb
  cases x with
  | error e =>
    cases g <;> cases op <;>
      simp only [build, invert, exclusive, apply, Expr.join, Expr.evalWith, hx] <;> rfl
  | ok x =>
    cases y with
    | error e =>
      cases g <;> cases op <;>
        simp only [build, invert, exclusive, apply, Expr.join, Expr.evalWith, hx, hy] <;> rfl
    | ok y =>
      cases g <;> cases op <;>
        simp only [build, invert, exclusive, apply, Expr.join, Expr.evalWith, hx, hy,
          EvalM.ofExcept, pure_bind, operator] <;> cases x <;> cases y <;> rfl

theorem Gate.evalWith_invert (g : Gate) {a : Expr} {x : Bool}
    (ha : a.evalWith env enter scope = pure x) :
    (g.invert a).evalWith env enter scope = pure (!x) := by
  cases g <;> cases x <;>
    simp only [invert, apply, Expr.join, Expr.evalWith, ha, pure_bind] <;> rfl

theorem Expr.toGateFormAll_eq (g : Gate) (args : List Expr) :
    toGateFormAll g args = args.map (toGateForm g) := by
  induction args with
  | nil => rfl
  | cons a args ih => rw [toGateFormAll, ih, List.map_cons]

/-- **A gate form keeps the value**, also of calls and built-in functions inside. -/
theorem Expr.evalWith_toGateForm (g : Gate) {e : Expr} {b : Bool}
    (h : e.evalWith env enter scope = pure b) :
    (e.toGateForm g).evalWith env enter scope = pure b := by
  induction h using evalWith_induction with
  | lit x s => rfl
  | var n r s x h => exact evalWith_var_eq_pure_iff.2 h
  | binary l op r s x y _ _ hl hr =>
    rw [toGateForm, Gate.evalWith_build g op s ⟨.ok x, hl⟩ ⟨.ok y, hr⟩]
    exact evalWith_binary_eq_pure_iff.2 ⟨x, hl, y, hr, rfl⟩
  | not a s x _ ih => rw [toGateForm, Gate.evalWith_invert g ih, Bool.not_not]
  | call n args s f bits x hf hlen hargs hbody ih =>
    rw [toGateForm, evalWith_call_eq_pure_iff, toGateFormAll_eq, List.length_map]
    refine ⟨f, hf, hlen, bits, List.forall₂_map_left_iff.2 ?_, hbody⟩
    exact forall₂_imp_of_mem ih hargs
  | transform f a s x hf _ ih => exact evalWith_builtin_eq_pure_iff.2 ⟨hf, _, rfl, ih⟩

end Switching
