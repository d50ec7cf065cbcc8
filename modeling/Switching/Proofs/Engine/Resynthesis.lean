import Switching.Input.Basic
import Switching.Proofs.Engine.Display
import Switching.Proofs.Engine.Gates
import Switching.Proofs.Engine.Tables

/-!
# Displaying without inlining keeps the value

Evaluation passes a transforming function by, while displaying rewrites its operand: as gates, or as
the minimal form of a table that is sampled in a scope of its own.

* `Expr.KeepsCalls`: what the calls of a function are displayed as has their bits.
* `Expr.evalWith_displayWith_of_calls`: then what is displayed has the value of the expression.
* **`Expr.eval_display_keeping_calls`**: the same for whole runs, whoever replies.
-/

namespace Switching.Expr

variable {env : Environment} {config : Config} {b : Bool}

/-! ## One level of bodies -/

/-- What the calls of a function are displayed as has their bits, where the function returns: they
are left and enter the function as before, or its displayed body replaces them. -/
inductive KeepsCalls (env : Environment) (inline : Inline) (enter enter' : Enter) (scope : Scope)
    (f : Function) : Prop where
  | left (hinline : inline f.name f.params.length = none)
    (henter : ∀ bits s x, enter f bits s = pure x → enter' f bits s = pure x)
  | replaced {body : EvalM Expr} (hinline : inline f.name f.params.length = some (f.params, body))
    (hbody : ∀ args bits s x body', f.params.length = args.length →
      List.Forall₂ (fun a y => a.evalWith env enter' scope = pure y) args bits →
        enter f bits s = pure x → body = pure body' →
          (body'.substitute (f.params.zip args)).evalWith env enter' scope = pure x)

/-- One level of bodies: if what calls are displayed as has their bits, the displayed expression has
the bit of the expression. -/
theorem evalWith_displayWith_of_calls {inline : Inline} {d : Nat} (hd : d ≤ config.maxCallDepth)
    {enter' : Enter} {scope : Scope} {e e' : Expr}
    (hvalue : e.evalWith env (enterBody env config.maxCallDepth d) scope = pure b)
    (hdisplay : e.displayWith env config inline = pure e')
    (hcall : ∀ f, e.Calls env f →
      KeepsCalls env inline (enterBody env config.maxCallDepth d) enter' scope f) :
    e'.evalWith env enter' scope = pure b := by
  induction hvalue using evalWith_induction generalizing e' with
  | lit x s =>
    obtain rfl := EvalM.pure_inj.1 hdisplay
    rfl
  | var n r s x h =>
    obtain rfl := EvalM.pure_inj.1 hdisplay
    exact evalWith_var_eq_pure_iff.2 h
  | binary l op r s x y _ _ ihl ihr =>
    obtain ⟨l', hl, r', hr, rfl⟩ := displayWith_binary_eq_pure_iff.1 hdisplay
    have hl' := ihl hl fun f hf => hcall f (hf.mono callees_subset_left)
    have hr' := ihr hr fun f hf => hcall f (hf.mono callees_subset_right)
    exact evalWith_binary_eq_pure_iff.2 ⟨x, hl', y, hr', rfl⟩
  | not a s x _ ih =>
    obtain ⟨a', ha, rfl⟩ := displayWith_not_eq_pure_iff.1 hdisplay
    exact evalWith_not_eq_pure_iff.2 (ih ha hcall)
  | call n args s f bits x hf hlen hargs hbody ih =>
    have hvalues : ∀ {args'}, List.Forall₂ (fun a a' => a.displayWith env config inline = pure a')
        args args' → List.Forall₂ (fun a' y => a'.evalWith env enter' scope = pure y) args' bits :=
      fun hargs' => forall₂_of_forall₂_of_mem (fun a ha a' y ha' hy => ih a ha y hy ha'
        fun g hg => hcall g (hg.mono (callees_subset_call ha))) hargs' hargs
    cases hcall f ⟨n, List.mem_cons_self, hf⟩ with
    | left hinline henter =>
      rw [Environment.name_of_function? hf, hlen] at hinline
      obtain ⟨args', hargs', rfl⟩ := displayWith_call_of_none hinline hdisplay
      have hlen' := hlen.trans hargs'.length_eq
      exact evalWith_call_eq_pure_iff.2
        ⟨f, hf, hlen', bits, hvalues hargs', henter bits s x hbody⟩
    | replaced hinline hreplaces =>
      rw [Environment.name_of_function? hf, hlen] at hinline
      obtain ⟨args', hargs', body', hbody', rfl⟩ := displayWith_call_of_some hinline hdisplay
      have hlen' := hlen.trans hargs'.length_eq
      exact hreplaces args' bits s x body' hlen' (hvalues hargs') hbody hbody'
  | transform f a s x hf ha ih =>
    rcases displayWith_transforms hf hdisplay with ⟨-, g, a', ha', rfl⟩ | ⟨-, form, t, ht, rfl⟩
    · exact evalWith_toGateForm g (ih ha' fun g hg =>
        hcall g (hg.mono (callees_subset_builtin (List.mem_singleton_self a))))
    · exact evalWith_minimize_of_value ht hd ha form a.span

/-! ## Runs -/

theorem evalWith_displayWith {e e' : Expr}
    (h : e.eval env config.maxCallDepth .empty = pure b)
    (hdisplay : e.displayWith env config (fun _ _ => none) = pure e') :
    e'.eval env config.maxCallDepth .empty = pure b :=
  evalWith_displayWith_of_calls (Nat.le_refl _) h hdisplay fun _ _ =>
    .left rfl fun _ _ _ h => h

/-- **Displaying without inlining keeps the value**: where there is no `INPUT`, an expression
outside every function and what it displays as have the same bit. -/
theorem eval_display_keeping_calls {σ : Type} [Replier σ] {e e' : Expr}
    (hinline : config.inlineCalls = false) (hinput : InputFree env e) {s s' : σ}
    (h : ((e.eval env config.maxCallDepth .empty).run.run s).1 = .ok b)
    (hdisplay : ((e.display env config).run.run s').1 = .ok e') (s'' : σ) :
    ((e'.eval env config.maxCallDepth .empty).run.run s'').1 = .ok b := by
  have hvalue := (settled_eval hinput).eq_pure h
  have hshown := (settled_display hinput).eq_pure hdisplay
  rw [display, hinline] at hshown
  rw [evalWith_displayWith hvalue hshown, EvalM.run_pure]

/-- `TO_NAND(SOLVE_SOP(F(not A)))`. -/
def nestedTransforms : Expr :=
  .builtin .toNand
    [.builtin .solveSop [.call "F" [.not (.var "A" false .none) .none] .none] .none] .none

/-- The variable `A = 1` and the function `F(X) = X`. -/
def identityDeclared : Environment :=
  ⟨[("A", true)], [⟨"F", ["X"], .var "X" false .none, .none⟩]⟩

/-- `TO_NAND(SOLVE_SOP(F(not A)))` is displayed as `A nand A` and has its value. -/
theorem eval_display_keeping_calls_nested :
    let s : Silent := ⟨.unavailable⟩
    let shown : Expr := .binary (.var "A" false .none) .nand (.var "A" false .none) .none
    InputFree identityDeclared nestedTransforms ∧
      ((nestedTransforms.eval identityDeclared 256 .empty).run.run s).1 = .ok false ∧
      ((nestedTransforms.display identityDeclared {}).run.run s).1 = .ok shown ∧
      ((shown.eval identityDeclared 256 .empty).run.run s).1 = .ok false := by
  intro s shown
  have hfree : InputFree identityDeclared nestedTransforms :=
    throughout_of_functions rfl fun f hf => List.mem_singleton.1 hf ▸ rfl
  have hvalue : ((nestedTransforms.eval identityDeclared 256 .empty).run.run s).1 = .ok false := rfl
  have hshown : ((nestedTransforms.display identityDeclared {}).run.run s).1 = .ok shown := by
    cbv
  exact ⟨hfree, hvalue, hshown, eval_display_keeping_calls rfl hfree hvalue hshown s⟩

end Switching.Expr
