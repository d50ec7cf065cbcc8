import Switching.Proofs.Engine.Stability
import Switching.Proofs.Machine.Refinement

/-!
# The limit of open calls

* `Expr.sameUnless_eval_of_le`: with a higher limit, what does not meet the lower one stays the same.
* `Machine.evalWatched`: evaluation that does something in the open call before every body.
* `Machine.keeps_evalWatched`: nothing is done differently if that does nothing where there are as many
  open calls as the limit allows, or fewer.
* **`Expr.eval_limit`**: the limit only cuts off, and no body is entered with more open calls.
-/

namespace Switching

theorem Expr.sameUnless_eval_of_le (env : Environment) (scope : Scope) (e : Expr)
    {limit limit' : Nat} (h : limit ≤ limit') :
    (e.eval env limit scope).SameUnless (·.ExceedsLimit limit) (e.eval env limit' scope) :=
  sameUnless_evalWith (fun _ _ _ => .refl _) (fun _ _ _ => .refl _)
    (fun f bits s => sameUnless_enterBody_of_le h f bits s) e

namespace Machine

/-- Evaluates an expression as `eval` does, and does something else in the open call before the body of
every function that is entered. -/
def evalWatched (watch : Function → MachineM Unit) (scope : Scope) (e : Expr) : MachineM Bool := do
  evalWith (enterWatched watch (← get).config.maxCallDepth) scope e

/-- What does nothing while at least one call is open, and no more than the limit allows, changes
nothing in an evaluation. -/
theorem keeps_evalWatched {g : Machine} (hg : g.depth = 0) {watch : Function → MachineM Unit}
    (hwatch : ∀ f k, 0 < k → k ≤ g.config.maxCallDepth →
      (watch f).Keeps { g with depth := k } (pure ())) (scope : Scope) (e : Expr) :
    (evalWatched watch scope e).Keeps g (e.eval g.environment g.config.maxCallDepth scope) := by
  have henter := keeps_enterWatched (Nat.le_add_right g.config.maxCallDepth g.depth) (by rwa [hg])
  rw [hg, Nat.sub_zero] at henter
  exact MachineM.keeps_get (keeps_evalWith henter scope e)

end Machine

namespace Expr

/-- **The limit only cuts off.** If an evaluation does not end at the limit, it ends in the same way
after the same prompts with every higher limit; and if it does, its prompts are the first ones of that
evaluation. No body is entered with more open calls than the limit allows: on a machine with no open
calls, whatever is done before every body changes nothing, if only it does nothing up to that many. -/
theorem eval_limit {σ : Type} [Replier σ] (env : Environment) (scope : Scope) (e : Expr)
    {limit limit' : Nat} (h : limit ≤ limit') (r : σ) :
    let o := (e.eval env limit scope).run.run (Recorded.mk r [])
    let o' := (e.eval env limit' scope).run.run (Recorded.mk r [])
    ((∀ n l s, o.1 ≠ .error (.recursionLimit n l s)) → o' = o) ∧ o.2.prompts <+: o'.2.prompts ∧
      ∀ (g : Machine) (watch : Function → MachineM Unit), g.environment = env →
        g.config.maxCallDepth = limit → g.depth = 0 →
        (∀ f k, 0 < k → k ≤ limit → (watch f).Keeps { g with depth := k } (pure ())) →
        (Machine.evalWatched watch scope e).run.run g = (Machine.eval scope e).run.run g ∧
          (Machine.eval scope e).Keeps g (e.eval env limit scope) := by
  intro o o'
  have hsame := sameUnless_eval_of_le env scope e h
  refine ⟨fun hlimit => ?_, hsame.prompts_prefix (Recorded.mk r []), ?_⟩
  · obtain ⟨err, hexceeds, herr⟩ | heq := hsame.run_eq (Recorded.mk r [])
    · obtain ⟨n, s, rfl⟩ := hexceeds
      exact absurd herr (hlimit n limit s)
    · exact heq
  · rintro g watch rfl rfl hg hwatch
    have hwatched := Machine.keeps_evalWatched hg hwatch scope e
    have heval := Machine.keeps_eval hg scope e
    exact ⟨hwatched.trans heval.symm, heval⟩

/-- The functions `F(X) = G(X) xor G(not X)` and `G(X) = X or INPUT("q")`. -/
def siblingCalls : Environment :=
  let x := Expr.var "X" false .none
  ⟨[], [⟨"F", ["X"], .binary (.call "G" [x] .none) .xor (.call "G" [.not x .none] .none) .none, .none⟩,
    ⟨"G", ["X"], .binary x .or (.builtin .input [.str "q" .none] .none) .none, .none⟩]⟩

/-- For `F(INPUT("p"))` two calls are open at once, twice in a row. It has the same value with the limits
2 and 5, and a watch that fails with more than two open calls changes nothing. -/
theorem eval_limit_siblings :
    let e : Expr := .call "F" [.builtin .input [.str "p" .none] .none] .none
    let r := Script.mk [some true, some false, some true]
    let o := (e.eval siblingCalls 2 .empty).run.run (Recorded.mk r [])
    let o' := (e.eval siblingCalls 5 .empty).run.run (Recorded.mk r [])
    let g : Machine := ⟨⟨{ maxCallDepth := 2 }, siblingCalls, []⟩, 0⟩
    let watch : Function → MachineM Unit := fun f => do
      if 2 < (← get).depth then throw (.errorNode f.name .none)
    o.1 = .ok false ∧ o'.1 = .ok false ∧ o'.2.prompts = ["p", "q", "q"] ∧
      (Machine.evalWatched watch .empty e).run.run g = (Machine.eval .empty e).run.run g := by
  intro e r o o' g watch
  obtain ⟨hsame, -, hwatched⟩ := eval_limit siblingCalls .empty e (show 2 ≤ 5 by decide) r
  have ho : o = (.ok false, Recorded.mk (Script.mk []) ["p", "q", "q"]) := rfl
  have ho' : o' = o := hsame fun n l s h => nomatch (congrArg Prod.fst ho).symm.trans h
  refine ⟨by rw [ho], by rw [ho', ho], by rw [ho', ho],
    (hwatched g watch rfl rfl rfl fun f k _ hk => ?_).1⟩
  refine MachineM.keeps_get ?_
  rw [if_neg (Nat.not_lt.2 hk)]
  exact MachineM.keeps_pure ()

end Expr

end Switching
