import Switching.Proofs.Engine.CallGraph
import Switching.Proofs.Engine.Execution
import Switching.Proofs.Engine.Stability

/-!
# Values last

A declaration never changes what a name stands for, and the settings of an engine stay. So an
expression keeps the value that it has once had.

* `Environment.Grows.extends`: declarations extend an environment.
* `Engine.Reaches.extends`, `Engine.Reaches.config_eq`: statements and programs do so to the
  environment of an engine, and leave its settings.
* **`Engine.values_last`**: what is evaluated to a bit stays the same when more is declared; along runs,
  an expression that asks for nothing has its bit ever after.
-/

namespace Switching

theorem Environment.Grows.extends {env env' : Environment} (h : env.Grows env') :
    env.Extends env' :=
  ⟨fun _ _ => h.bit?_eq_some, fun _ _ => h.function?_eq_some⟩

namespace Engine

variable {σ : Type} [Replier σ] {g g' : Engine}

/-! ## Settings -/

theorem config_apply (g : Engine) (effect : Effect) : (g.apply effect).config = g.config := by
  cases effect <;> rfl

theorem config_execute (g : Engine) (s : Statement) (r : σ) :
    ((g.execute s).run r).1.2.config = g.config := by
  rw [run_execute]
  rcases (s.effect g.environment g.config).run.run r with ⟨e | effect, r'⟩
  · rfl
  · exact config_apply g effect

theorem Reaches.config_eq (h : g.Reaches g') : g.config = g'.config :=
  h.rel (R := fun g g' => g.config = g'.config) (fun _ => rfl) .trans fun g s r =>
    (config_execute g s r).symm

theorem Reaches.extends (h : g.Reaches g') : g.environment.Extends g'.environment :=
  h.grows.extends

/-! ## Values -/

/-- **Values last.** If an expression has a value in an environment, it has the same one after the same
prompts in every environment with these declarations and more, in every scope and with the same room for
calls. And if nothing is asked for it, what it has outside every function on an engine it has there after
any further statements and programs, failed or not, whoever replies. -/
theorem values_last (e : Expr) :
    (∀ (env env' : Environment), env.Extends env' → ∀ (limit d : Nat) (scope : Scope) (r : σ) (b : Bool),
      let o := (e.evalWith env (enterBody env limit d) scope).run.run (Recorded.mk r [])
      o.1 = .ok b →
        (e.evalWith env' (enterBody env' limit d) scope).run.run (Recorded.mk r []) = o) ∧
    ∀ (g g' : Engine), g.Reaches g' → Expr.InputFree g.environment e → ∀ (r : σ) (b : Bool),
      ((e.eval g.environment g.config.maxCallDepth .empty).run.run r).1 = .ok b →
        ∀ {τ : Type} [Replier τ] (t : τ),
          (e.eval g'.environment g'.config.maxCallDepth .empty).run.run t = (.ok b, t) := by
  constructor
  · intro env env' henv limit d scope r b o hb
    obtain ⟨err, -, herr⟩ | hsame :=
      (henv.sameUnless_evalWith limit d scope e).run_eq (Recorded.mk r [])
    · nomatch hb.symm.trans herr
    · exact hsame
  · intro g g' hreaches hinput r b hb τ _ t
    have hvalue : e.eval g.environment g.config.maxCallDepth .empty = pure b :=
      (Expr.settled_eval hinput).eq_pure hb
    have hvalue' : e.eval g'.environment g'.config.maxCallDepth .empty = pure b := by
      rw [← hreaches.config_eq]
      exact (hreaches.extends.sameUnless_evalWith _ _ .empty e).eq_pure hvalue
    rw [hvalue', EvalM.run_pure]

/-- `A = 1; F(X) = X xor A*;`. -/
def earlierProgram : Program :=
  [.variable "A" (.lit true .none) .none,
    .function ⟨"F", ["X"], .binary (.var "X" false .none) .xor (.var "A" true .none) .none, .none⟩]

/-- `X = 0; A = 0; F = 0;`, of which the last two statements fail on their own. -/
def laterStatements : Program :=
  [.variable "X" (.lit false .none) .none, .variable "A" (.lit false .none) .none,
    .variable "F" (.lit false .none) .none]

/-- `F(INPUT("p"))` has the same value after the same prompt where `X = 0` is declared, too, and `F(A)`
is 0 also after the later statements, which fail at the declaration of `A`. -/
theorem values_last_shadowed :
    let s : Silent := ⟨.unavailable⟩
    let g := (((fresh {}).run earlierProgram).run s).1.2
    let g' := ((g.run laterStatements).run s).1.2
    let asking : Expr := .call "F" [.builtin .input [.str "p" .none] .none] .none
    let e : Expr := .call "F" [.var "A" false .none] .none
    let r := Script.mk [some false]
    g.Reaches g' ∧ g'.environment.bit? "X" = some false ∧ Expr.InputFree g.environment e ∧
      (asking.eval g'.environment 256 .empty).run.run (Recorded.mk r []) =
        (.ok true, Recorded.mk (Script.mk []) ["p"]) ∧
      (e.eval g'.environment g'.config.maxCallDepth .empty).run.run s = (.ok false, s) := by
  intro s g g' asking e r
  have hreaches : g.Reaches g' := .single (.run g laterStatements s)
  have hinput : Expr.InputFree g.environment e :=
    Expr.throughout_of_functions rfl fun f hf => List.mem_singleton.1 hf ▸ rfl
  have hasked := (values_last asking).1 g.environment g'.environment hreaches.extends 256 256 .empty r
    true rfl
  have hvalue : ((e.eval g.environment g.config.maxCallDepth .empty).run.run s).1 = .ok false := rfl
  exact ⟨hreaches, rfl, hinput, hasked, (values_last e).2 g g' hreaches hinput s false hvalue s⟩

end Engine

end Switching
