import Switching.Engine.Basic
import Switching.Input.Basic
import Switching.Proofs.Engine.Environment
import Switching.Proofs.Engine.Outcome

/-!
# Environments along runs

* `Statement.declares_of_effect`: what a statement makes of the environment.
* `Engine.run_execute`: a statement, for one replier; `Engine.exists_effect_of_execute` and
  `Engine.effect_of_execute_error` read its two outcomes.
* `Engine.Step`: one statement or one program on an engine, whoever replies.
* `Engine.Reaches.rel`: what every statement keeps, any number of programs keep.
* `Engine.grows_execute`, `Engine.Reaches.grows`: they only declare.
* **`Engine.declarations_kept`**: in an engine that was fresh once, names are declared once, and every
  declaration is there ever after.
-/

namespace Switching

variable {σ : Type} [Replier σ]

/-! ## Statements -/

theorem FunctionTable.name_of_compile {t : FunctionTable} {f : Function}
    (h : t.compile = .ok f) : f.name = t.name := by
  rw [compile] at h
  split at h
  · nomatch h
  · rw [← Except.ok.inj h]

theorem Statement.declares_of_effect {env env' : Environment} {config : Config} {s : Statement}
    {r : σ} (h : ((s.effect env config).run.run r).1 = .ok (.declare env')) :
    ∃ n, s.declaredName? = some n ∧ env.Declares n env' := by
  cases s with
  | «variable» n e s =>
    simp only [effect, EvalM.run_bind_eq_ok_iff, EvalM.run_ofExcept, EvalM.run_pure,
      Except.ok.injEq, Effect.declare.injEq] at h
    obtain ⟨-, -, b, -, env', hdeclare, rfl⟩ := h
    exact ⟨n, rfl, Environment.declares_of_declareVariable hdeclare⟩
  | function f =>
    simp only [effect, EvalM.run_bind_eq_ok_iff, EvalM.run_ofExcept, EvalM.run_pure,
      Except.ok.injEq, Effect.declare.injEq] at h
    obtain ⟨env', hdeclare, rfl⟩ := h
    exact ⟨f.name, rfl, Environment.declares_of_declareFunction hdeclare⟩
  | table t =>
    simp only [effect, EvalM.run_bind_eq_ok_iff, EvalM.run_ofExcept, EvalM.run_pure,
      Except.ok.injEq, Effect.declare.injEq] at h
    obtain ⟨-, -, f, hcompile, env', hdeclare, rfl⟩ := h
    have hname := FunctionTable.name_of_compile hcompile
    exact ⟨f.name, congrArg some hname.symm, Environment.declares_of_declareFunction hdeclare⟩
  | builtin f args s =>
    simp only [effect, EvalM.run_bind_eq_ok_iff, EvalM.run_pure, Except.ok.injEq, reduceCtorEq,
      and_false, exists_false] at h
  | error m s => nomatch h

namespace Engine

theorem run_execute (g : Engine) (s : Statement) (r : σ) :
    (g.execute s).run r =
      match (s.effect g.environment g.config).run.run r with
      | (.ok effect, r') => ((.ok (), g.apply effect), r')
      | (.error e, r') => ((.error e, g), r') := by
  rw [execute, Dialogue.run_bind]
  rcases (s.effect g.environment g.config).run.run r with ⟨_ | _, r'⟩ <;> rfl

theorem exists_effect_of_execute {g g' : Engine} {s : Statement} {r r' : σ}
    (h : (g.execute s).run r = ((.ok (), g'), r')) :
    ∃ effect, (s.effect g.environment g.config).run.run r = (.ok effect, r') ∧
      g' = g.apply effect := by
  rw [run_execute] at h
  rcases heffect : (s.effect g.environment g.config).run.run r with ⟨e | effect, r₁⟩ <;>
    rw [heffect] at h <;> cases h
  exact ⟨effect, rfl, rfl⟩

theorem effect_of_execute_error {g g' : Engine} {s : Statement} {r r' : σ} {e : RuntimeError}
    (h : (g.execute s).run r = ((.error e, g'), r')) :
    (s.effect g.environment g.config).run.run r = (.error e, r') ∧ g' = g := by
  rw [run_execute] at h
  rcases heffect : (s.effect g.environment g.config).run.run r with ⟨e | effect, r₁⟩ <;>
    rw [heffect] at h <;> cases h
  exact ⟨rfl, rfl⟩

theorem grows_execute (g : Engine) (s : Statement) (r : σ) :
    g.environment.Grows ((g.execute s).run r).1.2.environment := by
  rw [run_execute]
  rcases h : (s.effect g.environment g.config).run.run r with ⟨e | effect, r'⟩
  · exact .refl
  · cases effect with
    | emit unit => exact .refl
    | declare env' =>
      obtain ⟨n, -, hdeclares⟩ := Statement.declares_of_effect (congrArg Prod.fst h)
      exact .single ⟨n, hdeclares⟩

/-! ## Programs -/

/-- What relates an engine to itself after every statement relates it to itself after a program. -/
theorem rel_runFrom {R : Engine → Engine → Prop} (hrefl : ∀ g, R g g)
    (htrans : ∀ {g₁ g₂ g₃}, R g₁ g₂ → R g₂ g₃ → R g₁ g₃)
    (hexecute : ∀ g s (r : σ), R g ((g.execute s).run r).1.2) (g : Engine) (start index : Nat)
    (p : Program) (r : σ) : R g ((g.runFrom start index p).run r).1.2 := by
  induction p generalizing g index r with
  | nil => exact hrefl g
  | cons s p ih =>
    have hstep := hexecute g s r
    rw [runFrom, Dialogue.run_bind]
    rcases hexec : (g.execute s).run r with ⟨⟨e | u, g'⟩, r'⟩ <;> rw [hexec] at hstep
    · exact hstep
    · exact htrans hstep (ih g' (index + 1) r')

/-! ## Engines over time -/

/-- One statement or one program on an engine, whoever replies, and whether it fails or not. -/
inductive Step : Engine → Engine → Prop where
  | execute {σ : Type} [Replier σ] (g : Engine) (s : Statement) (r : σ) :
    Step g ((g.execute s).run r).1.2
  | run {σ : Type} [Replier σ] (g : Engine) (p : Program) (r : σ) :
    Step g ((g.run p).run r).1.2

/-- The engines that arise from an engine. -/
def Reaches : Engine → Engine → Prop := Relation.ReflTransGen Step

/-- And it relates every engine to those that arise from it. -/
theorem Reaches.rel {R : Engine → Engine → Prop} {g g' : Engine} (h : g.Reaches g')
    (hrefl : ∀ g, R g g) (htrans : ∀ {g₁ g₂ g₃}, R g₁ g₂ → R g₂ g₃ → R g₁ g₃)
    (hexecute : ∀ {σ : Type} [Replier σ] (g : Engine) (s : Statement) (r : σ),
      R g ((g.execute s).run r).1.2) : R g g' := by
  induction h with
  | refl => exact hrefl g
  | tail _ hstep ih =>
    cases hstep with
    | execute _ s r => exact htrans ih (hexecute _ s r)
    | run _ p r => exact htrans ih (rel_runFrom hrefl htrans hexecute _ _ 0 p r)

theorem Reaches.grows {g g' : Engine} (h : g.Reaches g') :
    g.environment.Grows g'.environment :=
  h.rel (R := fun g g' => g.environment.Grows g'.environment) (fun _ => .refl) .trans grows_execute

/-- **What an engine has declared stays as it is.** No name is both a variable and a function, no
name is declared twice, and the parameters of every function are distinct. -/
theorem declarations_kept {config : Config} {g g' : Engine} (h : (fresh config).Reaches g)
    (h' : g.Reaches g') :
    (∀ n, g.environment.bit? n = none ∨ g.environment.function? n = none) ∧
      g.environment.names.Nodup ∧
      (∀ f ∈ g.environment.functions, f.params.Nodup) ∧
      (∀ n b, g.environment.bit? n = some b → g'.environment.bit? n = some b) ∧
      ∀ n f, g.environment.function? n = some f → g'.environment.function? n = some f := by
  have hwell := h.grows.wellFormed Environment.wellFormed_empty
  exact ⟨hwell.bit?_or_function?_eq_none, hwell.nodup_names, hwell.nodup_params,
    fun _ _ => h'.grows.bit?_eq_some, fun _ _ => h'.grows.function?_eq_some⟩

/-- After `A = INPUT(); F(X) = X; F = 1;`, of which the last statement fails, `A = 0` fails, too, and
`A` is still what was replied. -/
theorem declarations_kept_input :
    let p : Program := [.variable "A" (.builtin .input [] .none) .none,
      .function ⟨"F", ["X"], .var "X" false .none, .none⟩, .variable "F" (.lit true .none) .none]
    let g := (((fresh {}).run p).run (Script.mk [some true])).1.2
    let g' := ((g.execute (.variable "A" (.lit false .none) .none)).run
      (Script.mk [])).1.2
    (fresh {}).Reaches g ∧ g.Reaches g' ∧ g.environment.bit? "A" = some true ∧
      g'.environment.bit? "A" = some true ∧ g.environment.function? "A" = none := by
  intro p g g'
  have hg : (fresh {}).Reaches g := .single (.run (fresh {}) p (Script.mk [some true]))
  have hg' : g.Reaches g' :=
    .single (.execute g (.variable "A" (.lit false .none) .none) (Script.mk []))
  obtain ⟨hdisjoint, -, -, hbit, -⟩ := declarations_kept hg hg'
  have hA : g.environment.bit? "A" = some true := rfl
  exact ⟨hg, hg', hA, hbit "A" true hA, (hdisjoint "A").resolve_left (by rw [hA]; nofun)⟩

end Engine

end Switching
