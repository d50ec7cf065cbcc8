import Switching.Proofs.Engine.Execution
import Switching.Proofs.Machine.Refinement
import Switching.Proofs.Places.Run

/-!
# Statements happen or do not

* `Statement.Changes`: what a statement that succeeds does to an engine, and nothing else.
* `Engine.changes_of_execute`: it does that.
* `Engine.replier_of_alreadyDeclared`: a name that is taken shows before anybody is asked.
* `Machine.Step`: a statement, a program or an expression on a machine, whoever replies.
* `Machine.Reaches.depth_eq`: between them no call is open.
* **`Machine.execute_atomic`**: a statement that fails changes nothing in the machine, wherever it
  fails, and one that succeeds makes its own change only.
-/

namespace Switching

variable {σ : Type} [Replier σ]

/-! ## What succeeds -/

/-- What a statement that succeeds does to an engine: a declaration adds its name, which was free, and
`PRINT`, `SHOW` and `TABLE` add one unit of output. -/
inductive Statement.Changes : Statement → Engine → Engine → Prop where
  | variable {g : Engine} {n : String} {e : Expr} {s : Span} (b : Bool)
    (hfree : g.environment.declared? n = none) :
    Changes (.variable n e s) g
      { g with environment := { g.environment with globals := g.environment.globals ++ [(n, b)] } }
  | function {g : Engine} {f : Function} (hfree : g.environment.declared? f.name = none)
    (hparams : f.params.Nodup) :
    Changes (.function f) g
      { g with environment := { g.environment with functions := g.environment.functions ++ [f] } }
  | table {g : Engine} {t : FunctionTable} {f : Function} (hf : t.compile = .ok f)
    (hname : f.name = t.name) (hfree : g.environment.declared? t.name = none) :
    Changes (.table t) g
      { g with environment := { g.environment with functions := g.environment.functions ++ [f] } }
  | builtin {g : Engine} {f : Builtin} {args : List Expr} {s : Span} (unit : String)
    (hf : f = .print ∨ f = .display ∨ f = .table) :
    Changes (.builtin f args s) g { g with output := g.output ++ [unit] }

theorem Builtin.of_output {env : Environment} {config : Config} {f : Builtin} {args : List Expr}
    {s : Span} {r : σ} {unit : String}
    (h : ((f.output env config args s).run.run r).1 = .ok unit) :
    f = .print ∨ f = .display ∨ f = .table := by
  cases f with
  | print => exact .inl rfl
  | display => exact .inr (.inl rfl)
  | table => exact .inr (.inr rfl)
  | graph | exportTo | importFrom | toNand | toNor | solveSop | solvePos | input => cases h

namespace Engine

theorem changes_of_execute {g g' : Engine} {s : Statement} {r r' : σ}
    (h : (g.execute s).run r = ((.ok (), g'), r')) : s.Changes g g' := by
  obtain ⟨effect, heffect, rfl⟩ := exists_effect_of_execute h
  replace heffect := congrArg Prod.fst heffect
  cases s with
  | «variable» n e s =>
    simp only [Statement.effect, EvalM.run_bind_eq_ok_iff, EvalM.run_ofExcept, EvalM.run_pure,
      Except.ok.injEq] at heffect
    obtain ⟨-, -, b, -, env, hdeclare, rfl⟩ := heffect
    obtain ⟨hfree, rfl⟩ := Environment.declareVariable_eq_ok_iff.1 hdeclare
    exact .variable b hfree
  | function f =>
    simp only [Statement.effect, EvalM.run_bind_eq_ok_iff, EvalM.run_ofExcept, EvalM.run_pure,
      Except.ok.injEq] at heffect
    obtain ⟨env, hdeclare, rfl⟩ := heffect
    obtain ⟨hfree, hparams, rfl⟩ := Environment.declareFunction_eq_ok_iff.1 hdeclare
    exact .function hfree hparams
  | table t =>
    simp only [Statement.effect, EvalM.run_bind_eq_ok_iff, EvalM.run_ofExcept, EvalM.run_pure,
      Except.ok.injEq] at heffect
    obtain ⟨u, hfree, f, hf, env, hdeclare, rfl⟩ := heffect
    obtain ⟨-, -, rfl⟩ := Environment.declareFunction_eq_ok_iff.1 hdeclare
    exact .table hf (FunctionTable.name_of_compile hf)
      (Environment.ensureUndeclared_eq_ok_iff.1 hfree)
  | builtin f args s =>
    simp only [Statement.effect, EvalM.run_bind_eq_ok_iff, EvalM.run_pure,
      Except.ok.injEq] at heffect
    obtain ⟨unit, hunit, rfl⟩ := heffect
    exact .builtin unit (Builtin.of_output hunit)
  | error m s => cases heffect

end Engine

/-! ## What fails -/

/-- Nothing that is evaluated, tabulated or displayed fails as a declaration does. -/
theorem EvalM.Bare.errorClass_of_run {α α' : Type} {f : α → α'} {m : EvalM α} {m' : EvalM α'}
    (h : Bare f m m') {r : σ} {e : RuntimeError} (he : (m.run.run r).1 = .error e) :
    e.errorClass ≠ .declarationConflict := by
  have hout := (Dialogue.Coupled.run_eq h r).1
  rw [he] at hout
  generalize (m'.run.run r).1 = out at hout
  cases hout with
  | error hfault => exact hfault.2

/-- A taken name shows before anybody is asked. -/
theorem Statement.replier_of_alreadyDeclared {env : Environment} {config : Config} {s : Statement}
    {r r' : σ} {n : String} {d : Declared} {place : Span}
    (h : (s.effect env config).run.run r = (.error (.alreadyDeclared n d place), r')) : r' = r := by
  have hsettled : (s.effect env config).Settled → r' = r := fun hs =>
    (congrArg Prod.snd h).symm.trans (hs.run_snd r)
  cases s with
  | «variable» n e s =>
    rw [effect, EvalM.run_bind_eq_error_iff] at h
    obtain h | ⟨u, r₁, hfree, h⟩ := h
    · exact (congrArg Prod.snd h).symm.trans ((EvalM.settled_ofExcept _).run_snd r)
    -- The name is free. So it is the value that fails, and not in this way.
    rw [EvalM.run_ofExcept] at hfree
    replace hfree := Environment.ensureUndeclared_eq_ok_iff.1 (congrArg Prod.fst hfree)
    rw [EvalM.run_bind_eq_error_iff] at h
    obtain h | ⟨b, r₂, -, h⟩ := h
    · exact absurd rfl ((e.bare_eval env _ _).errorClass_of_run (congrArg Prod.fst h))
    · rw [Environment.declareVariable_eq_ok_iff.2 ⟨hfree, rfl⟩] at h
      cases h
  | function f =>
    exact hsettled ((EvalM.settled_ofExcept _).bind fun env' _ => EvalM.settled_pure _)
  | table t =>
    exact hsettled ((EvalM.settled_ofExcept _).bind fun _ _ => (EvalM.settled_ofExcept _).bind
      fun f _ => (EvalM.settled_ofExcept _).bind fun env' _ => EvalM.settled_pure _)
  | builtin f args s =>
    rw [effect, EvalM.run_bind_eq_error_iff] at h
    obtain h | ⟨unit, r₁, -, h⟩ := h
    · exact absurd rfl ((f.bare_output env config args s).errorClass_of_run (congrArg Prod.fst h))
    · cases h
  | error m s => cases h

namespace Machine

/-! ## Machines over time -/

/-- A statement, a program or an expression on a machine, whoever replies, and whether it fails or
not. -/
inductive Step : Machine → Machine → Prop
  | execute {σ : Type} [Replier σ] (g : Machine) (s : Statement) (r : σ) :
    Step g ((g.execute s).run r).1.2
  | run {σ : Type} [Replier σ] (g : Machine) (p : Program) (r : σ) :
    Step g ((g.run p).run r).1.2
  | eval {σ : Type} [Replier σ] (g : Machine) (scope : Scope) (e : Expr) (r : σ) :
    Step g (((eval scope e).run.run g).run r).1.2
  | truthTable {σ : Type} [Replier σ] (g : Machine) (e : Expr) (r : σ) :
    Step g (((truthTable e).run.run g).run r).1.2
  | display {σ : Type} [Replier σ] (g : Machine) (e : Expr) (r : σ) :
    Step g (((display e).run.run g).run r).1.2

/-- The machines that arise from a machine. -/
def Reaches : Machine → Machine → Prop := Relation.ReflTransGen Step

variable {g g' : Machine}

theorem machine_of_keeps {α : Type} {m : MachineM α} {c : EvalM α} (h : m.Keeps g c) (r : σ) :
    ((m.run.run g).run r).1.2 = g := by
  rw [h, Dialogue.run_bind]
  rfl

theorem run_execute (hg : g.depth = 0) (s : Statement) (r : σ) :
    (g.execute s).run r =
      ((((g.toEngine.execute s).run r).1.1,
        { g with toEngine := ((g.toEngine.execute s).run r).1.2 }),
        ((g.toEngine.execute s).run r).2) := by
  rw [execute_eq hg, Dialogue.run_bind]
  rfl

theorem Step.depth_eq (h : Step g g') (hg : g.depth = 0) : g'.depth = 0 := by
  cases h with
  | execute _ s r => rwa [run_execute hg]
  | run _ p r =>
    rw [run_eq hg, Dialogue.run_bind]
    exact hg
  | eval _ scope e r => rwa [machine_of_keeps (keeps_eval hg scope e)]
  | truthTable _ e r => rwa [machine_of_keeps (keeps_truthTable hg e)]
  | display _ e r => rwa [machine_of_keeps (keeps_display hg e)]

theorem Reaches.depth_eq (h : g.Reaches g') (hg : g.depth = 0) : g'.depth = 0 := by
  induction h with
  | refl => exact hg
  | tail _ hstep ih => exact hstep.depth_eq ih

/-- **Statements happen or do not.** In a machine that was fresh once no call is open. A statement on
it has the outcome that it has on the engine. If it fails, the machine is as before, and if that is
because a name is taken, nobody was asked. If it succeeds, its change is all that happened, and again
no call is open. -/
theorem execute_atomic {config : Config} (h : (fresh config).Reaches g) (s : Statement) (r : σ) :
    let o := (g.execute s).run (Recorded.mk r [])
    let o' := (g.toEngine.execute s).run (Recorded.mk r [])
    g.depth = 0 ∧ o.1.2.depth = 0 ∧ o.1.1 = o'.1.1 ∧ o.1.2.toEngine = o'.1.2 ∧ o.2 = o'.2 ∧
      (∀ e, o.1.1 = .error e → o.1.2 = g ∧
        ∀ n d place, e = .alreadyDeclared n d place → o.2 = Recorded.mk r []) ∧
      (o.1.1 = .ok () → s.Changes g.toEngine o.1.2.toEngine) := by
  intro o o'
  have hg : g.depth = 0 := h.depth_eq rfl
  have ho : o = ((o'.1.1, { g with toEngine := o'.1.2 }), o'.2) := run_execute hg s _
  have ho' : (g.toEngine.execute s).run (Recorded.mk r []) = o' := rfl
  clear_value o o'
  subst ho
  obtain ⟨⟨result, engine⟩, replier⟩ := o'
  refine ⟨hg, hg, rfl, rfl, rfl, fun e he => ?_, fun hok => ?_⟩
  · obtain rfl : result = .error e := he
    obtain ⟨heffect, rfl⟩ := Engine.effect_of_execute_error ho'
    refine ⟨rfl, ?_⟩
    rintro n d place rfl
    exact Statement.replier_of_alreadyDeclared heffect
  · obtain rfl : result = .ok () := hok
    exact Engine.changes_of_execute ho'

/-- The machine after `F(X) = G(X); G(X) = H(X); H(X) = X and B*; A = 1;`. -/
def nestedCalls : Machine :=
  let x := Expr.var "X" false .none
  let p : Program := [.function ⟨"F", ["X"], .call "G" [x] .none, .none⟩,
    .function ⟨"G", ["X"], .call "H" [x] .none, .none⟩,
    .function ⟨"H", ["X"], .binary x .and (.var "B" true .none) .none, .none⟩,
    .variable "A" (.lit true .none) .none]
  (((fresh { maxCallDepth := 3 }).run p).run (Silent.mk .unavailable)).1.2

/-- `PRINT(A, F(INPUT()))`. -/
def printNested : Statement :=
  .builtin .print [.var "A" false .none, .call "F" [.builtin .input [] .none] .none] .none

/-- `PRINT(A, F(INPUT()))` asks and fails three calls deep, where there is no `B`. The machine is as
before, and no call is open. -/
theorem execute_atomic_nestedCalls :
    (fresh { maxCallDepth := 3 }).Reaches nestedCalls ∧
      ((nestedCalls.execute printNested).run (Recorded.mk (Script.mk [some true]) [])).1.1 =
        .error (.referenceNotDefined "B" .none) ∧
      ((nestedCalls.execute printNested).run (Recorded.mk (Script.mk [some true]) [])).1.2 =
        nestedCalls ∧
      nestedCalls.depth = 0 ∧
      ((nestedCalls.execute printNested).run
        (Recorded.mk (Script.mk [some true]) [])).2.prompts = ["INPUT"] := by
  have hg : (fresh { maxCallDepth := 3 }).Reaches nestedCalls := .single (.run _ _ _)
  have ho : ((nestedCalls.execute printNested).run (Recorded.mk (Script.mk [some true]) [])).1.1 =
      .error (.referenceNotDefined "B" .none) := by rfl
  obtain ⟨hdepth, -, -, -, -, hfail, -⟩ := execute_atomic hg printNested (Script.mk [some true])
  exact ⟨hg, ho, (hfail _ ho).1, hdepth, by rfl⟩

end Machine

end Switching
