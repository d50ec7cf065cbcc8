import Mathlib.Data.Option.Defs
import Switching.Proofs.Expr.Basic
import Switching.Proofs.Machine.Basic

/-!
# Machines and engines

A machine with no open calls does what its engine does.

* `MachineM.Keeps`: a computation on a machine does what another one does without it, and leaves the
  machine as it is.
* `Machine.enterWatched`: functions with something done before their bodies.
* `Machine.keeps_evalWith`, `Machine.keeps_enter`, `Machine.keeps_truthTable`, `Machine.keeps_display`,
  `Machine.keeps_unit`: evaluation, tables, what is displayed and what is put out.
* `Machine.performs`: a statement has its effect on the machine, or none if it fails.
* **`Machine.execute_eq`**, **`Machine.run_eq`**: statements and programs.
-/

namespace Switching

variable {α β : Type}

/-! ## Machines that stay as they are -/

namespace MachineM

/-- On the machine `g`, the computation `m` does what `c` does, and leaves the machine as it is when it
succeeds and when it fails. -/
def Keeps (g : Machine) (m : MachineM α) (c : EvalM α) : Prop :=
  m.run.run g = do return (← c.run, g)

variable {g : Machine}

theorem keeps_lift (c : EvalM α) : Keeps g (lift c) c := rfl

theorem keeps_pure (a : α) : Keeps g (pure a) (pure a) := rfl

theorem keeps_throw (e : RuntimeError) : Keeps (α := α) g (throw e) (throw e) := rfl

theorem Keeps.bind {m : MachineM α} {c : EvalM α} {f : α → MachineM β} {h : α → EvalM β}
    (hm : Keeps g m c) (hf : ∀ a, Keeps g (f a) (h a)) : Keeps g (m >>= f) (c >>= h) := by
  have hrun : (m >>= f).run.run g =
      m.run.run g >>= fun out => (ExceptT.bindCont f out.1).run out.2 := rfl
  rw [Keeps, hrun, hm, ExceptT.run_bind, bind_assoc, bind_assoc]
  refine bind_congr fun r => ?_
  cases r with
  | ok a => exact hf a
  | error e => rfl

theorem keeps_get {f : Machine → MachineM α} {c : EvalM α} (h : Keeps g (f g) c) :
    Keeps g (get >>= f) c := h

theorem Keeps.inCall {m : MachineM α} {c : EvalM α}
    (h : Keeps { g with depth := g.depth + 1 } m c) : Keeps g m.inCall c := by
  have hrun : m.inCall.run.run g = do
      let (r, g') ← m.run.run { g with depth := g.depth + 1 }
      return (r, { g' with depth := g'.depth - 1 }) := rfl
  rw [Keeps, hrun, h, bind_assoc]
  rfl

theorem keeps_mapM {f : α → MachineM β} {h : α → EvalM β} (hf : ∀ a, Keeps g (f a) (h a))
    (items : List α) : Keeps g (items.mapM f) (items.mapM h) := by
  induction items with
  | nil => exact keeps_pure []
  | cons a items ih =>
    rw [List.mapM_cons, List.mapM_cons]
    exact (hf a).bind fun b => ih.bind fun bs => keeps_pure (b :: bs)

end MachineM

namespace Machine

open MachineM

variable {g : Machine}

/-! ## Evaluation -/

/-- On the machine `g`, functions are entered in the same way. -/
def KeepsEnter (g : Machine) (enter : Enter) (enter' : Switching.Enter) : Prop :=
  ∀ f bits s, Keeps g (enter f bits s) (enter' f bits s)

theorem keeps_evalAllWith {enter : Enter} {enter' : Switching.Enter} {scope : Scope}
    {args : List Expr} (h : ∀ a ∈ args,
      Keeps g (evalWith enter scope a) (a.evalWith g.environment enter' scope)) :
    Keeps g (evalAllWith enter scope args) (Expr.evalAllWith g.environment enter' scope args) := by
  induction args with
  | nil => exact keeps_pure []
  | cons a args ih =>
    obtain ⟨ha, hargs⟩ := List.forall_mem_cons.1 h
    exact ha.bind fun b => (ih hargs).bind fun bs => keeps_pure (b :: bs)

theorem keeps_evalWith {enter : Enter} {enter' : Switching.Enter} (henter : KeepsEnter g enter enter')
    (scope : Scope) (e : Expr) :
    Keeps g (evalWith enter scope e) (e.evalWith g.environment enter' scope) := by
  induction e with
  | lit b s => exact keeps_pure b
  | str t s => exact keeps_throw _
  | var n r s => exact keeps_get (keeps_lift _)
  | binary a op b s iha ihb =>
    exact iha.bind fun x => ihb.bind fun y => keeps_pure (op.apply x y)
  | not a s ih => exact ih.bind fun x => keeps_pure (!x)
  | call n args s ih =>
    exact keeps_get ((keeps_lift _).bind fun f =>
      (keeps_evalAllWith ih).bind fun bits => henter f bits s)
  | builtin f args s ih =>
    cases f with
    | toNand | toNor | solveSop | solvePos =>
      rcases args with _ | ⟨a, _ | ⟨b, args⟩⟩
      · exact keeps_throw _
      · exact ih a (List.mem_singleton_self a)
      · exact keeps_throw _
    | input => exact (keeps_lift _).bind fun prompt => keeps_lift _
    | print | display | table | graph | exportTo | importFrom => exact keeps_throw _
  | error m s => exact keeps_throw _

/-- Enters a function as `enter` does, and does something else in the open call before its body. -/
def enterWatched (watch : Function → MachineM Unit) : (rounds : Nat) → Enter
  | 0, f, _, s => do throw (.recursionLimit f.name (← get).config.maxCallDepth s)
  | rounds + 1, f, bits, s => do
    let g ← get
    if g.config.maxCallDepth ≤ g.depth then
      throw (.recursionLimit f.name g.config.maxCallDepth s)
    else
      MachineM.inCall do
        watch f
        evalWith (enterWatched watch rounds) (.zip f.params bits) f.body

theorem enterWatched_nothing (rounds : Nat) : enterWatched (fun _ => pure ()) rounds = enter rounds := by
  induction rounds with
  | zero => rfl
  | succ rounds ih =>
    funext f bits s
    simp only [enterWatched, enter, ih, pure_bind]

/-- With `g.depth` calls open, as many may be opened as there are missing to the limit. Before the
bodies something may be done that does nothing with more open calls, up to the limit. -/
theorem keeps_enterWatched {watch : Function → MachineM Unit} {rounds : Nat}
    (hrounds : g.config.maxCallDepth ≤ rounds + g.depth)
    (hwatch : ∀ f k, g.depth < k → k ≤ g.config.maxCallDepth →
      Keeps { g with depth := k } (watch f) (pure ())) :
    KeepsEnter g (enterWatched watch rounds) (enterBody g.environment g.config.maxCallDepth
      (g.config.maxCallDepth - g.depth)) := by
  induction rounds generalizing g with
  | zero =>
    intro f bits s
    rw [Nat.sub_eq_zero_of_le (by omega)]
    exact keeps_get (keeps_throw _)
  | succ rounds ih =>
    intro f bits s
    refine keeps_get ?_
    by_cases hdepth : g.config.maxCallDepth ≤ g.depth
    · rw [if_pos hdepth, Nat.sub_eq_zero_of_le hdepth]
      exact keeps_throw _
    · have hleft : g.config.maxCallDepth - g.depth =
        g.config.maxCallDepth - (g.depth + 1) + 1 := by omega
      rw [if_neg hdepth, hleft]
      have hbody := keeps_evalWith (ih (g := { g with depth := g.depth + 1 }) (by dsimp only; omega)
        fun f k hk => hwatch f k (by dsimp only at hk; omega)) (.zip f.params bits) f.body
      exact ((hwatch f (g.depth + 1) (by omega) (by omega)).bind fun _ => hbody).inCall

theorem keeps_enter {rounds : Nat} (hrounds : g.config.maxCallDepth ≤ rounds + g.depth) :
    KeepsEnter g (enter rounds) (enterBody g.environment g.config.maxCallDepth
      (g.config.maxCallDepth - g.depth)) := by
  rw [← enterWatched_nothing]
  exact keeps_enterWatched hrounds fun _ _ _ _ => keeps_pure ()

theorem keeps_eval (hg : g.depth = 0) (scope : Scope) (e : Expr) :
    Keeps g (eval scope e) (e.eval g.environment g.config.maxCallDepth scope) := by
  have henter := keeps_enter (Nat.le_add_right g.config.maxCallDepth g.depth)
  rw [hg, Nat.sub_zero] at henter
  exact keeps_get (keeps_evalWith henter scope e)

/-! ## Tables and displayed expressions -/

theorem keeps_sampleAll {f : α → MachineM Bool} {h : α → EvalM Bool}
    (hf : ∀ a, Keeps g (f a) (h a)) (items : List α) :
    Keeps g (sampleAll f items) (Switching.sampleAll h items) := by
  induction items with
  | nil => exact keeps_pure _
  | cons a items ih => exact (hf a).bind fun b => ih.bind fun bits => keeps_pure _

theorem keeps_truthTable (hg : g.depth = 0) (e : Expr) :
    Keeps g (truthTable e) (e.truthTable g.environment g.config) := by
  unfold truthTable
  cases href : e.firstReference? with
  | some reference =>
    rw [Expr.truthTable_of_reference href]
    exact keeps_throw _
  | none =>
    refine keeps_get ?_
    by_cases hlimit : g.config.tableLimit < e.inputs.length
    · rw [Expr.truthTable_of_lt href hlimit]
      simp only [hlimit, if_true]
      exact keeps_throw _
    · rw [Expr.truthTable_of_le href rfl (Nat.not_lt.1 hlimit)]
      simp only [hlimit, if_false]
      exact (keeps_sampleAll (fun bits => keeps_eval hg _ e) _).bind fun outputs => keeps_pure _

theorem keeps_displayAllWith {inline : Inline} {inline' : Expr.Inline} {args : List Expr}
    (h : ∀ a ∈ args,
      Keeps g (displayWith inline a) (a.displayWith g.environment g.config inline')) :
    Keeps g (displayAllWith inline args)
      (Expr.displayAllWith g.environment g.config inline' args) := by
  induction args with
  | nil => exact keeps_pure []
  | cons a args ih =>
    obtain ⟨ha, hargs⟩ := List.forall_mem_cons.1 h
    exact ha.bind fun a' => (ih hargs).bind fun args' => keeps_pure (a' :: args')

/-- On the machine `g`, the same calls are replaced by the same bodies. -/
def KeepsInline (g : Machine) (inline : Inline) (inline' : Expr.Inline) : Prop :=
  ∀ n arity, Option.Rel (fun found found' => found.1 = found'.1 ∧ Keeps g found.2 found'.2)
    (inline n arity) (inline' n arity)

theorem keeps_displayWith (hg : g.depth = 0) {inline : Inline} {inline' : Expr.Inline}
    (hinline : KeepsInline g inline inline') (e : Expr) :
    Keeps g (displayWith inline e) (e.displayWith g.environment g.config inline') := by
  induction e with
  | lit b s => exact keeps_pure _
  | str t s => exact keeps_pure _
  | var n r s => exact keeps_pure _
  | error m s => exact keeps_pure _
  | binary a op b s iha ihb => exact iha.bind fun a' => ihb.bind fun b' => keeps_pure _
  | not a s ih => exact ih.bind fun a' => keeps_pure _
  | call n args s ih =>
    refine (keeps_displayAllWith ih).bind fun args' => ?_
    have hfound := hinline n args.length
    generalize inline n args.length = found, inline' n args.length = found' at hfound ⊢
    rcases hfound with ⟨hparams, hbody⟩ | -
    · refine hbody.bind fun body => ?_
      rw [hparams]
      exact keeps_pure _
    · exact keeps_pure _
  | builtin f args s ih =>
    cases f with
    | toNand | toNor =>
      rcases args with _ | ⟨a, _ | ⟨b, args⟩⟩
      · exact keeps_throw _
      · exact (ih a (List.mem_singleton_self a)).bind fun a' => keeps_pure _
      · exact keeps_throw _
    | solveSop | solvePos =>
      rcases args with _ | ⟨a, _ | ⟨b, args⟩⟩
      · exact keeps_throw _
      · exact (keeps_truthTable hg a).bind fun t => keeps_pure _
      · exact keeps_throw _
    | print | display | table | graph | exportTo | importFrom | input =>
      exact (keeps_displayAllWith ih).bind fun args' => keeps_pure _

theorem keeps_inlinedBody (hg : g.depth = 0) (rounds : Nat) (available : List Function) :
    KeepsInline g (inlinedBody rounds available)
      (Switching.inlinedBody g.environment g.config rounds available) := by
  induction rounds generalizing available with
  | zero => exact fun _ _ => .none
  | succ rounds ih =>
    intro n arity
    simp only [inlinedBody, Switching.inlinedBody]
    cases available.find? (·.name = n) with
    | none => exact .none
    | some f =>
      by_cases hf : f.params.length = arity
      · simp only [hf, if_true]
        exact .some ⟨rfl, keeps_displayWith hg (ih _) f.body⟩
      · simp only [hf, if_false]
        exact .none

theorem keeps_display (hg : g.depth = 0) (e : Expr) :
    Keeps g (display e) (e.display g.environment g.config) := by
  refine keeps_get (keeps_displayWith hg ?_ e)
  split
  · exact keeps_inlinedBody hg _ _
  · exact fun _ _ => .none

/-! ## Statements -/

theorem keeps_printed (hg : g.depth = 0) (e : Expr) :
    Keeps g (printed e) (e.printed g.environment g.config) := by
  cases e with
  | str t s => exact keeps_pure t
  | lit _ _ | var _ _ _ | binary _ _ _ _ | not _ _ | call _ _ _ | builtin _ _ _ | error _ _ =>
    exact (keeps_eval hg .empty _).bind fun b => keeps_pure _

theorem keeps_unit (hg : g.depth = 0) (f : Builtin) (args : List Expr) (s : Span) :
    Keeps g (unit f args s) (f.output g.environment g.config args s) := by
  cases f with
  | print => exact (keeps_mapM (keeps_printed hg) args).bind fun parts => keeps_get (keeps_pure _)
  | display =>
    exact (keeps_mapM (fun e => (keeps_display hg e).bind fun e' => keeps_pure e'.text) args).bind
      fun parts => keeps_pure _
  | table =>
    exact (keeps_mapM (fun e => (keeps_truthTable hg e).bind fun t => keeps_pure t.text) args).bind
      fun parts => keeps_pure _
  | graph | exportTo | importFrom => exact keeps_throw _
  | toNand | toNor | solveSop | solvePos | input => exact keeps_throw _

/-- The machine after an effect. -/
def apply (g : Machine) (effect : Effect) : Machine := { g with toEngine := g.toEngine.apply effect }

/-- On the machine `g`, the computation `m` has the effect of `c`, and none if it fails. -/
def Performs (g : Machine) (m : MachineM Unit) (c : EvalM Effect) : Prop :=
  m.run.run g = do
    match ← c.run with
    | .ok effect => return (.ok (), g.apply effect)
    | .error e => return (.error e, g)

theorem Performs.after {m : MachineM α} {c : EvalM α} {f : α → MachineM Unit} {h : α → EvalM Effect}
    (hm : Keeps g m c) (hf : ∀ a, Performs g (f a) (h a)) : Performs g (m >>= f) (c >>= h) := by
  have hrun : (m >>= f).run.run g =
      m.run.run g >>= fun out => (ExceptT.bindCont f out.1).run out.2 := rfl
  rw [Performs, hrun, hm, ExceptT.run_bind, bind_assoc, bind_assoc]
  refine bind_congr fun r => ?_
  cases r with
  | ok a => exact hf a
  | error e => rfl

theorem performs_declare (declared : Environment → Except RuntimeError Environment) :
    Performs g (declare declared)
      (do return .declare (← EvalM.ofExcept (declared g.environment))) :=
  Performs.after (keeps_lift _) fun _ => rfl

theorem performs (hg : g.depth = 0) (s : Statement) :
    Performs g (perform s) (s.effect g.environment g.config) := by
  cases s with
  | «variable» n e s =>
    exact Performs.after (keeps_lift _) fun _ => Performs.after (keeps_eval hg .empty e) fun b =>
      performs_declare (·.declareVariable n b s)
  | function f => exact performs_declare (·.declareFunction f)
  | table t =>
    exact Performs.after (keeps_lift _) fun _ => Performs.after (keeps_lift _) fun f =>
      performs_declare (·.declareFunction f)
  | builtin f args s => exact Performs.after (keeps_unit hg f args s) fun text => rfl
  | error m s => rfl

/-- **A machine with no open calls** executes a statement as its engine does, and none is open
after it. -/
theorem execute_eq (hg : g.depth = 0) (s : Statement) :
    g.execute s = do
      let (r, g') ← g.toEngine.execute s
      return (r, { g with toEngine := g' }) := by
  rw [execute, performs hg s, Engine.execute, bind_assoc]
  refine bind_congr fun r => ?_
  cases r <;> rfl

/-! ## Programs -/

theorem runFrom_eq (hg : g.depth = 0) (start index : Nat) (p : Program) :
    g.runFrom start index p = do
      let (r, g') ← g.toEngine.runFrom start index p
      return (r, { g with toEngine := g' }) := by
  induction p generalizing g index with
  | nil => rfl
  | cons s p ih =>
    rw [runFrom, Engine.runFrom, execute_eq hg, bind_assoc, bind_assoc]
    refine bind_congr fun out => ?_
    rw [pure_bind]
    rcases out with ⟨e | ⟨⟩, g'⟩
    · rfl
    · exact ih (g := { g with toEngine := g' }) hg (index + 1)

/-- **A machine with no open calls** runs a program as its engine does, and none is open after it. -/
theorem run_eq (hg : g.depth = 0) (p : Program) :
    g.run p = do
      let (r, g') ← g.toEngine.run p
      return (r, { g with toEngine := g' }) :=
  runFrom_eq hg g.output.length 0 p

end Machine

end Switching
