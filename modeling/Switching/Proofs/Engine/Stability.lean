import Switching.Input.Basic
import Switching.Proofs.Engine.Environment
import Switching.Proofs.Engine.Value

/-!
# More declarations and more room

What is evaluated stays the same when names are added to the environment, unless it failed before;
and it stays the same with more room for calls, unless it met the limit.

* `EvalM.SameUnless`: two computations that are the same, unless the first one fails in a given way.
* `EvalM.SameUnless.run_eq`, `Dialogue.SameUnless.prompts_prefix`: what this means for one replier.
* `Expr.sameUnless_evalWith`: expressions, if the names and the functions in them are.
* `Environment.Extends`: an environment with more declarations;
  **`Environment.Extends.sameUnless_evalWith`** compares values in both.
* **`sameUnless_enterBody_of_le`**: with more room for calls.
-/

namespace Switching

/-! ## Computations that are the same unless one fails -/

section Dialogue

variable {α β : Type}

/-- The same prompts and the same results, unless the first dialogue comes to a result in `P`: what
the second one does after these prompts is then left open. -/
inductive Dialogue.SameUnless (P : α → Prop) : Dialogue α → Dialogue α → Prop where
  | stops {a : α} {d : Dialogue α} (h : P a) : SameUnless P (.done a) d
  | done (a : α) : SameUnless P (.done a) (.done a)
  | ask {prompt : String} {next next' : Reply → Dialogue α}
    (h : ∀ r, SameUnless P (next r) (next' r)) :
    SameUnless P (.ask prompt next) (.ask prompt next')

theorem Dialogue.SameUnless.refl {P : α → Prop} (d : Dialogue α) : SameUnless P d d := by
  induction d with
  | done a => exact .done a
  | ask prompt next ih => exact .ask ih

theorem Dialogue.SameUnless.bind {P : α → Prop} {Q : β → Prop} {d d' : Dialogue α}
    {f f' : α → Dialogue β} (h : SameUnless P d d') (hstops : ∀ a d', P a → SameUnless Q (f a) d')
    (hf : ∀ a, SameUnless Q (f a) (f' a)) : SameUnless Q (d >>= f) (d' >>= f') := by
  induction h with
  | stops h => exact hstops _ _ h
  | done a => exact hf a
  | ask _ ih => exact .ask ih

section Run

variable {σ : Type} [Replier σ] {P : α → Prop} {d d' : Dialogue α}

theorem Dialogue.SameUnless.run_eq (h : SameUnless P d d') (s : σ) :
    P (d.run s).1 ∨ d'.run s = d.run s := by
  induction h generalizing s with
  | stops h => exact .inl h
  | done a => exact .inr rfl
  | ask _ ih => exact ih _ _

theorem Recorded.prefix_run (s : Recorded σ) (d : Dialogue α) :
    s.prompts <+: (d.run s).2.prompts := by
  induction d generalizing s with
  | done a => exact List.prefix_rfl
  | ask prompt next ih =>
    rw [Dialogue.run_ask]
    exact (List.prefix_append s.prompts [prompt]).trans (ih _ (Replier.reply s prompt).2)

theorem Dialogue.SameUnless.prompts_prefix (h : SameUnless P d d') (s : Recorded σ) :
    (d.run s).2.prompts <+: (d'.run s).2.prompts := by
  induction h generalizing s with
  | stops h => exact s.prefix_run _
  | done a => exact List.prefix_rfl
  | ask _ ih => exact ih _ _

end Run

namespace EvalM

/-- The same computation, unless the first one fails with an error in `E`. -/
def SameUnless (E : RuntimeError → Prop) (m m' : EvalM α) : Prop :=
  Dialogue.SameUnless (fun r => ∃ e, E e ∧ r = .error e) m.run m'.run

variable {E : RuntimeError → Prop} {m m' : EvalM α}

theorem SameUnless.refl (m : EvalM α) : SameUnless E m m := Dialogue.SameUnless.refl m.run

theorem sameUnless_throw {e : RuntimeError} (h : E e) (m : EvalM α) : SameUnless E (throw e) m :=
  .stops ⟨e, h, rfl⟩

theorem SameUnless.bind {f f' : α → EvalM β} (h : SameUnless E m m')
    (hf : ∀ a, SameUnless E (f a) (f' a)) : SameUnless E (m >>= f) (m' >>= f') := by
  refine Dialogue.SameUnless.bind h (fun r d hr => ?_) fun r => ?_
  · obtain ⟨e, he, rfl⟩ := hr
    exact .stops ⟨e, he, rfl⟩
  · cases r with
    | ok a => exact hf a
    | error e => exact .done _

/-- For one replier, the first computation fails in the given way, or both go the same way. -/
theorem SameUnless.run_eq {σ : Type} [Replier σ] (h : SameUnless E m m') (s : σ) :
    (∃ e, E e ∧ (m.run.run s).1 = .error e) ∨ m'.run.run s = m.run.run s :=
  Dialogue.SameUnless.run_eq h s

theorem SameUnless.eq_pure (h : SameUnless E m m') {a : α} (hm : m = pure a) : m' = pure a := by
  subst hm
  cases h with
  | stops h =>
    obtain ⟨e, -, he⟩ := h
    nomatch he
  | done => rfl

theorem SameUnless.eq_pure_or (h : SameUnless E m m') {a : α} (hm : m' = pure a) :
    m = pure a ∨ ∃ e, E e ∧ m = throw e := by
  subst hm
  cases h with
  | stops h =>
    obtain ⟨e, he, rfl⟩ := h
    exact .inr ⟨e, he, rfl⟩
  | done => exact .inl rfl

/-- Where any failure is allowed, only successes count. -/
theorem sameUnless_ofExcept {r r' : Except RuntimeError α} (h : ∀ a, r = .ok a → r' = .ok a) :
    SameUnless (fun _ => True) (ofExcept r) (ofExcept r') := by
  cases r with
  | ok a =>
    rw [h a rfl]
    exact .refl _
  | error e => exact sameUnless_throw trivial _

end EvalM

end Dialogue

/-! ## Expressions -/

namespace Expr

variable {env env' : Environment} {enter enter' : Enter} {scope : Scope} {E : RuntimeError → Prop}

theorem sameUnless_evalAllWith {args : List Expr}
    (h : ∀ a ∈ args, (a.evalWith env enter scope).SameUnless E (a.evalWith env' enter' scope)) :
    (evalAllWith env enter scope args).SameUnless E (evalAllWith env' enter' scope args) := by
  induction args with
  | nil => exact .refl _
  | cons a args ih =>
    obtain ⟨ha, hargs⟩ := List.forall_mem_cons.1 h
    exact ha.bind fun b => (ih hargs).bind fun bs => .refl _

/-- Evaluation is the same unless it fails, if reading names, finding functions and entering them
are. -/
theorem sameUnless_evalWith
    (hread : ∀ n r s, (EvalM.ofExcept (env.read scope n r s)).SameUnless E
      (EvalM.ofExcept (env'.read scope n r s)))
    (hcallee : ∀ n k s, (EvalM.ofExcept (env.callee n k s)).SameUnless E
      (EvalM.ofExcept (env'.callee n k s)))
    (henter : ∀ f bits s, (enter f bits s).SameUnless E (enter' f bits s)) (e : Expr) :
    (e.evalWith env enter scope).SameUnless E (e.evalWith env' enter' scope) := by
  induction e with
  | lit b s => exact .refl _
  | str t s => exact .refl _
  | var n r s => exact hread n r s
  | binary a op b s iha ihb => exact iha.bind fun x => ihb.bind fun y => .refl _
  | not a s ih => exact ih.bind fun x => .refl _
  | call n args s ih =>
    exact (hcallee n args.length s).bind fun f =>
      (sameUnless_evalAllWith ih).bind fun bits => henter f bits s
  | builtin f args s ih =>
    cases f with
    | toNand | toNor | solveSop | solvePos =>
      rcases args with _ | ⟨a, _ | ⟨b, args⟩⟩
      · exact .refl _
      · exact ih a (List.mem_singleton_self a)
      · exact .refl _
    | print | display | table | graph | exportTo | importFrom | input => exact .refl _
  | error m s => exact .refl _

end Expr

/-! ## More declarations -/

namespace Environment

/-- All declarations of the first environment are in the second one. -/
structure Extends (env env' : Environment) : Prop where
  bit? : ∀ n b, env.bit? n = some b → env'.bit? n = some b
  function? : ∀ n f, env.function? n = some f → env'.function? n = some f

variable {env env' : Environment}

theorem Declares.extends {n : String} (h : env.Declares n env') : env.Extends env' :=
  ⟨fun _ _ => h.bit?_eq_some, fun _ _ => h.function?_eq_some⟩

theorem Extends.read_eq_ok (h : env.Extends env') {scope : Scope} {n : String} {r : Bool}
    {s : Span} {b : Bool} (hread : env.read scope n r s = .ok b) :
    env'.read scope n r s = .ok b := by
  have hbit : ∀ {e : RuntimeError}, (env.bit? n).elim (.error e) Except.ok = .ok b →
      (env'.bit? n).elim (.error e) Except.ok = .ok b := fun hn => by
    cases hbit : env.bit? n with
    | none => simp [hbit] at hn
    | some c => rwa [hbit, ← h.bit? n c hbit] at hn
  revert hread
  unfold read
  cases scope.isEmpty <;> cases r
  · exact id
  · exact hbit
  · exact hbit
  · exact id

theorem Extends.callee_eq_ok (h : env.Extends env') {n : String} {k : Nat} {s : Span}
    {f : Function} (hcallee : env.callee n k s = .ok f) : env'.callee n k s = .ok f := by
  rw [callee_eq_ok_iff] at hcallee ⊢
  exact hcallee.imp_left (h.function? n f)

/-- One level of bodies: with more declarations, what does not fail stays the same if this holds of
the bodies. -/
theorem Extends.sameUnless_evalWith_of_enter (h : env.Extends env') {enter enter' : Enter}
    (henter : ∀ f bits s, (enter f bits s).SameUnless (fun _ => True) (enter' f bits s))
    (scope : Scope) (e : Expr) :
    (e.evalWith env enter scope).SameUnless (fun _ => True) (e.evalWith env' enter' scope) :=
  Expr.sameUnless_evalWith (fun _ _ _ => EvalM.sameUnless_ofExcept fun _ => h.read_eq_ok)
    (fun _ _ _ => EvalM.sameUnless_ofExcept fun _ => h.callee_eq_ok) henter e

theorem Extends.sameUnless_enterBody (h : env.Extends env') (limit d : Nat) (f : Function)
    (bits : List Bool) (s : Span) : (enterBody env limit d f bits s).SameUnless (fun _ => True)
      (enterBody env' limit d f bits s) := by
  induction d generalizing f bits s with
  | zero => exact .refl _
  | succ d ih => exact h.sameUnless_evalWith_of_enter ih (.zip f.params bits) f.body

/-- **With more declarations, what does not fail stays the same.** -/
theorem Extends.sameUnless_evalWith (h : env.Extends env') (limit d : Nat) (scope : Scope)
    (e : Expr) : (e.evalWith env (enterBody env limit d) scope).SameUnless (fun _ => True)
      (e.evalWith env' (enterBody env' limit d) scope) :=
  h.sameUnless_evalWith_of_enter (h.sameUnless_enterBody limit d) scope e

end Environment

/-! ## More room for calls -/

/-- The error says that a call is one too many. -/
def RuntimeError.ExceedsLimit (limit : Nat) (e : RuntimeError) : Prop :=
  ∃ n s, e = .recursionLimit n limit s

/-- **With more room for calls, what does not meet the limit stays the same.** -/
theorem sameUnless_enterBody_of_le {env : Environment} {limit limit' d d' : Nat} (h : d ≤ d')
    (f : Function) (bits : List Bool) (s : Span) :
    (enterBody env limit d f bits s).SameUnless (·.ExceedsLimit limit)
      (enterBody env limit' d' f bits s) := by
  induction d generalizing d' f bits s with
  | zero => exact EvalM.sameUnless_throw ⟨f.name, s, rfl⟩ _
  | succ d ih =>
    obtain ⟨d', rfl⟩ : ∃ k, d' = k + 1 := ⟨d' - 1, by omega⟩
    exact Expr.sameUnless_evalWith (fun _ _ _ => .refl _) (fun _ _ _ => .refl _)
      (fun f bits s => ih (by omega) f bits s) f.body

end Switching
