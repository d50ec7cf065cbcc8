import Switching.Input.Basic
import Switching.Proofs.Engine.CallGraph

/-!
# Recursion never returns

All parts of an expression are evaluated, so a value takes a value of every call in it, and one less
call can be opened for each of their bodies. Below a function that returns, chains of calls therefore
come to an end.

* `Expr.ensures_evalWith`: if an expression has a value, all functions that it calls have returned.
* `Expr.CalledBy`: one function is called in the body of another one.
* `Expr.ensures_enterBody`, `Expr.acc_calledBy_of_enterBody`: below a function that returns, chains of
  calls come to an end.
* `Expr.not_reaches_of_acc`: so it does not reach itself.
* **`Expr.recursion_never_returns`**: a call of a function that reaches itself fails, and below an
  expression with a value there is no such function.
-/

namespace Switching

theorem EvalM.Ensures.of_eq_pure {α : Type} {P : α → Prop} {m : EvalM α} (h : m.Ensures P) {a : α}
    (hm : m = pure a) : P a :=
  h Silent ⟨.unavailable⟩ a (by rw [hm, run_pure])

namespace Expr

variable {env : Environment} {enter : Enter} {scope : Scope} {e : Expr} {f g : Function}
  {C : Function → Prop}

/-! ## Calls that have returned -/

/-- The functions that the names stand for have the property. -/
def AllMean (env : Environment) (C : Function → Prop) (names : List String) : Prop :=
  ∀ n ∈ names, ∀ f, env.function? n = some f → C f

theorem allMean_nil : AllMean env C [] := by
  intro n hn
  cases hn

theorem AllMean.append {names names' : List String} (h : AllMean env C names)
    (h' : AllMean env C names') : AllMean env C (names ++ names') := List.forall_mem_append.2 ⟨h, h'⟩

theorem ensures_evalAllWith {args : List Expr}
    (h : ∀ a ∈ args, (a.evalWith env enter scope).Ensures fun _ => AllMean env C a.callees) :
    (evalAllWith env enter scope args).Ensures fun _ => AllMean env C (calleesAll args) := by
  induction args with
  | nil => exact EvalM.ensures_pure allMean_nil
  | cons a args ih =>
    obtain ⟨ha, hargs⟩ := List.forall_mem_cons.1 h
    exact ha.bind fun _ ha => (ih hargs).bind fun _ hargs => EvalM.ensures_pure (ha.append hargs)

theorem calleesAll_of_inputPrompt {args : List Expr} {s : Span} {prompt : String}
    (h : inputPrompt args s = .ok prompt) : calleesAll args = [] := by
  rcases args with _ | ⟨a, _ | ⟨b, args⟩⟩
  · rfl
  · cases a with
    | str t s => rfl
    | lit _ _ | var _ _ _ | binary _ _ _ _ | not _ _ | call _ _ _ | builtin _ _ _ | error _ _ =>
      simp [inputPrompt] at h
  · simp [inputPrompt] at h

/-- If functions have a property once they have returned, then all functions that are called in an
expression have it once the expression has a value. -/
theorem ensures_evalWith (henter : ∀ f bits s, (enter f bits s).Ensures fun _ => C f) (e : Expr) :
    (e.evalWith env enter scope).Ensures fun _ => AllMean env C e.callees := by
  induction e with
  | lit b s => exact EvalM.ensures_pure allMean_nil
  | str t s => exact EvalM.ensures_throw _
  | var n r s => exact EvalM.ensures_ofExcept fun _ _ => allMean_nil
  | binary a op b s iha ihb =>
    exact iha.bind fun _ ha => ihb.bind fun _ hb => EvalM.ensures_pure (ha.append hb)
  | not a s ih => exact ih.bind fun _ ha => EvalM.ensures_pure ha
  | call n args s ih =>
    have hcallee : (EvalM.ofExcept (env.callee n args.length s)).Ensures
        fun f => env.function? n = some f :=
      EvalM.ensures_ofExcept fun f hf => (Environment.callee_eq_ok_iff.1 hf).1
    refine hcallee.bind fun f hf => (ensures_evalAllWith ih).bind fun bits hargs => ?_
    refine (henter f bits s).mono fun _ hreturned => List.forall_mem_cons.2 ⟨fun g hg => ?_, hargs⟩
    obtain rfl := Option.some.inj (hf.symm.trans hg)
    exact hreturned
  | builtin f args s ih =>
    cases f with
    | toNand | toNor | solveSop | solvePos =>
      rcases args with _ | ⟨a, _ | ⟨b, args⟩⟩
      · exact EvalM.ensures_throw _
      · refine (ih a (List.mem_singleton_self a)).mono fun _ ha => ?_
        rwa [callees, calleesAll, calleesAll, List.append_nil]
      · exact EvalM.ensures_throw _
    | input =>
      have hprompt : (EvalM.ofExcept (inputPrompt args s)).Ensures fun _ => calleesAll args = [] :=
        EvalM.ensures_ofExcept fun _ h => calleesAll_of_inputPrompt h
      refine hprompt.bind fun prompt hnone => (EvalM.ensures_true _).mono fun _ _ => ?_
      rw [callees, hnone]
      exact allMean_nil
    | print | display | table | graph | exportTo | importFrom => exact EvalM.ensures_throw _
  | error m s => exact EvalM.ensures_throw _

/-! ## Chains of calls -/

def CalledBy (env : Environment) (g f : Function) : Prop := f.body.Calls env g

/-- Below a function that has returned, chains of calls come to an end. -/
theorem ensures_enterBody (limit d : Nat) (f : Function) (bits : List Bool) (s : Span) :
    (enterBody env limit d f bits s).Ensures fun _ => Acc (CalledBy env) f := by
  induction d generalizing f bits s with
  | zero => exact EvalM.ensures_throw _
  | succ d ih =>
    refine (ensures_evalWith ih f.body).mono fun _ hcalled => Acc.intro f fun g hg => ?_
    obtain ⟨n, hn, hg⟩ := hg
    exact hcalled n hn g hg

theorem acc_calledBy_of_enterBody {limit d : Nat} {bits : List Bool} {s : Span} {b : Bool}
    (h : enterBody env limit d f bits s = pure b) : Acc (CalledBy env) f :=
  (ensures_enterBody limit d f bits s).of_eq_pure h

/-- **A function that returns does not reach itself.** -/
theorem not_reaches_of_acc (h : Acc (CalledBy env) f) : ¬ Reaches env f.body f := by
  induction h with
  | intro f _ ih =>
    intro hr
    cases hr with
    | call hc => exact ih f hc (.call hc)
    | body hc hr => exact ih _ hc (hr.trans (.call hc))

theorem Reaches.acc (h : Reaches env e g) (hcalls : ∀ f, e.Calls env f → Acc (CalledBy env) f) :
    Acc (CalledBy env) g := by
  induction h with
  | call hc => exact hcalls _ hc
  | body hc _ ih => exact ih fun f hf => (hcalls _ hc).inv hf

/-! ## Runs -/

/-- **Recursion never returns**, whatever is declared, in every scope, with any room for calls and
whoever replies. A call of a function that reaches itself fails, with any arguments. And if an
expression has a value, no function that it reaches reaches itself. -/
theorem recursion_never_returns {σ : Type} [Replier σ] (env : Environment) (limit d : Nat)
    (scope : Scope) (r : σ) :
    (∀ f, Reaches env f.body f → ∀ args s, ∃ err,
      (((call f.name args s).evalWith env (enterBody env limit d) scope).run.run r).1 =
        .error err) ∧
    ∀ e b, ((e.evalWith env (enterBody env limit d) scope).run.run r).1 = .ok b →
      ∀ g, Reaches env e g → ¬ Reaches env g.body g := by
  have hvalue : ∀ e b, ((e.evalWith env (enterBody env limit d) scope).run.run r).1 = .ok b →
      ∀ g, Reaches env e g → ¬ Reaches env g.body g := fun e b h g hg => by
    have hcalls := ensures_evalWith (ensures_enterBody limit d) e σ r b h
    refine not_reaches_of_acc (hg.acc fun f hf => ?_)
    obtain ⟨n, hn, hf⟩ := hf
    exact hcalls n hn f hf
  refine ⟨fun f hf args s => ?_, hvalue⟩
  cases hout : (((call f.name args s).evalWith env (enterBody env limit d) scope).run.run r).1 with
  | error err => exact ⟨err, rfl⟩
  | ok b =>
    have hcall : (call f.name args s).Calls env f := ⟨f.name, List.mem_cons_self, hf.function?_name⟩
    exact absurd hf (hvalue _ b hout f (.call hcall))

/-- `F(X) = TO_NAND(G(X) xor 1)`. -/
def outerFunction : Function :=
  ⟨"F", ["X"], .builtin .toNand
    [.binary (.call "G" [.var "X" false .none] .none) .xor (.lit true .none) .none] .none, .none⟩

/-- `G(X) = INPUT() and H(F(X))`. -/
def innerFunction : Function :=
  ⟨"G", ["X"], .binary (.builtin .input [] .none) .and
    (.call "H" [.call "F" [.var "X" false .none] .none] .none) .none, .none⟩

/-- `H(X) = not X`. -/
def plainFunction : Function := ⟨"H", ["X"], .not (.var "X" false .none) .none, .none⟩

/-- `F` reaches itself through the operand of a built-in function and the argument of a call. So `F(1)`
fails, whatever is replied, and `H(1)`, which has a value, does not reach `F`. -/
theorem recursion_never_returns_mutual :
    let env : Environment := ⟨[], [outerFunction, innerFunction, plainFunction]⟩
    let r := Script.mk [some true, some false]
    let e : Expr := .call "H" [.lit true .none] .none
    Reaches env outerFunction.body outerFunction ∧
      (∃ err, (((call "F" [.lit true .none] .none).evalWith env (enterBody env 256 256)
        .empty).run.run r).1 = .error err) ∧
      ((e.evalWith env (enterBody env 256 256) .empty).run.run r).1 = .ok false ∧
      ¬ Reaches env e outerFunction := by
  intro env r e
  have houter : Reaches env outerFunction.body outerFunction :=
    .body (f := innerFunction) ⟨"G", by decide, rfl⟩ (.call ⟨"F", by decide, rfl⟩)
  have hvalue : ((e.evalWith env (enterBody env 256 256) .empty).run.run r).1 = .ok false := rfl
  obtain ⟨hfails, hreturns⟩ := recursion_never_returns env 256 256 .empty r
  exact ⟨houter, hfails outerFunction houter [.lit true .none] .none, hvalue,
    fun h => hreturns e false hvalue outerFunction h houter⟩

end Expr

end Switching
