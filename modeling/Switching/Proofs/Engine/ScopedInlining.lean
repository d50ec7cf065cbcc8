import Switching.Proofs.Engine.Inlining
import Switching.Proofs.Engine.Resynthesis

/-!
# Displaying with inlining inside a function

Where every function has parameters, the body of each is evaluated in a scope of its own: its plain
names are its parameters, and its references are global variables. So nothing can be captured when
the arguments are put in place of the parameters, and references mean the same in every scope.

* `Expr.evalWith_inlinedCall`: a body with the arguments in place has the bit of the call.
* `Expr.evalWith_display_inlined`: all levels of bodies keep the value.
* **`Expr.eval_display_inlined_scoped`**: displaying with inlining keeps the value in a scope.
-/

namespace Switching.Expr

variable {env : Environment} {config : Config}

/-! ## The body in place of the call -/

/-- In a scope, the body of a function with the arguments in place of its parameters has the bit
that the body has in the scope of the call. -/
theorem evalWith_inlinedCall {enter : Enter} {scope : Scope} (hscope : scope.isEmpty = false)
    {params : List String} (hparams : params ≠ []) {args : List Expr} {bits : List Bool}
    (hargs : List.Forall₂ (fun a x => a.evalWith env enter scope = pure x) args bits)
    (hlen : params.length = args.length) {body : Expr} {b : Bool}
    (h : body.evalWith env enter (.zip params bits) = pure b) :
    (body.substitute (params.zip args)).evalWith env enter scope = pure b := by
  have hzip : (Scope.zip params bits).isEmpty = false :=
    Scope.isEmpty_zip hparams (hargs.length_eq.symm.trans hlen.symm)
  refine evalWith_substitute rfl hargs (fun n x hn => ?_) (fun n s x hn => ?_) h
  · rw [Environment.plain?, hzip, if_neg Bool.false_ne_true] at hn
    exact Option.or_eq_some_iff.2 (.inl hn)
  · simp only [Environment.read, hzip] at hn
    simpa only [Environment.read, hscope] using hn

/-! ## All levels of bodies -/

/-- All levels of bodies: in a scope, an expression with a value is displayed as one with the same
value. -/
theorem evalWith_display_inlined {rounds : Nat} {available : List Function}
    (hrounds : available.length ≤ rounds) {d : Nat} (hd : d ≤ config.maxCallDepth)
    {enter' : Enter} {scope : Scope} (hscope : scope.isEmpty = false) {e e' : Expr} {b : Bool}
    (hvalue : e.evalWith env (enterBody env config.maxCallDepth d) scope = pure b)
    (hdisplay : e.displayWith env config (inlinedBody env config rounds available) = pure e')
    (havailable : Available env available e) (hparams : ∀ f ∈ env.functions, f.params ≠ []) :
    e'.evalWith env enter' scope = pure b := by
  induction rounds generalizing available d scope e e' b with
  | zero =>
    refine evalWith_displayWith_of_calls hd hvalue hdisplay fun f hcalls => ?_
    have hfind := havailable f (.call hcalls)
    rw [List.length_eq_zero_iff.1 (Nat.le_zero.1 hrounds)] at hfind
    nomatch hfind
  | succ rounds ih =>
    refine evalWith_displayWith_of_calls hd hvalue hdisplay fun f hcalls => ?_
    have hfind := havailable f (.call hcalls)
    have hne := hparams f (Reaches.call hcalls).mem_functions
    refine .replaced (inlinedBody_succ_eq_some_iff.2 ⟨f, hfind, rfl, rfl, rfl⟩) ?_
    intro args bits s x body' hlen hargs hx hbody'
    refine evalWith_inlinedCall hscope hne hargs hlen ?_
    have hacyclic := not_reaches_of_acc (acc_calledBy_of_enterBody hx)
    have hlt := length_filter_name_lt hfind
    cases d with
    | zero => simp [enterBody] at hx
    | succ d =>
      have hbits : bits.length = f.params.length := hargs.length_eq.symm.trans hlen.symm
      exact ih (by omega) (by omega) (Scope.isEmpty_zip hne hbits) hx hbody'
        (havailable.body hcalls hacyclic)

/-! ## Runs -/

/-- **Displaying with inlining keeps the value in a scope**: where every function has parameters and
there is no `INPUT`, an expression and what it displays as have the same bit in every scope that is
not empty, whatever names the parameters share and wherever there are references. -/
theorem eval_display_inlined_scoped {σ : Type} [Replier σ] {scope : Scope} {e e' : Expr} {b : Bool}
    (hinline : config.inlineCalls = true) (hparams : ∀ f ∈ env.functions, f.params ≠ [])
    (hscope : scope.isEmpty = false) (hinput : InputFree env e) {s s' : σ}
    (h : ((e.eval env config.maxCallDepth scope).run.run s).1 = .ok b)
    (hdisplay : ((e.display env config).run.run s').1 = .ok e') (s'' : σ) :
    ((e'.eval env config.maxCallDepth scope).run.run s'').1 = .ok b := by
  have hvalue := (settled_eval hinput).eq_pure h
  have hshown := (settled_display hinput).eq_pure hdisplay
  rw [display, if_pos hinline] at hshown
  have hb : e'.eval env config.maxCallDepth scope = pure b :=
    evalWith_display_inlined (Nat.le_refl _) (Nat.le_refl _) hscope hvalue hshown
      (fun f hf => hf.function?_name) hparams
  rw [hb, EvalM.run_pure]

/-- The variable `A = 1` and the functions `G(A) = TO_NAND(A or A*)` and
`F(A) = G(not A) xor A*`. -/
def sharedDeclared : Environment :=
  ⟨[("A", true)],
    [⟨"G", ["A"],
      .builtin .toNand [.binary (.var "A" false .none) .or (.var "A" true .none) .none] .none,
      .none⟩,
    ⟨"F", ["A"],
      .binary (.call "G" [.not (.var "A" false .none) .none] .none) .xor (.var "A" true .none)
        .none,
      .none⟩]⟩

/-- In a scope with `A = 0`, `not F(A)` has the bit 1. In what is displayed, the parameter `A` of
`G` is replaced by `not A`, and `A*` stays. -/
theorem eval_display_inlined_scoped_shared :
    let s : Silent := ⟨.unavailable⟩
    let config : Config := { inlineCalls := true }
    let scope : Scope := ⟨[("A", false)]⟩
    let inverted : Expr := .not (.var "A" false .none) .none
    let reference : Expr := .var "A" true .none
    let e : Expr := .not (.call "F" [.var "A" false .none] .none) .none
    let shown : Expr := .not (.binary (.binary (.binary inverted .nand inverted .none) .nand
      (.binary reference .nand reference .none) .none) .xor reference .none) .none
    (∀ f ∈ sharedDeclared.functions, f.params ≠ []) ∧ scope.isEmpty = false ∧
      InputFree sharedDeclared e ∧
      ((e.eval sharedDeclared config.maxCallDepth scope).run.run s).1 = .ok true ∧
      ((e.display sharedDeclared config).run.run s).1 = .ok shown ∧
      ((shown.eval sharedDeclared config.maxCallDepth scope).run.run s).1 = .ok true := by
  intro s config scope inverted reference e shown
  have hparams : ∀ f ∈ sharedDeclared.functions, f.params ≠ [] := by decide
  have hinput : InputFree sharedDeclared e := by
    refine throughout_of_functions rfl fun f hf => ?_
    rcases List.mem_pair.1 hf with rfl | rfl <;> rfl
  have hvalue : ((e.eval sharedDeclared config.maxCallDepth scope).run.run s).1 = .ok true := rfl
  have hshown : ((e.display sharedDeclared config).run.run s).1 = .ok shown := rfl
  exact ⟨hparams, rfl, hinput, hvalue, hshown,
    eval_display_inlined_scoped rfl hparams rfl hinput hvalue hshown s⟩

end Switching.Expr
