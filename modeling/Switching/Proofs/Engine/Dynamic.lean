import Switching.Proofs.Engine.CallGraph
import Switching.Proofs.Engine.Substitution
import Switching.Proofs.Engine.Tables

/-!
# Dynamic scoping

The names in the body of a function may be read as what they stand for where it is called, as far as
they are no parameters. Calls in the operands of `SOLVE_SOP` and `SOLVE_POS` are left out of it.

* `Expr.dynamicWith`, `Expr.dynamic`: the bit of an expression with this reading of names.
* `Expr.dynamicWith_call` and its siblings: the dynamic bit by the form of the expression.
* `Expr.CaptureFree`: no parameter has the name of a global variable that is read further in.
* **`Expr.dynamicWith_of_captureFree`**: if nothing is captured, the dynamic bit is the usual one.
-/

namespace Switching

/-! ## Dynamic scoping -/

def Environment.readAll (env : Environment) (names : List String) (span : Span) :
    Except RuntimeError (List Bool) :=
  names.mapM fun n => env.read .empty n false span

namespace Expr

mutual

/-- The bit of an expression where `seen` tells what the names in it stand for, and where `enter`
takes what the names in the bodies of functions stand for. The operands of `SOLVE_SOP` and
`SOLVE_POS` are sampled before anything takes the place of a name, so that calls in them have the
bits that they have elsewhere. -/
def dynamicWith (env : Environment) (limit : Nat) (enter : Environment → Enter)
    (seen : Environment) : Expr → EvalM Bool
  | .lit b _ => pure b
  | .str _ s => throw (.stringNotBinary s)
  | .var n reference s => .ofExcept (seen.read .empty n reference s)
  | .binary a op b _ => do
    let x ← a.dynamicWith env limit enter seen
    let y ← b.dynamicWith env limit enter seen
    return op.apply x y
  | .not a _ => do return !(← a.dynamicWith env limit enter seen)
  | .call n args s => do
    let f ← EvalM.ofExcept (env.callee n args.length s)
    enter seen f (← dynamicAllWith env limit enter seen args) s
  | .builtin f args s =>
    match f with
    | .toNand | .toNor =>
      match args with
      | [a] => a.dynamicWith env limit enter seen
      | _ => throw (.invalidArgument f (.notOne args.length) s)
    | .solveSop | .solvePos =>
      match args with
      | [a] => do
        let bits ← EvalM.ofExcept (seen.readAll a.inputs a.span)
        a.eval env limit (.zip a.inputs bits)
      | _ => throw (.invalidArgument f (.notOne args.length) s)
    | .input => do requestBit (← EvalM.ofExcept (inputPrompt args s)) s
    | .print | .display | .table | .graph | .exportTo | .importFrom =>
      throw (.invalidBuiltinInExpression f s)
  | .error m s => throw (.errorNode m s)

def dynamicAllWith (env : Environment) (limit : Nat) (enter : Environment → Enter)
    (seen : Environment) : List Expr → EvalM (List Bool)
  | [] => pure []
  | e :: es => do
    let b ← e.dynamicWith env limit enter seen
    let bs ← dynamicAllWith env limit enter seen es
    return b :: bs

end

end Expr

/-- The body of a function, where its parameters shadow what names stood for at the call. -/
def enterDynamic (env : Environment) (limit : Nat) : (depth : Nat) → Environment → Enter
  | 0, _, f, _, s => throw (.recursionLimit f.name limit s)
  | depth + 1, seen, f, bits, _ =>
    f.body.dynamicWith env limit (enterDynamic env limit depth) (seen.shadow f.params bits)

/-- The bit of an expression outside every function, with dynamic scoping. -/
def Expr.dynamic (env : Environment) (limit : Nat) (e : Expr) : EvalM Bool :=
  e.dynamicWith env limit (enterDynamic env limit limit) env

attribute [local simp] Expr.dynamicWith

theorem Environment.readAll_of_forall₂ {env : Environment} {names : List String}
    {bits : List Bool} (h : List.Forall₂ (fun n x => env.bit? n = some x) names bits)
    (span : Span) : env.readAll names span = .ok bits := by
  rw [readAll]
  induction h with
  | nil => rfl
  | @cons n x names bits hn _ ih =>
    have hread : env.read .empty n false span = .ok x := read_plain_eq_ok_iff.2 hn
    rw [List.mapM_cons, hread, ih]
    rfl

namespace Expr

section Dynamic

variable {env : Environment} {limit : Nat} {enter : Environment → Enter} {seen : Environment}

theorem dynamicAllWith_of_forall₂ {args : List Expr} {bits : List Bool}
    (h : List.Forall₂ (fun a x => a.dynamicWith env limit enter seen = pure x) args bits) :
    dynamicAllWith env limit enter seen args = pure bits := by
  induction h with
  | nil => rfl
  | cons ha _ ih => rw [dynamicAllWith, ha, pure_bind, ih, pure_bind]

theorem dynamicWith_call {n : String} {args : List Expr} {s : Span} {f : Function}
    {bits : List Bool} (hf : env.function? n = some f) (hlen : f.params.length = args.length)
    (hargs : List.Forall₂ (fun a x => a.dynamicWith env limit enter seen = pure x) args bits) :
    (call n args s).dynamicWith env limit enter seen = enter seen f bits s := by
  have hcallee : env.callee n args.length s = .ok f :=
    Environment.callee_eq_ok_iff.2 ⟨hf, hlen⟩
  rw [dynamicWith, hcallee, dynamicAllWith_of_forall₂ hargs]
  rfl

theorem dynamicWith_gate {f : Builtin} (hf : f = .toNand ∨ f = .toNor) {a : Expr} {s : Span} :
    (builtin f [a] s).dynamicWith env limit enter seen = a.dynamicWith env limit enter seen := by
  rcases hf with rfl | rfl <;> rw [dynamicWith]

theorem dynamicWith_solve {f : Builtin} (hf : f = .solveSop ∨ f = .solvePos) {a : Expr} {s : Span}
    {bits : List Bool} (hread : List.Forall₂ (fun n x => seen.bit? n = some x) a.inputs bits) :
    (builtin f [a] s).dynamicWith env limit enter seen = a.eval env limit (.zip a.inputs bits) := by
  have hall : seen.readAll a.inputs a.span = .ok bits := Environment.readAll_of_forall₂ hread a.span
  rcases hf with rfl | rfl <;> rw [dynamicWith, hall] <;> rfl

end Dynamic

/-! ## Names that are not captured -/

/-- No function below has a parameter with the name of a variable that a function without parameters
reads further in. -/
def CaptureFree (env : Environment) (e : Expr) : Prop :=
  ∀ f, Reaches env e f → ∀ g, Reaches env f.body g → g.params = [] →
    ∀ n ∈ g.body.names, n ∉ f.params

/-- One level of bodies: if calls have their own bits with dynamic scoping, so has the expression. -/
theorem dynamicWith_eq_evalWith {env : Environment} {limit d : Nat} (hd : d ≤ limit)
    {enterSeen : Environment → Enter} {scope : Scope} {seen : Environment} {e : Expr} {b : Bool}
    (hvalue : e.evalWith env (enterBody env limit d) scope = pure b)
    (href : e.firstReference? = none)
    (hread : ∀ n ∈ e.names, seen.bit? n = env.plain? scope n)
    (hcall : ∀ f, e.Calls env f → ∀ bits s b, bits.length = f.params.length →
      enterBody env limit d f bits s = pure b → enterSeen seen f bits s = pure b) :
    e.dynamicWith env limit enterSeen seen = pure b := by
  induction hvalue using evalWith_induction with
  | lit x s => rfl
  | var n r s x h =>
    cases r with
    | true => simp [firstReference?] at href
    | false =>
      rw [Environment.read_plain_eq_ok_iff] at h
      rw [dynamicWith, EvalM.ofExcept_eq_pure_iff, Environment.read_plain_eq_ok_iff, ← h]
      exact hread n (by simp [names])
  | binary l op r s x y _ _ ihl ihr =>
    obtain ⟨hrefl, hrefr⟩ := firstReference?_binary_eq_none_iff.1 href
    have hl := ihl hrefl (fun n hn => hread n (List.mem_append_left _ hn)) fun f hf =>
      hcall f (hf.mono callees_subset_left)
    have hr := ihr hrefr (fun n hn => hread n (List.mem_append_right _ hn)) fun f hf =>
      hcall f (hf.mono callees_subset_right)
    rw [dynamicWith, hl, pure_bind, hr, pure_bind]
  | not a s x _ ih => rw [dynamicWith, ih href hread hcall, pure_bind, Bool.not_not]
  | call n args s f bits x hf hlen hargs hbody ih =>
    have hrefs := firstReferenceAmong?_eq_none_iff.1 href
    have hargs' := forall₂_imp_of_mem (fun a ha y hy => ih a ha y hy (hrefs a ha)
      (fun m hm => hread m (mem_namesAll_iff.2 ⟨a, ha, hm⟩)) fun g hg =>
        hcall g (hg.mono (callees_subset_call ha))) hargs
    rw [dynamicWith_call hf hlen hargs']
    exact hcall f ⟨n, List.mem_cons_self, hf⟩ bits s x (hargs.length_eq.symm.trans hlen.symm) hbody
  | transform f a s x hf ha ih =>
    have hmem : a ∈ [a] := List.mem_singleton_self a
    have hrefa := firstReferenceAmong?_eq_none_iff.1 href a hmem
    have hreada : ∀ n ∈ a.names, seen.bit? n = env.plain? scope n := fun n hn =>
      hread n (mem_namesAll_iff.2 ⟨a, hmem, hn⟩)
    rcases Builtin.gate_or_solve_of_transforms hf with hgate | hsolve
    · rw [dynamicWith_gate hgate]
      exact ih hrefa hreada fun g hg => hcall g (hg.mono (callees_subset_builtin hmem))
    · obtain ⟨bits, hbits⟩ := exists_bits fun n hn =>
        isSome_plain?_of_evalWith ha (mem_inputs_iff.1 hn)
      have hseen : List.Forall₂ (fun n x => seen.bit? n = some x) a.inputs bits :=
        forall₂_imp_of_mem (fun n hn x hx => (hreada n (mem_inputs_iff.1 hn)).trans hx) hbits
      rw [dynamicWith_solve hsolve hseen]
      exact eval_zip_inputs hd ha hrefa hbits

theorem dynamicWith_of_captureFree {env : Environment} {limit d : Nat} (hd : d ≤ limit)
    {scope : Scope} {seen : Environment} {e : Expr} {b : Bool}
    (hvalue : e.evalWith env (enterBody env limit d) scope = pure b)
    (href : ReferenceFree env e) (hfree : CaptureFree env e)
    (hread : ∀ n ∈ e.names, seen.bit? n = env.plain? scope n)
    (hglobal : ∀ g, Reaches env e g → g.params = [] → ∀ n ∈ g.body.names,
      seen.bit? n = env.bit? n) :
    e.dynamicWith env limit (enterDynamic env limit d) seen = pure b := by
  induction d generalizing scope seen e b with
  | zero =>
    exact dynamicWith_eq_evalWith hd hvalue href.here hread fun f _ bits s b _ hb => by
      simp [enterBody] at hb
  | succ d ih =>
    refine dynamicWith_eq_evalWith hd hvalue href.here hread fun f hf bits s b hlen hb => ?_
    have hfree' : CaptureFree env f.body := fun g hg => hfree g (.body hf hg)
    refine ih (by omega) hb (href.body (.call hf)) hfree' (fun n hn => ?_) fun g hg hnil n hn => ?_
    -- without parameters, the body is evaluated outside every scope and reads globals
    · by_cases hnil : f.params = []
      · rw [hnil, Environment.bit?_shadow_of_notMem List.not_mem_nil]
        exact hglobal f (.call hf) hnil n hn
      · exact Environment.bit?_shadow_eq_plain?_zip seen hlen hnil (isSome_plain?_of_evalWith hb hn)
    · rw [Environment.bit?_shadow_of_notMem (hfree f (.call hf) g hg hnil n hn)]
      exact hglobal g (.body hf hg) hnil n hn

/-- If no function has a parameter with the name of a variable in the body of a function without
parameters, nothing is captured. -/
theorem captureFree_of_functions {env : Environment} {e : Expr}
    (h : ∀ f ∈ env.functions, ∀ g ∈ env.functions, g.params = [] → ∀ n ∈ g.body.names,
      n ∉ f.params) : CaptureFree env e :=
  fun f hf g hg => h f hf.mem_functions g hg.mem_functions

end Expr

end Switching
