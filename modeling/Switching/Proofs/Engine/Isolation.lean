import Switching.Proofs.Engine.Coupling
import Switching.Proofs.Engine.Substitution

/-!
# What a call sees of the environment

In the body of a function with parameters, plain names are parameters, and only references are global
variables. In the body of a function without parameters it is the other way round: plain names are
global variables, and references fail. So a call sees the functions, the bits of its arguments and
these global variables. It sees nothing else of the environment, and nothing of the scope around it.

* `Function.ReadsGlobal`: the global variables that the body of a function reads.
* `Function.AgreeBelow`: two environments agree on all that a function and those below it read.
* `Function.read_eq`: then every variable in the body reads the same.
* `Function.AgreeBelow.enterBody_eq`: and so the function does the same, with any number of calls.
* **`Expr.call_isolated`**: calls of it, in any scope, do the same.
-/

namespace Switching

variable {env env' : Environment} {f g : Function}

/-! ## The global variables of a function -/

/-- The body of the function reads the global variable: by a reference where there are parameters, and
by its plain name where there are none. -/
inductive Function.ReadsGlobal (f : Function) (n : String) : Prop where
  | reference (hparams : f.params ≠ []) (s : Span) (h : Expr.var n true s ∈ f.body.nodes)
  | plain (hparams : f.params = []) (s : Span) (h : Expr.var n false s ∈ f.body.nodes)

/-- The environments agree on the global variables that the function reads, and on those that the
functions below it read: they have the same bit, or there is none in either. -/
def Function.AgreeBelow (env env' : Environment) (f : Function) : Prop :=
  ∀ g, g = f ∨ Expr.Reaches env f.body g → ∀ n, g.ReadsGlobal n → env.bit? n = env'.bit? n

theorem Function.AgreeBelow.called (h : f.AgreeBelow env env') (hg : f.body.Calls env g) :
    g.AgreeBelow env env' := by
  rintro k (rfl | hk)
  · exact h k (.inr (.call hg))
  · exact h k (.inr (.body hg hk))

theorem Function.read_eq (h : ∀ n, f.ReadsGlobal n → env.bit? n = env'.bit? n) {bits : List Bool}
    (hlen : bits.length = f.params.length) {n : String} {r : Bool} {s : Span}
    (hn : Expr.var n r s ∈ f.body.nodes) :
    env.read (.zip f.params bits) n r s = env'.read (.zip f.params bits) n r s := by
  unfold Environment.read
  by_cases hparams : f.params = []
  · have hempty : (Scope.zip f.params bits).isEmpty = true := by rw [hparams]; rfl
    rw [hempty]
    cases r with
    | false => simp only [h n (.plain hparams s hn)]
    | true => rfl
  · rw [Scope.isEmpty_zip hparams hlen]
    cases r with
    | false => rfl
    | true => simp only [h n (.reference hparams s hn)]

/-! ## Calls -/

theorem bitsCorrespond_eq : BitsCorrespond Eq Eq where
  refl _ := rfl
  not _ _ := congrArg _
  apply op _ _ _ _ ha hb := congrArg₂ op.apply ha hb
  reply _ _ := EvalM.coupled_eq_iff.2 rfl

theorem Function.AgreeBelow.enterBody_eq (hfun : ∀ n, env.function? n = env'.function? n)
    (h : f.AgreeBelow env env') (limit d : Nat) {bits : List Bool}
    (hlen : bits.length = f.params.length) (s : Span) :
    enterBody env limit d f bits s = enterBody env' limit d f bits s := by
  induction d generalizing f bits s with
  | zero => rfl
  | succ d ih =>
    refine EvalM.coupled_eq_iff.1
      (Expr.coupled_evalWith bitsCorrespond_eq (Environment.callee_congr hfun) ?_ ?_)
    · rintro a ha n r s rfl
      rw [read_eq (h f (.inl rfl)) hlen ha]
      cases env'.read (.zip f.params bits) n r s with
      | ok b => exact .ok rfl
      | error e => exact .error rfl
    · intro g hg bits bits' s hlen hbits
      rw [List.forall₂_eq_eq_eq] at hbits
      rw [← hbits, EvalM.coupled_eq_iff]
      exact ih (h.called hg) hlen s

namespace Expr

/-- **A call sees no other global variable.** Let two environments have the same functions, and agree
on the global variables that a function and those below it read. Then entering the function with the
same bits is the same in both: the same prompts, and for the same replies the same bit or error. And so
is every call of it whose arguments come to the same, be they written differently and in different
scopes. -/
theorem call_isolated (hfun : ∀ n, env.function? n = env'.function? n)
    (h : f.AgreeBelow env env') (limit d : Nat) :
    (∀ bits s, bits.length = f.params.length →
      enterBody env limit d f bits s = enterBody env' limit d f bits s) ∧
    ∀ name args args' scope scope' s, env.function? name = some f → args.length = args'.length →
      evalAllWith env (enterBody env limit d) scope args =
        evalAllWith env' (enterBody env' limit d) scope' args' →
      (call name args s).evalWith env (enterBody env limit d) scope =
        (call name args' s).evalWith env' (enterBody env' limit d) scope' := by
  have henter : ∀ bits s, bits.length = f.params.length →
      enterBody env limit d f bits s = enterBody env' limit d f bits s := fun bits s hlen =>
    Function.AgreeBelow.enterBody_eq hfun h limit d hlen s
  refine ⟨henter, fun name args args' scope scope' s hf hlen hargs => ?_⟩
  rw [evalWith, evalWith, ← Environment.callee_congr hfun, ← hlen, ← hargs]
  cases hcallee : env.callee name args.length s with
  | error e => rfl
  | ok f' =>
    obtain ⟨hf', hparams⟩ := Environment.callee_eq_ok_iff.1 hcallee
    obtain rfl := Option.some.inj (hf.symm.trans hf')
    -- The arguments come to as many bits as there are parameters.
    have hbits : EvalM.Coupled Eq Eq
        (fun bits bits' => List.Forall₂ Eq bits bits' ∧ bits.length = args.length)
        (evalAllWith env (enterBody env limit d) scope args)
        (evalAllWith env (enterBody env limit d) scope args) :=
      coupled_evalAllWith fun a _ => EvalM.coupled_eq_iff.2 rfl
    refine EvalM.coupled_eq_iff.1 (hbits.bind fun bits bits' hbits => ?_)
    obtain ⟨heq, hcount⟩ := hbits
    rw [List.forall₂_eq_eq_eq] at heq
    rw [← heq, EvalM.coupled_eq_iff]
    exact henter bits s (hcount.trans hparams.symm)

/-- `F(A) = G(A) xor (C* and INPUT("c"))`. -/
def chainedFunction : Function :=
  ⟨"F", ["A"], .binary (.call "G" [.var "A" false .none] .none) .xor
    (.binary (.var "C" true .none) .and (.builtin .input [.str "c" .none] .none) .none) .none, .none⟩

/-- `F` with `G(X) = X and H()` and `H() = E`. -/
def chainedFunctions : List Function :=
  [chainedFunction,
    ⟨"G", ["X"], .binary (.var "X" false .none) .and (.call "H" [] .none) .none, .none⟩,
    ⟨"H", [], .var "E" false .none, .none⟩]

/-- `F` and the functions below it read `C` and `E`. With `A = 0` in one environment, and `A = 1` and
`X = 0` in the other one, `F(1)` and `F(A)` are the same. -/
theorem call_isolated_chained :
    let env : Environment := ⟨[("A", false), ("C", true), ("E", true)], chainedFunctions⟩
    let env' : Environment :=
      ⟨[("X", false), ("E", true), ("A", true), ("C", true)], chainedFunctions⟩
    let scope : Scope := ⟨[("A", false)]⟩
    let r := Recorded.mk (Script.mk [some true]) []
    let o := ((call "F" [.lit true .none] .none).evalWith env (enterBody env 3 3) scope).run.run r
    let o' := ((call "F" [.var "A" false .none] .none).evalWith env' (enterBody env' 3 3)
      .empty).run.run r
    chainedFunction.AgreeBelow env env' ∧ env.bit? "A" ≠ env'.bit? "A" ∧ env.bit? "X" ≠ env'.bit? "X" ∧
      o'.1 = .ok false ∧ o.1 = .ok false ∧ o.2.prompts = ["c"] := by
  intro env env' scope r o o'
  have hagree : chainedFunction.AgreeBelow env env' := by
    intro g hg n hn
    have hmem : g ∈ chainedFunctions := by
      rcases hg with rfl | hg
      · exact List.mem_cons_self
      · exact hg.mem_functions
    have hname : n = "C" ∨ n = "E" := by
      simp only [chainedFunctions, chainedFunction, List.mem_cons, List.not_mem_nil, or_false] at hmem
      rcases hmem with rfl | rfl | rfl <;> rcases hn with ⟨hparams, s, hs⟩ | ⟨hparams, s, hs⟩ <;>
        simp_all [nodes, nodesAll]
    rcases hname with rfl | rfl <;> rfl
  have hfun : ∀ n, env.function? n = env'.function? n := fun _ => rfl
  have hcall := (call_isolated hfun hagree 3 3).2 "F" [.lit true .none]
    [.var "A" false .none] scope .empty .none rfl rfl rfl
  have ho : o' = (.ok false, Recorded.mk (Script.mk []) ["c"]) := rfl
  have heq : o = o' := congrArg (fun m => m.run.run r) hcall
  refine ⟨hagree, by decide, by decide, ?_, ?_, ?_⟩
  · rw [ho]
  · rw [heq, ho]
  · rw [heq, ho]

end Expr

end Switching
