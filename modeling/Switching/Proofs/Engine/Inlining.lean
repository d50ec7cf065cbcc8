import Switching.Input.Basic
import Switching.Proofs.Engine.Display
import Switching.Proofs.Engine.Dynamic
import Switching.Proofs.Engine.Gates
import Switching.Proofs.Engine.Recursion

/-!
# What displaying with inlining keeps

The body of a function is displayed first, with the calls in it replaced, and the arguments are put
in place of the parameters afterwards. A global variable that a function without parameters reads
is then taken for a parameter of the same name of any call around it.

* `Expr.Available`: the functions that are there to replace calls.
* `Expr.Inlines`: what replaces the calls of a function has their dynamic bits.
* `Expr.exists_dynamic`: the displayed expression has the dynamic bit.
* **`Expr.eval_display_inlined`**: the displayed expression has the bit of the expression exactly if
  the dynamic bit is the same.
* **`Expr.eval_display_inlined_captured`**: it can be another one.
-/

namespace Switching.Expr

/-! ## What the displayed expression means -/

section Display

variable {env : Environment} {config : Config}

/-- Every function that the expression reaches is available to replace its calls. -/
def Available (env : Environment) (available : List Function) (e : Expr) : Prop :=
  ∀ f, Reaches env e f → available.find? (·.name = f.name) = some f

/-- A function is not available in its own body, but if it does not reach itself, it is not needed
there. -/
theorem Available.body {available : List Function} {e : Expr} {f : Function}
    (h : Available env available e) (hf : e.Calls env f) (hacyclic : ¬ Reaches env f.body f) :
    Available env (available.filter (·.name ≠ f.name)) f.body := by
  intro g hg
  have hne : g.name ≠ f.name := by
    intro hname
    have hg' := hg.function?_name
    rw [hname, hf.function?_name] at hg'
    obtain rfl := Option.some.inj hg'
    exact hacyclic hg
  rw [find?_filter_name, if_neg hne]
  exact h g (.body hf hg)

/-- What replaces the calls of a function has their dynamic bits, where the function returns. -/
def Inlines (inline : Inline) (enter enter' : Enter) (enterSeen : Environment → Enter)
    (seen : Environment) (f : Function) : Prop :=
  ∃ body, inline f.name f.params.length = some (f.params, body) ∧
    ∀ bits s b body', enter f bits s = pure b → body = pure body' →
      ∀ cs, cs.length = f.params.length → ∃ c, enterSeen seen f cs s = pure c ∧
        body'.evalWith (seen.shadow f.params cs) enter' .empty = pure c

/-- One level of bodies: if what replaces calls has their dynamic bits, the displayed expression has
the dynamic bit of the expression. -/
theorem exists_dynamicWith {inline : Inline} {enter enter' : Enter}
    {enterSeen : Environment → Enter} {scope : Scope} {seen : Environment} {e e' : Expr} {b : Bool}
    (hvalue : e.evalWith env enter scope = pure b)
    (hdisplay : e.displayWith env config inline = pure e')
    (href : e.firstReference? = none) (hread : ∀ n ∈ e.names, (seen.bit? n).isSome)
    (hcall : ∀ f, e.Calls env f → Inlines inline enter enter' enterSeen seen f) :
    ∃ c, e.dynamicWith env config.maxCallDepth enterSeen seen = pure c ∧
      e'.evalWith seen enter' .empty = pure c := by
  induction hvalue using evalWith_induction generalizing e' with
  | lit x s =>
    obtain rfl := EvalM.pure_inj.1 hdisplay
    exact ⟨x, rfl, rfl⟩
  | var n r s x _ =>
    obtain rfl := EvalM.pure_inj.1 hdisplay
    cases r with
    | true => simp [firstReference?] at href
    | false =>
      obtain ⟨c, hc⟩ := Option.isSome_iff_exists.1 (hread n (by simp [names]))
      have hvar : (var n false s).evalWith seen enter' .empty = pure c :=
        evalWith_var_eq_pure_iff.2 (Environment.read_plain_eq_ok_iff.2 hc)
      exact ⟨c, hvar, hvar⟩
  | binary l op r s x y _ _ ihl ihr =>
    obtain ⟨l', hl, r', hr, rfl⟩ := displayWith_binary_eq_pure_iff.1 hdisplay
    obtain ⟨hrefl, hrefr⟩ := firstReference?_binary_eq_none_iff.1 href
    obtain ⟨p, hp, hp'⟩ := ihl hl hrefl (fun n hn => hread n (List.mem_append_left _ hn))
      fun f hf => hcall f (hf.mono callees_subset_left)
    obtain ⟨q, hq, hq'⟩ := ihr hr hrefr (fun n hn => hread n (List.mem_append_right _ hn))
      fun f hf => hcall f (hf.mono callees_subset_right)
    refine ⟨op.apply p q, ?_, evalWith_binary_eq_pure_iff.2 ⟨p, hp', q, hq', rfl⟩⟩
    rw [dynamicWith, hp, pure_bind, hq, pure_bind]
  | not a s x _ ih =>
    obtain ⟨a', ha, rfl⟩ := displayWith_not_eq_pure_iff.1 hdisplay
    obtain ⟨p, hp, hp'⟩ := ih ha href hread hcall
    refine ⟨!p, by rw [dynamicWith, hp, pure_bind], evalWith_not_eq_pure_iff.2 ?_⟩
    rw [hp', Bool.not_not]
  | call n args s f bits x hf hlen hargs hbody ih =>
    obtain ⟨body, hinline, hinlined⟩ := hcall f ⟨n, List.mem_cons_self, hf⟩
    rw [Environment.name_of_function? hf, hlen] at hinline
    obtain ⟨args', hargs', body', hbody', rfl⟩ := displayWith_call_of_some hinline hdisplay
    have hrefs := firstReferenceAmong?_eq_none_iff.1 href
    obtain ⟨cs, hcs, hcs'⟩ := exists_forall₂_of_mem (fun a ha y a' hy ha' => ih a ha y hy ha'
      (hrefs a ha) (fun m hm => hread m (mem_namesAll_iff.2 ⟨a, ha, hm⟩))
      fun g hg => hcall g (hg.mono (callees_subset_call ha))) hargs hargs'
    obtain ⟨c, hc, hc'⟩ :=
      hinlined bits s x body' hbody hbody' cs (hcs.length_eq.symm.trans hlen.symm)
    exact ⟨c, by rw [dynamicWith_call hf hlen hcs, hc], evalWith_substitute_shadow hcs' hc'⟩
  | transform f a s x hf _ ih =>
    have hmem : a ∈ [a] := List.mem_singleton_self a
    have hrefa := firstReferenceAmong?_eq_none_iff.1 href a hmem
    have hreada : ∀ n ∈ a.names, (seen.bit? n).isSome := fun n hn =>
      hread n (mem_namesAll_iff.2 ⟨a, hmem, hn⟩)
    rcases displayWith_transforms hf hdisplay with
      ⟨hgate, g, a', ha', rfl⟩ | ⟨hsolve, form, t, ht, rfl⟩
    · obtain ⟨c, hc, hc'⟩ := ih ha' hrefa hreada fun g hg =>
        hcall g (hg.mono (callees_subset_builtin hmem))
      exact ⟨c, by rw [dynamicWith_gate hgate, hc], evalWith_toGateForm g hc'⟩
    · obtain ⟨bits, hbits⟩ := exists_bits fun n hn => hreada n (mem_inputs_iff.1 hn)
      have hplain : List.Forall₂ (fun n x => seen.plain? .empty n = some x) a.inputs bits := hbits
      obtain ⟨c, hc, hmin⟩ := evalWith_minimize_truthTable enter' ht hplain
      exact ⟨c, by rw [dynamicWith_solve hsolve hbits, hc], hmin form a.span⟩

/-- All levels: with inlining, an expression with a value is displayed as one that has the dynamic
bit. A function that returns does not reach itself, so that it is still there to replace every call
in the bodies of others. -/
theorem exists_dynamic {rounds : Nat} {available : List Function} {d : Nat} {enter' : Enter}
    {scope : Scope} {seen : Environment} {e e' : Expr} {b : Bool}
    (hvalue : e.evalWith env (enterBody env config.maxCallDepth d) scope = pure b)
    (hdisplay : e.displayWith env config (inlinedBody env config rounds available) = pure e')
    (href : ReferenceFree env e) (hread : ∀ n ∈ e.names, (seen.bit? n).isSome)
    (hseen : ∀ n, (env.bit? n).isSome → (seen.bit? n).isSome)
    (havailable : Available env available e)
    (hrounds : available.length ≤ rounds) :
    ∃ c, e.dynamicWith env config.maxCallDepth (enterDynamic env config.maxCallDepth d) seen =
        pure c ∧ e'.evalWith seen enter' .empty = pure c := by
  induction rounds generalizing available d scope seen e e' b with
  | zero =>
    refine exists_dynamicWith hvalue hdisplay href.here hread fun f hf => ?_
    have hfind := havailable f (.call hf)
    rw [List.length_eq_zero_iff.1 (Nat.le_zero.1 hrounds)] at hfind
    nomatch hfind
  | succ rounds ih =>
    refine exists_dynamicWith hvalue hdisplay href.here hread fun f hcalls => ?_
    have hfind := havailable f (.call hcalls)
    refine ⟨_, inlinedBody_succ_eq_some_iff.2 ⟨f, hfind, rfl, rfl, rfl⟩, ?_⟩
    intro bits s b body' hb hbody' cs hcs
    have hacyclic := not_reaches_of_acc (acc_calledBy_of_enterBody hb)
    cases d with
    | zero => simp [enterBody] at hb
    | succ d =>
      have hlt := length_filter_name_lt hfind
      refine ih hb hbody' (href.body (.call hcalls)) (fun n hn => ?_) (fun n hn => ?_)
        (havailable.body hcalls hacyclic) (by omega)
      · rw [Environment.isSome_bit?_shadow_iff hcs]
        exact (Environment.mem_or_isSome_of_plain?_zip (isSome_plain?_of_evalWith hb hn)).imp_right
          (hseen n)
      · rw [Environment.isSome_bit?_shadow_iff hcs]
        exact .inr (hseen n hn)

end Display

/-! ## Runs -/

/-- **What displaying with inlining keeps**: without `INPUT` and references, an expression with a bit
is displayed as one that has the dynamic bit. So it has the bit of the expression exactly if dynamic
scoping gives the same one, and in particular if nothing is captured. -/
theorem eval_display_inlined {σ : Type} [Replier σ] {env : Environment} {config : Config}
    {e e' : Expr} {b : Bool} (hinline : config.inlineCalls = true) (hinput : InputFree env e)
    (href : ReferenceFree env e) {s s' : σ}
    (h : ((e.eval env config.maxCallDepth .empty).run.run s).1 = .ok b)
    (hdisplay : ((e.display env config).run.run s').1 = .ok e') (s'' : σ) :
    (∃ c, ((e'.eval env config.maxCallDepth .empty).run.run s'').1 = .ok c) ∧
      (((e'.eval env config.maxCallDepth .empty).run.run s'').1 = .ok b ↔
        e.dynamic env config.maxCallDepth = pure b) ∧
      (CaptureFree env e → ((e'.eval env config.maxCallDepth .empty).run.run s'').1 = .ok b) := by
  have hvalue := (settled_eval hinput).eq_pure h
  have hshown := (settled_display hinput).eq_pure hdisplay
  rw [display, if_pos hinline] at hshown
  have hread : ∀ n ∈ e.names, (env.bit? n).isSome := fun n hn =>
    isSome_plain?_of_evalWith hvalue hn
  obtain ⟨c, hc, hc'⟩ := exists_dynamic hvalue hshown href hread (fun _ hn => hn)
    (fun f hf => hf.function?_name) (Nat.le_refl _)
  have hrun : ((e'.eval env config.maxCallDepth .empty).run.run s'').1 = .ok c := by
    rw [eval, hc', EvalM.run_pure]
  have hiff : ((e'.eval env config.maxCallDepth .empty).run.run s'').1 = .ok b ↔
      e.dynamic env config.maxCallDepth = pure b := by
    rw [hrun, dynamic, hc, EvalM.pure_inj, Except.ok.injEq]
  refine ⟨⟨c, hrun⟩, hiff, fun hfree => hiff.2 ?_⟩
  exact dynamicWith_of_captureFree (Nat.le_refl _) hvalue href hfree (fun _ _ => rfl)
    fun _ _ _ _ _ => rfl

/-! ## A name that is captured -/

/-- The variables `A = 0` and `B = 1`, and the functions `G() = A` and `F(X) = G() xor X`, where
`X` is the given parameter. -/
def xorDeclared (param : String) : Environment :=
  ⟨[("A", false), ("B", true)],
    [⟨"G", [], .var "A" false .none, .none⟩,
      ⟨"F", [param], .binary (.call "G" [] .none) .xor (.var param false .none) .none, .none⟩]⟩

def xorCall : Expr := .call "F" [.var "B" false .none] .none

theorem inputFree_xorCall (param : String) : InputFree (xorDeclared param) xorCall := by
  refine throughout_of_functions rfl fun f hf => ?_
  rcases List.mem_pair.1 hf with rfl | rfl <;> rfl

theorem referenceFree_xorCall (param : String) : ReferenceFree (xorDeclared param) xorCall := by
  refine throughout_of_functions rfl fun f hf => ?_
  rcases List.mem_pair.1 hf with rfl | rfl <;> rfl

/-- With the parameter `X`, nothing is captured: `F(B)` is displayed as `A xor B`. -/
theorem eval_display_inlined_free :
    let s : Silent := ⟨.unavailable⟩
    let env := xorDeclared "X"
    let shown : Expr := .binary (.var "A" false .none) .xor (.var "B" false .none) .none
    InputFree env xorCall ∧ ReferenceFree env xorCall ∧ CaptureFree env xorCall ∧
      ((xorCall.eval env 256 .empty).run.run s).1 = .ok true ∧
      ((xorCall.display env { inlineCalls := true }).run.run s).1 = .ok shown ∧
      ((shown.eval env 256 .empty).run.run s).1 = .ok true := by
  intro s env shown
  have hinput : InputFree env xorCall := inputFree_xorCall "X"
  have href : ReferenceFree env xorCall := referenceFree_xorCall "X"
  have hfree : CaptureFree env xorCall := captureFree_of_functions (by decide)
  have hvalue : ((xorCall.eval env 256 .empty).run.run s).1 = .ok true := rfl
  have hshown : ((xorCall.display env { inlineCalls := true }).run.run s).1 = .ok shown := rfl
  exact ⟨hinput, href, hfree, hvalue, hshown,
    (eval_display_inlined rfl hinput href hvalue hshown s).2.2 hfree⟩

/-- With the parameter `A`, the variable that `G` reads is captured: `F(B)` has the bit 1, but it is
displayed as `B xor B`. -/
theorem eval_display_inlined_captured :
    let s : Silent := ⟨.unavailable⟩
    let env := xorDeclared "A"
    let shown : Expr := .binary (.var "B" false .none) .xor (.var "B" false .none) .none
    InputFree env xorCall ∧ ReferenceFree env xorCall ∧
      ((xorCall.eval env 256 .empty).run.run s).1 = .ok true ∧
      ((xorCall.display env { inlineCalls := true }).run.run s).1 = .ok shown ∧
      ((shown.eval env 256 .empty).run.run s).1 = .ok false := by
  exact ⟨inputFree_xorCall "A", referenceFree_xorCall "A", rfl, rfl, rfl⟩

end Switching.Expr
