import Switching.Input.Basic
import Switching.Proofs.Engine.Display
import Switching.Proofs.Engine.Substitution
import Switching.Proofs.Expr.GateShape

/-!
# The shape of what is displayed

No transforming function is left, and of the calls, if they are to be replaced, only those that
cannot be. A function is not replaced in its own body or further in, so that a call stays exactly
where functions call each other in a circle; and no more bodies are open at once than there are
functions.

* `Environment.Irreplaceable`: the calls that stay.
* `Expr.Displayed`: a node that may be left, for a choice of calls that may be.
* `Expr.ensures_displayWith`: the nodes of a displayed expression, for one level of bodies.
* `Expr.ensures_inlinedBody`: the same for all levels.
* `inlinedBody_congr`: the number of rounds does not matter once there is one for each function.
* **`Expr.display_normal`**: displayed expressions are in normal form.
-/

namespace Switching

/-! ## Calls that stay -/

/-- A call, by its name and number of arguments, that no body can replace: its function is not
declared, has another number of parameters, or reaches itself. -/
inductive Environment.Irreplaceable (env : Environment) (n : String) (k : Nat) : Prop where
  | undeclared (hf : env.function? n = none)
  | arity {f : Function} (hf : env.function? n = some f) (hk : f.params.length ≠ k)
  | recursive {f : Function} (hf : env.function? n = some f) (h : Expr.Reaches env f.body f)

namespace Expr

/-- A node that may be left when an expression is displayed: no transforming function, and a call
only if `Q` holds of it. -/
def Displayed (Q : String → Nat → Prop) : Expr → Prop
  | .call n args _ => Q n args.length
  | .builtin f _ _ => f.transforms = false
  | _ => True

section Shape

variable {Q : String → Nat → Prop}

theorem transforms_eq_false_iff {f : Builtin} : f.transforms = false ↔
    f ≠ .toNand ∧ f ≠ .toNor ∧ f ≠ .solveSop ∧ f ≠ .solvePos := by
  cases f <;> simp [Builtin.transforms]

theorem displayed_of_isPropositional {e : Expr} (h : e.isPropositional = true) :
    e.Displayed Q := by
  cases e with
  | lit | var | binary | not => trivial
  | str | call | builtin | error => nomatch h

theorem Displayed.toGateForm (g : Gate) {e : Expr} (h : e.Displayed Q) :
    (e.toGateForm g).Displayed Q := by
  cases e with
  | binary a op b s =>
    obtain ⟨l, r, hbuild⟩ := exists_build_eq_apply g op (a.toGateForm g) (b.toGateForm g)
    rw [Expr.toGateForm, hbuild]
    trivial
  | not a s => trivial
  | call n args s =>
    rw [Expr.toGateForm, toGateFormAll_eq, Displayed, List.length_map]
    exact h
  | lit | str | var | builtin | error => exact h

theorem everywhere_displayed_toGateForm (g : Gate) {e : Expr} (h : e.Everywhere (Displayed Q)) :
    (e.toGateForm g).Everywhere (Displayed Q) :=
  everywhere_toGateForm (fun _ _ => trivial) (h.mono fun _ => .toGateForm g)

/-- Expressions in place of names add their own nodes and change no others. -/
theorem everywhere_displayed_substitute {bindings : List (String × Expr)} {e : Expr}
    (h : e.Everywhere (Displayed Q)) (hbindings : ∀ p ∈ bindings, p.2.Everywhere (Displayed Q)) :
    (e.substitute bindings).Everywhere (Displayed Q) := by
  induction e with
  | lit b s => exact h
  | str t s => exact h
  | error m s => exact h
  | var n r s =>
    cases r with
    | true => exact h
    | false =>
      rw [substitute]
      cases hn : bindings.lookup n with
      | none => exact h
      | some a =>
        obtain ⟨l, r, rfl, -⟩ := List.lookup_eq_some_iff.1 hn
        exact hbindings (n, a) (by simp)
  | binary a op b s iha ihb =>
    obtain ⟨-, ha, hb⟩ := everywhere_binary.1 h
    exact everywhere_binary.2 ⟨trivial, iha ha, ihb hb⟩
  | not a s ih => exact everywhere_not.2 ⟨trivial, ih (everywhere_not.1 h).2⟩
  | call n args s ih =>
    obtain ⟨hcall, hargs⟩ := everywhere_call.1 h
    rw [substitute, substituteAll_eq, everywhere_call, Displayed, List.length_map]
    exact ⟨hcall, List.forall_mem_map.2 fun a ha => ih a ha (hargs a ha)⟩
  | builtin f args s ih =>
    obtain ⟨hf, hargs⟩ := everywhere_builtin.1 h
    rw [substitute, substituteAll_eq, everywhere_builtin]
    exact ⟨hf, List.forall_mem_map.2 fun a ha => ih a ha (hargs a ha)⟩

end Shape

/-! ## One level of bodies -/

section Display

variable {env : Environment} {config : Config} {Q : String → Nat → Prop}

theorem ensures_displayAllWith {inline : Inline} {P : Expr → Prop} {args : List Expr}
    (h : ∀ a ∈ args, (a.displayWith env config inline).Ensures P) :
    (displayAllWith env config inline args).Ensures fun args' =>
      args'.length = args.length ∧ ∀ a ∈ args', P a := by
  induction args with
  | nil => exact EvalM.ensures_pure (by simp)
  | cons a args ih =>
    obtain ⟨ha, hargs⟩ := List.forall_mem_cons.1 h
    refine ha.bind fun a' ha' => (ih hargs).bind fun args' hargs' => EvalM.ensures_pure ?_
    exact ⟨congrArg (· + 1) hargs'.1, List.forall_mem_cons.2 ⟨ha', hargs'.2⟩⟩

/-- One level of bodies: the calls that are left have `Q` if those that are not replaced have it. -/
theorem ensures_displayWith {inline : Inline} {e : Expr}
    (hstays : ∀ n ∈ e.callees, ∀ k, inline n k = none → Q n k)
    (hbody : ∀ n ∈ e.callees, ∀ k params body, inline n k = some (params, body) →
      body.Ensures (·.Everywhere (Displayed Q))) :
    (e.displayWith env config inline).Ensures (·.Everywhere (Displayed Q)) := by
  induction e with
  | lit b s => exact EvalM.ensures_pure (everywhere_lit.2 trivial)
  | str t s => exact EvalM.ensures_pure (everywhere_str.2 trivial)
  | var n r s => exact EvalM.ensures_pure (everywhere_var.2 trivial)
  | error m s => exact EvalM.ensures_pure (everywhere_error.2 trivial)
  | binary a op b s iha ihb =>
    have ha := iha (fun n hn => hstays n (callees_subset_left hn)) fun n hn =>
      hbody n (callees_subset_left hn)
    have hb := ihb (fun n hn => hstays n (callees_subset_right hn)) fun n hn =>
      hbody n (callees_subset_right hn)
    exact ha.bind fun a' ha' => hb.bind fun b' hb' =>
      EvalM.ensures_pure (everywhere_binary.2 ⟨trivial, ha', hb'⟩)
  | not a s ih =>
    exact (ih hstays hbody).bind fun a' ha' =>
      EvalM.ensures_pure (everywhere_not.2 ⟨trivial, ha'⟩)
  | call n args s ih =>
    have hargs := ensures_displayAllWith fun a ha => ih a ha
      (fun m hm => hstays m (callees_subset_call ha hm))
      fun m hm => hbody m (callees_subset_call ha hm)
    refine hargs.bind fun args' hargs' => ?_
    cases hn : inline n args.length with
    | none =>
      refine EvalM.ensures_pure (everywhere_call.2 ⟨?_, hargs'.2⟩)
      rw [Displayed, hargs'.1]
      exact hstays n List.mem_cons_self args.length hn
    | some found =>
      refine (hbody n List.mem_cons_self _ found.1 found.2 hn).bind fun body hbody =>
        EvalM.ensures_pure (everywhere_displayed_substitute hbody fun p hp => ?_)
      exact hargs'.2 p.2 (List.of_mem_zip hp).2
  | builtin f args s ih =>
    have hall : ∀ a ∈ args, (a.displayWith env config inline).Ensures
        (·.Everywhere (Displayed Q)) := fun a ha =>
      ih a ha (fun m hm => hstays m (callees_subset_builtin ha hm)) fun m hm =>
        hbody m (callees_subset_builtin ha hm)
    cases f with
    | toNand | toNor =>
      rcases args with - | ⟨a, - | ⟨b, args⟩⟩
      · exact EvalM.ensures_throw _
      · exact (hall a (List.mem_singleton_self a)).bind fun a' ha' =>
          EvalM.ensures_pure (everywhere_displayed_toGateForm _ ha')
      · exact EvalM.ensures_throw _
    | solveSop | solvePos =>
      rcases args with - | ⟨a, - | ⟨b, args⟩⟩
      · exact EvalM.ensures_throw _
      · exact (EvalM.ensures_true _).bind fun t _ => EvalM.ensures_pure
          ((Cover.everywhere_toExpr _ _).mono fun _ => displayed_of_isPropositional)
      · exact EvalM.ensures_throw _
    | print | display | table | graph | exportTo | importFrom | input =>
      exact (ensures_displayAllWith hall).bind fun args' hargs' =>
        EvalM.ensures_pure (everywhere_builtin.2 ⟨rfl, hargs'.2⟩)

theorem displayWith_of_everywhere {e : Expr} (h : e.Everywhere (Displayed Q)) :
    e.displayWith env config (fun _ _ => none) = pure e := by
  have hargs : ∀ {args : List Expr}, (∀ a ∈ args,
      a.displayWith env config (fun _ _ => none) = pure a) →
        displayAllWith env config (fun _ _ => none) args = pure args := fun h =>
    displayAllWith_eq_pure_iff.2 (List.forall₂_same.2 h)
  induction e with
  | lit b s => rfl
  | str t s => rfl
  | var n r s => rfl
  | error m s => rfl
  | binary a op b s iha ihb =>
    obtain ⟨-, ha, hb⟩ := everywhere_binary.1 h
    exact displayWith_binary_eq_pure_iff.2 ⟨a, iha ha, b, ihb hb, rfl⟩
  | not a s ih =>
    exact displayWith_not_eq_pure_iff.2 ⟨a, ih (everywhere_not.1 h).2, rfl⟩
  | call n args s ih =>
    have hall := (everywhere_call.1 h).2
    rw [displayWith, hargs fun a ha => ih a ha (hall a ha)]
    rfl
  | builtin f args s ih =>
    obtain ⟨hf, hall⟩ := everywhere_builtin.1 h
    cases f with
    | toNand | toNor | solveSop | solvePos => cases hf
    | print | display | table | graph | exportTo | importFrom | input =>
      rw [displayWith, hargs fun a ha => ih a ha (hall a ha)]
      rfl

end Display

end Expr

/-! ## All levels of bodies -/

section Levels

variable {env : Environment} {config : Config}

/-- Once there is a round for each function, more rounds change nothing: what is inlined comes to an
end by itself. -/
theorem inlinedBody_congr {rounds rounds' : Nat} {available : List Function}
    (h : available.length ≤ rounds) (h' : available.length ≤ rounds') :
    inlinedBody env config rounds available = inlinedBody env config rounds' available := by
  have hnil : ∀ rounds, inlinedBody env config rounds [] = fun _ _ => none := fun rounds => by
    cases rounds <;> rfl
  induction rounds generalizing rounds' available with
  | zero =>
    obtain rfl := List.length_eq_zero_iff.1 (Nat.le_zero.1 h)
    rw [hnil, hnil]
  | succ rounds ih =>
    cases rounds' with
    | zero =>
      obtain rfl := List.length_eq_zero_iff.1 (Nat.le_zero.1 h')
      rw [hnil, hnil]
    | succ rounds' =>
      funext n k
      simp only [inlinedBody]
      cases hfind : available.find? (·.name = n) with
      | none => rfl
      | some f =>
        have hlt := length_filter_name_lt hfind
        have hrest : inlinedBody env config rounds (available.filter (·.name ≠ n)) =
          inlinedBody env config rounds' (available.filter (·.name ≠ n)) := ih (by omega) (by omega)
        dsimp only
        rw [hrest]

theorem inlinedBody_ne_none {rounds : Nat} {available : List Function} {n : String} {f : Function}
    (hrounds : available.length ≤ rounds) (hfind : available.find? (·.name = n) = some f) :
    inlinedBody env config rounds available n f.params.length ≠ none := by
  cases rounds with
  | zero =>
    obtain rfl := List.length_eq_zero_iff.1 (Nat.le_zero.1 hrounds)
    nomatch hfind
  | succ rounds =>
    rw [inlinedBody_succ_eq_some_iff.2 ⟨f, hfind, rfl, rfl, rfl⟩]
    exact Option.some_ne_none _

namespace Expr

/-- Each declared function is available, or it is open around `e`: then it reaches all that `e`
does. -/
def OpenAround (env : Environment) (available : List Function) (e : Expr) : Prop :=
  ∀ n f, env.function? n = some f → available.find? (·.name = n) = some f ∨
    ∀ g, Reaches env e g → Reaches env f.body g

theorem irreplaceable_of_inlinedBody {rounds : Nat} {available : List Function} {e : Expr}
    (hrounds : available.length ≤ rounds) (hopen : OpenAround env available e) {n : String}
    (hn : n ∈ e.callees) {k : Nat} (hnone : inlinedBody env config rounds available n k = none) :
    env.Irreplaceable n k := by
  cases hf : env.function? n with
  | none => exact .undeclared hf
  | some f =>
    by_cases hk : f.params.length = k
    · subst hk
      obtain hfind | h := hopen n f hf
      · exact absurd hnone (inlinedBody_ne_none hrounds hfind)
      · exact .recursive hf (h f (.call ⟨n, hn, hf⟩))
    · exact .arity hf hk

theorem OpenAround.body {available : List Function} {e : Expr} (h : OpenAround env available e)
    {n : String} (hn : n ∈ e.callees) {f : Function} (hf : env.function? n = some f) :
    OpenAround env (available.filter (·.name ≠ n)) f.body := by
  intro m g hg
  by_cases hm : m = n
  · subst hm
    obtain rfl := Option.some.inj (hf.symm.trans hg)
    exact .inr fun _ hreaches => hreaches
  · rw [find?_filter_name, if_neg hm]
    exact (h m g hg).imp_right fun h g' hg' => h g' (.body ⟨n, hn, hf⟩ hg')

/-- All levels of bodies: the calls that are left cannot be replaced. -/
theorem ensures_inlinedBody {rounds : Nat} {available : List Function} {e : Expr}
    (hrounds : available.length ≤ rounds)
    (hdeclared : ∀ n f, available.find? (·.name = n) = some f → env.function? n = some f)
    (hopen : OpenAround env available e) :
    (e.displayWith env config (inlinedBody env config rounds available)).Ensures
      (·.Everywhere (Displayed env.Irreplaceable)) := by
  induction rounds generalizing available e with
  | zero =>
    exact ensures_displayWith (fun n hn k => irreplaceable_of_inlinedBody hrounds hopen hn)
      fun n _ k params body h => nomatch h
  | succ rounds ih =>
    refine ensures_displayWith (fun n hn k => irreplaceable_of_inlinedBody hrounds hopen hn)
      fun n hn k params body hsome => ?_
    obtain ⟨f, hfind, -, -, rfl⟩ := inlinedBody_succ_eq_some_iff.1 hsome
    have hlt := length_filter_name_lt hfind
    refine ih (by omega) (fun m g hg => ?_) (hopen.body hn (hdeclared n f hfind))
    rw [find?_filter_name] at hg
    split at hg
    case isTrue => nomatch hg
    case isFalse => exact hdeclared m g hg

end Expr

end Levels

/-! ## Runs -/

namespace Expr

variable {env : Environment} {config : Config}

/-- **Displayed expressions are in normal form.** With inlining, the bound on the bodies that are
open at once is never met, however many functions call each other in circles. Whoever replies, no
transforming function is left in what is displayed. Without inlining, it is displayed as itself, all
places included. With inlining, every call that is left is one that cannot be replaced. -/
theorem display_normal (e : Expr) :
    (config.inlineCalls = true → ∀ rounds, env.functions.length ≤ rounds →
      e.display env config =
        e.displayWith env config (inlinedBody env config rounds env.functions)) ∧
    ∀ {σ : Type} [Replier σ] (s : σ) (e' : Expr),
      ((e.display env config).run.run s).1 = .ok e' →
        (∀ f args s, .builtin f args s ∈ e'.nodes →
          f ≠ .toNand ∧ f ≠ .toNor ∧ f ≠ .solveSop ∧ f ≠ .solvePos) ∧
        (config.inlineCalls = false → e'.display env config = pure e') ∧
        (config.inlineCalls = true → ∀ n args s, .call n args s ∈ e'.nodes →
          env.Irreplaceable n args.length) := by
  refine ⟨fun hinline rounds hrounds => ?_, fun {σ} _ s e' hshown => ?_⟩
  · rw [display, if_pos hinline, inlinedBody_congr (Nat.le_refl _) hrounds]
  · rw [display] at hshown
    cases hinline : config.inlineCalls with
    | false =>
      rw [hinline, if_neg Bool.false_ne_true] at hshown
      have hshape : (e.displayWith env config fun _ _ => none).Ensures
          (·.Everywhere (Displayed fun _ _ => True)) :=
        ensures_displayWith (fun _ _ _ _ => trivial) fun _ _ _ _ _ h => nomatch h
      have hnodes := hshape σ s e' hshown
      refine ⟨fun f args s hmem => ?_, fun _ => ?_, (Bool.noConfusion ·)⟩
      · exact transforms_eq_false_iff.1 (hnodes (.builtin f args s) hmem)
      · rw [display, hinline]
        exact displayWith_of_everywhere hnodes
    | true =>
      rw [hinline, if_pos rfl] at hshown
      have hnodes := ensures_inlinedBody (Nat.le_refl _) (fun _ _ h => h) (fun _ _ h => .inl h) σ s
        e' hshown
      refine ⟨fun f args s hmem => ?_, (Bool.noConfusion ·), fun _ n args s hmem => ?_⟩
      · exact transforms_eq_false_iff.1 (hnodes (.builtin f args s) hmem)
      · exact hnodes (.call n args s) hmem

/-- `F(X) = G(not X)` and `G(X) = F(X)`, which call each other, and `H(X) = TO_NAND(X or F(X))`. -/
def mutualDeclared : Environment :=
  ⟨[], [⟨"F", ["X"], .call "G" [.not (.var "X" false .none) .none] .none, .none⟩,
    ⟨"G", ["X"], .call "F" [.var "X" false .none] .none, .none⟩,
    ⟨"H", ["X"], .builtin .toNand
      [.binary (.var "X" false .none) .or (.call "F" [.var "X" false .none] .none) .none] .none,
      .none⟩]⟩

/-- With inlining, `H(A)` is displayed over `nand`, with a call of `F` that cannot be replaced.
Without it, `TO_NAND(F(not A))` is displayed as this call, and this call as itself. -/
theorem display_normal_mutual :
    let s : Silent := ⟨.unavailable⟩
    let config : Config := { inlineCalls := true }
    let a : Expr := .var "A" false .none
    let e : Expr := .call "H" [a] .none
    let inverted : Expr := .binary a .nand a .none
    let left : Expr := .call "F" [inverted] .none
    let shown : Expr := .binary inverted .nand (.binary left .nand left .none) .none
    let gated : Expr := .builtin .toNand [.call "F" [.not a .none] .none] .none
    ((e.display mutualDeclared config).run.run s).1 = .ok shown ∧ left ∈ shown.nodes ∧
      mutualDeclared.Irreplaceable "F" 1 ∧
      ((gated.display mutualDeclared {}).run.run s).1 = .ok left ∧
      left.display mutualDeclared {} = pure left := by
  intro s config a e inverted left shown gated
  have hshown : ((e.display mutualDeclared config).run.run s).1 = .ok shown := rfl
  have hmem : left ∈ shown.nodes := by simp [shown, left, nodes]
  have hstays := ((display_normal e).2 s shown hshown).2.2 rfl "F" [inverted] .none hmem
  have hgated : ((gated.display mutualDeclared {}).run.run s).1 = .ok left := rfl
  have hagain := ((display_normal gated).2 s left hgated).2.1 rfl
  exact ⟨hshown, hmem, hstays, hgated, hagain⟩

end Expr

end Switching
