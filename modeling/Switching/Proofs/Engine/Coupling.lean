import Mathlib.Data.List.Forall2
import Switching.Proofs.Engine.CallGraph
import Switching.Proofs.Expr.Nodes
import Switching.Proofs.Input.Coupling
import Switching.TruthTable.Eval

/-!
# Two computations side by side

* `Corresponds`: two outcomes, both of them results or both errors.
* `EvalM.Coupled`: two computations that ask for the same and come to such outcomes.
* **`EvalM.Coupled.bind`**: one computation after another.
* `EvalM.Coupled.mapM`, `EvalM.Coupled.sampleAll`: the same for lists of computations.
* `EvalM.coupled_eq_iff`: coupled by equality throughout means equal.
* `BitsCorrespond`: a correspondence of bits that connectives and replies keep.
* **`Expr.coupled_evalWith`**: an expression in two environments, if its variables and the functions
  that it calls correspond.
-/

namespace Switching

variable {α α' β β' : Type} {Q : Reply → Reply → Prop} {E : RuntimeError → RuntimeError → Prop}
  {R : α → α' → Prop} {S : β → β' → Prop}

/-- Results that correspond by `R`, or errors that correspond by `E`. -/
inductive Corresponds (E : RuntimeError → RuntimeError → Prop) (R : α → α' → Prop) :
    Except RuntimeError α → Except RuntimeError α' → Prop where
  | ok {a : α} {a' : α'} (h : R a a') : Corresponds E R (.ok a) (.ok a')
  | error {e e' : RuntimeError} (h : E e e') : Corresponds E R (.error e) (.error e')

namespace EvalM

/-- The same prompts, as long as the replies correspond, and corresponding outcomes. -/
def Coupled (Q : Reply → Reply → Prop) (E : RuntimeError → RuntimeError → Prop) (R : α → α' → Prop)
    (m : EvalM α) (m' : EvalM α') : Prop :=
  Dialogue.Coupled Q (Corresponds E R) m.run m'.run

theorem Coupled.mono {R' : α → α' → Prop} {m : EvalM α} {m' : EvalM α'} (h : Coupled Q E R m m')
    (hR : ∀ a a', R a a' → R' a a') : Coupled Q E R' m m' :=
  Dialogue.Coupled.mono h fun _ _ hout => by
    cases hout with
    | ok h => exact .ok (hR _ _ h)
    | error h => exact .error h

theorem Coupled.mono_error {E' : RuntimeError → RuntimeError → Prop} {m : EvalM α} {m' : EvalM α'}
    (h : Coupled Q E R m m') (hE : ∀ e e', E e e' → E' e e') : Coupled Q E' R m m' :=
  Dialogue.Coupled.mono h fun _ _ hout => by
    cases hout with
    | ok h => exact .ok h
    | error h => exact .error (hE _ _ h)

theorem coupled_pure {a : α} {a' : α'} (h : R a a') :
    Coupled Q E R (pure a : EvalM α) (pure a' : EvalM α') := .done (.ok h)

theorem coupled_throw {e e' : RuntimeError} (h : E e e') :
    Coupled Q E R (throw e : EvalM α) (throw e' : EvalM α') := .done (.error h)

theorem coupled_ofExcept {r : Except RuntimeError α} {r' : Except RuntimeError α'}
    (h : Corresponds E R r r') : Coupled Q E R (ofExcept r) (ofExcept r') := by
  cases h with
  | ok h => exact coupled_pure h
  | error h => exact coupled_throw h

theorem Coupled.bind {m : EvalM α} {m' : EvalM α'} {f : α → EvalM β} {f' : α' → EvalM β'}
    (h : Coupled Q E R m m') (hf : ∀ a a', R a a' → Coupled Q E S (f a) (f' a')) :
    Coupled Q E S (m >>= f) (m' >>= f') := by
  refine Dialogue.Coupled.bind h fun r r' hout => ?_
  cases hout with
  | ok h => exact hf _ _ h
  | error h => exact .done (.error h)

/-! ## Lists -/

theorem Coupled.mapM {items : List α} {items' : List α'} {f : α → EvalM β} {f' : α' → EvalM β'}
    (hf : List.Forall₂ (fun a a' => Coupled Q E S (f a) (f' a')) items items') :
    Coupled Q E (List.Forall₂ S) (items.mapM f) (items'.mapM f') := by
  induction hf with
  | nil => exact coupled_pure .nil
  | cons ha _ ih =>
    rw [List.mapM_cons, List.mapM_cons]
    exact ha.bind fun b b' hb => ih.bind fun bs bs' hbs => coupled_pure (.cons hb hbs)

theorem Coupled.sampleAll {items : List α} {f f' : α → EvalM Bool} {S : Bool → Bool → Prop}
    (hf : ∀ a, Coupled Q E S (f a) (f' a)) :
    Coupled Q E (fun bits bits' => List.Forall₂ S bits.1 bits'.1) (sampleAll f items)
      (sampleAll f' items) := by
  induction items with
  | nil => exact coupled_pure .nil
  | cons a items ih =>
    exact (hf a).bind fun b b' hb => ih.bind fun bs bs' hbs => coupled_pure (.cons hb hbs)

/-! ## Equality -/

theorem coupled_ofExcept_refl (r : Except RuntimeError α) :
    Coupled Q Eq Eq (ofExcept r) (ofExcept r) := by
  cases r with
  | ok a => exact coupled_pure rfl
  | error e => exact coupled_throw rfl

theorem coupled_eq_iff {m m' : EvalM α} : Coupled Eq Eq Eq m m' ↔ m = m' := by
  constructor
  · intro h
    refine (Dialogue.bind_done m.run).symm.trans (Dialogue.Coupled.map_eq (f := id) ?_)
    refine Dialogue.Coupled.mono h fun r r' hr => ?_
    cases hr with
    | ok h => exact congrArg Except.ok h
    | error h => exact congrArg Except.error h
  · rintro rfl
    induction m with
    | done r =>
      cases r with
      | ok a => exact coupled_pure rfl
      | error e => exact coupled_throw rfl
    | ask prompt next ih => exact .ask fun r r' h => h ▸ ih r

end EvalM

/-! ## Expressions -/

open EvalM

/-- A correspondence of bits that every connective keeps, and that holds of the bits that are replied
where the replies correspond. -/
structure BitsCorrespond (Q : Reply → Reply → Prop) (R : Bool → Bool → Prop) : Prop where
  refl : ∀ b, R b b
  not : ∀ b b', R b b' → R (!b) (!b')
  apply : ∀ (op : Operator) (a a' b b' : Bool), R a a' → R b b' → R (op.apply a b) (op.apply a' b')
  reply : ∀ prompt s, Coupled Q Eq R (requestBit prompt s) (requestBit prompt s)

namespace Expr

variable {env env' : Environment} {enter enter' : Enter} {scope scope' : Scope}
  {R : Bool → Bool → Prop}

theorem coupled_evalAllWith {args : List Expr}
    (h : ∀ a ∈ args,
      Coupled Q E R (a.evalWith env enter scope) (a.evalWith env' enter' scope')) :
    Coupled Q E (fun bits bits' => List.Forall₂ R bits bits' ∧ bits.length = args.length)
      (evalAllWith env enter scope args) (evalAllWith env' enter' scope' args) := by
  induction args with
  | nil => exact coupled_pure ⟨.nil, rfl⟩
  | cons a args ih =>
    obtain ⟨ha, hargs⟩ := List.forall_mem_cons.1 h
    exact ha.bind fun b b' hb => (ih hargs).bind fun bits bits' hbits =>
      coupled_pure ⟨.cons hb hbits.1, congrArg Nat.succ hbits.2⟩

/-- Evaluation of an expression in two environments corresponds if its variables do, if calls mean
the same functions and if these correspond. -/
theorem coupled_evalWith (hR : BitsCorrespond Q R) (hcallee : env.callee = env'.callee) {e : Expr}
    (hread : e.Everywhere fun a => ∀ n r s, a = .var n r s →
      Corresponds Eq R (env.read scope n r s) (env'.read scope' n r s))
    (henter : ∀ f, e.Calls env f → ∀ bits bits' s, bits.length = f.params.length →
      List.Forall₂ R bits bits' → Coupled Q Eq R (enter f bits s) (enter' f bits' s)) :
    Coupled Q Eq R (e.evalWith env enter scope) (e.evalWith env' enter' scope') := by
  induction e with
  | lit b s => exact coupled_pure (hR.refl b)
  | str t s => exact coupled_throw rfl
  | var n r s => exact coupled_ofExcept (hread.here n r s rfl)
  | binary a op b s iha ihb =>
    obtain ⟨-, hreada, hreadb⟩ := everywhere_binary.1 hread
    have ha := iha hreada fun f hf => henter f (hf.mono callees_subset_left)
    have hb := ihb hreadb fun f hf => henter f (hf.mono callees_subset_right)
    exact ha.bind fun x x' hx => hb.bind fun y y' hy => coupled_pure (hR.apply op x x' y y' hx hy)
  | not a s ih =>
    have ha := ih (everywhere_not.1 hread).2 henter
    exact ha.bind fun x x' hx => coupled_pure (hR.not x x' hx)
  | call n args s ih =>
    obtain ⟨-, hreads⟩ := everywhere_call.1 hread
    have hargs := coupled_evalAllWith fun a ha => ih a ha (hreads a ha) fun f hf =>
      henter f (hf.mono (callees_subset_call ha))
    rw [evalWith, evalWith, ← hcallee]
    cases hf : env.callee n args.length s with
    | error e => exact coupled_throw rfl
    | ok f =>
      obtain ⟨hfun, hlen⟩ := Environment.callee_eq_ok_iff.1 hf
      exact hargs.bind fun bits bits' hbits =>
        henter f ⟨n, List.mem_cons_self, hfun⟩ bits bits' s (hbits.2.trans hlen.symm) hbits.1
  | builtin f args s ih =>
    obtain ⟨-, hreads⟩ := everywhere_builtin.1 hread
    cases f with
    | toNand | toNor | solveSop | solvePos =>
      rcases args with _ | ⟨a, _ | ⟨b, args⟩⟩
      · exact coupled_throw rfl
      · have ha : a ∈ [a] := List.mem_singleton_self a
        exact ih a ha (hreads a ha) fun f hf => henter f (hf.mono (callees_subset_builtin ha))
      · exact coupled_throw rfl
    | input =>
      refine (coupled_ofExcept_refl _).bind fun prompt _ h => ?_
      subst h
      exact hR.reply prompt s
    | print | display | table | graph | exportTo | importFrom => exact coupled_throw rfl
  | error m s => exact coupled_throw rfl

end Expr

end Switching
