import Switching.Proofs.Engine.GateForms
import Switching.Proofs.Expr.Nodes

/-!
# The shape of gate forms

Over one gate, every connective is this gate and stands in the least place around its operands. An
expression of this shape is its own gate form.

* `Expr.IsJoined`: a connective in the least place around its operands.
* `Expr.everywhere_toGateForm`: what all nodes of a gate form have.
* `Expr.usesOnly_toGateForm`, `Expr.everywhere_isJoined_toGateForm`: the shape of a gate form.
* `Expr.toGateForm_eq_self_iff`: the expressions that are their own gate form.
* **`Expr.toGateForm_normal`**: gate forms are normal forms, with the names of their expression.
-/

namespace Switching.Expr

theorem allUseOnly_eq_true_iff {op : Operator} {args : List Expr} :
    allUseOnly op args = true ↔ ∀ a ∈ args, a.usesOnly op = true := by
  induction args with
  | nil => simp [allUseOnly]
  | cons a args ih => simp [allUseOnly, ih]

/-- A connective stands in the least place around its operands; other nodes may stand anywhere. -/
def IsJoined : Expr → Prop
  | .binary a _ b s => s = a.span.merge b.span
  | _ => True

/-! ## The nodes of a gate form -/

theorem exists_build_eq_apply (g : Gate) (op : Operator) (a b : Expr) :
    ∃ l r, g.build op a b = g.apply l r := by
  cases g <;> cases op <;> exact ⟨_, _, rfl⟩

/-- The nodes of a gate form have what the gate has, if the nodes of the expression have it when
they are in this form. -/
theorem everywhere_toGateForm {P : Expr → Prop} {g : Gate} (happly : ∀ a b, P (g.apply a b))
    {e : Expr} (h : e.Everywhere fun a => P (a.toGateForm g)) :
    (e.toGateForm g).Everywhere P := by
  have hgate : ∀ {a b : Expr}, a.Everywhere P → b.Everywhere P →
      (g.apply a b).Everywhere P := fun ha hb => everywhere_binary.2 ⟨happly _ _, ha, hb⟩
  induction e with
  | lit b s => exact everywhere_lit.2 h.here
  | str t s => exact everywhere_str.2 h.here
  | var n r s => exact everywhere_var.2 h.here
  | error m s => exact everywhere_error.2 h.here
  | binary a op b s iha ihb =>
    obtain ⟨-, ha, hb⟩ := everywhere_binary.1 h
    exact g.build_of_apply hgate op (iha ha) (ihb hb)
  | not a s ih =>
    have ha := ih (everywhere_not.1 h).2
    exact hgate ha ha
  | call n args s ih =>
    obtain ⟨hcall, hargs⟩ := everywhere_call.1 h
    rw [toGateForm, toGateFormAll_eq] at hcall ⊢
    exact everywhere_call.2 ⟨hcall, List.forall_mem_map.2 fun a ha => ih a ha (hargs a ha)⟩
  | builtin f args s ih =>
    obtain ⟨hf, hargs⟩ := everywhere_builtin.1 h
    rw [toGateForm, toGateFormAll_eq] at hf ⊢
    exact everywhere_builtin.2 ⟨hf, List.forall_mem_map.2 fun a ha => ih a ha (hargs a ha)⟩

theorem isJoined_toGateForm (g : Gate) (e : Expr) : (e.toGateForm g).IsJoined := by
  cases e with
  | binary a op b s =>
    obtain ⟨l, r, hbuild⟩ := exists_build_eq_apply g op (a.toGateForm g) (b.toGateForm g)
    rw [toGateForm, hbuild]
    rfl
  | not a s => rfl
  | lit | str | var | call | builtin | error => trivial

theorem everywhere_isJoined_toGateForm (g : Gate) (e : Expr) :
    (e.toGateForm g).Everywhere IsJoined :=
  everywhere_toGateForm (fun _ _ => rfl) fun a _ => isJoined_toGateForm g a

theorem usesOnly_toGateForm (g : Gate) (e : Expr) :
    (e.toGateForm g).usesOnly g.operator = true := by
  have happly : ∀ {a b : Expr}, a.usesOnly g.operator = true → b.usesOnly g.operator = true →
      (g.apply a b).usesOnly g.operator = true := fun ha hb => by
    simp [Gate.apply, join, usesOnly, ha, hb]
  induction e with
  | lit b s => rfl
  | str t s => rfl
  | var n r s => rfl
  | error m s => rfl
  | binary a op b s iha ihb =>
    exact g.build_of_apply (P := (usesOnly g.operator · = true)) happly op iha ihb
  | not a s ih => exact happly ih ih
  | call n args s ih =>
    rw [toGateForm, usesOnly, allUseOnly_eq_true_iff, toGateFormAll_eq]
    exact List.forall_mem_map.2 ih
  | builtin f args s ih =>
    rw [toGateForm, usesOnly, allUseOnly_eq_true_iff, toGateFormAll_eq]
    exact List.forall_mem_map.2 ih

/-! ## Normal forms -/

theorem toGateFormAll_eq_self {g : Gate} {args : List Expr}
    (h : ∀ a ∈ args, a.toGateForm g = a) : toGateFormAll g args = args := by
  rw [toGateFormAll_eq]
  exact List.map_congr_left h |>.trans (List.map_id args)

/-- The expressions that are their own gate form, places included. -/
theorem toGateForm_eq_self_iff {g : Gate} {e : Expr} :
    e.toGateForm g = e ↔ e.usesOnly g.operator = true ∧ e.Everywhere IsJoined := by
  constructor
  · intro h
    rw [← h]
    exact ⟨usesOnly_toGateForm g e, everywhere_isJoined_toGateForm g e⟩
  · rintro ⟨huses, hjoined⟩
    induction e with
    | lit b s => rfl
    | str t s => rfl
    | var n r s => rfl
    | error m s => rfl
    | binary a op b s iha ihb =>
      obtain ⟨⟨rfl, ha⟩, hb⟩ : (op = g.operator ∧ a.usesOnly g.operator = true) ∧
        b.usesOnly g.operator = true := by simpa [usesOnly] using huses
      obtain ⟨hplace, hja, hjb⟩ := everywhere_binary.1 hjoined
      have hbuild : g.build g.operator a b = g.apply a b := by cases g <;> rfl
      rw [toGateForm, iha ha hja, ihb hb hjb, hbuild, Gate.apply, join, ← hplace]
    | not a s ih => cases huses
    | call n args s ih =>
      have hargs := allUseOnly_eq_true_iff.1 huses
      have hjargs := (everywhere_call.1 hjoined).2
      rw [toGateForm, toGateFormAll_eq_self fun a ha => ih a ha (hargs a ha) (hjargs a ha)]
    | builtin f args s ih =>
      have hargs := allUseOnly_eq_true_iff.1 huses
      have hjargs := (everywhere_builtin.1 hjoined).2
      rw [toGateForm, toGateFormAll_eq_self fun a ha => ih a ha (hargs a ha) (hjargs a ha)]

/-- **Gate forms are normal forms.** Every connective is the gate, also inside arguments, and stands
in the least place around its operands. The inputs come in the same order and the first reference is
the same one as in the expression. Carried out again, nothing changes. -/
theorem toGateForm_normal (g : Gate) (e : Expr) :
    (e.toGateForm g).usesOnly g.operator = true ∧
      (e.toGateForm g).inputs = e.inputs ∧
      (e.toGateForm g).firstReference? = e.firstReference? ∧
      (e.toGateForm g).toGateForm g = e.toGateForm g ∧
      ∀ a op b s, .binary a op b s ∈ (e.toGateForm g).nodes → s = a.span.merge b.span := by
  have huses := usesOnly_toGateForm g e
  have hjoined := everywhere_isJoined_toGateForm g e
  refine ⟨huses, inputs_toGateForm g e, firstReference?_toGateForm g e, ?_, fun a op b s hmem => ?_⟩
  · exact toGateForm_eq_self_iff.2 ⟨huses, hjoined⟩
  · exact hjoined (.binary a op b s) hmem

end Switching.Expr
