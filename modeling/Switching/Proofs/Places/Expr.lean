import Switching.Proofs.Engine.Gates
import Switching.Proofs.Engine.Substitution

/-!
# Expressions without places

What is computed from an expression is computed from its shape: with the places erased before or
after, the result is the same.

* `Expr.text_eraseSpans`, `Expr.inputs_eraseSpans`, `Expr.firstReference?_eraseSpans`: texts and names.
* `Expr.eraseSpans_toGateForm`, `Expr.eraseSpans_substitute`: gate forms and substitutions.
* `Cover.eraseSpans_toExpr`: the expression of a cover.
-/

namespace Switching

namespace Expr

attribute [local simp] eraseSpans

theorem eraseSpansAll_eq (es : List Expr) : eraseSpansAll es = es.map eraseSpans := by
  induction es with
  | nil => rfl
  | cons e es ih => rw [eraseSpansAll, ih, List.map_cons]

@[simp] theorem length_eraseSpansAll (es : List Expr) : (eraseSpansAll es).length = es.length := by
  rw [eraseSpansAll_eq, List.length_map]

@[simp] theorem span_eraseSpans (e : Expr) : e.eraseSpans.span = .none := by cases e <;> rfl

/-! ## Texts and names -/

theorem textAt_eraseSpans (min : Nat) (e : Expr) : e.eraseSpans.textAt min = e.textAt min := by
  have hargs : ∀ {args : List Expr}, (∀ a ∈ args, ∀ min, a.eraseSpans.textAt min = a.textAt min) →
      textAll (eraseSpansAll args) = textAll args := fun h => by
    rw [textAll_eq_map, textAll_eq_map, eraseSpansAll_eq, List.map_map]
    exact List.map_congr_left fun a ha => h a ha 0
  induction e generalizing min with
  | lit b s => rfl
  | str t s => rfl
  | var n r s => rfl
  | error m s => rfl
  | binary a op b s iha ihb => rw [eraseSpans, textAt, textAt, iha, ihb]
  | not a s ih => rw [eraseSpans, textAt, textAt, ih]
  | call n args s ih => rw [eraseSpans, textAt, textAt, hargs ih]
  | builtin f args s ih => rw [eraseSpans, textAt, textAt, hargs ih]

@[simp] theorem text_eraseSpans (e : Expr) : e.eraseSpans.text = e.text := textAt_eraseSpans 0 e

theorem names_eraseSpans (e : Expr) : e.eraseSpans.names = e.names := by
  have hargs : ∀ {args : List Expr}, (∀ a ∈ args, a.eraseSpans.names = a.names) →
      namesAll (eraseSpansAll args) = namesAll args := fun h => by
    rw [namesAll_eq, namesAll_eq, eraseSpansAll_eq, List.flatMap_map]
    exact List.flatMap_congr h
  induction e with
  | lit b s => rfl
  | str t s => rfl
  | var n r s => cases r <;> rfl
  | error m s => rfl
  | binary a op b s iha ihb => rw [eraseSpans, names, names, iha, ihb]
  | not a s ih => exact ih
  | call n args s ih => exact hargs ih
  | builtin f args s ih => exact hargs ih

@[simp] theorem inputs_eraseSpans (e : Expr) : e.eraseSpans.inputs = e.inputs := by
  rw [inputs_eq, inputs_eq, names_eraseSpans]

theorem firstReference?_eraseSpans (e : Expr) :
    e.eraseSpans.firstReference? = e.firstReference?.map fun r => (r.1, .none) := by
  have hargs : ∀ {args : List Expr}, (∀ a ∈ args, a.eraseSpans.firstReference? =
      a.firstReference?.map fun r => (r.1, .none)) → firstReferenceAmong? (eraseSpansAll args) =
        (firstReferenceAmong? args).map fun r => (r.1, .none) := fun {args} h => by
    induction args with
    | nil => rfl
    | cons a args ih =>
      obtain ⟨ha, hargs⟩ := List.forall_mem_cons.1 h
      rw [eraseSpansAll, firstReferenceAmong?, firstReferenceAmong?, ha, ih hargs]
      cases a.firstReference? <;> rfl
  induction e with
  | lit b s => rfl
  | str t s => rfl
  | var n r s => cases r <;> rfl
  | error m s => rfl
  | binary a op b s iha ihb =>
    rw [eraseSpans, firstReference?, firstReference?, iha, ihb]
    cases a.firstReference? <;> rfl
  | not a s ih => exact ih
  | call n args s ih => exact hargs ih
  | builtin f args s ih => exact hargs ih

/-! ## Built expressions -/

@[simp] theorem eraseSpans_join (a : Expr) (op : Operator) (b : Expr) :
    (a.join op b).eraseSpans = a.eraseSpans.join op b.eraseSpans := by
  simp [join, eraseSpans]

@[simp] theorem eraseSpans_negation (a : Expr) (s : Span) :
    (a.negation s).eraseSpans = a.eraseSpans.negation .none := by
  simp [negation, eraseSpans]

@[simp] theorem eraseSpans_literal (n : String) (b : Bool) (s : Span) :
    (literal n b s).eraseSpans = literal n b .none := by
  cases b <;> simp [literal, eraseSpans]

theorem eraseSpans_chain? (op : Operator) (es : List Expr) :
    (chain? op es).map eraseSpans = chain? op (es.map eraseSpans) := by
  have hfold : ∀ (es : List Expr) (e : Expr), (es.foldl (·.join op ·) e).eraseSpans =
      (es.map eraseSpans).foldl (·.join op ·) e.eraseSpans := fun es => by
    induction es with
    | nil => exact fun e => rfl
    | cons a es ih =>
      intro e
      rw [List.foldl_cons, ih, eraseSpans_join, List.map_cons, List.foldl_cons]
  cases es with
  | nil => rfl
  | cons e es => exact congrArg some (hfold es e)

end Expr

/-! ## Gate forms -/

theorem Gate.eraseSpans_build (g : Gate) (op : Operator) (a b : Expr) :
    (g.build op a b).eraseSpans = g.build op a.eraseSpans b.eraseSpans := by
  cases g <;> cases op <;> simp [build, invert, exclusive, apply]

namespace Expr

theorem eraseSpans_toGateForm (g : Gate) (e : Expr) :
    (e.toGateForm g).eraseSpans = e.eraseSpans.toGateForm g := by
  have hargs : ∀ {args : List Expr}, (∀ a ∈ args, (a.toGateForm g).eraseSpans =
      a.eraseSpans.toGateForm g) →
        eraseSpansAll (toGateFormAll g args) = toGateFormAll g (eraseSpansAll args) := fun h => by
    rw [toGateFormAll_eq, toGateFormAll_eq, eraseSpansAll_eq, eraseSpansAll_eq, List.map_map,
      List.map_map]
    exact List.map_congr_left h
  induction e with
  | lit b s => rfl
  | str t s => rfl
  | var n r s => rfl
  | error m s => rfl
  | binary a op b s iha ihb => rw [toGateForm, Gate.eraseSpans_build, iha, ihb, eraseSpans, toGateForm]
  | not a s ih =>
    rw [toGateForm, Gate.invert, Gate.apply, eraseSpans_join, ih, eraseSpans, toGateForm, Gate.invert,
      Gate.apply]
  | call n args s ih => exact congrArg (call n · .none) (hargs ih)
  | builtin f args s ih => exact congrArg (builtin f · .none) (hargs ih)

/-! ## Substitutions -/

theorem lookup_map_eraseSpans (bindings : List (String × Expr)) (n : String) :
    (bindings.map (Prod.map id eraseSpans)).lookup n = (bindings.lookup n).map eraseSpans := by
  induction bindings with
  | nil => rfl
  | cons p bindings ih =>
    rw [List.map_cons, List.lookup_cons, List.lookup_cons, ih]
    simp only [Prod.map, id]
    cases n == p.1 <;> rfl

theorem eraseSpans_substitute (bindings : List (String × Expr)) (e : Expr) :
    (e.substitute bindings).eraseSpans =
      e.eraseSpans.substitute (bindings.map (Prod.map id eraseSpans)) := by
  have hargs : ∀ {args : List Expr}, (∀ a ∈ args, (a.substitute bindings).eraseSpans =
      a.eraseSpans.substitute (bindings.map (Prod.map id eraseSpans))) →
        eraseSpansAll (substituteAll bindings args) =
          substituteAll (bindings.map (Prod.map id eraseSpans)) (eraseSpansAll args) := fun h => by
    rw [substituteAll_eq, substituteAll_eq, eraseSpansAll_eq, eraseSpansAll_eq, List.map_map,
      List.map_map]
    exact List.map_congr_left h
  induction e with
  | lit b s => rfl
  | str t s => rfl
  | error m s => rfl
  | var n r s =>
    cases r with
    | true => rfl
    | false =>
      rw [substitute, eraseSpans, substitute, lookup_map_eraseSpans]
      cases bindings.lookup n <;> rfl
  | binary a op b s iha ihb => rw [substitute, eraseSpans, iha, ihb, eraseSpans, substitute]
  | not a s ih => rw [substitute, eraseSpans, ih, eraseSpans, substitute]
  | call n args s ih => exact congrArg (call n · .none) (hargs ih)
  | builtin f args s ih => exact congrArg (builtin f · .none) (hargs ih)

end Expr

/-! ## Minimal forms -/

namespace Cover

theorem eraseSpans_cubeExpr (form : Form) (inputs : List String) (cube : Cube) (s : Span) :
    (cubeExpr form inputs cube s).eraseSpans = cubeExpr form inputs cube .none := by
  have hliterals : (cubeLiterals form inputs cube s).map Expr.eraseSpans =
      cubeLiterals form inputs cube .none := by
    rw [cubeLiterals, cubeLiterals, List.map_filterMap]
    refine List.filterMap_congr fun p _ => ?_
    rcases p with ⟨n, _ | b⟩ <;> simp
  rw [cubeExpr, cubeExpr, ← hliterals, ← Expr.eraseSpans_chain?]
  cases Expr.chain? form.inner (cubeLiterals form inputs cube s) <;> rfl

/-- The expression of a cover, but for its place, is one and the same. -/
theorem eraseSpans_toExpr (c : Cover) (s : Span) : (c.toExpr s).eraseSpans = c.toExpr .none := by
  rw [toExpr, toExpr]
  split
  case isTrue => rfl
  case isFalse =>
    have hcubes : (c.implicants.map fun p => cubeExpr c.form c.inputs p.cube s).map
        Expr.eraseSpans = c.implicants.map fun p => cubeExpr c.form c.inputs p.cube .none := by
      rw [List.map_map]
      exact List.map_congr_left fun p _ => eraseSpans_cubeExpr c.form c.inputs p.cube s
    rw [← hcubes, ← Expr.eraseSpans_chain?]
    cases Expr.chain? c.form.outer
      (c.implicants.map fun p => cubeExpr c.form c.inputs p.cube s) <;> rfl

end Cover

end Switching
