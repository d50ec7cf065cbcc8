import Switching.Proofs.Cover.Minimality
import Switching.Proofs.Engine.Value

/-!
# Minimal forms keep the function

A cube over named inputs is an expression that has the output of its form exactly on the patterns
in the cube. Both forms are treated at once: in each of them, what is said about membership is
compared with the output that the form is about.

* `Scope.Binds`: a scope gives bits to names.
* `Cover.evalWith_toExpr`: the value of a cover as an expression.
* `TruthTable.evalWith_minimize`: the value of the minimal form of a table.
* **`TruthTable.eval_minimize`**: on every row, both minimal forms have the output of the table.
-/

namespace Switching

/-! ## Chains -/

section Chain

variable {env : Environment} {enter : Enter} {scope : Scope}

/-- A chain folds the values of its parts, read as `q == o`. -/
theorem Expr.evalWith_foldl_join {op : Operator} {o : Bool} {f : Bool → Bool → Bool}
    (hop : ∀ p q, op.apply (p == o) (q == o) = (f p q == o)) {es : List Expr} {qs : List Bool}
    (hes : List.Forall₂ (fun e q => e.evalWith env enter scope = pure (q == o)) es qs) {e : Expr}
    {q : Bool} (he : e.evalWith env enter scope = pure (q == o)) :
    (es.foldl (·.join op ·) e).evalWith env enter scope = pure (qs.foldl f q == o) := by
  induction hes generalizing e q with
  | nil => exact he
  | cons ha _ ih =>
    refine ih (evalWith_binary_eq_pure_iff.2 ⟨_, he, _, ha, ?_⟩)
    rw [hop]

/-- A chain with the unit of `f` in place of the chain of nothing. -/
theorem Expr.evalWith_chain {op : Operator} {o : Bool} {f : Bool → Bool → Bool}
    (hop : ∀ p q, op.apply (p == o) (q == o) = (f p q == o)) (unit : Bool)
    (hunit : ∀ q, f unit q = q) {es : List Expr} {qs : List Bool}
    (hes : List.Forall₂ (fun e q => e.evalWith env enter scope = pure (q == o)) es qs)
    (span : Span) :
    ((Expr.chain? op es).getD (.lit (unit == o) span)).evalWith env enter scope =
      pure (qs.foldl f unit == o) := by
  cases hes with
  | nil => rfl
  | cons ha has =>
    rw [chain?, Option.getD_some, List.foldl_cons, hunit]
    exact evalWith_foldl_join hop has ha

end Chain

theorem foldl_and (b : Bool) (qs : List Bool) : qs.foldl (· && ·) b = (b && qs.all id) := by
  induction qs generalizing b with
  | nil => simp
  | cons q qs ih => rw [List.foldl_cons, ih, List.all_cons, Bool.and_assoc, id]

theorem foldl_or (b : Bool) (qs : List Bool) : qs.foldl (· || ·) b = (b || qs.any id) := by
  induction qs generalizing b with
  | nil => simp
  | cons q qs ih => rw [List.foldl_cons, ih, List.any_cons, Bool.or_assoc, id]

/-! ## Covers as expressions -/

namespace Form

theorem apply_inner (form : Form) (p q : Bool) :
    form.inner.apply (p == form.output) (q == form.output) = ((p && q) == form.output) := by
  cases form <;> cases p <;> cases q <;> rfl

theorem apply_outer (form : Form) (p q : Bool) :
    form.outer.apply (p == form.output) (q == form.output) = ((p || q) == form.output) := by
  cases form <;> cases p <;> cases q <;> rfl

end Form

theorem Cube.contains_of_isUniversal {c : Cube} (h : c.isUniversal = true) (bits : List Bool) :
    c.contains bits = true := by
  induction c generalizing bits with
  | nil => rfl
  | cons x c ih =>
    rw [isUniversal, List.all_cons, Bool.and_eq_true] at h
    cases bits with
    | nil => rfl
    | cons b bits =>
      rw [contains, ih h.2, Option.isNone_iff_eq_none.1 h.1]
      rfl

namespace Cover

section Value

variable {env : Environment} {enter : Enter} {scope : Scope} {inputs : List String}
  {bits : List Bool}

theorem evalWith_literal {form : Form} {n : String} {x : Bool} (b : Bool) (span : Span)
    (hread : env.plain? scope n = some x) :
    (Expr.literal n (b == form.output) span).evalWith env enter scope =
      pure ((x == b) == form.output) := by
  have hvar : (Expr.var n false span).evalWith env enter scope = pure x :=
    Expr.evalWith_var_eq_pure_iff.2 (Environment.read_plain_eq_ok_iff.2 hread)
  rw [Expr.literal]
  split
  case isTrue h => rw [hvar, eq_of_beq h]; cases x <;> cases form.output <;> rfl
  case isFalse h =>
    refine Expr.evalWith_not_eq_pure_iff.2 ?_
    rw [hvar]
    cases b <;> cases x <;> cases form <;> first | rfl | exact absurd rfl h

variable (hread : List.Forall₂ (fun n x => env.plain? scope n = some x) inputs bits)

include hread

variable (enter) in
theorem evalWith_cubeLiterals (form : Form) {cube : Cube} (hlen : cube.length = inputs.length)
    (span : Span) :
    ∃ qs, List.Forall₂ (fun e q => e.evalWith env enter scope = pure (q == form.output))
      (cubeLiterals form inputs cube span) qs ∧ qs.all id = cube.contains bits := by
  induction hread generalizing cube with
  | nil =>
    obtain rfl := List.length_eq_zero_iff.1 hlen
    exact ⟨[], .nil, rfl⟩
  | @cons n x names bits hn _ ih =>
    obtain ⟨y, cube, rfl⟩ := List.exists_cons_of_length_eq_add_one hlen
    have hlen' : cube.length = names.length := Nat.succ.inj hlen
    obtain ⟨qs, hqs, hall⟩ := ih hlen'
    rw [cubeLiterals, List.zip_cons_cons, Cube.contains, ← hall]
    cases y with
    | none => exact ⟨qs, hqs, by simp⟩
    | some b =>
      refine ⟨(x == b) :: qs, .cons (evalWith_literal b span hn) hqs, ?_⟩
      rw [List.all_cons, Option.all_some]
      cases x <;> cases b <;> rfl

theorem evalWith_cubeExpr (form : Form) {cube : Cube} (hlen : cube.length = inputs.length)
    (span : Span) :
    (cubeExpr form inputs cube span).evalWith env enter scope =
      pure (cube.contains bits == form.output) := by
  obtain ⟨qs, hqs, hall⟩ := evalWith_cubeLiterals enter hread form hlen span
  have hchain := Expr.evalWith_chain form.apply_inner true Bool.true_and hqs span
  rw [foldl_and, Bool.true_and, hall, Bool.true_beq] at hchain
  exact hchain

/-- The value of a cover: if the pattern lies in one of its cubes, the output of its form. -/
theorem evalWith_toExpr {c : Cover} (hinputs : c.inputs = inputs)
    (hlen : ∀ p ∈ c.implicants, p.cube.length = inputs.length) (span : Span) :
    (c.toExpr span).evalWith env enter scope =
      pure (c.implicants.any (·.cube.contains bits) == c.form.output) := by
  rw [toExpr]
  by_cases huniv : c.implicants.any (·.cube.isUniversal) = true
  · obtain ⟨p, hp, hcube⟩ := List.any_eq_true.1 huniv
    have hany : c.implicants.any (·.cube.contains bits) = true :=
      List.any_eq_true.2 ⟨p, hp, Cube.contains_of_isUniversal hcube bits⟩
    rw [if_pos huniv, hany, Bool.true_beq, Expr.evalWith]
  · have hcubes : List.Forall₂
        (fun e q => e.evalWith env enter scope = pure (q == c.form.output))
        (c.implicants.map fun p => cubeExpr c.form c.inputs p.cube span)
        (c.implicants.map (·.cube.contains bits)) := by
      rw [List.forall₂_map_left_iff, List.forall₂_map_right_iff, List.forall₂_same]
      intro p hp
      rw [hinputs]
      exact evalWith_cubeExpr hread c.form (hlen p hp) span
    have hchain := Expr.evalWith_chain c.form.apply_outer false Bool.false_or hcubes span
    rw [foldl_or, Bool.false_or, List.any_map, Bool.false_beq] at hchain
    rw [if_neg huniv]
    exact hchain

end Value

end Cover

/-! ## Tables -/

/-- The scope gives the bits to the names. -/
def Scope.Binds (scope : Scope) (names : List String) (bits : List Bool) : Prop :=
  List.Forall₂ (fun n x => scope.get? n = some x) names bits

theorem Scope.binds_zip {names : List String} (hd : names.Nodup) {bits : List Bool}
    (hlen : names.length = bits.length) : (Scope.zip names bits).Binds names bits := by
  induction names generalizing bits with
  | nil =>
    obtain rfl := List.length_eq_zero_iff.1 hlen.symm
    exact .nil
  | cons n names ih =>
    obtain ⟨x, bits, rfl⟩ := List.exists_cons_of_length_eq_add_one hlen.symm
    obtain ⟨hn, hd⟩ := List.nodup_cons.1 hd
    refine .cons (by simp [zip, get?]) ?_
    refine Expr.forall₂_imp_of_mem (fun m hm y hy => ?_) (ih hd (by simpa using hlen))
    have hne : m ≠ n := fun h => hn (h ▸ hm)
    rw [get?, zip, List.zip_cons_cons, List.lookup_cons, beq_false_of_ne hne]
    exact hy

theorem Scope.Binds.plain? {scope : Scope} {names : List String} {bits : List Bool}
    (h : scope.Binds names bits) (env : Environment) :
    List.Forall₂ (fun n x => env.plain? scope n = some x) names bits := by
  refine h.imp fun n x hx => ?_
  have hne : scope.isEmpty = false := by
    rw [Scope.isEmpty]
    cases hb : scope.bindings with
    | nil => simp [Scope.get?, hb] at hx
    | cons _ _ => rfl
  rw [Environment.plain?, hne, if_neg Bool.false_ne_true, hx]

namespace TruthTable

variable (t : TruthTable)

theorem mem_indicesWhere_iff {b : Bool} {i : Nat} :
    i ∈ t.indicesWhere b ↔ t.outputs[i]? = some b := by
  simp only [indicesWhere, List.mem_map, List.mem_filter, Prod.exists, decide_eq_true_eq,
    List.mem_zipIdx_iff_getElem?]
  constructor
  · rintro ⟨x, k, ⟨hk, rfl⟩, rfl⟩
    exact hk
  · exact fun h => ⟨b, i, ⟨h, rfl⟩, rfl⟩

theorem lt_of_mem_indicesWhere {b : Bool} {i : Nat} (hi : i ∈ t.indicesWhere b) :
    i < 2 ^ t.inputs.length := by
  obtain ⟨h, -⟩ := List.getElem?_eq_some_iff.1 (t.mem_indicesWhere_iff.1 hi)
  rw [t.complete] at h
  exact h

variable {t} in
theorem length_of_mem_minimize {form : Form} {p : Implicant}
    (hp : p ∈ (t.minimize form).implicants) : p.cube.length = t.inputs.length :=
  (Cover.coversExactly_minimal form fun _ hi => t.lt_of_mem_indicesWhere hi).length_eq p.cube
    (List.mem_toFinset.2 (List.mem_map_of_mem hp))

theorem exists_contains_minimize_iff (form : Form) {bits : List Bool}
    (hlen : bits.length = t.inputs.length) :
    (∃ p ∈ (t.minimize form).implicants, p.cube.contains bits = true) ↔
      t.outputs[Bits.number bits]? = some form.output := by
  have hlt : Bits.number bits < 2 ^ t.inputs.length := hlen ▸ Bits.number_lt bits
  rw [← t.mem_indicesWhere_iff,
    ← Cover.exists_covers_minimal_iff form (fun _ hi => t.lt_of_mem_indicesWhere hi) hlt]
  refine exists_congr fun p => and_congr_right fun hp => ?_
  rw [Cube.covers_number (by rw [length_of_mem_minimize hp, hlen])]

theorem evalWith_minimize {env : Environment} {enter : Enter} {scope : Scope} {bits : List Bool}
    (hread : List.Forall₂ (fun n x => env.plain? scope n = some x) t.inputs bits) {b : Bool}
    (hb : t.outputs[Bits.number bits]? = some b) (form : Form) (span : Span) :
    ((t.minimize form).toExpr span).evalWith env enter scope = pure b := by
  have hany : (t.minimize form).implicants.any (·.cube.contains bits) = true ↔
      b = form.output := by
    rw [List.any_eq_true, t.exists_contains_minimize_iff form hread.length_eq.symm, hb,
      Option.some.injEq]
  rw [Cover.evalWith_toExpr hread rfl (fun _ => length_of_mem_minimize),
    show (t.minimize form).form = form from rfl]
  refine congrArg pure ?_
  revert hany
  cases (t.minimize form).implicants.any (·.cube.contains bits) <;> cases form <;> cases b <;>
    simp [Form.output]

/-- **Minimization keeps the function**: in a scope that gives the inputs the bits of a row, both
minimal forms have the output of that row. The scope of the distinct inputs with these bits is one
such. -/
theorem eval_minimize (hd : t.inputs.Nodup) {i : Nat} (hi : i < t.outputs.length)
    (env : Environment) (limit : Nat) (span : Span) :
    (Scope.zip t.inputs (Bits.pattern i t.width)).Binds t.inputs (Bits.pattern i t.width) ∧
      ∀ scope : Scope, scope.Binds t.inputs (Bits.pattern i t.width) →
        (∀ form, ((t.minimize form).toExpr span).eval env limit scope = pure t.outputs[i]) ∧
          ((t.minimize .sumOfProducts).toExpr span).eval env limit scope =
            ((t.minimize .productOfSums).toExpr span).eval env limit scope := by
  refine ⟨Scope.binds_zip hd (Bits.length_pattern i t.width).symm, fun scope hscope => ?_⟩
  have hlt : i < 2 ^ t.width := by
    rw [t.complete] at hi
    exact hi
  have hval : ∀ form,
      ((t.minimize form).toExpr span).eval env limit scope = pure t.outputs[i] := by
    intro form
    refine t.evalWith_minimize (hscope.plain? env) ?_ form span
    rw [Bits.number_pattern_of_lt hlt, List.getElem?_eq_getElem hi]
  exact ⟨hval, by rw [hval, hval]⟩

/-- The table of `xor` with its inputs in a scope, the third row. -/
theorem eval_minimize_xor :
    ["A", "B"].Nodup ∧ 2 < [false, true, true, false].length ∧
      (Scope.mk [("B", false), ("A", true)]).Binds ["A", "B"] (Bits.pattern 2 2) ∧
      ((TruthTable.minimize ⟨["A", "B"], "", [false, true, true, false], rfl⟩ .productOfSums).toExpr
        .none).eval .empty 0 ⟨[("B", false), ("A", true)]⟩ = pure true := by
  have hbinds : (Scope.mk [("B", false), ("A", true)]).Binds ["A", "B"] (Bits.pattern 2 2) :=
    .cons rfl (.cons rfl .nil)
  exact ⟨by decide, by decide, hbinds,
    ((eval_minimize ⟨["A", "B"], "", [false, true, true, false], rfl⟩ (by decide) (i := 2)
      (by decide) .empty 0 .none).2 _ hbinds).1 .productOfSums⟩

end TruthTable

end Switching
