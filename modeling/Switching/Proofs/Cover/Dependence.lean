import Switching.Proofs.Cover.Meaning
import Switching.Proofs.Cover.Rounds
import Switching.Proofs.Expr.Nodes

/-!
# The variables of a minimal form

* `TruthTable.DependsOn`: the output of a table depends on an input.
* `Cube.contains_set_not`, `Cube.contains_modify`: a cube and a pattern with one bit turned over.
* `Cover.mem_names_toExpr_iff`: the names in a cover are those of its fixed inputs.
* `Cube.Maximal.exists_flip`: every fixed input of a prime cube matters.
* **`TruthTable.mem_inputs_minimize_iff`**: a minimal form has exactly the variables that the table
  depends on.
-/

namespace Switching

/-- Turning over the input at place `k` changes the output of some row. -/
def TruthTable.DependsOn (t : TruthTable) (k : ℕ) : Prop :=
  ∃ bits b, (bits, b) ∈ t.rows ∧ (bits.modify k (!·), !b) ∈ t.rows

/-! ## One bit turned over -/

namespace Cube

theorem contains_set_not {d : Cube} {k : ℕ} {b : Bool} (h : d[k]? = some (some b))
    (bits : List Bool) :
    contains (d.set k (some !b)) bits = d.contains (bits.modify k (!·)) := by
  induction d generalizing k bits with
  | nil => simp at h
  | cons x d ih =>
    cases bits with
    | nil => cases k <;> rfl
    | cons y bits =>
      cases k with
      | zero =>
        obtain rfl : x = some b := by simpa using h
        cases b <;> cases y <;> simp [contains]
      | succ k =>
        have hrest : d[k]? = some (some b) := by simpa using h
        simp [contains, ih hrest]

theorem contains_modify {d : Cube} {k : ℕ} (h : ∀ b, d[k]? ≠ some (some b)) (bits : List Bool) :
    d.contains (bits.modify k (!·)) = d.contains bits := by
  induction d generalizing k bits with
  | nil => cases bits <;> rfl
  | cons x d ih =>
    cases bits with
    | nil => cases k <;> rfl
    | cons y bits =>
      cases k with
      | zero =>
        obtain rfl : x = none := by
          cases x with
          | none => rfl
          | some b => exact absurd rfl (h b)
        simp [contains]
      | succ k =>
        have hrest : ∀ b, d[k]? ≠ some (some b) := by simpa using h
        simp [contains, ih hrest]

/-- A fixed input of a maximal cube matters: some pattern outside `terms` comes to lie in the cube
when that bit is turned over. -/
theorem Maximal.exists_flip {n : ℕ} {terms : List ℕ} {d : Cube} (h : d.Maximal n terms) {k : ℕ}
    {b : Bool} (hk : d[k]? = some (some b)) :
    ∃ bits : List Bool, bits.length = n ∧ Bits.number bits ∉ terms ∧
      d.contains (bits.modify k (!·)) = true := by
  obtain ⟨hfree, hself⟩ := half_set_none hk
  have hother : ¬ Inside n terms (d.set k (some !b)) := fun hin => by
    refine h.not_inside k b hk ((inside_halves_iff hfree).2 fun x => ?_)
    rcases Bool.eq_or_eq_not x b with rfl | rfl
    · exact hself.symm ▸ h.inside
    · rwa [List.set_set]
  have hlen : (d.set k (some !b)).length = n := by rw [List.length_set, h.inside.length_eq]
  obtain ⟨i, hi, hcovers, hnot⟩ : ∃ i < 2 ^ n, covers (d.set k (some !b)) i = true ∧ i ∉ terms := by
    by_contra hall
    simp only [not_exists, not_and, not_not] at hall
    exact hother ⟨hlen, hall⟩
  refine ⟨Bits.pattern i n, Bits.length_pattern i n, ?_, ?_⟩
  · rwa [Bits.number_pattern_of_lt hi]
  · rw [← contains_set_not hk, ← hlen]
    exact hcovers

end Cube

/-! ## The names in a cover -/

namespace Expr

theorem names_foldl_join (op : Operator) (es : List Expr) (e : Expr) :
    (es.foldl (·.join op ·) e).names = e.names ++ es.flatMap names := by
  induction es generalizing e with
  | nil => simp
  | cons a es ih => rw [List.foldl_cons, ih, join, names, List.flatMap_cons, List.append_assoc]

theorem mem_names_chain?_iff {op : Operator} {es : List Expr} {unit : Expr} (hunit : unit.names = [])
    {n : String} : n ∈ ((chain? op es).getD unit).names ↔ ∃ e ∈ es, n ∈ e.names := by
  cases es with
  | nil => simp [chain?, hunit]
  | cons e es => simp [chain?, names_foldl_join]

theorem names_literal (n : String) (b : Bool) (span : Span) : (literal n b span).names = [n] := by
  cases b <;> rfl

theorem firstReference?_of_isPropositional {e : Expr} (h : e.Everywhere (·.isPropositional = true)) :
    e.firstReference? = none := by
  induction e with
  | lit b s => rfl
  | str t s => rfl
  | error m s => rfl
  | var n r s =>
    cases r with
    | false => rfl
    | true => cases everywhere_var.1 h
  | binary a op b s iha ihb =>
    obtain ⟨-, ha, hb⟩ := everywhere_binary.1 h
    exact firstReference?_binary_eq_none_iff.2 ⟨iha ha, ihb hb⟩
  | not a s ih => exact ih (everywhere_not.1 h).2
  | call n args s ih => cases (everywhere_call.1 h).1
  | builtin f args s ih => cases (everywhere_builtin.1 h).1

end Expr

namespace Cover

theorem mem_names_cubeExpr_iff {form : Form} {inputs : List String} {cube : Cube} {span : Span}
    {n : String} : n ∈ (cubeExpr form inputs cube span).names ↔
      ∃ (k : ℕ) (b : Bool), inputs[k]? = some n ∧ cube[k]? = some (some b) := by
  rw [cubeExpr, Expr.mem_names_chain?_iff rfl]
  constructor
  · rintro ⟨e, he, hn⟩
    obtain ⟨⟨m, x⟩, hmem, hx⟩ := List.mem_filterMap.1 he
    obtain ⟨b, rfl, rfl⟩ := Option.map_eq_some_iff.1 hx
    obtain ⟨k, hk⟩ := List.mem_iff_getElem?.1 hmem
    obtain ⟨hm, hb⟩ := List.getElem?_zip_eq_some.1 hk
    rw [Expr.names_literal, List.mem_singleton] at hn
    exact ⟨k, b, hn ▸ hm, hb⟩
  · rintro ⟨k, b, hn, hb⟩
    have hmem : (n, some b) ∈ inputs.zip cube :=
      List.mem_iff_getElem?.2 ⟨k, List.getElem?_zip_eq_some.2 ⟨hn, hb⟩⟩
    refine ⟨_, List.mem_filterMap.2 ⟨_, hmem, rfl⟩, ?_⟩
    rw [Expr.names_literal]
    exact List.mem_singleton_self n

theorem mem_names_toExpr_iff {c : Cover} {span : Span} {n : String} :
    n ∈ (c.toExpr span).names ↔ (∀ p ∈ c.implicants, p.cube.isUniversal = false) ∧
      ∃ p ∈ c.implicants, ∃ (k : ℕ) (b : Bool),
        c.inputs[k]? = some n ∧ p.cube[k]? = some (some b) := by
  rw [toExpr]
  split
  case isTrue huniversal =>
    obtain ⟨p, hp, hcube⟩ := List.any_eq_true.1 huniversal
    refine ⟨fun h => (List.not_mem_nil h).elim, ?_⟩
    rintro ⟨hnone, -⟩
    rw [hnone p hp] at hcube
    cases hcube
  case isFalse huniversal =>
    have hnone : ∀ p ∈ c.implicants, p.cube.isUniversal = false := by simpa using huniversal
    rw [Expr.mem_names_chain?_iff rfl]
    simp only [List.mem_map, exists_exists_and_eq_and, mem_names_cubeExpr_iff]
    exact ⟨fun h => ⟨hnone, h⟩, fun h => h.2⟩

end Cover

/-! ## Tables -/

namespace TruthTable

variable (t : TruthTable)

theorem mem_rows_iff {bits : List Bool} {b : Bool} :
    (bits, b) ∈ t.rows ↔ bits.length = t.width ∧ t.outputs[Bits.number bits]? = some b := by
  rw [rows, List.mem_iff_getElem?]
  simp only [List.getElem?_zip_eq_some, Bits.getElem?_patterns_eq_some_iff]
  constructor
  · rintro ⟨i, ⟨hlt, rfl⟩, hb⟩
    rw [Bits.number_pattern_of_lt hlt]
    exact ⟨Bits.length_pattern i _, hb⟩
  · rintro ⟨hlen, hb⟩
    exact ⟨Bits.number bits, ⟨hlen ▸ Bits.number_lt bits, hlen ▸ Bits.pattern_number bits⟩, hb⟩

theorem not_mem_indicesWhere_iff {bits : List Bool} (hlen : bits.length = t.width) {o : Bool} :
    Bits.number bits ∉ t.indicesWhere o ↔ (bits, !o) ∈ t.rows := by
  have hlt : Bits.number bits < t.outputs.length := by
    rw [t.complete, ← width, ← hlen]
    exact Bits.number_lt bits
  rw [mem_rows_iff, mem_indicesWhere_iff, List.getElem?_eq_getElem hlt, Option.some.injEq,
    Option.some.injEq, and_iff_right hlen, Bool.eq_not]

/-- The bit that is turned over may be the one of a row with the output `o`. -/
theorem dependsOn_iff {k : ℕ} (o : Bool) :
    t.DependsOn k ↔ ∃ bits, (bits.modify k (!·), o) ∈ t.rows ∧ (bits, !o) ∈ t.rows := by
  have hmodify : ∀ bits : List Bool, (bits.modify k (!·)).modify k (!·) = bits := fun bits => by
    simp only [List.modify_modify_eq, Function.comp_def, Bool.not_not]
    exact List.modify_id k bits
  constructor
  · rintro ⟨bits, b, hb, hnot⟩
    rcases Bool.eq_or_eq_not b o with rfl | rfl
    · exact ⟨bits.modify k (!·), (hmodify bits).symm ▸ hb, hnot⟩
    · exact ⟨bits, by simpa using hnot, hb⟩
  · rintro ⟨bits, ho, hnot⟩
    exact ⟨bits, !o, hnot, by simpa using ho⟩

/-- Where the output depends on an input, some cube of a minimal form fixes that input, and none is
universal. -/
theorem exists_fixed_of_dependsOn {k : ℕ} (h : t.DependsOn k) (form : Form) :
    (∀ p ∈ (t.minimize form).implicants, p.cube.isUniversal = false) ∧
      ∃ p ∈ (t.minimize form).implicants, ∃ b, p.cube[k]? = some (some b) := by
  obtain ⟨bits, hin, hout⟩ := (t.dependsOn_iff form.output).1 h
  obtain ⟨hlen, hin⟩ := t.mem_rows_iff.1 hin
  obtain ⟨p, hp, hcontains⟩ := (t.exists_contains_minimize_iff form hlen).2 hin
  obtain ⟨hlen, hout⟩ := t.mem_rows_iff.1 hout
  have hnone : ∀ q ∈ (t.minimize form).implicants, q.cube.contains bits = false := fun q hq => by
    refine Bool.eq_false_iff.2 fun hq' => ?_
    rw [(t.exists_contains_minimize_iff form hlen).1 ⟨q, hq, hq'⟩] at hout
    simp at hout
  refine ⟨fun q hq => Bool.eq_false_iff.2 fun huniversal => ?_, p, hp, ?_⟩
  · have hbits := hnone q hq
    rw [Cube.contains_of_isUniversal huniversal] at hbits
    cases hbits
  · by_contra hfree
    rw [Cube.contains_modify (not_exists.1 hfree), hnone p hp] at hcontains
    cases hcontains

theorem dependsOn_of_fixed {form : Form} {p : Implicant} (hp : p ∈ (t.minimize form).implicants)
    {k : ℕ} {b : Bool} (hk : p.cube[k]? = some (some b)) : t.DependsOn k := by
  have hprime := Cover.mem_primeImplicants_of_mem_minimal form hp
  obtain ⟨c, hc, rfl⟩ := (Rounds.mem_primeImplicants_iff fun _ => t.lt_of_mem_indicesWhere).1 hprime
  obtain ⟨bits, hlen, hnot, hcontains⟩ := hc.exists_flip hk
  have hlen' : (bits.modify k (!·)).length = t.width := by rw [List.length_modify, hlen, width]
  have hin := (t.exists_contains_minimize_iff form hlen').1 ⟨_, hp, hcontains⟩
  exact (t.dependsOn_iff form.output).2
    ⟨bits, t.mem_rows_iff.2 ⟨hlen', hin⟩, (t.not_mem_indicesWhere_iff hlen).1 hnot⟩

/-- **The variables of a minimal form**: both minimal forms have no references, and their variables
are the inputs that the output depends on. -/
theorem mem_inputs_minimize_iff (form : Form) (span : Span) :
    ((t.minimize form).toExpr span).firstReference? = none ∧
      ∀ n, n ∈ ((t.minimize form).toExpr span).inputs ↔
        ∃ k, t.inputs[k]? = some n ∧ t.DependsOn k := by
  refine ⟨Expr.firstReference?_of_isPropositional (Cover.everywhere_toExpr _ span), fun n => ?_⟩
  rw [Expr.mem_inputs_iff, Cover.mem_names_toExpr_iff]
  constructor
  · rintro ⟨-, p, hp, k, b, hn, hb⟩
    exact ⟨k, hn, t.dependsOn_of_fixed hp hb⟩
  · rintro ⟨k, hn, hk⟩
    obtain ⟨hnone, p, hp, b, hb⟩ := t.exists_fixed_of_dependsOn hk form
    exact ⟨hnone, p, hp, k, b, hn, hb⟩

end TruthTable

end Switching
