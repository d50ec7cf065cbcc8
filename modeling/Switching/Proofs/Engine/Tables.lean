import Switching.Proofs.Cover.Meaning
import Switching.Proofs.Engine.Stability
import Switching.TruthTable.Eval

/-!
# Truth tables of expressions

* `sampleAll_eq_pure`: what it takes to sample every pattern.
* `Expr.eval_zip_inputs`: a value stays in the scope of the inputs with what they stand for.
* **`Expr.truthTable_eq_pure`**: the table of an expression holds its value for all bits of its
  inputs.
* `Expr.minimal?_truthTable`: the table has a minimal form.
* `Expr.evalWith_minimize_truthTable`: the minimal form of the table has that value, too.
-/

namespace Switching

theorem sampleAll_eq_pure {α : Type} {f : α → EvalM Bool} {items : List α}
    {bits : { bits : List Bool // bits.length = items.length }}
    (h : sampleAll f items = pure bits) :
    List.Forall₂ (fun a b => f a = pure b) items bits.1 := by
  induction items with
  | nil =>
    obtain ⟨bits, hlen⟩ := bits
    obtain rfl := List.length_eq_zero_iff.1 hlen
    exact .nil
  | cons a items ih =>
    simp only [sampleAll, EvalM.bind_eq_pure_iff, EvalM.pure_inj] at h
    obtain ⟨b, hb, bits, hbits, rfl⟩ := h
    exact .cons hb (ih hbits)

namespace Expr

variable {env : Environment} {config : Config} {e : Expr} {t : TruthTable}

/-- The table of an expression holds its value, whatever bits its inputs have. -/
theorem truthTable_eq_pure (h : e.truthTable env config = pure t) :
    e.firstReference? = none ∧ t.inputs = e.inputs ∧
      ∀ bits : List Bool, bits.length = e.inputs.length →
        ∃ b, t.outputs[Bits.number bits]? = some b ∧
          e.eval env config.maxCallDepth (.zip e.inputs bits) = pure b := by
  rw [truthTable] at h
  cases href : e.firstReference? with
  | some reference => simp [href] at h
  | none =>
    by_cases hlimit : config.tableLimit < e.inputs.length
    · simp [href, hlimit] at h
    · simp only [href, hlimit, if_false, EvalM.bind_eq_pure_iff, EvalM.pure_inj] at h
      obtain ⟨outputs, houtputs, rfl⟩ := h
      refine ⟨rfl, rfl, fun bits hlen => ?_⟩
      have hlt : Bits.number bits < (Bits.patterns e.inputs.length).length := by
        rw [Bits.length_patterns, ← hlen]
        exact Bits.number_lt bits
      have hlt' : Bits.number bits < outputs.1.length := by rwa [outputs.2]
      have hrow := (List.forall₂_iff_get.1 (sampleAll_eq_pure houtputs)).2 _ hlt hlt'
      have hpattern : (Bits.patterns e.inputs.length).get ⟨Bits.number bits, hlt⟩ = bits := by
        simp only [Bits.patterns, List.get_eq_getElem, List.getElem_map, List.getElem_range]
        rw [← hlen, Bits.pattern_number]
      rw [hpattern] at hrow
      exact ⟨_, List.getElem?_eq_getElem hlt', hrow⟩

theorem length_inputs_le_of_truthTable (h : e.truthTable env config = pure t) :
    e.inputs.length ≤ config.tableLimit := by
  by_contra hlt
  rw [truthTable_of_lt (truthTable_eq_pure h).1 (Nat.not_le.1 hlt)] at h
  exact EvalM.throw_ne_pure h

/-- The tables of expressions are not too wide to be minimized. -/
theorem minimal?_truthTable (h : e.truthTable env config = pure t) (form : Form) :
    Cover.minimal? t.inputs (t.indicesWhere form.output) form = some (t.minimize form) := by
  have hinputs : t.width ≤ config.tableLimit := by
    rw [TruthTable.width, (truthTable_eq_pure h).2.1]
    exact length_inputs_le_of_truthTable h
  have hlimit : config.tableLimit ≤ Bits.wordSize - 1 := Nat.min_le_right ..
  exact TruthTable.minimal?_of_width_le (hinputs.trans (hlimit.trans (Nat.sub_le ..))) form

/-- The minimal form of the table of an expression has the value of the expression, as evaluated in
the scope of its inputs with the bits that they stand for. -/
theorem evalWith_minimize_truthTable {env' : Environment} (enter : Enter) {scope : Scope}
    (h : e.truthTable env config = pure t) {bits : List Bool}
    (hread : List.Forall₂ (fun n x => env'.plain? scope n = some x) e.inputs bits) :
    ∃ b, e.eval env config.maxCallDepth (.zip e.inputs bits) = pure b ∧
      ∀ form span, ((t.minimize form).toExpr span).evalWith env' enter scope = pure b := by
  obtain ⟨-, hinputs, hrows⟩ := truthTable_eq_pure h
  obtain ⟨b, hb, heval⟩ := hrows bits hread.length_eq.symm
  exact ⟨b, heval, t.evalWith_minimize (hinputs ▸ hread) hb⟩

/-! ## The row of a value -/

theorem exists_bits {read : String → Option Bool} {names : List String}
    (h : ∀ n ∈ names, (read n).isSome) :
    ∃ bits, List.Forall₂ (fun n x => read n = some x) names bits := by
  induction names with
  | nil => exact ⟨[], .nil⟩
  | cons n names ih =>
    obtain ⟨hn, hnames⟩ := List.forall_mem_cons.1 h
    obtain ⟨x, hx⟩ := Option.isSome_iff_exists.1 hn
    obtain ⟨bits, hbits⟩ := ih hnames
    exact ⟨x :: bits, .cons hx hbits⟩

theorem plain?_zip_inputs {scope : Scope} {bits : List Bool}
    (hread : List.Forall₂ (fun n x => env.plain? scope n = some x) e.inputs bits) {n : String}
    (hn : n ∈ e.names) : env.plain? (.zip e.inputs bits) n = env.plain? scope n := by
  have hzip := (Scope.binds_zip e.nodup_inputs hread.length_eq).plain? env
  obtain ⟨k, hk, rfl⟩ := List.mem_iff_getElem.1 (mem_inputs_iff.2 hn)
  have hk' : k < bits.length := hread.length_eq ▸ hk
  exact ((List.forall₂_iff_get.1 hzip).2 k hk hk').trans
    ((List.forall₂_iff_get.1 hread).2 k hk hk').symm

/-- A value without references is also the value in the scope of the inputs, with the bits that they
stand for, if as many calls can be opened. -/
theorem eval_zip_inputs {limit d : Nat} (hd : d ≤ limit) {scope : Scope} {b : Bool}
    (h : e.evalWith env (enterBody env limit d) scope = pure b) (href : e.firstReference? = none)
    {bits : List Bool}
    (hread : List.Forall₂ (fun n x => env.plain? scope n = some x) e.inputs bits) :
    e.eval env limit (.zip e.inputs bits) = pure b := by
  have henter : ∀ f bits s b, enterBody env limit d f bits s = pure b →
      enterBody env limit limit f bits s = pure b := fun f bits s b =>
    (sameUnless_enterBody_of_le hd f bits s).eq_pure
  exact evalWith_congr rfl henter (fun _ hn => plain?_zip_inputs hread hn) (.inl href) h

/-- The minimal form of the table of an expression has the value of the expression, also of one that
is evaluated with fewer calls. -/
theorem evalWith_minimize_of_value (ht : e.truthTable env config = pure t) {d : Nat}
    (hd : d ≤ config.maxCallDepth) {scope : Scope} {enter : Enter} {b : Bool}
    (h : e.evalWith env (enterBody env config.maxCallDepth d) scope = pure b) (form : Form)
    (span : Span) : ((t.minimize form).toExpr span).evalWith env enter scope = pure b := by
  obtain ⟨bits, hread⟩ := exists_bits fun n hn =>
    isSome_plain?_of_evalWith h (mem_inputs_iff.1 hn)
  obtain ⟨c, hc, hmin⟩ := evalWith_minimize_truthTable enter ht hread
  have hb := eval_zip_inputs hd h (truthTable_eq_pure ht).1 hread
  rw [hc, EvalM.pure_inj] at hb
  rw [← hb]
  exact hmin form span

end Expr

end Switching
