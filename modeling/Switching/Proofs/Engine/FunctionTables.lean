import Switching.Input.Basic
import Switching.Program.Compile
import Switching.Proofs.Cover.Meaning
import Switching.Proofs.Engine.Environment

/-!
# What function tables mean

The function of a table evaluates the outputs of all rows in their order, and whatever they are. It
is 1 if a row that matches has the output 1.

* `FunctionTable.Valid`, `FunctionTable.validate_eq_ok_iff`: the tables that are accepted.
* `Expr.evalWith_chain_eq`: a chain evaluates its parts one after the other, errors and prompts
  included.
* `TableRow.evalWith_product`: the expression of a row evaluates its output once.
* `FunctionTable.evalWith_body`: the body of a table evaluates the outputs of all rows.
* **`FunctionTable.evalWith_compile`**: the function of a table, called with any bits.
-/

namespace Switching

/-! ## Accepted tables -/

namespace FunctionTable

/-- The names of a table are distinct, and its patterns are distinct and fix all parameters and no
more than there are names. -/
structure Valid (t : FunctionTable) : Prop where
  nodup_names : t.names.Nodup
  length_pattern : ∀ r ∈ t.rows,
    t.params.length ≤ r.pattern.length ∧ r.pattern.length ≤ t.names.length
  nodup_patterns : (t.rows.map (·.pattern)).Nodup

theorem checkRows_eq_ok_iff {t : FunctionTable} {seen : List (List Bool)} {rows : List TableRow} :
    t.checkRows seen rows = .ok () ↔
      (∀ r ∈ rows, t.params.length ≤ r.pattern.length ∧ r.pattern.length ≤ t.names.length) ∧
        (rows.map (·.pattern)).Nodup ∧ ∀ r ∈ rows, r.pattern ∉ seen := by
  induction rows generalizing seen with
  | nil => simp [checkRows]
  | cons r rows ih =>
    have hlength : t.names.length = t.params.length + t.subparams.length := by simp [names]
    simp only [checkRows, List.forall_mem_cons, List.map_cons, List.nodup_cons, List.mem_map]
    split_ifs with hlen hseen
    · simp only [false_iff]
      omega
    · simp [hseen]
    · simp only [ih, List.mem_cons, not_or]
      constructor
      · rintro ⟨hrows, hnodup, hnot⟩
        refine ⟨⟨by omega, hrows⟩, ⟨?_, hnodup⟩, hseen, fun q hq => (hnot q hq).2⟩
        rintro ⟨q, hq, heq⟩
        exact (hnot q hq).1 heq
      · rintro ⟨⟨-, hrows⟩, ⟨hnew, hnodup⟩, -, hnot⟩
        exact ⟨hrows, hnodup, fun q hq => ⟨fun heq => hnew ⟨q, hq, heq⟩, hnot q hq⟩⟩

theorem validate_eq_ok_iff {t : FunctionTable} : t.validate = .ok () ↔ t.Valid := by
  have hnames : Environment.firstRepeated? [] t.names = none ↔ t.names.Nodup := by
    simp [Environment.firstRepeated?_eq_none_iff]
  rw [validate]
  cases h : Environment.firstRepeated? [] t.names with
  | some n => exact ⟨(nomatch ·), fun hv => nomatch h.symm.trans (hnames.2 hv.nodup_names)⟩
  | none =>
    dsimp only
    rw [checkRows_eq_ok_iff]
    exact ⟨fun hrows => ⟨hnames.1 h, hrows.1, hrows.2.1⟩,
      fun hv => ⟨hv.length_pattern, hv.nodup_patterns, by simp⟩⟩

theorem compile_eq_ok_iff {t : FunctionTable} {f : Function} :
    t.compile = .ok f ↔ t.Valid ∧ f = ⟨t.name, t.names, t.body, t.span⟩ := by
  rw [← validate_eq_ok_iff, compile]
  cases t.validate with
  | error e => exact ⟨(nomatch ·), fun h => nomatch h.1⟩
  | ok u => exact ⟨fun h => ⟨rfl, (Except.ok.inj h).symm⟩, fun h => congrArg Except.ok h.2.symm⟩

end FunctionTable

/-! ## Chains with errors and prompts -/

section Chain

variable {env : Environment} {enter : Enter} {scope : Scope}

/-- Joined expressions are evaluated one after the other, and then their bits are folded. -/
theorem Expr.evalWith_foldl_join_eq (op : Operator) (e : Expr) (es : List Expr) :
    (es.foldl (·.join op ·) e).evalWith env enter scope = do
      let b ← e.evalWith env enter scope
      let bs ← es.mapM (·.evalWith env enter scope)
      return bs.foldl op.apply b := by
  induction es generalizing e with
  | nil => simp
  | cons a es ih =>
    rw [List.foldl_cons, ih, join, evalWith, List.mapM_cons]
    simp only [bind_assoc, pure_bind, List.foldl_cons]

/-- A chain with the unit of its operator in place of the chain of nothing. -/
theorem Expr.evalWith_chain_eq (op : Operator) {unit : Bool} (hunit : ∀ b, op.apply unit b = b)
    (es : List Expr) (span : Span) :
    ((Expr.chain? op es).getD (.lit unit span)).evalWith env enter scope = do
      let bs ← es.mapM (·.evalWith env enter scope)
      return bs.foldl op.apply unit := by
  cases es with
  | nil => simp [chain?, evalWith]
  | cons e es =>
    rw [chain?, Option.getD_some, evalWith_foldl_join_eq, List.mapM_cons]
    simp only [bind_assoc, pure_bind, List.foldl_cons, hunit]

end Chain

/-! ## Rows -/

theorem Operator.foldl_apply_and (qs : List Bool) : qs.foldl and.apply true = qs.all id := by
  rw [← Bool.true_and (qs.all id), ← foldl_and]
  rfl

theorem Operator.foldl_apply_or (qs : List Bool) : qs.foldl or.apply false = qs.any id := by
  rw [← Bool.false_or (qs.any id), ← foldl_or]
  rfl

/-- The outputs of rows, evaluated one after the other. -/
def TableRow.outputsWith (env : Environment) (enter : Enter) (scope : Scope)
    (rows : List TableRow) : EvalM (List Bool) := rows.mapM (·.output.evalWith env enter scope)

section Rows

variable {env : Environment} {scope : Scope} {names : List String} {v : List Bool}
  (hread : List.Forall₂ (fun n x => env.plain? scope n = some x) names v)

include hread

variable (enter : Enter)

theorem TableRow.mapM_literals {pattern : List Bool} (hlen : pattern.length ≤ names.length)
    (span : Span) :
    ∃ qs, ((names.zip pattern).map fun x => Expr.literal x.1 x.2 span).mapM
      (·.evalWith env enter scope) = pure qs ∧ qs.all id = decide (pattern <+: v) := by
  induction hread generalizing pattern with
  | nil =>
    obtain rfl := List.length_eq_zero_iff.1 (Nat.le_zero.1 hlen)
    exact ⟨[], by simp, by simp⟩
  | @cons n x names v hn _ ih =>
    cases pattern with
    | nil => exact ⟨[], by simp, by simp⟩
    | cons b pattern =>
      obtain ⟨qs, hqs, hall⟩ := ih (Nat.le_of_succ_le_succ hlen)
      have hliteral : (Expr.literal n (b == Form.sumOfProducts.output) span).evalWith env enter
          scope = pure ((x == b) == Form.sumOfProducts.output) := Cover.evalWith_literal b span hn
      simp only [Form.output, beq_true] at hliteral
      refine ⟨(x == b) :: qs, ?_, ?_⟩
      · rw [List.zip_cons_cons, List.map_cons, List.mapM_cons, hliteral, hqs, pure_bind, pure_bind]
      · rw [List.all_cons, hall, id, Bool.eq_iff_iff, Bool.and_eq_true, beq_iff_eq,
          decide_eq_true_iff, decide_eq_true_iff, List.cons_prefix_cons, eq_comm]

/-- The expression of a row evaluates its output, whether the row matches or not. -/
theorem TableRow.evalWith_product (r : TableRow) (hlen : r.pattern.length ≤ names.length) :
    (r.product names).evalWith env enter scope = do
      let b ← r.output.evalWith env enter scope
      return decide (r.pattern <+: v) && b := by
  obtain ⟨qs, hqs, hall⟩ := mapM_literals hread enter hlen r.span
  have hcondition : ((Expr.chain? .and ((names.zip r.pattern).map fun x =>
      Expr.literal x.1 x.2 r.span)).getD (.lit true r.span)).evalWith env enter scope =
        pure (decide (r.pattern <+: v)) := by
    rw [Expr.evalWith_chain_eq .and (fun b => by cases b <;> rfl), hqs, pure_bind,
      Operator.foldl_apply_and, hall]
  rw [product_eq]
  cases hchain : Expr.chain? .and ((names.zip r.pattern).map fun x => .literal x.1 x.2 r.span) with
  | none =>
    -- a pattern without bits asks for nothing
    rw [hchain] at hcondition
    have hmatch : true = decide (r.pattern <+: v) := EvalM.pure_inj.1 hcondition
    simp [← hmatch]
  | some condition =>
    rw [hchain, Option.getD_some] at hcondition
    rw [Option.elim_some, Expr.join, Expr.evalWith, hcondition, pure_bind]
    rfl

theorem TableRow.mapM_products {rows : List TableRow}
    (hrows : ∀ r ∈ rows, r.pattern.length ≤ names.length) :
    (rows.map (·.product names)).mapM (·.evalWith env enter scope) = do
      let outputs ← TableRow.outputsWith env enter scope rows
      return (rows.zip outputs).map fun x => decide (x.1.pattern <+: v) && x.2 := by
  rw [TableRow.outputsWith]
  induction rows with
  | nil => simp
  | cons r rows ih =>
    obtain ⟨hr, hrows⟩ := List.forall_mem_cons.1 hrows
    rw [List.map_cons, List.mapM_cons, List.mapM_cons, ih hrows, r.evalWith_product hread enter hr]
    simp only [bind_assoc, pure_bind, List.zip_cons_cons, List.map_cons]

end Rows

/-! ## Tables -/

section Run

variable {σ : Type} [Replier σ] {env : Environment} {enter : Enter} {scope : Scope}

theorem TableRow.outputsWith_cons (r : TableRow) (rows : List TableRow) :
    outputsWith env enter scope (r :: rows) = do
      let b ← r.output.evalWith env enter scope
      let bs ← outputsWith env enter scope rows
      return b :: bs := by
  rw [outputsWith, List.mapM_cons, outputsWith]

/-- Outputs fail where the first of them does: those before it have bits, and those after it are not
evaluated. -/
theorem TableRow.run_outputsWith_eq_error_iff {rows : List TableRow} {s s' : σ} {e : RuntimeError} :
    (outputsWith env enter scope rows).run.run s = (.error e, s') ↔
      ∃ before r after outputs u, rows = before ++ r :: after ∧
        (outputsWith env enter scope before).run.run s = (.ok outputs, u) ∧
          (r.output.evalWith env enter scope).run.run u = (.error e, s') := by
  induction rows generalizing s with
  | nil =>
    constructor
    · intro h
      cases h
    · rintro ⟨before, r, after, outputs, u, h, -⟩
      simp at h
  | cons r rows ih =>
    rw [outputsWith_cons, EvalM.run_bind_eq_error_iff]
    constructor
    · rintro (h | ⟨b, t, hb, hrest⟩)
      · exact ⟨[], r, rows, [], s, rfl, rfl, h⟩
      · rcases EvalM.run_bind_eq_error_iff.1 hrest with hrows | ⟨bs, u, -, hpure⟩
        · obtain ⟨before, q, after, outputs, u, rfl, hbefore, hq⟩ := ih.1 hrows
          refine ⟨r :: before, q, after, b :: outputs, u, rfl, ?_, hq⟩
          rw [outputsWith_cons]
          exact EvalM.run_bind_eq_value_iff.2 ⟨b, t, hb,
            EvalM.run_bind_eq_value_iff.2 ⟨outputs, u, hbefore, rfl⟩⟩
        · cases hpure
    · rintro ⟨before, q, after, outputs, u, heq, hbefore, hq⟩
      cases before with
      | nil =>
        obtain ⟨rfl, rfl⟩ := List.cons.inj heq
        cases hbefore
        exact .inl hq
      | cons p before =>
        obtain ⟨rfl, rfl⟩ := List.cons.inj heq
        rw [outputsWith_cons] at hbefore
        obtain ⟨b, t, hb, hrest⟩ := EvalM.run_bind_eq_value_iff.1 hbefore
        obtain ⟨bs, u', hbs, hpure⟩ := EvalM.run_bind_eq_value_iff.1 hrest
        cases hpure
        exact .inr ⟨b, t, hb, EvalM.run_bind_eq_error_iff.2
          (.inl (ih.2 ⟨before, q, after, bs, u, rfl, hbs, hq⟩))⟩

end Run

namespace FunctionTable

variable {env : Environment} {enter : Enter} {t : FunctionTable} {f : Function} {v : List Bool}

variable (enter) in
theorem evalWith_body {scope : Scope} (ht : t.Valid)
    (hread : List.Forall₂ (fun n x => env.plain? scope n = some x) t.names v) :
    t.body.evalWith env enter scope = do
      let outputs ← TableRow.outputsWith env enter scope t.rows
      return (t.rows.zip outputs).any fun x => decide (x.1.pattern <+: v) && x.2 := by
  rw [body, Expr.evalWith_chain_eq .or (fun b => by cases b <;> rfl),
    TableRow.mapM_products hread enter fun r hr => (ht.length_pattern r hr).2]
  simp only [bind_assoc, pure_bind, Operator.foldl_apply_or, List.any_map]
  rfl

theorem any_matches_iff {rows : List TableRow} {outputs : List Bool} :
    ((rows.zip outputs).any fun x => decide (x.1.pattern <+: v) && x.2) = true ↔
      ∃ r, (r, true) ∈ rows.zip outputs ∧ r.pattern <+: v := by
  rw [List.any_eq_true]
  constructor
  · rintro ⟨⟨r, b⟩, hmem, h⟩
    obtain ⟨hmatch, rfl⟩ : r.pattern <+: v ∧ b = true := by simpa using h
    exact ⟨r, hmem, hmatch⟩
  · rintro ⟨r, hmem, hmatch⟩
    exact ⟨(r, true), hmem, by simpa using hmatch⟩

/-- **The function of a table means what the table says.** Called with any bits, it evaluates the
outputs of all rows once each, in their order. Whoever replies, it has a bit exactly if all outputs
have, namely 1 if a row has the output 1 and a pattern that the bits begin with; and it fails
exactly if an output does, with the error of the first such output. -/
theorem evalWith_compile (hf : t.compile = .ok f) (hv : v.length = f.params.length) :
    f.params = t.params ++ t.subparams ∧
      f.body.evalWith env enter (.zip f.params v) = (do
        let outputs ← TableRow.outputsWith env enter (.zip f.params v) t.rows
        return (t.rows.zip outputs).any fun x => decide (x.1.pattern <+: v) && x.2) ∧
      ∀ {σ : Type} [Replier σ] (s s' : σ),
        (∀ b, (f.body.evalWith env enter (.zip f.params v)).run.run s = (.ok b, s') ↔
          ∃ outputs,
            (TableRow.outputsWith env enter (.zip f.params v) t.rows).run.run s =
              (.ok outputs, s') ∧
            (b = true ↔ ∃ r, (r, true) ∈ t.rows.zip outputs ∧ r.pattern <+: v)) ∧
        ∀ e, (f.body.evalWith env enter (.zip f.params v)).run.run s = (.error e, s') ↔
          ∃ before r after outputs u, t.rows = before ++ r :: after ∧
            (TableRow.outputsWith env enter (.zip f.params v) before).run.run s =
              (.ok outputs, u) ∧
            (r.output.evalWith env enter (.zip f.params v)).run.run u = (.error e, s') := by
  obtain ⟨ht, rfl⟩ := compile_eq_ok_iff.1 hf
  have hbody := evalWith_body enter ht ((Scope.binds_zip ht.nodup_names hv.symm).plain? env)
  refine ⟨rfl, hbody, fun s s' => ⟨fun b => ?_, fun e => ?_⟩⟩
  · rw [hbody, EvalM.run_bind_eq_value_iff]
    refine exists_congr fun outputs => ?_
    simp only [EvalM.run_pure, Prod.mk.injEq, Except.ok.injEq, ← any_matches_iff]
    constructor
    · rintro ⟨u, hu, rfl, rfl⟩
      exact ⟨hu, Iff.rfl⟩
    · rintro ⟨hu, hb⟩
      exact ⟨s', hu, (Bool.eq_iff_iff.2 hb).symm, rfl⟩
  · rw [hbody, EvalM.run_bind_eq_error_iff, TableRow.run_outputsWith_eq_error_iff]
    refine or_iff_left ?_
    rintro ⟨outputs, u, -, h⟩
    cases h

/-- A table whose first two rows can match at once, and whose third asks for a bit as well. -/
def overlapping : FunctionTable :=
  ⟨"T", ["A"], ["S"],
    [⟨[true], .builtin .input [.str "x" .none] .none, .none⟩,
      ⟨[true, false], .not (.var "S" false .none) .none, .none⟩,
      ⟨[false], .builtin .input [.str "y" .none] .none, .none⟩], .none⟩

/-- The third row does not match, but its output is evaluated. -/
theorem evalWith_compile_overlapping :
    overlapping.compile = .ok ⟨"T", ["A", "S"], overlapping.body, .none⟩ ∧
      [true, false].length = ["A", "S"].length ∧
      (overlapping.body.evalWith .empty (enterBody .empty 1 1)
          (.zip ["A", "S"] [true, false])).run.run
          (Recorded.mk (Script.mk [some false, some true]) []) =
        (.ok true, ⟨⟨[]⟩, ["x", "y"]⟩) := by
  have hcompile : overlapping.compile = .ok ⟨"T", ["A", "S"], overlapping.body, .none⟩ := rfl
  refine ⟨hcompile, rfl, ?_⟩
  rw [(evalWith_compile hcompile rfl).2.1]
  rfl

end FunctionTable

end Switching
