import Switching.Proofs.Engine.Display
import Switching.Proofs.Engine.Gates

/-!
# Gate forms have the outcome of their expression

Over one gate, operands are repeated, but the first one still comes first and nothing new is read.
So errors stay as well as bits, and so do the inputs of a table.

* `Expr.evalWith_toGateForm_eq`: a gate form has the outcome of its expression.
* `Gate.foldl_names_build`, `Expr.inputs_toGateForm`: its inputs are the same, in the same order.
* `TruthTable.Agree`: tables with the same rows, or the same error.
* **`Expr.eval_toGateForm`**: the outcome and the table of a gate form.
-/

namespace Switching

variable {env : Environment} {config : Config} {enter : Enter} {scope : Scope}

/-! ## Outcomes -/

theorem Gate.evalWith_invert_eq (g : Gate) {a : Expr} (s : Span)
    (ha : (a.evalWith env enter scope).Settled) :
    (g.invert a).evalWith env enter scope = (Expr.not a s).evalWith env enter scope := by
  obtain ⟨x, hx⟩ := ha
  cases x with
  | error e =>
    simp only [invert, apply, Expr.join, Expr.evalWith, hx]
    rfl
  | ok x =>
    rw [Gate.evalWith_invert g hx, Expr.evalWith_not_eq_pure_iff.2]
    rw [hx, Bool.not_not]
    rfl

namespace Expr

theorem evalAllWith_toGateFormAll (g : Gate) {args : List Expr}
    (h : ∀ a ∈ args, (a.toGateForm g).evalWith env enter scope = a.evalWith env enter scope) :
    evalAllWith env enter scope (toGateFormAll g args) = evalAllWith env enter scope args := by
  induction args with
  | nil => rfl
  | cons a args ih =>
    obtain ⟨ha, hargs⟩ := List.forall_mem_cons.1 h
    rw [toGateFormAll, evalAllWith, evalAllWith, ha, ih hargs]

/-- A gate form has the outcome of its expression, where no operand asks for anything. -/
theorem evalWith_toGateForm_eq (g : Gate) {e : Expr} (hinput : e.asksInput = false)
    (henter : ∀ f, e.Calls env f → ∀ bits s, (enter f bits s).Settled) :
    (e.toGateForm g).evalWith env enter scope = e.evalWith env enter scope := by
  induction e with
  | lit b s => rfl
  | str t s => rfl
  | var n r s => rfl
  | error m s => rfl
  | binary a op b s iha ihb =>
    rw [asksInput, Bool.or_eq_false_iff] at hinput
    have hcalla := fun f (hf : a.Calls env f) => henter f (hf.mono callees_subset_left)
    have hcallb := fun f (hf : b.Calls env f) => henter f (hf.mono callees_subset_right)
    have ha := iha hinput.1 hcalla
    have hb := ihb hinput.2 hcallb
    rw [toGateForm, Gate.evalWith_build g op s
      (ha ▸ settled_evalWith hinput.1 hcalla) (hb ▸ settled_evalWith hinput.2 hcallb)]
    rw [evalWith, evalWith, ha, hb]
  | not a s ih =>
    have ha := ih hinput henter
    rw [toGateForm, Gate.evalWith_invert_eq g s (ha ▸ settled_evalWith hinput henter), evalWith,
      evalWith, ha]
  | call n args s ih =>
    rw [asksInput, anyAsksInput_eq_false_iff] at hinput
    have hargs := evalAllWith_toGateFormAll g fun a ha => ih a ha (hinput a ha) fun f hf =>
      henter f (hf.mono (callees_subset_call ha))
    rw [toGateForm, evalWith, evalWith, hargs, toGateFormAll_eq, List.length_map]
  | builtin f args s ih =>
    rw [asksInput, Bool.or_eq_false_iff, anyAsksInput_eq_false_iff] at hinput
    cases f with
    | input => simp at hinput
    | toNand | toNor | solveSop | solvePos =>
      rcases args with _ | ⟨a, _ | ⟨b, args⟩⟩
      · rfl
      · have ha : a ∈ [a] := List.mem_singleton_self a
        exact ih a ha (hinput.2 a ha) fun f hf => henter f (hf.mono (callees_subset_builtin ha))
      · simp only [toGateForm, toGateFormAll_eq, List.map_cons, evalWith, List.length_cons,
          List.length_map]
    | print | display | table | graph | exportTo | importFrom => rfl

end Expr

/-! ## Inputs -/

section Names

open Switching.Expr

/-- The names in a connective over one gate, as they come for the first time, are those of the
first operand and then those of the second. -/
theorem Gate.foldl_names_build (g : Gate) (op : Operator) (a b : Expr) (seen : List String) :
    (g.build op a b).names.foldl addName seen =
      b.names.foldl addName (a.names.foldl addName seen) := by
  cases g <;> cases op <;>
    simp only [build, invert, exclusive, apply, join, names, List.foldl_append,
      foldl_addName_twice, foldl_addName_again]

theorem Gate.firstReference?_build (g : Gate) (op : Operator) (a b : Expr) :
    (g.build op a b).firstReference? = (a.firstReference? <|> b.firstReference?) := by
  cases ha : a.firstReference? <;> cases hb : b.firstReference? <;> cases g <;> cases op <;>
    simp [build, invert, exclusive, apply, join, firstReference?, ha, hb]

namespace Expr

theorem foldl_namesAll_toGateFormAll (g : Gate) {args : List Expr}
    (h : ∀ a ∈ args, ∀ seen, (a.toGateForm g).names.foldl addName seen =
      a.names.foldl addName seen) (seen : List String) :
    (namesAll (toGateFormAll g args)).foldl addName seen =
      (namesAll args).foldl addName seen := by
  induction args generalizing seen with
  | nil => rfl
  | cons a args ih =>
    obtain ⟨ha, hargs⟩ := List.forall_mem_cons.1 h
    rw [toGateFormAll, namesAll, namesAll, List.foldl_append, List.foldl_append, ha, ih hargs]

theorem foldl_names_toGateForm (g : Gate) (e : Expr) (seen : List String) :
    (e.toGateForm g).names.foldl addName seen = e.names.foldl addName seen := by
  induction e generalizing seen with
  | lit b s => rfl
  | str t s => rfl
  | var n r s => rfl
  | error m s => rfl
  | binary a op b s iha ihb =>
    rw [toGateForm, Gate.foldl_names_build, iha, ihb, names, List.foldl_append]
  | not a s ih =>
    rw [toGateForm, Gate.invert, Gate.apply, join, names, List.foldl_append, foldl_addName_twice,
      ih, names]
  | call n args s ih => exact foldl_namesAll_toGateFormAll g ih seen
  | builtin f args s ih => exact foldl_namesAll_toGateFormAll g ih seen

theorem inputs_toGateForm (g : Gate) (e : Expr) : (e.toGateForm g).inputs = e.inputs :=
  foldl_names_toGateForm g e []

theorem firstReferenceAmong?_toGateFormAll (g : Gate) {args : List Expr}
    (h : ∀ a ∈ args, (a.toGateForm g).firstReference? = a.firstReference?) :
    firstReferenceAmong? (toGateFormAll g args) = firstReferenceAmong? args := by
  induction args with
  | nil => rfl
  | cons a args ih =>
    obtain ⟨ha, hargs⟩ := List.forall_mem_cons.1 h
    rw [toGateFormAll, firstReferenceAmong?, firstReferenceAmong?, ha, ih hargs]

theorem firstReference?_toGateForm (g : Gate) (e : Expr) :
    (e.toGateForm g).firstReference? = e.firstReference? := by
  induction e with
  | lit b s => rfl
  | str t s => rfl
  | var n r s => rfl
  | error m s => rfl
  | binary a op b s iha ihb =>
    rw [toGateForm, Gate.firstReference?_build, iha, ihb, firstReference?]
  | not a s ih =>
    rw [toGateForm, Gate.invert, Gate.apply, join, firstReference?, ih, firstReference?]
    cases a.firstReference? <;> rfl
  | call n args s ih => exact firstReferenceAmong?_toGateFormAll g ih
  | builtin f args s ih => exact firstReferenceAmong?_toGateFormAll g ih

end Expr

end Names

/-! ## Tables -/

/-- Two tabulations agree: tables with the same inputs and outputs, or the same error. An expression
with too many inputs is reported at its own place, which is `s` in the first one and `s'` in the
second. -/
inductive TruthTable.Agree (s s' : Span) : EvalM TruthTable → EvalM TruthTable → Prop where
  | rows {t t' : TruthTable} (hinputs : t.inputs = t'.inputs) (houtputs : t.outputs = t'.outputs) :
    Agree s s' (pure t) (pure t')
  | error (e : RuntimeError) : Agree s s' (throw e) (throw e)
  | tooLarge (n limit : Nat) :
    Agree s s' (throw (.tableTooLarge n limit s)) (throw (.tableTooLarge n limit s'))

namespace Expr

theorem agree_truthTable {e e' : Expr} (href : e.firstReference? = e'.firstReference?)
    (hinputs : e.inputs = e'.inputs)
    (heval : ∀ scope, e.eval env config.maxCallDepth scope = e'.eval env config.maxCallDepth scope)
    (hsettled : ∀ scope, (e'.eval env config.maxCallDepth scope).Settled) :
    TruthTable.Agree e.span e'.span (e.truthTable env config) (e'.truthTable env config) := by
  cases href' : e'.firstReference? with
  | some reference =>
    rw [truthTable_of_reference href', truthTable_of_reference (href.trans href')]
    exact .error _
  | none =>
    by_cases hlimit : config.tableLimit < e'.inputs.length
    · rw [truthTable_of_lt href' hlimit, truthTable_of_lt (href.trans href') (hinputs ▸ hlimit),
        hinputs]
      exact .tooLarge _ _
    · have hle := Nat.not_lt.1 hlimit
      obtain ⟨r, hr⟩ := settled_sampleAll
        (fun bits => hsettled (.zip e'.inputs bits)) (Bits.patterns e'.inputs.length)
      rw [truthTable_of_le href' rfl hle, truthTable_of_le (href.trans href') hinputs hle]
      simp only [heval, hr]
      cases r with
      | ok outputs => exact .rows rfl rfl
      | error err => exact .error err

/-- **A gate form has the outcome of its expression**, be it a bit or an error, and the same table.
Only the place of an expression with too many inputs is its own. -/
theorem eval_toGateForm (g : Gate) {env : Environment} {e : Expr} (h : InputFree env e)
    (config : Config) (scope : Scope) :
    (∃ r, e.eval env config.maxCallDepth scope = .ofExcept r ∧
        (e.toGateForm g).eval env config.maxCallDepth scope = .ofExcept r) ∧
      TruthTable.Agree (e.toGateForm g).span e.span ((e.toGateForm g).truthTable env config)
        (e.truthTable env config) := by
  have heval : ∀ scope, (e.toGateForm g).eval env config.maxCallDepth scope =
      e.eval env config.maxCallDepth scope := fun scope =>
    evalWith_toGateForm_eq g h.here fun f hf bits s => settled_enterBody (h.body (.call hf)) bits s
  have hsettled : (e.eval env config.maxCallDepth scope).Settled := settled_eval h
  obtain ⟨r, hr⟩ := hsettled
  refine ⟨⟨r, hr, (heval scope).trans hr⟩, ?_⟩
  exact agree_truthTable (firstReference?_toGateForm g e) (inputs_toGateForm g e) heval
    fun scope => settled_eval h

/-- The variable `A = 1` and the function `F(X) = not X`. -/
def negationDeclared : Environment :=
  ⟨[("A", true)], [⟨"F", ["X"], .not (.var "X" false .none) .none, .none⟩]⟩

/-- `F(A) xnor B`, which the gate `nand` builds with six copies of each operand. -/
def xnorCall : Expr :=
  .binary (.call "F" [.var "A" false ⟨2, 3⟩] ⟨0, 4⟩) .xnor (.var "B" false ⟨10, 11⟩) ⟨0, 11⟩

/-- Where `B` is not declared, `F(A) xnor B` over `nand` fails at the place of `B`, as it does
itself, and both have the same table. -/
theorem eval_toGateForm_undefined :
    let shown := xnorCall.toGateForm .nand
    InputFree negationDeclared xnorCall ∧
      xnorCall.eval negationDeclared 256 .empty = throw (.undefinedVariable "B" ⟨10, 11⟩) ∧
      shown.eval negationDeclared 256 .empty = throw (.undefinedVariable "B" ⟨10, 11⟩) ∧
      TruthTable.Agree shown.span xnorCall.span (shown.truthTable negationDeclared {})
        (xnorCall.truthTable negationDeclared {}) := by
  intro shown
  have hfree : InputFree negationDeclared xnorCall :=
    throughout_of_functions rfl fun f hf => List.mem_singleton.1 hf ▸ rfl
  have hfails : xnorCall.eval negationDeclared 256 .empty =
      throw (.undefinedVariable "B" ⟨10, 11⟩) := rfl
  obtain ⟨⟨r, hr, hgate⟩, htable⟩ := eval_toGateForm .nand hfree {} .empty
  exact ⟨hfree, hfails, hgate.trans (hr.symm.trans hfails), htable⟩

end Expr

end Switching
