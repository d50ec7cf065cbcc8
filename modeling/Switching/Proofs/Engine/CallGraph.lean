import Switching.Proofs.Engine.Value

/-!
# Which functions an expression reaches

* `Expr.callees`, `Expr.Calls`, `Expr.Reaches`: the functions that are called in an expression, and
  those that are called in their bodies, and so on.
* `Expr.Throughout`: a property of an expression and of all bodies that it reaches.
* `Expr.InputFree`, `Expr.ReferenceFree`: there is no `INPUT` and no reference, in this sense.
* **`Expr.settled_eval`**: without `INPUT`, evaluation asks for nothing.
-/

namespace Switching

namespace Expr

/-! ## Calls -/

mutual

/-- The names of the functions that are called, in order and with repetitions. -/
def callees : Expr → List String
  | .call n args _ => n :: calleesAll args
  | .binary a _ b _ => a.callees ++ b.callees
  | .not a _ => a.callees
  | .builtin _ args _ => calleesAll args
  | .lit .. | .str .. | .var .. | .error .. => []

def calleesAll : List Expr → List String
  | [] => []
  | e :: es => e.callees ++ calleesAll es

end

theorem mem_calleesAll_iff {n : String} {args : List Expr} :
    n ∈ calleesAll args ↔ ∃ a ∈ args, n ∈ a.callees := by
  induction args with
  | nil => simp [calleesAll]
  | cons a args ih => simp [calleesAll, ih]

section Parts

variable {a b : Expr} {op : Operator} {args : List Expr} {n m : String} {f : Builtin} {s : Span}

theorem callees_subset_left : a.callees ⊆ (binary a op b s).callees :=
  fun _ h => List.mem_append_left _ h

theorem callees_subset_right : b.callees ⊆ (binary a op b s).callees :=
  fun _ h => List.mem_append_right _ h

theorem callees_subset_not : a.callees ⊆ (not a s).callees := fun _ h => h

theorem callees_subset_call (ha : a ∈ args) : a.callees ⊆ (call n args s).callees :=
  fun _ h => List.mem_cons_of_mem _ (mem_calleesAll_iff.2 ⟨a, ha, h⟩)

theorem callees_subset_builtin (ha : a ∈ args) : a.callees ⊆ (builtin f args s).callees :=
  fun _ h => mem_calleesAll_iff.2 ⟨a, ha, h⟩

end Parts

/-- The function is called in the expression. -/
def Calls (env : Environment) (e : Expr) (f : Function) : Prop :=
  ∃ n ∈ e.callees, env.function? n = some f

/-- The function is called in the expression, or in the body of a function that it reaches. -/
inductive Reaches (env : Environment) : Expr → Function → Prop where
  | call {e : Expr} {f : Function} : e.Calls env f → Reaches env e f
  | body {e : Expr} {f g : Function} : e.Calls env f → Reaches env f.body g → Reaches env e g

/-- An expression has a property, and so have all bodies that it reaches. -/
structure Throughout (env : Environment) (P : Expr → Prop) (e : Expr) : Prop where
  here : P e
  bodies : ∀ f, Reaches env e f → P f.body

section Calls

variable {env : Environment} {P : Expr → Prop} {a e : Expr} {f g : Function}

theorem Calls.mono (hsub : a.callees ⊆ e.callees) (h : a.Calls env f) :
    e.Calls env f := by
  obtain ⟨n, hn, hf⟩ := h
  exact ⟨n, hsub hn, hf⟩

theorem Reaches.mono (hsub : a.callees ⊆ e.callees) (h : Reaches env a f) :
    Reaches env e f := by
  cases h with
  | call hc => exact .call (hc.mono hsub)
  | body hc hr => exact .body (hc.mono hsub) hr

theorem Reaches.trans (h : Reaches env e f) (h' : Reaches env f.body g) : Reaches env e g := by
  induction h with
  | call hc => exact .body hc h'
  | body hc _ ih => exact .body hc (ih h')

theorem Throughout.part (h : Throughout env P e) (hP : P a)
    (hsub : a.callees ⊆ e.callees) : Throughout env P a :=
  ⟨hP, fun f hf => h.bodies f (hf.mono hsub)⟩

theorem Throughout.body (h : Throughout env P e) (hf : Reaches env e f) :
    Throughout env P f.body :=
  ⟨h.bodies f hf, fun g hg => h.bodies g (hf.trans hg)⟩

theorem Calls.function?_name (h : e.Calls env f) : env.function? f.name = some f := by
  obtain ⟨n, -, hf⟩ := h
  rwa [Environment.name_of_function? hf]

theorem Reaches.function?_name (h : Reaches env e f) : env.function? f.name = some f := by
  induction h with
  | call hc => exact hc.function?_name
  | body _ _ ih => exact ih

theorem Reaches.mem_functions (h : Reaches env e f) : f ∈ env.functions :=
  List.mem_of_find?_eq_some h.function?_name

theorem throughout_of_functions (hP : P e) (h : ∀ f ∈ env.functions, P f.body) :
    Throughout env P e :=
  ⟨hP, fun f hf => h f hf.mem_functions⟩

end Calls

/-! ## Input -/

mutual

/-- `INPUT` occurs in the expression. -/
def asksInput : Expr → Bool
  | .builtin f args _ => f = .input || anyAsksInput args
  | .binary a _ b _ => a.asksInput || b.asksInput
  | .not a _ => a.asksInput
  | .call _ args _ => anyAsksInput args
  | .lit .. | .str .. | .var .. | .error .. => false

def anyAsksInput : List Expr → Bool
  | [] => false
  | e :: es => e.asksInput || anyAsksInput es

end

theorem anyAsksInput_eq_false_iff {args : List Expr} :
    anyAsksInput args = false ↔ ∀ a ∈ args, a.asksInput = false := by
  induction args with
  | nil => simp [anyAsksInput]
  | cons a args ih => simp [anyAsksInput, ih]

/-- There is no `INPUT` in the expression and in the bodies that it reaches. -/
def InputFree (env : Environment) : Expr → Prop := Throughout env (·.asksInput = false)

/-- There is no reference in the expression and in the bodies that it reaches. -/
def ReferenceFree (env : Environment) : Expr → Prop := Throughout env (·.firstReference? = none)

section Input

variable {env : Environment} {scope : Scope}

theorem settled_evalAllWith {enter : Enter} {args : List Expr}
    (h : ∀ a ∈ args, (a.evalWith env enter scope).Settled) :
    (evalAllWith env enter scope args).Settled := by
  induction args with
  | nil => exact EvalM.settled_pure _
  | cons a args ih =>
    obtain ⟨ha, hargs⟩ := List.forall_mem_cons.1 h
    exact ha.bind fun b _ => (ih hargs).bind fun bs _ => EvalM.settled_pure _

theorem settled_evalWith {enter : Enter} {e : Expr} (hinput : e.asksInput = false)
    (henter : ∀ f, e.Calls env f → ∀ bits s, (enter f bits s).Settled) :
    (e.evalWith env enter scope).Settled := by
  induction e with
  | lit b s => exact EvalM.settled_pure b
  | str t s => exact EvalM.settled_throw _
  | var n r s => exact EvalM.settled_ofExcept _
  | binary a op b s iha ihb =>
    rw [asksInput, Bool.or_eq_false_iff] at hinput
    have ha := iha hinput.1 fun f hf => henter f (hf.mono callees_subset_left)
    have hb := ihb hinput.2 fun f hf => henter f (hf.mono callees_subset_right)
    exact ha.bind fun x _ => hb.bind fun y _ => EvalM.settled_pure _
  | not a s ih =>
    exact (ih hinput henter).bind fun x _ => EvalM.settled_pure _
  | call n args s ih =>
    rw [asksInput, anyAsksInput_eq_false_iff] at hinput
    have hargs : (evalAllWith env enter scope args).Settled := settled_evalAllWith fun a ha =>
      ih a ha (hinput a ha) fun f hf => henter f (hf.mono (callees_subset_call ha))
    refine (EvalM.settled_ofExcept _).bind fun f hf => hargs.bind fun bits _ => henter f ?_ bits s
    rw [EvalM.ofExcept_eq_pure_iff, Environment.callee_eq_ok_iff] at hf
    exact ⟨n, List.mem_cons_self, hf.1⟩
  | builtin f args s ih =>
    rw [asksInput, Bool.or_eq_false_iff, anyAsksInput_eq_false_iff] at hinput
    cases f with
    | input => simp at hinput
    | toNand | toNor | solveSop | solvePos =>
      match args with
      | [] | _ :: _ :: _ => exact EvalM.settled_throw _
      | [a] =>
        have ha : a ∈ [a] := List.mem_singleton_self a
        exact ih a ha (hinput.2 a ha) fun f hf =>
          henter f (hf.mono (callees_subset_builtin ha))
    | print | display | table | graph | exportTo | importFrom => exact EvalM.settled_throw _
  | error m s => exact EvalM.settled_throw _

theorem settled_enterBody {limit d : Nat} {f : Function} (h : InputFree env f.body)
    (bits : List Bool) (s : Span) : (enterBody env limit d f bits s).Settled := by
  induction d generalizing f bits s with
  | zero => exact EvalM.settled_throw _
  | succ d ih =>
    exact settled_evalWith h.here fun g hg bits s => ih (h.body (.call hg)) bits s

/-- **Without `INPUT`, evaluation asks for nothing.** -/
theorem settled_eval {limit : Nat} {e : Expr} (h : InputFree env e) :
    (e.eval env limit scope).Settled :=
  settled_evalWith h.here fun _ hf bits s => settled_enterBody (h.body (.call hf)) bits s

end Input

end Expr

end Switching
