import Switching.Engine.Display
import Switching.Proofs.Engine.CallGraph

/-!
# What it takes to display an expression

* `Expr.displayWith_binary_eq_pure_iff` and its siblings: the parts of a displayed expression.
* `Expr.displayWith_transforms`: the built-in functions that are carried out.
* `find?_filter_name`: the functions that are still available further in.
* **`Expr.settled_display`**: without `INPUT`, nothing is asked for.
-/

namespace Switching

namespace Expr

attribute [local simp] displayWith

/-! ## Parts -/

section Parts

variable {env : Environment} {config : Config} {inline : Inline} {e' : Expr}

theorem displayWith_not_eq_pure_iff {a : Expr} {s : Span} :
    (not a s).displayWith env config inline = pure e' ↔
      ∃ a', a.displayWith env config inline = pure a' ∧ .not a' s = e' := by
  simp only [displayWith, EvalM.bind_eq_pure_iff, EvalM.pure_inj]

theorem displayWith_binary_eq_pure_iff {a b : Expr} {op : Operator} {s : Span} :
    (binary a op b s).displayWith env config inline = pure e' ↔
      ∃ a', a.displayWith env config inline = pure a' ∧
        ∃ b', b.displayWith env config inline = pure b' ∧ .binary a' op b' s = e' := by
  simp only [displayWith, EvalM.bind_eq_pure_iff, EvalM.pure_inj]

theorem displayAllWith_eq_pure_iff {args args' : List Expr} :
    displayAllWith env config inline args = pure args' ↔
      List.Forall₂ (fun a a' => a.displayWith env config inline = pure a') args args' := by
  induction args generalizing args' with
  | nil => cases args' <;> simp [displayAllWith]
  | cons a args ih =>
    simp only [displayAllWith, EvalM.bind_eq_pure_iff, EvalM.pure_inj, List.forall₂_cons_left_iff,
      ih]
    constructor
    · rintro ⟨a', ha, as', has, rfl⟩
      exact ⟨a', as', ha, has, rfl⟩
    · rintro ⟨a', as', ha, has, rfl⟩
      exact ⟨a', ha, as', has, rfl⟩

theorem displayWith_call_of_none {n : String} {args : List Expr} {s : Span}
    (hinline : inline n args.length = none)
    (h : (call n args s).displayWith env config inline = pure e') :
    ∃ args', List.Forall₂ (fun a a' => a.displayWith env config inline = pure a') args args' ∧
      e' = .call n args' s := by
  simp only [displayWith, hinline, EvalM.bind_eq_pure_iff, EvalM.pure_inj,
    displayAllWith_eq_pure_iff] at h
  obtain ⟨args', hargs, rfl⟩ := h
  exact ⟨args', hargs, rfl⟩

theorem displayWith_call_of_some {n : String} {args : List Expr} {s : Span} {params : List String}
    {body : EvalM Expr} (hinline : inline n args.length = some (params, body))
    (h : (call n args s).displayWith env config inline = pure e') :
    ∃ args', List.Forall₂ (fun a a' => a.displayWith env config inline = pure a') args args' ∧
      ∃ body', body = pure body' ∧ e' = body'.substitute (params.zip args') := by
  simp only [displayWith, hinline, EvalM.bind_eq_pure_iff, EvalM.pure_inj,
    displayAllWith_eq_pure_iff] at h
  obtain ⟨args', hargs, body', hbody, rfl⟩ := h
  exact ⟨args', hargs, body', hbody, rfl⟩

theorem displayWith_transforms {f : Builtin} (hf : f.transforms = true) {a : Expr} {s : Span}
    (h : (builtin f [a] s).displayWith env config inline = pure e') :
    ((f = .toNand ∨ f = .toNor) ∧
        ∃ g a', a.displayWith env config inline = pure a' ∧ e' = a'.toGateForm g) ∨
      (f = .solveSop ∨ f = .solvePos) ∧
        ∃ form t, a.truthTable env config = pure t ∧ e' = (t.minimize form).toExpr a.span := by
  cases f with
  | toNand | toNor =>
    simp only [displayWith, EvalM.bind_eq_pure_iff, EvalM.pure_inj] at h
    obtain ⟨a', ha, rfl⟩ := h
    exact .inl ⟨by simp, _, a', ha, rfl⟩
  | solveSop | solvePos =>
    simp only [displayWith, EvalM.bind_eq_pure_iff, EvalM.pure_inj] at h
    obtain ⟨t, ht, rfl⟩ := h
    exact .inr ⟨by simp, _, t, ht, rfl⟩
  | print | display | table | graph | exportTo | importFrom | input =>
    simp [Builtin.transforms] at hf

end Parts

end Expr

/-! ## Available functions -/

theorem find?_filter_name (fs : List Function) (name n : String) :
    (fs.filter (·.name ≠ name)).find? (·.name = n) =
      if n = name then none else fs.find? (·.name = n) := by
  induction fs with
  | nil => simp
  | cons f fs ih =>
    by_cases hf : f.name = name
    · rw [List.filter_cons_of_neg (by simpa using hf), ih]
      split
      case isTrue => rfl
      case isFalse hn =>
        rw [List.find?_cons_of_neg (by simpa [hf] using fun h => hn h.symm)]
    · rw [List.filter_cons_of_pos (by simpa using hf)]
      by_cases hn : f.name = n
      · rw [List.find?_cons_of_pos (by simpa using hn), if_neg fun h => hf (hn.trans h),
          List.find?_cons_of_pos (by simpa using hn)]
      · rw [List.find?_cons_of_neg (by simpa using hn), ih,
          List.find?_cons_of_neg (by simpa using hn)]

theorem length_filter_name_lt {fs : List Function} {n : String} {f : Function}
    (hfind : fs.find? (·.name = n) = some f) :
    (fs.filter (·.name ≠ n)).length < fs.length :=
  List.length_filter_lt_length_iff_exists.2
    ⟨f, List.mem_of_find?_eq_some hfind, by simpa using List.find?_some hfind⟩

theorem inlinedBody_succ_eq_some_iff {env : Environment} {config : Config} {rounds : Nat}
    {available : List Function} {n : String} {arity : Nat} {params : List String}
    {body : EvalM Expr} :
    inlinedBody env config (rounds + 1) available n arity = some (params, body) ↔
      ∃ f, available.find? (·.name = n) = some f ∧ f.params.length = arity ∧ f.params = params ∧
        f.body.displayWith env config
          (inlinedBody env config rounds (available.filter (·.name ≠ n))) = body := by
  simp only [inlinedBody]
  cases hfind : available.find? (·.name = n) with
  | none => simp
  | some f => by_cases hf : f.params.length = arity <;> simp [hf]

namespace Expr

/-! ## Displaying asks for nothing -/

section Settled

variable {env : Environment} {config : Config}

theorem settled_sampleAll {α : Type} {f : α → EvalM Bool} (hf : ∀ a, (f a).Settled)
    (items : List α) : (sampleAll f items).Settled := by
  induction items with
  | nil => exact EvalM.settled_pure _
  | cons a items ih =>
    exact (hf a).bind fun b _ => ih.bind fun bits _ => EvalM.settled_pure _

theorem settled_truthTable {e : Expr} (h : InputFree env e) :
    (e.truthTable env config).Settled := by
  rw [truthTable]
  cases e.firstReference? with
  | some reference => exact EvalM.settled_throw _
  | none =>
    by_cases hlimit : config.tableLimit < e.inputs.length
    · simp only [hlimit, if_true]
      exact EvalM.settled_throw _
    · simp only [hlimit, if_false]
      exact (settled_sampleAll (fun bits => settled_eval h) _).bind fun _ _ => EvalM.settled_pure _

theorem settled_displayAllWith {inline : Inline} {args : List Expr}
    (h : ∀ a ∈ args, (a.displayWith env config inline).Settled) :
    (displayAllWith env config inline args).Settled := by
  induction args with
  | nil => exact EvalM.settled_pure _
  | cons a args ih =>
    obtain ⟨ha, hargs⟩ := List.forall_mem_cons.1 h
    exact ha.bind fun b _ => (ih hargs).bind fun bs _ => EvalM.settled_pure _

theorem settled_displayWith {inline : Inline} {e : Expr} (hinput : InputFree env e)
    (hinline : ∀ n ∈ e.callees, ∀ k params body, inline n k = some (params, body) →
      body.Settled) : (e.displayWith env config inline).Settled := by
  induction e with
  | lit b s => exact EvalM.settled_pure _
  | str t s => exact EvalM.settled_pure _
  | var n r s => exact EvalM.settled_pure _
  | binary a op b s iha ihb =>
    have hparts := hinput.here
    rw [asksInput, Bool.or_eq_false_iff] at hparts
    have ha := iha (hinput.part hparts.1 callees_subset_left) fun n hn =>
      hinline n (callees_subset_left hn)
    have hb := ihb (hinput.part hparts.2 callees_subset_right) fun n hn =>
      hinline n (callees_subset_right hn)
    exact ha.bind fun a' _ => hb.bind fun b' _ => EvalM.settled_pure _
  | not a s ih =>
    have ha := ih (hinput.part hinput.here callees_subset_not) hinline
    exact ha.bind fun a' _ => EvalM.settled_pure _
  | call n args s ih =>
    have hparts := anyAsksInput_eq_false_iff.1 hinput.here
    have hargs : (displayAllWith env config inline args).Settled :=
      settled_displayAllWith fun a ha =>
        ih a ha (hinput.part (hparts a ha) (callees_subset_call ha)) fun m hm =>
          hinline m (callees_subset_call ha hm)
    refine hargs.bind fun args' _ => ?_
    cases hn : inline n args.length with
    | none => exact EvalM.settled_pure _
    | some found =>
      have hbody := hinline n List.mem_cons_self args.length found.1 found.2 hn
      exact hbody.bind fun body _ => EvalM.settled_pure _
  | builtin f args s ih =>
    have hparts := hinput.here
    rw [asksInput, Bool.or_eq_false_iff, anyAsksInput_eq_false_iff] at hparts
    have hall : ∀ a ∈ args, (a.displayWith env config inline).Settled := fun a ha =>
      ih a ha (hinput.part (hparts.2 a ha) (callees_subset_builtin ha)) fun m hm =>
        hinline m (callees_subset_builtin ha hm)
    cases f with
    | toNand | toNor =>
      rcases args with - | ⟨a, - | ⟨b, args⟩⟩
      · exact EvalM.settled_throw _
      · exact (hall a (List.mem_singleton_self a)).bind fun a' _ => EvalM.settled_pure _
      · exact EvalM.settled_throw _
    | solveSop | solvePos =>
      rcases args with - | ⟨a, - | ⟨b, args⟩⟩
      · exact EvalM.settled_throw _
      · have ha : a ∈ [a] := List.mem_singleton_self a
        have ht : (a.truthTable env config).Settled := settled_truthTable
          (hinput.part (hparts.2 a ha) (callees_subset_builtin ha))
        exact ht.bind fun t _ => EvalM.settled_pure _
      · exact EvalM.settled_throw _
    | print | display | table | graph | exportTo | importFrom | input =>
      exact (settled_displayAllWith hall).bind fun args' _ => EvalM.settled_pure _
  | error m s => exact EvalM.settled_pure _

theorem settled_inlinedBody {rounds : Nat} {available : List Function}
    (havailable : ∀ n f, available.find? (·.name = n) = some f → env.function? n = some f)
    {e : Expr} (h : InputFree env e) {n : String} (hn : n ∈ e.callees) {k : Nat}
    {params : List String} {body : EvalM Expr}
    (hbody : inlinedBody env config rounds available n k = some (params, body)) :
    body.Settled := by
  induction rounds generalizing available e n k params body with
  | zero => nomatch hbody
  | succ rounds ih =>
    obtain ⟨f, hf, -, -, rfl⟩ := inlinedBody_succ_eq_some_iff.1 hbody
    have hfree : InputFree env f.body := h.body (.call ⟨n, hn, havailable n f hf⟩)
    refine settled_displayWith hfree fun m hm k params body hbody => ih ?_ hfree hm hbody
    intro m g hg
    rw [find?_filter_name] at hg
    split at hg
    case isTrue => nomatch hg
    case isFalse => exact havailable m g hg

/-- **Without `INPUT`, displaying asks for nothing.** -/
theorem settled_display {e : Expr} (h : InputFree env e) : (e.display env config).Settled := by
  refine settled_displayWith h fun n hn k params body hbody => ?_
  split at hbody
  case isTrue => exact settled_inlinedBody (fun _ _ hf => hf) h hn hbody
  case isFalse => nomatch hbody

end Settled

end Expr

end Switching
