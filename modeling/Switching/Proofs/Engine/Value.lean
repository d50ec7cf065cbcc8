import Mathlib.Data.List.Forall2
import Switching.Proofs.Engine.Outcome
import Switching.Proofs.Expr.Basic

/-!
# Values of expressions

When an expression has a value, every part of it has one: nothing is skipped.

* `Builtin.transforms`: the built-in functions that pass the value of their operand on.
* `Expr.evalWith_binary_eq_pure_iff` and its siblings: what it takes to have a value.
* **`Expr.evalWith_induction`**: induction on an expression with a value.
* `Expr.evalWith_congr`: the value depends on what the names in the expression stand for.
-/

namespace Switching

/-- The function stands for its operand, in another form. -/
def Builtin.transforms : Builtin → Bool
  | .toNand | .toNor | .solveSop | .solvePos => true
  | _ => false

theorem Builtin.gate_or_solve_of_transforms {f : Builtin} (hf : f.transforms = true) :
    (f = .toNand ∨ f = .toNor) ∨ (f = .solveSop ∨ f = .solvePos) := by
  cases f <;> simp [transforms] at hf ⊢

namespace Environment

theorem function?_congr {env env' : Environment} (h : env'.functions = env.functions) :
    env'.function? = env.function? := by
  funext n
  rw [function?, h, function?]

theorem name_of_function? {env : Environment} {n : String} {f : Function}
    (h : env.function? n = some f) : f.name = n := by
  rw [function?] at h
  simpa using List.find?_some h

theorem callee_eq_ok_iff {env : Environment} {name : String} {found : Nat} {s : Span}
    {f : Function} :
    env.callee name found s = .ok f ↔ env.function? name = some f ∧ f.params.length = found := by
  unfold callee
  cases env.function? name with
  | none => simp
  | some g =>
    by_cases hg : g.params.length = found
    · simp only [if_pos hg, Except.ok.injEq, Option.some.injEq]
      refine ⟨fun h => ⟨h, h ▸ hg⟩, fun h => h.1⟩
    · simp only [if_neg hg, Option.some.injEq, reduceCtorEq, false_iff, not_and]
      rintro rfl
      exact hg

theorem callee_congr {env env' : Environment} (h : ∀ n, env.function? n = env'.function? n) :
    env.callee = env'.callee := by
  funext n found s
  rw [callee, callee, h]

/-- The bit that a plain name stands for in a scope. -/
def plain? (env : Environment) (scope : Scope) (name : String) : Option Bool :=
  if scope.isEmpty then env.bit? name else scope.get? name

theorem read_plain_eq_ok_iff {env : Environment} {scope : Scope} {n : String} {s : Span}
    {b : Bool} : env.read scope n false s = .ok b ↔ env.plain? scope n = some b := by
  unfold read plain?
  cases scope.isEmpty
  · cases scope.get? n <;> simp
  · cases env.bit? n <;> simp

end Environment

/-! ## What it takes to have a value -/

namespace Expr

section Value

variable {env : Environment} {enter : Enter} {scope : Scope} {b : Bool}

attribute [local simp] evalWith

@[simp] theorem evalWith_lit_eq_pure_iff {x : Bool} {s : Span} :
    (lit x s).evalWith env enter scope = pure b ↔ x = b := by
  rw [evalWith, EvalM.pure_inj]

@[simp] theorem evalWith_str_ne_pure {t : String} {s : Span} :
    (str t s).evalWith env enter scope ≠ pure b := by
  rw [evalWith]
  exact EvalM.throw_ne_pure

@[simp] theorem evalWith_var_eq_pure_iff {n : String} {r : Bool} {s : Span} :
    (var n r s).evalWith env enter scope = pure b ↔ env.read scope n r s = .ok b := by
  rw [evalWith, EvalM.ofExcept_eq_pure_iff]

@[simp] theorem evalWith_binary_eq_pure_iff {l r : Expr} {op : Operator} {s : Span} :
    (binary l op r s).evalWith env enter scope = pure b ↔
      ∃ x, l.evalWith env enter scope = pure x ∧
        ∃ y, r.evalWith env enter scope = pure y ∧ op.apply x y = b := by
  simp only [evalWith, EvalM.bind_eq_pure_iff, EvalM.pure_inj]

@[simp] theorem evalWith_not_eq_pure_iff {a : Expr} {s : Span} :
    (not a s).evalWith env enter scope = pure b ↔ a.evalWith env enter scope = pure (!b) := by
  simp only [evalWith, EvalM.bind_eq_pure_iff, EvalM.pure_inj]
  constructor
  · rintro ⟨x, h, rfl⟩
    rwa [Bool.not_not]
  · exact fun h => ⟨!b, h, Bool.not_not b⟩

theorem evalAllWith_eq_pure_iff {args : List Expr} {bits : List Bool} :
    evalAllWith env enter scope args = pure bits ↔
      List.Forall₂ (fun a x => a.evalWith env enter scope = pure x) args bits := by
  induction args generalizing bits with
  | nil => cases bits <;> simp [evalAllWith]
  | cons a args ih =>
    simp only [evalAllWith, EvalM.bind_eq_pure_iff, EvalM.pure_inj, List.forall₂_cons_left_iff, ih]
    constructor
    · rintro ⟨x, hx, xs, hxs, rfl⟩
      exact ⟨x, xs, hx, hxs, rfl⟩
    · rintro ⟨x, xs, hx, hxs, rfl⟩
      exact ⟨x, hx, xs, hxs, rfl⟩

@[simp] theorem evalWith_call_eq_pure_iff {n : String} {args : List Expr} {s : Span} :
    (call n args s).evalWith env enter scope = pure b ↔
      ∃ f, env.function? n = some f ∧ f.params.length = args.length ∧
        ∃ bits, List.Forall₂ (fun a x => a.evalWith env enter scope = pure x) args bits ∧
          enter f bits s = pure b := by
  simp only [evalWith, EvalM.bind_eq_pure_iff, EvalM.ofExcept_eq_pure_iff,
    Environment.callee_eq_ok_iff, evalAllWith_eq_pure_iff, and_assoc]

@[simp] theorem evalWith_builtin_eq_pure_iff {f : Builtin} {args : List Expr} {s : Span} :
    (builtin f args s).evalWith env enter scope = pure b ↔
      f.transforms = true ∧ ∃ a, args = [a] ∧ a.evalWith env enter scope = pure b := by
  cases f with
  | toNand | toNor | solveSop | solvePos =>
    match args with
    | [] | _ :: _ :: _ => simp [evalWith, Builtin.transforms]
    | [a] => simp [evalWith, Builtin.transforms]
  | input =>
    simp only [evalWith, EvalM.bind_eq_pure_iff, EvalM.requestBit_ne_pure]
    simp [Builtin.transforms]
  | print | display | table | graph | exportTo | importFrom =>
    simp [evalWith, Builtin.transforms]

@[simp] theorem evalWith_error_ne_pure {m : String} {s : Span} :
    (error m s).evalWith env enter scope ≠ pure b := by
  rw [evalWith]
  exact EvalM.throw_ne_pure

/-- Induction on an expression with a value. Strings, errors and most built-in functions have none,
and the parts of the others have values themselves. -/
@[elab_as_elim]
theorem evalWith_induction {motive : ∀ e b, evalWith env enter scope e = pure b → Prop}
    (lit : ∀ x s, motive (.lit x s) x rfl)
    (var : ∀ n r s x (hread : env.read scope n r s = .ok x),
      motive (.var n r s) x (evalWith_var_eq_pure_iff.2 hread))
    (binary : ∀ l op r s x y (hl : l.evalWith env enter scope = pure x)
      (hr : r.evalWith env enter scope = pure y), motive l x hl → motive r y hr →
      motive (.binary l op r s) (op.apply x y)
        (evalWith_binary_eq_pure_iff.2 ⟨x, hl, y, hr, rfl⟩))
    (not : ∀ a s x (ha : a.evalWith env enter scope = pure (!x)), motive a (!x) ha →
      motive (.not a s) x (evalWith_not_eq_pure_iff.2 ha))
    (call : ∀ n args s f bits x (hf : env.function? n = some f)
      (hlen : f.params.length = args.length)
      (hargs : List.Forall₂ (fun a y => a.evalWith env enter scope = pure y) args bits)
      (hbody : enter f bits s = pure x),
      (∀ a ∈ args, ∀ y (ha : a.evalWith env enter scope = pure y), motive a y ha) →
      motive (.call n args s) x (evalWith_call_eq_pure_iff.2 ⟨f, hf, hlen, bits, hargs, hbody⟩))
    (transform : ∀ f a s x (hf : f.transforms = true) (ha : a.evalWith env enter scope = pure x),
      motive a x ha → motive (.builtin f [a] s) x (evalWith_builtin_eq_pure_iff.2 ⟨hf, a, rfl, ha⟩))
    {e : Expr} {b : Bool} (h : e.evalWith env enter scope = pure b) : motive e b h := by
  induction e generalizing b with
  | lit x s =>
    obtain rfl := evalWith_lit_eq_pure_iff.1 h
    exact lit x s
  | str t s => exact absurd h evalWith_str_ne_pure
  | var n r s => exact var n r s b (evalWith_var_eq_pure_iff.1 h)
  | binary l op r s ihl ihr =>
    obtain ⟨x, hx, y, hy, rfl⟩ := evalWith_binary_eq_pure_iff.1 h
    exact binary l op r s x y hx hy (ihl hx) (ihr hy)
  | not a s ih => exact not a s b (evalWith_not_eq_pure_iff.1 h) (ih _)
  | call n args s ih =>
    obtain ⟨f, hf, hlen, bits, hargs, hb⟩ := evalWith_call_eq_pure_iff.1 h
    exact call n args s f bits b hf hlen hargs hb fun a ha y hy => ih a ha hy
  | builtin f args s ih =>
    obtain ⟨hf, a, rfl, ha⟩ := evalWith_builtin_eq_pure_iff.1 h
    exact transform f a s b hf ha (ih a (List.mem_singleton_self a) ha)
  | error m s => exact absurd h evalWith_error_ne_pure

end Value

/-! ## What a value depends on -/

/-- A value stays if the plain names in the expression keep theirs, references do or there are none,
and functions keep the values that they had. -/
theorem evalWith_congr {env env' : Environment} {enter enter' : Enter} {scope scope' : Scope}
    (hfun : env'.functions = env.functions)
    (henter : ∀ f bits s b, enter f bits s = pure b → enter' f bits s = pure b)
    {e : Expr} (hplain : ∀ n ∈ e.names, env'.plain? scope' n = env.plain? scope n)
    (href : e.firstReference? = none ∨
      ∀ n s b, env.read scope n true s = .ok b → env'.read scope' n true s = .ok b)
    {b : Bool} (h : e.evalWith env enter scope = pure b) :
    e.evalWith env' enter' scope' = pure b := by
  induction h using evalWith_induction with
  | lit x s => rfl
  | var n r s x h =>
    rw [evalWith_var_eq_pure_iff]
    cases r with
    | false =>
      rw [Environment.read_plain_eq_ok_iff] at h ⊢
      rw [hplain n (by simp [names]), h]
    | true => exact (href.resolve_left (by simp [firstReference?])) n s x h
  | binary l op r s x y _ _ ihl ihr =>
    simp only [names, List.mem_append] at hplain
    rw [firstReference?_binary_eq_none_iff] at href
    have hl := ihl (fun n hn => hplain n (.inl hn)) (href.imp_left And.left)
    have hr := ihr (fun n hn => hplain n (.inr hn)) (href.imp_left And.right)
    exact evalWith_binary_eq_pure_iff.2 ⟨x, hl, y, hr, rfl⟩
  | not a s x _ ih => exact evalWith_not_eq_pure_iff.2 (ih hplain href)
  | call n args s f bits x hf hlen hargs hbody ih =>
    simp only [names, mem_namesAll_iff] at hplain
    simp only [firstReference?, firstReferenceAmong?_eq_none_iff] at href
    have hargs' := forall₂_imp_of_mem (fun a ha y hy => ih a ha y hy
      (fun n hn => hplain n ⟨a, ha, hn⟩) (href.imp_left fun hnone => hnone a ha)) hargs
    rw [← Environment.function?_congr hfun] at hf
    exact evalWith_call_eq_pure_iff.2 ⟨f, hf, hlen, bits, hargs', henter f bits s x hbody⟩
  | transform f a s x hf _ ih =>
    simp only [names, mem_namesAll_iff] at hplain
    simp only [firstReference?, firstReferenceAmong?_eq_none_iff] at href
    have hmem : a ∈ [a] := List.mem_singleton_self a
    exact evalWith_builtin_eq_pure_iff.2 ⟨hf, a, rfl,
      ih (fun n hn => hplain n ⟨a, hmem, hn⟩) (href.imp_left fun hnone => hnone a hmem)⟩

theorem isSome_plain?_of_evalWith {env : Environment} {enter : Enter} {scope : Scope} {e : Expr}
    {b : Bool} (h : e.evalWith env enter scope = pure b) {n : String} (hn : n ∈ e.names) :
    (env.plain? scope n).isSome := by
  induction h using evalWith_induction with
  | lit x s => simp [names] at hn
  | var m r s x h =>
    cases r with
    | false =>
      rw [names, List.mem_singleton] at hn
      rw [hn, Environment.read_plain_eq_ok_iff.1 h, Option.isSome_some]
    | true => simp [names] at hn
  | binary l op r s x y _ _ ihl ihr =>
    rw [names, List.mem_append] at hn
    exact hn.elim ihl ihr
  | not a s x _ ih => exact ih hn
  | call m args s f bits x _ _ hargs _ ih =>
    obtain ⟨a, ha, hna⟩ := mem_namesAll_iff.1 hn
    obtain ⟨y, -, hy⟩ := exists_of_forall₂_of_mem hargs ha
    exact ih a ha y hy hna
  | transform f a s x _ _ ih =>
    obtain ⟨a', ha', hna⟩ := mem_namesAll_iff.1 hn
    obtain rfl := List.mem_singleton.1 ha'
    exact ih hna

end Expr

end Switching
