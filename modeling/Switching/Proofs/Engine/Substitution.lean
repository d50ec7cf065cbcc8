import Switching.Engine.Display
import Switching.Proofs.Engine.Value

/-!
# The value of a substitution

* `Environment.shadow`: an environment with bits for some names, in front of its own.
* `Expr.evalWith_substitute`: expressions in place of names have the effect of their bits.
* **`Expr.evalWith_substitute_shadow`**: the same outside every function, where the names shadow
  global variables.
-/

namespace Switching

/-! ## Shadowing -/

theorem Scope.isEmpty_zip {names : List String} {bits : List Bool} (hne : names ≠ [])
    (hlen : bits.length = names.length) : (Scope.zip names bits).isEmpty = false := by
  obtain ⟨m, names, rfl⟩ := List.exists_cons_of_ne_nil hne
  obtain ⟨x, bits, rfl⟩ := List.exists_cons_of_length_eq_add_one hlen
  rfl

namespace Environment

/-- The environment where the names have the bits, whatever they stood for. -/
def shadow (env : Environment) (names : List String) (bits : List Bool) : Environment :=
  { env with globals := names.zip bits ++ env.globals }

@[simp] theorem bit?_shadow (env : Environment) (names : List String) (bits : List Bool)
    (n : String) :
    (env.shadow names bits).bit? n = ((names.zip bits).lookup n).or (env.bit? n) := by
  rw [bit?, shadow, List.lookup_append, bit?]

theorem lookup_zip_isSome_iff {α : Type} {names : List String} {xs : List α}
    (hlen : xs.length = names.length) {n : String} :
    ((names.zip xs).lookup n).isSome ↔ n ∈ names := by
  induction names generalizing xs with
  | nil => simp
  | cons m names ih =>
    obtain ⟨x, xs, rfl⟩ := List.exists_cons_of_length_eq_add_one hlen
    rw [List.zip_cons_cons, List.lookup_cons, List.mem_cons]
    by_cases hn : n = m
    · simp [hn]
    · rw [beq_false_of_ne hn]
      simpa [hn] using ih (by simpa using hlen)

theorem isSome_bit?_shadow_iff {env : Environment} {names : List String} {bits : List Bool}
    (hlen : bits.length = names.length) {n : String} :
    ((env.shadow names bits).bit? n).isSome ↔ n ∈ names ∨ (env.bit? n).isSome := by
  rw [bit?_shadow, Option.isSome_or, Bool.or_eq_true, lookup_zip_isSome_iff hlen]

theorem bit?_shadow_of_notMem {env : Environment} {names : List String} {bits : List Bool}
    {n : String} (hn : n ∉ names) : (env.shadow names bits).bit? n = env.bit? n := by
  have hnone : (names.zip bits).lookup n = none := by
    rw [List.lookup_eq_none_iff]
    exact fun p hp => bne_iff_ne.2 fun h => hn (h ▸ (List.of_mem_zip hp).1)
  rw [bit?_shadow, hnone, Option.none_or]

theorem bit?_shadow_eq_plain?_zip (seen : Environment) {env : Environment} {names : List String}
    {bits : List Bool} (hlen : bits.length = names.length) (hne : names ≠ []) {n : String}
    (h : (env.plain? (.zip names bits) n).isSome) :
    (seen.shadow names bits).bit? n = env.plain? (.zip names bits) n := by
  rw [plain?, Scope.isEmpty_zip hne hlen, if_neg Bool.false_ne_true] at h ⊢
  rw [bit?_shadow]
  exact Option.or_of_isSome h

theorem mem_or_isSome_of_plain?_zip {env : Environment} {names : List String} {bits : List Bool}
    {n : String} (h : (env.plain? (.zip names bits) n).isSome) :
    n ∈ names ∨ (env.bit? n).isSome := by
  rw [plain?] at h
  split at h
  case isTrue => exact .inr h
  case isFalse =>
    obtain ⟨p, hp, hn⟩ := List.lookup_isSome_iff.1 h
    rw [eq_of_beq hn]
    exact .inl (List.of_mem_zip hp).1

end Environment

namespace Expr

theorem substituteAll_eq (bindings : List (String × Expr)) (args : List Expr) :
    substituteAll bindings args = args.map (substitute bindings) := by
  induction args with
  | nil => rfl
  | cons a args ih => rw [substituteAll, ih, List.map_cons]

/-- Names and expressions side by side: either the name is not there, or its expression has its
bit. -/
theorem lookup_zip_of_forall₂ {R : Expr → Bool → Prop} {args : List Expr} {bits : List Bool}
    (hargs : List.Forall₂ R args bits) (names : List String) (n : String) :
    ((names.zip args).lookup n = none ∧ (names.zip bits).lookup n = none) ∨
      ∃ a x, (names.zip args).lookup n = some a ∧ (names.zip bits).lookup n = some x ∧ R a x := by
  induction hargs generalizing names with
  | nil => simp
  | @cons a x args bits ha _ ih =>
    cases names with
    | nil => simp
    | cons m names =>
      simp only [List.zip_cons_cons, List.lookup_cons]
      by_cases hn : n = m
      · simpa [hn] using ha
      · simpa only [beq_false_of_ne hn] using ih names

/-- An expression keeps its value if expressions take the place of names that have their bits. Other
names and references that mean something have to mean the same afterwards. -/
theorem evalWith_substitute {env env' : Environment} {enter : Enter} {scope scope' : Scope}
    (hfun : env'.functions = env.functions) {names : List String} {args : List Expr}
    {bits : List Bool}
    (hargs : List.Forall₂ (fun a x => a.evalWith env enter scope = pure x) args bits)
    (hplain : ∀ n b, env'.plain? scope' n = some b →
      ((names.zip bits).lookup n).or (env.plain? scope n) = some b)
    (href : ∀ n s b, env'.read scope' n true s = .ok b → env.read scope n true s = .ok b)
    {e : Expr} {b : Bool} (h : e.evalWith env' enter scope' = pure b) :
    (e.substitute (names.zip args)).evalWith env enter scope = pure b := by
  induction h using evalWith_induction with
  | lit x s => rfl
  | var n r s x h =>
    cases r with
    | true => exact evalWith_var_eq_pure_iff.2 (href n s x h)
    | false =>
      replace h := hplain n x (Environment.read_plain_eq_ok_iff.1 h)
      rw [substitute]
      rcases lookup_zip_of_forall₂ hargs names n with ⟨ha, hy⟩ | ⟨a, y, ha, hy, hay⟩
      · rw [hy, Option.none_or] at h
        rw [ha, Option.getD_none, evalWith_var_eq_pure_iff, Environment.read_plain_eq_ok_iff, h]
      · rw [hy, Option.some_or, Option.some.injEq] at h
        rw [ha, Option.getD_some, hay, h]
  | binary l op r s x y _ _ hl hr => exact evalWith_binary_eq_pure_iff.2 ⟨x, hl, y, hr, rfl⟩
  | not a s x _ ih => exact evalWith_not_eq_pure_iff.2 ih
  | call m as s f xs x hf hlen has hbody ih =>
    rw [substitute, evalWith_call_eq_pure_iff, substituteAll_eq, List.length_map,
      ← Environment.function?_congr hfun]
    refine ⟨f, hf, hlen, xs, List.forall₂_map_left_iff.2 ?_, hbody⟩
    exact forall₂_imp_of_mem ih has
  | transform f a s x hf _ ih => exact evalWith_builtin_eq_pure_iff.2 ⟨hf, _, rfl, ih⟩

theorem evalWith_substitute_shadow {env : Environment} {enter : Enter} {names : List String}
    {args : List Expr} {bits : List Bool}
    (hargs : List.Forall₂ (fun a x => a.evalWith env enter .empty = pure x) args bits)
    {e : Expr} {b : Bool} (h : e.evalWith (env.shadow names bits) enter .empty = pure b) :
    (e.substitute (names.zip args)).evalWith env enter .empty = pure b := by
  have hplain : ∀ n b, (env.shadow names bits).plain? .empty n = some b →
      ((names.zip bits).lookup n).or (env.plain? .empty n) = some b := fun n b hn =>
    (env.bit?_shadow names bits n).symm.trans hn
  have href : ∀ n s b, (env.shadow names bits).read .empty n true s = .ok b →
      env.read .empty n true s = .ok b := fun n s b hn => nomatch hn
  have hfun : (env.shadow names bits).functions = env.functions := rfl
  exact evalWith_substitute hfun hargs hplain href h

end Expr

end Switching
