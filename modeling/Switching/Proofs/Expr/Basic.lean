import Mathlib.Data.List.Forall2
import Switching.Expr.Basic

/-!
# Induction and names

* `Expr.induction`: in the cases of calls and built-in functions, the claim may be assumed of every
  argument. It is what `induction e` uses.
* `Expr.mem_namesAll_iff`, `Expr.firstReferenceAmong?_eq_none_iff`: lists of arguments.
* `Expr.mem_inputs_iff`, `Expr.nodup_inputs`: the inputs are the names, each one once.
-/

namespace Switching.Expr

/-- Induction on an expression, with the claim of each argument at hand. -/
@[elab_as_elim, induction_eliminator]
theorem induction {motive : Expr → Prop} (lit : ∀ b s, motive (.lit b s))
    (str : ∀ t s, motive (.str t s)) (var : ∀ n reference s, motive (.var n reference s))
    (binary : ∀ a op b s, motive a → motive b → motive (.binary a op b s))
    (not : ∀ a s, motive a → motive (.not a s))
    (call : ∀ n args s, (∀ a ∈ args, motive a) → motive (.call n args s))
    (builtin : ∀ f args s, (∀ a ∈ args, motive a) → motive (.builtin f args s))
    (error : ∀ m s, motive (.error m s)) (e : Expr) : motive e :=
  Expr.rec lit str var binary not call builtin error (fun _ h => nomatch h)
    (fun _ _ ha has => List.forall_mem_cons.2 ⟨ha, has⟩) e

/-! ## Lists of arguments -/

theorem namesAll_eq (args : List Expr) : namesAll args = args.flatMap names := by
  induction args with
  | nil => rfl
  | cons a args ih => rw [namesAll, ih, List.flatMap_cons]

theorem mem_namesAll_iff {n : String} {args : List Expr} :
    n ∈ namesAll args ↔ ∃ a ∈ args, n ∈ a.names := by
  rw [namesAll_eq, List.mem_flatMap]

theorem firstReferenceAmong?_eq_none_iff {args : List Expr} :
    firstReferenceAmong? args = none ↔ ∀ a ∈ args, a.firstReference? = none := by
  induction args with
  | nil => simp [firstReferenceAmong?]
  | cons a args ih =>
    rw [firstReferenceAmong?, List.forall_mem_cons, ← ih]
    cases a.firstReference? <;> simp

theorem forall₂_imp_of_mem {α β : Type} {R S : α → β → Prop} {xs : List α} {ys : List β}
    (h : ∀ x ∈ xs, ∀ y, R x y → S x y) (hR : List.Forall₂ R xs ys) : List.Forall₂ S xs ys :=
  ((List.forall₂_and_left xs ys).2 ⟨h, hR⟩).imp fun _ y hxy => hxy.1 y hxy.2

theorem forall₂_of_forall₂_of_mem {α β γ : Type} {R : α → β → Prop} {S : α → γ → Prop}
    {T : β → γ → Prop} {xs : List α} {ys : List β} {zs : List γ}
    (h : ∀ x ∈ xs, ∀ y z, R x y → S x z → T y z) (hR : List.Forall₂ R xs ys)
    (hS : List.Forall₂ S xs zs) : List.Forall₂ T ys zs := by
  induction hR generalizing zs with
  | nil =>
    obtain rfl := List.forall₂_nil_left_iff.1 hS
    exact .nil
  | cons hxy _ ih =>
    obtain ⟨z, zs, hz, hzs, rfl⟩ := List.forall₂_cons_left_iff.1 hS
    exact .cons (h _ List.mem_cons_self _ z hxy hz)
      (ih (fun x hx => h x (List.mem_cons_of_mem _ hx)) hzs)

theorem exists_forall₂_of_mem {α β γ δ : Type} {R : α → β → Prop} {S : α → γ → Prop}
    {T : α → δ → Prop} {U : γ → δ → Prop} {xs : List α} {ys : List β} {zs : List γ}
    (h : ∀ x ∈ xs, ∀ y z, R x y → S x z → ∃ w, T x w ∧ U z w) (hR : List.Forall₂ R xs ys)
    (hS : List.Forall₂ S xs zs) : ∃ ws, List.Forall₂ T xs ws ∧ List.Forall₂ U zs ws := by
  induction hR generalizing zs with
  | nil =>
    obtain rfl := List.forall₂_nil_left_iff.1 hS
    exact ⟨[], .nil, .nil⟩
  | cons hxy _ ih =>
    obtain ⟨z, zs, hz, hzs, rfl⟩ := List.forall₂_cons_left_iff.1 hS
    obtain ⟨w, hT, hU⟩ := h _ List.mem_cons_self _ z hxy hz
    obtain ⟨ws, hTs, hUs⟩ := ih (fun x hx => h x (List.mem_cons_of_mem _ hx)) hzs
    exact ⟨w :: ws, .cons hT hTs, .cons hU hUs⟩

theorem exists_of_forall₂_of_mem {α β : Type} {R : α → β → Prop} {xs : List α} {ys : List β}
    (hR : List.Forall₂ R xs ys) {x : α} (hx : x ∈ xs) : ∃ y ∈ ys, R x y := by
  induction hR with
  | nil => nomatch hx
  | cons h _ ih =>
    rcases List.mem_cons.1 hx with rfl | hx
    · exact ⟨_, List.mem_cons_self, h⟩
    · obtain ⟨y, hy, hxy⟩ := ih hx
      exact ⟨y, List.mem_cons_of_mem _ hy, hxy⟩

/-! ## References -/

theorem firstReference?_binary_eq_none_iff {a b : Expr} {op : Operator} {s : Span} :
    (binary a op b s).firstReference? = none ↔
      a.firstReference? = none ∧ b.firstReference? = none := by
  rw [firstReference?]
  cases a.firstReference? <;> simp

/-! ## Inputs -/

def addName (seen : List String) (n : String) : List String :=
  if n ∈ seen then seen else seen ++ [n]

theorem inputs_eq (e : Expr) : e.inputs = e.names.foldl addName [] := rfl

theorem mem_addName_iff {seen : List String} {m n : String} :
    m ∈ addName seen n ↔ m ∈ seen ∨ m = n := by
  rw [addName]
  split
  case isTrue h => exact ⟨.inl, fun hm => hm.elim id fun hmn => hmn ▸ h⟩
  case isFalse h => rw [List.mem_append, List.mem_singleton]

theorem mem_foldl_addName_iff {seen ns : List String} {m : String} :
    m ∈ ns.foldl addName seen ↔ m ∈ seen ∨ m ∈ ns := by
  induction ns generalizing seen with
  | nil => simp
  | cons n ns ih => rw [List.foldl_cons, ih, mem_addName_iff, List.mem_cons, or_assoc]

theorem nodup_foldl_addName {seen ns : List String} (h : seen.Nodup) :
    (ns.foldl addName seen).Nodup := by
  induction ns generalizing seen with
  | nil => exact h
  | cons n ns ih =>
    refine ih ?_
    rw [addName]
    split
    case isTrue => exact h
    case isFalse hn =>
      rw [List.nodup_append]
      exact ⟨h, by simp, fun m hm k hk => by
        obtain rfl := List.mem_singleton.1 hk
        exact fun heq => hn (heq ▸ hm)⟩

theorem foldl_addName_of_subset {seen ns : List String} (h : ns ⊆ seen) :
    ns.foldl addName seen = seen := by
  induction ns with
  | nil => rfl
  | cons n ns ih =>
    obtain ⟨hn, hns⟩ := List.cons_subset.1 h
    rw [List.foldl_cons, addName, if_pos hn, ih hns]

/-- Names that were read before add nothing, whatever was read in between. -/
theorem foldl_addName_again (seen ns ms : List String) :
    ns.foldl addName (ms.foldl addName (ns.foldl addName seen)) =
      ms.foldl addName (ns.foldl addName seen) :=
  foldl_addName_of_subset fun _ hn =>
    mem_foldl_addName_iff.2 (.inl (mem_foldl_addName_iff.2 (.inr hn)))

theorem foldl_addName_twice (seen ns : List String) :
    ns.foldl addName (ns.foldl addName seen) = ns.foldl addName seen :=
  foldl_addName_again seen ns []

theorem mem_inputs_iff {e : Expr} {n : String} : n ∈ e.inputs ↔ n ∈ e.names := by
  rw [inputs_eq, mem_foldl_addName_iff]
  simp

theorem nodup_inputs (e : Expr) : e.inputs.Nodup := nodup_foldl_addName List.nodup_nil

end Switching.Expr
