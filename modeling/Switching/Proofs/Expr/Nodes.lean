import Switching.Engine.Display
import Switching.Proofs.Expr.Basic

/-!
# The nodes of an expression

* `Expr.nodes`: the expression and all its parts, at any depth.
* `Expr.Everywhere`: a property of all nodes; it is that of the node and that of its operands.
* `Gate.build_of_apply`: what a gate keeps, a connective over this gate keeps.
* **`Cover.everywhere_toExpr`**: a cover has no calls, no built-in functions and no references.
-/

namespace Switching

namespace Expr

mutual

/-- The expression and its parts, from the outside and from left to right. -/
def nodes : Expr → List Expr
  | .lit b s => [.lit b s]
  | .str t s => [.str t s]
  | .var n reference s => [.var n reference s]
  | .binary a op b s => .binary a op b s :: (a.nodes ++ b.nodes)
  | .not a s => .not a s :: a.nodes
  | .call n args s => .call n args s :: nodesAll args
  | .builtin f args s => .builtin f args s :: nodesAll args
  | .error m s => [.error m s]

def nodesAll : List Expr → List Expr
  | [] => []
  | e :: es => e.nodes ++ nodesAll es

end

attribute [local simp] nodes

theorem mem_nodesAll_iff {e : Expr} {args : List Expr} :
    e ∈ nodesAll args ↔ ∃ a ∈ args, e ∈ a.nodes := by
  induction args with
  | nil => simp [nodesAll]
  | cons a args ih => simp [nodesAll, ih]

theorem self_mem_nodes (e : Expr) : e ∈ e.nodes := by
  cases e <;> simp [nodes]

/-- Every node of the expression has the property. -/
def Everywhere (P : Expr → Prop) (e : Expr) : Prop := ∀ a ∈ e.nodes, P a

theorem Everywhere.here {P : Expr → Prop} {e : Expr} (h : e.Everywhere P) : P e :=
  h e e.self_mem_nodes

theorem Everywhere.mono {P Q : Expr → Prop} {e : Expr} (h : e.Everywhere P)
    (hPQ : ∀ a, P a → Q a) : e.Everywhere Q := fun a ha => hPQ a (h a ha)

section Everywhere

variable {P : Expr → Prop} {a b : Expr} {op : Operator} {s : Span} {n : String} {f : Builtin}
  {args : List Expr}

@[simp] theorem everywhere_lit {x : Bool} : (lit x s).Everywhere P ↔ P (lit x s) := by
  simp [Everywhere, nodes]

@[simp] theorem everywhere_str {t : String} : (str t s).Everywhere P ↔ P (str t s) := by
  simp [Everywhere, nodes]

@[simp] theorem everywhere_var {r : Bool} : (var n r s).Everywhere P ↔ P (var n r s) := by
  simp [Everywhere, nodes]

@[simp] theorem everywhere_error {m : String} : (error m s).Everywhere P ↔ P (error m s) := by
  simp [Everywhere, nodes]

@[simp] theorem everywhere_binary :
    (binary a op b s).Everywhere P ↔
      P (binary a op b s) ∧ a.Everywhere P ∧ b.Everywhere P := by
  simp [Everywhere, nodes, or_imp, forall_and]

@[simp] theorem everywhere_not :
    (not a s).Everywhere P ↔ P (not a s) ∧ a.Everywhere P := by
  simp [Everywhere, nodes]

theorem forall_mem_nodesAll_iff : (∀ a ∈ nodesAll args, P a) ↔ ∀ a ∈ args, a.Everywhere P := by
  simp only [mem_nodesAll_iff, Everywhere]
  constructor
  · exact fun h a ha e he => h e ⟨a, ha, he⟩
  · rintro h e ⟨a, ha, he⟩
    exact h a ha e he

@[simp] theorem everywhere_call :
    (call n args s).Everywhere P ↔ P (call n args s) ∧ ∀ a ∈ args, a.Everywhere P := by
  rw [Everywhere, nodes, List.forall_mem_cons, forall_mem_nodesAll_iff]

@[simp] theorem everywhere_builtin :
    (builtin f args s).Everywhere P ↔ P (builtin f args s) ∧ ∀ a ∈ args, a.Everywhere P := by
  rw [Everywhere, nodes, List.forall_mem_cons, forall_mem_nodesAll_iff]

end Everywhere

end Expr

/-! ## Built expressions -/

theorem Gate.build_of_apply {P : Expr → Prop} (g : Gate)
    (happly : ∀ {a b}, P a → P b → P (g.apply a b)) (op : Operator) {a b : Expr} (ha : P a)
    (hb : P b) : P (g.build op a b) := by
  have hinvert : ∀ {a}, P a → P (g.invert a) := fun ha => happly ha ha
  have hexclusive : P (g.exclusive a b) :=
    happly (happly ha (happly ha hb)) (happly hb (happly ha hb))
  cases g with
  | nand =>
    cases op with
    | nand => exact happly ha hb
    | and => exact hinvert (happly ha hb)
    | or => exact happly (hinvert ha) (hinvert hb)
    | nor => exact hinvert (happly (hinvert ha) (hinvert hb))
    | xor => exact hexclusive
    | xnor => exact hinvert hexclusive
    | imply => exact happly ha (hinvert hb)
    | nimply => exact hinvert (happly ha (hinvert hb))
  | nor =>
    cases op with
    | nor => exact happly ha hb
    | or => exact hinvert (happly ha hb)
    | and => exact happly (hinvert ha) (hinvert hb)
    | nand => exact hinvert (happly (hinvert ha) (hinvert hb))
    | xnor => exact hexclusive
    | xor => exact hinvert hexclusive
    | nimply => exact happly (hinvert ha) hb
    | imply => exact hinvert (happly (hinvert ha) hb)

namespace Expr

/-- The node is a literal, a plain variable, a connective or a negation. -/
def isPropositional : Expr → Bool
  | .lit .. | .var _ false _ | .binary .. | .not .. => true
  | .str .. | .var _ true _ | .call .. | .builtin .. | .error .. => false

theorem everywhere_foldl_join {P : Expr → Prop} (hjoin : ∀ a op b s, P (.binary a op b s))
    {op : Operator} {es : List Expr} (hes : ∀ e ∈ es, e.Everywhere P) {e : Expr}
    (he : e.Everywhere P) : (es.foldl (·.join op ·) e).Everywhere P := by
  induction es generalizing e with
  | nil => exact he
  | cons a es ih =>
    obtain ⟨ha, hes⟩ := List.forall_mem_cons.1 hes
    exact ih hes (everywhere_binary.2 ⟨hjoin e op a _, he, ha⟩)

theorem everywhere_chain? {P : Expr → Prop} (hjoin : ∀ a op b s, P (.binary a op b s))
    {op : Operator} {es : List Expr} (hes : ∀ e ∈ es, e.Everywhere P) {unit : Expr}
    (hunit : unit.Everywhere P) : ((chain? op es).getD unit).Everywhere P := by
  cases es with
  | nil => exact hunit
  | cons e es =>
    obtain ⟨he, hes⟩ := List.forall_mem_cons.1 hes
    exact everywhere_foldl_join hjoin hes he

theorem everywhere_literal (n : String) (b : Bool) (span : Span) :
    (literal n b span).Everywhere (·.isPropositional = true) := by
  cases b <;> simp [literal, negation, isPropositional]

end Expr

namespace Cover

open Switching.Expr

theorem everywhere_cubeExpr (form : Form) (inputs : List String) (cube : Cube) (span : Span) :
    (cubeExpr form inputs cube span).Everywhere (·.isPropositional = true) := by
  refine everywhere_chain? (fun _ _ _ _ => rfl) (fun e he => ?_) (everywhere_lit.2 rfl)
  obtain ⟨x, -, hx⟩ := List.mem_filterMap.1 he
  obtain ⟨b, -, rfl⟩ := Option.map_eq_some_iff.1 hx
  exact everywhere_literal x.1 _ span

/-- **A cover is written with literals, variables, connectives and negations** only. -/
theorem everywhere_toExpr (c : Cover) (span : Span) :
    (c.toExpr span).Everywhere (·.isPropositional = true) := by
  rw [toExpr]
  split
  · exact everywhere_lit.2 rfl
  · refine everywhere_chain? (fun _ _ _ _ => rfl) (fun e he => ?_) (everywhere_lit.2 rfl)
    obtain ⟨p, -, rfl⟩ := List.mem_map.1 he
    exact everywhere_cubeExpr c.form c.inputs p.cube span

end Cover

end Switching
