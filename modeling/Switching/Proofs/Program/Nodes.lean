import Mathlib.Order.Nat
import Switching.Program.Basic

/-!
# The nodes of a program and their places

The nodes of a program are its statements, the rows of tables, and all expressions.

* `Span.FitsIn`, `Span.Within`, `Span.Precedes`: a place in a source, inside of another one, and in
  front of another one.
* `InOrder lo ss hi`: places one after the other between two offsets.
* `Node`, `Node.children`, `Node.OccursIn`: the nodes of a program, at any depth.
* `Node.WellPlaced`: a node whose parts have their places inside of its own, one after the other, and
  so on for the parts. `Node.Placed`: such nodes between two offsets.
* **`Node.OccursIn.wellPlaced`**: in a program of well placed statements, all nodes are.
-/

namespace Switching

/-! ## Places -/

namespace Span

/-- A stretch of the source that is not empty and has whole characters. -/
structure FitsIn (source : String) (s : Span) : Prop where
  start_lt_stop : s.start < s.stop
  stop_le : s.stop ≤ source.utf8ByteSize
  isValid_start : (⟨s.start⟩ : String.Pos.Raw).IsValid source
  isValid_stop : (⟨s.stop⟩ : String.Pos.Raw).IsValid source

theorem FitsIn.upTo {source : String} {s s' : Span} (h : s.FitsIn source) (h' : s'.FitsIn source)
    (hle : s.stop ≤ s'.stop) : FitsIn source ⟨s.start, s'.stop⟩ :=
  ⟨h.start_lt_stop.trans_le hle, h'.stop_le, h.isValid_start, h'.isValid_stop⟩

theorem merge_eq {s s' : Span} (hstart : s.start ≤ s'.start) (hstop : s.stop ≤ s'.stop) :
    s.merge s' = ⟨s.start, s'.stop⟩ := by
  rw [merge, Nat.min_eq_left hstart, Nat.max_eq_right hstop]

/-- One place is inside of the other. -/
def Within (inner outer : Span) : Prop := outer.start ≤ inner.start ∧ inner.stop ≤ outer.stop

/-- One place ends before the other begins. -/
def Precedes (s s' : Span) : Prop := s.stop ≤ s'.start

end Span

/-- Places one after the other, none of them before `lo` or behind `hi`. -/
def InOrder (lo : Nat) : List Span → Nat → Prop
  | [], hi => lo ≤ hi
  | s :: ss, hi => lo ≤ s.start ∧ s.start ≤ s.stop ∧ InOrder s.stop ss hi

section InOrder

variable {lo lo' mid hi hi' : Nat} {s : Span} {ss ss' : List Span}

theorem inOrder_iff : InOrder lo ss hi ↔ lo ≤ hi ∧ ss.Pairwise Span.Precedes ∧
    ∀ s ∈ ss, lo ≤ s.start ∧ s.start ≤ s.stop ∧ s.stop ≤ hi := by
  induction ss generalizing lo with
  | nil => simp [InOrder]
  | cons s ss ih =>
    rw [InOrder, ih, List.pairwise_cons, List.forall_mem_cons]
    constructor
    · rintro ⟨hlo, hs, hhi, hpairwise, hss⟩
      refine ⟨by omega, ⟨fun s' hs' => (hss s' hs').1, hpairwise⟩, ⟨hlo, hs, hhi⟩, fun s' hs' => ?_⟩
      obtain ⟨hstart, hle, hstop⟩ := hss s' hs'
      exact ⟨by omega, hle, hstop⟩
    · rintro ⟨-, ⟨hfirst, hpairwise⟩, ⟨hlo, hs, hhi⟩, hss⟩
      exact ⟨hlo, hs, hhi, hpairwise, fun s' hs' => ⟨hfirst s' hs', (hss s' hs').2⟩⟩

theorem InOrder.within (h : InOrder lo ss hi) (hs : s ∈ ss) : s.Within ⟨lo, hi⟩ := by
  obtain ⟨hstart, -, hstop⟩ := (inOrder_iff.1 h).2.2 s hs
  exact ⟨hstart, hstop⟩

theorem InOrder.pairwise (h : InOrder lo ss hi) : ss.Pairwise Span.Precedes := (inOrder_iff.1 h).2.1

theorem InOrder.mono (h : InOrder lo ss hi) (hlo : lo' ≤ lo) (hhi : hi ≤ hi') : InOrder lo' ss hi' := by
  induction ss generalizing lo lo' with
  | nil => exact hlo.trans (h.trans hhi)
  | cons s ss ih => exact ⟨hlo.trans h.1, h.2.1, ih h.2.2 le_rfl⟩

theorem inOrder_append_iff :
    InOrder lo (ss ++ ss') hi ↔ ∃ mid, InOrder lo ss mid ∧ InOrder mid ss' hi := by
  induction ss generalizing lo with
  | nil =>
    refine ⟨fun h => ⟨lo, le_rfl, h⟩, ?_⟩
    rintro ⟨mid, hle, h⟩
    exact h.mono hle le_rfl
  | cons s ss ih =>
    rw [List.cons_append, InOrder, ih]
    simp only [InOrder, and_assoc, exists_and_left]

end InOrder

/-! ## Nodes -/

/-- A node of a program. -/
inductive Node where
  | statement (s : Statement)
  | row (r : TableRow)
  | expr (e : Expr)

namespace Node

def span : Node → Span
  | .statement s => s.span
  | .row r => r.span
  | .expr e => e.span

/-- The nodes right under a node, from left to right. -/
def children : Node → List Node
  | .statement (.variable _ e _) => [.expr e]
  | .statement (.function decl) => [.expr decl.body]
  | .statement (.table decl) => decl.rows.map .row
  | .statement (.builtin _ args _) => args.map .expr
  | .statement (.error ..) => []
  | .row r => [.expr r.output]
  | .expr (.binary a _ b _) => [.expr a, .expr b]
  | .expr (.not a _) => [.expr a]
  | .expr (.call _ args _) | .expr (.builtin _ args _) => args.map .expr
  | .expr (.lit ..) | .expr (.str ..) | .expr (.var ..) | .expr (.error ..) => []

/-- The nodes of a program: its statements, and what is under its nodes. -/
inductive OccursIn (p : Program) : Node → Prop where
  | statement {s : Statement} (hs : s ∈ p) : OccursIn p (.statement s)
  | child {n m : Node} (hn : OccursIn p n) (hm : m ∈ n.children) : OccursIn p m

/-- The node has a place in the source, and those of its children are inside of it, one after the
other. The same holds of the children. -/
inductive WellPlaced (source : String) : Node → Prop where
  | mk {n : Node} (hfits : n.span.FitsIn source)
    (horder : InOrder n.span.start (n.children.map span) n.span.stop)
    (hchildren : ∀ m ∈ n.children, WellPlaced source m) : WellPlaced source n

theorem WellPlaced.fitsIn {source : String} {n : Node} (h : n.WellPlaced source) :
    n.span.FitsIn source := by
  obtain ⟨hfits, -, -⟩ := h
  exact hfits

/-- Well placed nodes one after the other between two offsets. -/
structure Placed (source : String) (lo : Nat) (ns : List Node) (hi : Nat) : Prop where
  wellPlaced : ∀ n ∈ ns, n.WellPlaced source
  inOrder : InOrder lo (ns.map span) hi

variable {source : String} {lo mid hi : Nat} {n : Node} {ns ms : List Node}

theorem Placed.append (hns : Placed source lo ns mid) (hms : Placed source mid ms hi) :
    Placed source lo (ns ++ ms) hi where
  wellPlaced := List.forall_mem_append.2 ⟨hns.wellPlaced, hms.wellPlaced⟩
  inOrder := by
    rw [List.map_append]
    exact inOrder_append_iff.2 ⟨mid, hns.inOrder, hms.inOrder⟩

/-- A node around its children. -/
theorem Placed.parent {s : Span} (hn : n.span = s) (h : Placed source s.start n.children s.stop)
    (hfits : s.FitsIn source) (hlo : lo ≤ s.start) (hhi : s.stop ≤ hi) :
    Placed source lo [n] hi := by
  subst hn
  refine ⟨?_, hlo, hfits.start_lt_stop.le, hhi⟩
  rw [List.forall_mem_singleton]
  exact ⟨hfits, h.inOrder, h.wellPlaced⟩

/-- **In a program of well placed statements** all nodes are well placed. -/
theorem OccursIn.wellPlaced {p : Program} (hp : ∀ s ∈ p, WellPlaced source (.statement s))
    (h : OccursIn p n) : n.WellPlaced source := by
  induction h with
  | statement hs => exact hp _ hs
  | child _ hm ih =>
    obtain ⟨-, -, hchildren⟩ := ih
    exact hchildren _ hm

end Node

end Switching
