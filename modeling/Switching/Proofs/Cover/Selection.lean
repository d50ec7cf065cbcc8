import Mathlib.Algebra.BigOperators.Group.Finset.Basic
import Mathlib.Algebra.GroupWithZero.Nat
import Mathlib.Algebra.Order.BigOperators.Group.Finset
import Mathlib.Data.List.Lex
import Mathlib.Data.Prod.Lex
import Mathlib.Data.String.Basic
import Switching.Cover.Select
import Switching.Proofs.Cover.Hitting

/-!
# Selections of least cost

* `Cost.key`: costs in lexicographic order; `cheapest?_le`: `cheapest?` takes a least one.
* `Selection.clauses`, `Selection.essential`, `Selection.remaining`: what `selectCover` works on.
* `Selection.Accounts`: a set of places accounts for all targets.
* `Selection.exists_minimal_subset`: such a set contains the essential places and, apart from them,
  a minimal hitting set of the remaining clauses.
* **`Selection.price_selectCover_le`**: `selectCover` has the fewest places, and then the fewest
  literals.
-/

namespace Switching

/-! ## The order of costs -/

/-- A cost as a triple in lexicographic order. -/
def Cost.key (c : Cost) : ℕ ×ₗ ℕ ×ₗ List String := toLex (c.count, toLex (c.literals, c.texts))

theorem Cost.less_iff {a b : Cost} : a.less b = true ↔ a.key < b.key := by
  rw [Cost.key, Cost.key, Prod.Lex.toLex_lt_toLex, Prod.Lex.toLex_lt_toLex, Cost.less]
  split_ifs with hcount hliterals
  · simp [hcount]
  · simp only [ne_eq, not_not] at hcount
    simp [hcount, hliterals]
  · simp only [ne_eq, not_not] at hcount hliterals
    simp [hcount, hliterals]

/-- The order in which selections are preferred: by cost, then by places. -/
def selectionKey (implicants : List Implicant) (s : List ℕ) :
    (ℕ ×ₗ ℕ ×ₗ List String) ×ₗ List ℕ :=
  toLex ((selectionCost implicants s).key, s)

theorem preferred_iff {implicants : List Implicant} {s t : List ℕ} :
    preferred implicants s t = true ↔ selectionKey implicants s < selectionKey implicants t := by
  have hnot : (!(selectionCost implicants t).less (selectionCost implicants s)) = true ↔
      (selectionCost implicants s).key ≤ (selectionCost implicants t).key := by
    rw [Bool.not_eq_true', Bool.eq_false_iff, ne_eq, Cost.less_iff, not_lt]
  rw [selectionKey, selectionKey, Prod.Lex.toLex_lt_toLex, preferred, Bool.or_eq_true,
    Bool.and_eq_true, Cost.less_iff, hnot, decide_eq_true_iff]
  constructor
  · rintro (hlt | ⟨hle, hst⟩)
    · exact .inl hlt
    · exact hle.lt_or_eq.imp_right fun heq => ⟨heq, hst⟩
  · rintro (hlt | ⟨heq, hst⟩)
    · exact .inl hlt
    · exact .inr ⟨heq.le, hst⟩

/-- Replacing the best item by an earlier one, whenever there is one, ends at an earliest one. -/
theorem foldl_least {α β : Type} [LinearOrder β] {before : α → α → Bool} {f : α → β}
    (hbefore : ∀ a b, before a b = true ↔ f a < f b) (x : α) (xs : List α) :
    xs.foldl (fun best a => if before a best then a else best) x ∈ x :: xs ∧
      ∀ a ∈ x :: xs, f (xs.foldl (fun best a => if before a best then a else best) x) ≤ f a := by
  induction xs generalizing x with
  | nil => simp
  | cons y ys ih =>
    rw [List.foldl_cons]
    by_cases h : before y x = true
    · obtain ⟨hmem, hle⟩ := ih y
      rw [if_pos h]
      refine ⟨List.mem_cons_of_mem x hmem, fun a ha => ?_⟩
      rcases List.mem_cons.1 ha with rfl | ha
      · exact (hle y List.mem_cons_self).trans ((hbefore y a).1 h).le
      · exact hle a ha
    · obtain ⟨hmem, hle⟩ := ih x
      rw [if_neg h]
      refine ⟨?_, fun a ha => ?_⟩
      · rcases List.mem_cons.1 hmem with heq | hmem
        · rw [heq]
          exact List.mem_cons_self
        · exact List.mem_cons_of_mem x (List.mem_cons_of_mem y hmem)
      · rcases List.mem_cons.1 ha with rfl | ha
        · exact hle a List.mem_cons_self
        rcases List.mem_cons.1 ha with rfl | ha
        · rw [hbefore, not_lt] at h
          exact (hle x List.mem_cons_self).trans h
        · exact hle a (List.mem_cons_of_mem x ha)

theorem cheapest?_le {implicants : List Implicant} {sets : List (List ℕ)} {best : List ℕ}
    (h : cheapest? implicants sets = some best) :
    best ∈ sets ∧
      ∀ s ∈ sets, (selectionCost implicants best).key ≤ (selectionCost implicants s).key := by
  cases sets with
  | nil => cases h
  | cons s ss =>
    obtain ⟨hmem, hle⟩ := foldl_least (fun s t => @preferred_iff implicants s t) s ss
    rw [cheapest?, Option.some.injEq] at h
    rw [h] at hmem hle
    refine ⟨hmem, fun t ht => ?_⟩
    rcases Prod.Lex.toLex_le_toLex.1 (hle t ht) with hlt | ⟨heq, -⟩
    · exact hlt.le
    · exact heq.le

theorem cheapest?_isSome {implicants : List Implicant} {sets : List (List ℕ)} {s : List ℕ}
    (h : s ∈ sets) : ∃ best, cheapest? implicants sets = some best := by
  cases sets with
  | nil => cases h
  | cons t ts => exact ⟨_, rfl⟩

/-! ## What a selection costs -/

def literalsAt (implicants : List Implicant) (k : ℕ) : ℕ :=
  (implicants[k]?.map Implicant.literals).getD 0

theorem totalLiterals_eq_sum (ps : List Implicant) :
    Implicant.totalLiterals ps = (ps.map Implicant.literals).sum := by
  induction ps with
  | nil => rfl
  | cons p ps ih => rw [Implicant.totalLiterals, ih, List.map_cons, List.sum_cons]

theorem totalLiterals_filterMap (implicants : List Implicant) (s : List ℕ) :
    Implicant.totalLiterals (s.filterMap (implicants[·]?)) =
      (s.map (literalsAt implicants)).sum := by
  induction s with
  | nil => rfl
  | cons k s ih =>
    rw [List.map_cons, List.sum_cons, ← ih, literalsAt]
    cases h : implicants[k]? with
    | none => rw [List.filterMap_cons_none h]; simp
    | some p => rw [List.filterMap_cons_some h]; rfl

theorem length_filterMap_getElem? {α : Type} {xs : List α} {s : List ℕ}
    (h : ∀ k ∈ s, k < xs.length) : (s.filterMap (xs[·]?)).length = s.length := by
  rw [List.filterMap_length_eq_length]
  intro k hk
  rw [List.getElem?_eq_getElem (h k hk), Option.isSome_some]

/-- The number of places and the number of literals of a set of places. -/
def price (implicants : List Implicant) (S : Finset ℕ) : ℕ ×ₗ ℕ :=
  toLex (S.card, ∑ k ∈ S, literalsAt implicants k)

theorem price_toFinset {implicants : List Implicant} {s : List ℕ} (hs : s.Nodup) :
    price implicants s.toFinset =
      toLex ((selectionCost implicants s).count, (selectionCost implicants s).literals) := by
  rw [price, List.toFinset_card_of_nodup hs, List.sum_toFinset _ hs, selectionCost,
    totalLiterals_filterMap]

theorem price_mono {implicants : List Implicant} {S T : Finset ℕ} (h : S ⊆ T) :
    price implicants S ≤ price implicants T := by
  refine Prod.Lex.toLex_mono ⟨Finset.card_le_card h, ?_⟩
  exact Finset.sum_le_sum_of_subset h

theorem price_union_le {implicants : List Implicant} {S T E : Finset ℕ} (hS : Disjoint S E)
    (hT : Disjoint T E) (h : price implicants S ≤ price implicants T) :
    price implicants (S ∪ E) ≤ price implicants (T ∪ E) := by
  rw [price, price, Prod.Lex.toLex_le_toLex] at h ⊢
  rw [Finset.card_union_of_disjoint hS, Finset.card_union_of_disjoint hT,
    Finset.sum_union hS, Finset.sum_union hT]
  simp only at h ⊢
  omega

theorem price_le_of_key_le {implicants : List Implicant} {s t : List ℕ} (hs : s.Nodup)
    (ht : t.Nodup)
    (h : (selectionCost implicants s).key ≤ (selectionCost implicants t).key) :
    price implicants s.toFinset ≤ price implicants t.toFinset := by
  rw [price_toFinset hs, price_toFinset ht, Prod.Lex.toLex_le_toLex]
  rw [Cost.key, Cost.key, Prod.Lex.toLex_le_toLex] at h
  refine h.imp_right fun ⟨heq, hle⟩ => ⟨heq, ?_⟩
  rcases Prod.Lex.toLex_le_toLex.1 hle with hlt | ⟨heq', -⟩
  · exact hlt.le
  · exact heq'.le

/-! ## Candidates -/

theorem mem_candidates {implicants : List Implicant} {i k : ℕ} :
    k ∈ candidates implicants i ↔ ∃ p, implicants[k]? = some p ∧ i ∈ p.minterms := by
  simp only [candidates, List.mem_map, List.mem_filter, Prod.exists, List.mem_zipIdx_iff_getElem?,
    List.contains_eq_mem, decide_eq_true_iff]
  constructor
  · rintro ⟨p, j, ⟨hp, hi⟩, rfl⟩
    exact ⟨p, hp, hi⟩
  · rintro ⟨p, hp, hi⟩
    exact ⟨p, k, ⟨hp, hi⟩, rfl⟩

namespace Selection

variable {implicants : List Implicant} {targets : List ℕ}

/-- A set of places accounts for all targets. -/
def Accounts (implicants : List Implicant) (targets : List ℕ) (S : Finset ℕ) : Prop :=
  ∀ i ∈ targets, ∃ k ∈ candidates implicants i, k ∈ S

variable (implicants targets) in
/-- For each target the places of the implicants that account for it. -/
def clauses : List (List ℕ) := (Indices.ofList targets).map (candidates implicants)

variable (implicants targets) in
/-- The places that are alone in accounting for a target. -/
def essential : List ℕ :=
  Indices.ofList ((clauses implicants targets).filter (·.length = 1)).flatten

variable (implicants targets) in
/-- The clauses without an essential place. -/
def remaining : List (List ℕ) :=
  (clauses implicants targets).filter (!hits (essential implicants targets) ·)

theorem selectCover_of_cheapest? {best : List ℕ}
    (h : cheapest? implicants (minimalHittingSets (remaining implicants targets)) = some best) :
    selectCover implicants targets = Indices.union best (essential implicants targets) := by
  unfold remaining essential clauses at h
  simp only [selectCover, h]
  rfl

theorem mem_clauses {c : List ℕ} :
    c ∈ clauses implicants targets ↔ ∃ i ∈ targets, candidates implicants i = c := by
  simp [clauses]

theorem lt_length_of_mem_clause {c : List ℕ} (hc : c ∈ clauses implicants targets) {k : ℕ}
    (hk : k ∈ c) : k < implicants.length := by
  obtain ⟨i, -, rfl⟩ := mem_clauses.1 hc
  obtain ⟨p, hp, -⟩ := mem_candidates.1 hk
  exact (List.getElem?_eq_some_iff.1 hp).1

theorem accounts_iff {S : Finset ℕ} :
    Accounts implicants targets S ↔ ∀ c ∈ clauses implicants targets, ∃ k ∈ c, k ∈ S := by
  constructor
  · intro h c hc
    obtain ⟨i, hi, rfl⟩ := mem_clauses.1 hc
    exact h i hi
  · exact fun h i hi => h _ (mem_clauses.2 ⟨i, hi, rfl⟩)

theorem essential_subset {S : Finset ℕ} (hS : Accounts implicants targets S) :
    (essential implicants targets).toFinset ⊆ S := by
  intro k hk
  rw [List.mem_toFinset, essential, Indices.mem_ofList] at hk
  obtain ⟨c, hc, hkc⟩ := List.mem_flatten.1 hk
  obtain ⟨hc, hlen⟩ := List.mem_filter.1 hc
  obtain ⟨j, rfl⟩ := List.length_eq_one_iff.1 (of_decide_eq_true hlen)
  obtain ⟨k', hk', hkS⟩ := accounts_iff.1 hS _ hc
  rw [List.mem_singleton] at hkc hk'
  rwa [hkc, ← hk']

theorem disjoint_essential {s : List ℕ}
    (hs : s ∈ minimalHittingSets (remaining implicants targets)) :
    Disjoint s.toFinset (essential implicants targets).toFinset := by
  rw [Finset.disjoint_left]
  intro k hk he
  rw [List.mem_toFinset] at hk he
  obtain ⟨c, hc, hkc⟩ := mem_clause_of_mem_minimalHittingSets hs hk
  have hnot := (List.mem_filter.1 hc).2
  rw [hits_iff.2 ⟨k, hkc, he⟩] at hnot
  cases hnot

/-- Whatever accounts for all targets contains, apart from the essential places, a minimal hitting
set of the remaining clauses. -/
theorem exists_minimal_subset {S : Finset ℕ} (hS : Accounts implicants targets S) :
    ∃ s ∈ minimalHittingSets (remaining implicants targets),
      s.toFinset ∪ (essential implicants targets).toFinset ⊆ S := by
  have hrem : ∀ c ∈ remaining implicants targets, ∃ k ∈ c, k ∈ S := fun c hc =>
    accounts_iff.1 hS c (List.mem_filter.1 hc).1
  obtain ⟨s, hs, hsub⟩ := exists_minimalHittingSet hrem
  refine ⟨s, hs, Finset.union_subset (fun k hk => hsub k (List.mem_toFinset.1 hk)) ?_⟩
  exact essential_subset hS

theorem toFinset_union (s t : List ℕ) :
    (Indices.union s t).toFinset = s.toFinset ∪ t.toFinset := by
  ext k
  simp

section Covered

variable (hall : ∀ i ∈ targets, ∃ p ∈ implicants, i ∈ p.minterms)

include hall

theorem accounts_range : Accounts implicants targets (Finset.range implicants.length) := by
  intro i hi
  obtain ⟨p, hp, hip⟩ := hall i hi
  obtain ⟨k, hk, rfl⟩ := List.mem_iff_getElem.1 hp
  exact ⟨k, mem_candidates.2 ⟨_, List.getElem?_eq_getElem hk, hip⟩, Finset.mem_range.2 hk⟩

theorem exists_cheapest? : ∃ best,
    cheapest? implicants (minimalHittingSets (remaining implicants targets)) = some best := by
  obtain ⟨s, hs, -⟩ := exists_minimal_subset (accounts_range hall)
  exact cheapest?_isSome hs

theorem pairwise_selectCover : (selectCover implicants targets).Pairwise (· < ·) := by
  obtain ⟨best, hbest⟩ := exists_cheapest? hall
  rw [selectCover_of_cheapest? hbest]
  exact Indices.pairwise_union _ (Indices.pairwise_ofList _)

theorem accounts_selectCover :
    Accounts implicants targets (selectCover implicants targets).toFinset := by
  obtain ⟨best, hbest⟩ := exists_cheapest? hall
  have hhits := hits_of_mem_minimalHittingSets (cheapest?_le hbest).1
  rw [selectCover_of_cheapest? hbest, accounts_iff]
  intro c hc
  by_cases hess : hits (essential implicants targets) c = true
  · obtain ⟨k, hkc, hk⟩ := hits_iff.1 hess
    exact ⟨k, hkc, by simp [hk]⟩
  · have hrem : c ∈ remaining implicants targets :=
      List.mem_filter.2 ⟨hc, by rw [Bool.eq_false_iff.2 hess]; rfl⟩
    obtain ⟨k, hkc, hk⟩ := hits_iff.1 (hhits c hrem)
    exact ⟨k, hkc, by simp [hk]⟩

theorem lt_length_of_mem_selectCover {k : ℕ} (hk : k ∈ selectCover implicants targets) :
    k < implicants.length := by
  obtain ⟨best, hbest⟩ := exists_cheapest? hall
  rw [selectCover_of_cheapest? hbest, Indices.mem_union] at hk
  rcases hk with hk | hk
  · obtain ⟨c, hc, hkc⟩ := mem_clause_of_mem_minimalHittingSets (cheapest?_le hbest).1 hk
    exact lt_length_of_mem_clause (List.mem_filter.1 hc).1 hkc
  · rw [essential, Indices.mem_ofList] at hk
    obtain ⟨c, hc, hkc⟩ := List.mem_flatten.1 hk
    exact lt_length_of_mem_clause (List.mem_filter.1 hc).1 hkc

/-- **The selection has the least price** among all sets of places that account for all targets. -/
theorem price_selectCover_le {S : Finset ℕ} (hS : Accounts implicants targets S) :
    price implicants (selectCover implicants targets).toFinset ≤ price implicants S := by
  obtain ⟨best, hbest⟩ := exists_cheapest? hall
  obtain ⟨hmem, hle⟩ := cheapest?_le hbest
  obtain ⟨s, hs, hsub⟩ := exists_minimal_subset hS
  have hnodup : ∀ t ∈ minimalHittingSets (remaining implicants targets), t.Nodup := fun t ht =>
    (pairwise_of_mem_minimalHittingSets ht).imp Nat.ne_of_lt
  rw [selectCover_of_cheapest? hbest, toFinset_union]
  calc price implicants (best.toFinset ∪ (essential implicants targets).toFinset)
      ≤ price implicants (s.toFinset ∪ (essential implicants targets).toFinset) :=
        price_union_le (disjoint_essential hmem) (disjoint_essential hs)
          (price_le_of_key_le (hnodup best hmem) (hnodup s hs) (hle s hs))
    _ ≤ price implicants S := price_mono hsub

end Covered

end Selection

end Switching
