import Mathlib
import Switching.Proofs.Cover.Selection

/-!
# Selections with the earliest texts

`selectCover` takes the essential places first and compares only what can stand beside them. The
whole selection is compared all the same, since a common part keeps costs in their order.

* `orderedInsert_le_orderedInsert`, `mergeSort_append_le`: it does so for sorted lists.
* `selectionCost_append_le`: and for the costs of selections.
* `key_le_of_subset`: a selection costs no more than one that contains it.
* **`Selection.selectCover_least`**: `selectCover` has the fewest places, then the fewest literals,
  and then the earliest texts of all selections that account for the targets.
-/

namespace Switching

/-! ## Sorted lists in lexicographic order -/

section Lex

variable {α : Type} [LinearOrder α]

theorem cons_le_cons_iff_lex {a b : α} {l m : List α} :
    a :: l ≤ b :: m ↔ a < b ∨ a = b ∧ l ≤ m := by
  rw [le_iff_lt_or_eq, le_iff_lt_or_eq, List.cons_lt_cons_iff, List.cons.injEq, and_or_left,
    or_assoc]

theorem orderedInsert_le_orderedInsert (a : α) {l m : List α} (hlen : l.length = m.length)
    (h : l ≤ m) : l.orderedInsert (· ≤ ·) a ≤ m.orderedInsert (· ≤ ·) a := by
  induction l generalizing m with
  | nil => rw [List.eq_nil_of_length_eq_zero hlen.symm]
  | cons x l ih =>
    obtain ⟨y, m, rfl⟩ := List.exists_cons_of_length_eq_add_one hlen.symm
    have hrest : l.length = m.length := Nat.succ.inj hlen
    rw [List.orderedInsert_cons, List.orderedInsert_cons]
    rcases cons_le_cons_iff_lex.1 h with hxy | ⟨rfl, hlm⟩
    · -- the lists differ at once, and they still do where the item goes in between
      split_ifs with hx hy hy
      · exact cons_le_cons_iff_lex.2 (.inr ⟨rfl, h⟩)
      · exact absurd (hx.trans hxy.le) hy
      · exact cons_le_cons_iff_lex.2 (.inl (not_le.1 hx))
      · exact cons_le_cons_iff_lex.2 (.inl hxy)
    · split_ifs with hx
      · exact cons_le_cons_iff_lex.2 (.inr ⟨rfl, h⟩)
      · exact cons_le_cons_iff_lex.2 (.inr ⟨rfl, ih hrest hlm⟩)

theorem mergeSort_eq_of_perm {l m : List α} (h : l.Perm m) :
    l.mergeSort (fun x y => decide (x ≤ y)) = m.mergeSort fun x y => decide (x ≤ y) := by
  refine List.Perm.eq_of_pairwise' (r := (· ≤ ·)) (List.pairwise_mergeSort' _ l)
    (List.pairwise_mergeSort' _ m) ?_
  exact (List.mergeSort_perm l _).trans (h.trans (List.mergeSort_perm m _).symm)

theorem mergeSort_cons_eq_orderedInsert (a : α) (l : List α) :
    (a :: l).mergeSort (fun x y => decide (x ≤ y)) =
      (l.mergeSort fun x y => decide (x ≤ y)).orderedInsert (· ≤ ·) a := by
  refine List.Perm.eq_of_pairwise' (r := (· ≤ ·)) (List.pairwise_mergeSort' _ (a :: l))
    ((List.pairwise_mergeSort' _ l).orderedInsert a _) ?_
  have hinsert := List.perm_orderedInsert (· ≤ ·) a (l.mergeSort fun x y => decide (x ≤ y))
  exact (List.mergeSort_perm _ _).trans
    (((List.mergeSort_perm l _).cons a).symm.trans hinsert.symm)

/-- A common part keeps two lists of the same length in their order once they are sorted. -/
theorem mergeSort_append_le (c : List α) {l m : List α} (hlen : l.length = m.length)
    (h : (l.mergeSort fun x y => decide (x ≤ y)) ≤ m.mergeSort fun x y => decide (x ≤ y)) :
    ((c ++ l).mergeSort fun x y => decide (x ≤ y)) ≤
      (c ++ m).mergeSort fun x y => decide (x ≤ y) := by
  induction c with
  | nil => exact h
  | cons a c ih =>
    rw [List.cons_append, List.cons_append, mergeSort_cons_eq_orderedInsert,
      mergeSort_cons_eq_orderedInsert]
    exact orderedInsert_le_orderedInsert a (by simp [hlen]) ih

end Lex

/-! ## Costs of selections with a common part -/

theorem Cost.key_le_key_iff {a b : Cost} :
    a.key ≤ b.key ↔ a.count < b.count ∨ a.count = b.count ∧
      (a.literals < b.literals ∨ a.literals = b.literals ∧ a.texts ≤ b.texts) := by
  rw [Cost.key, Cost.key, Prod.Lex.toLex_le_toLex, Prod.Lex.toLex_le_toLex]

section Cost

variable {implicants : List Implicant}

theorem totalLiterals_append (ps qs : List Implicant) :
    Implicant.totalLiterals (ps ++ qs) =
      Implicant.totalLiterals ps + Implicant.totalLiterals qs := by
  simp only [totalLiterals_eq_sum, List.map_append, List.sum_append]

theorem selectionCost_eq_of_perm {s t : List ℕ} (h : s.Perm t) :
    selectionCost implicants s = selectionCost implicants t := by
  have hchosen := h.filterMap (implicants[·]?)
  rw [selectionCost, selectionCost, h.length_eq, totalLiterals_eq_sum, totalLiterals_eq_sum,
    (hchosen.map Implicant.literals).sum_eq, mergeSort_eq_of_perm (hchosen.map Implicant.text)]

theorem selectionCost_append_le (c : List ℕ) {s t : List ℕ}
    (hs : ∀ k ∈ s, k < implicants.length) (ht : ∀ k ∈ t, k < implicants.length)
    (h : (selectionCost implicants s).key ≤ (selectionCost implicants t).key) :
    (selectionCost implicants (c ++ s)).key ≤ (selectionCost implicants (c ++ t)).key := by
  rw [Cost.key_le_key_iff] at h ⊢
  simp only [selectionCost, List.length_append, List.filterMap_append, totalLiterals_append,
    List.map_append] at h ⊢
  rcases h with hcount | ⟨hcount, hliterals | ⟨hliterals, htexts⟩⟩
  · exact .inl (by omega)
  · exact .inr ⟨by omega, .inl (by omega)⟩
  · refine .inr ⟨by omega, .inr ⟨by omega, mergeSort_append_le _ ?_ htexts⟩⟩
    -- as many places give as many texts, since all of them are places of implicants
    rw [List.length_map, List.length_map, length_filterMap_getElem? hs,
      length_filterMap_getElem? ht, hcount]

theorem key_le_of_subset {s t : List ℕ} (hs : s.Nodup) (h : s ⊆ t) :
    (selectionCost implicants s).key ≤ (selectionCost implicants t).key := by
  have hsub : s.Subperm t := List.subperm_of_subset hs h
  rcases hsub.length_le.lt_or_eq with hlt | heq
  · exact Cost.key_le_key_iff.2 (.inl hlt)
  · rw [selectionCost_eq_of_perm (hsub.perm_of_length_le heq.ge)]

end Cost

/-! ## The whole selection -/

namespace Selection

/-- The implicants at the places `s` account for all targets between them. -/
def Covers (implicants : List Implicant) (targets s : List ℕ) : Prop :=
  ∀ i ∈ targets, ∃ k ∈ s, ∃ p, implicants[k]? = some p ∧ i ∈ p.minterms

variable {implicants : List Implicant} {targets : List ℕ}

theorem covers_iff_accounts {s : List ℕ} :
    Covers implicants targets s ↔ Accounts implicants targets s.toFinset := by
  refine forall₂_congr fun i _ => exists_congr fun k => ?_
  rw [mem_candidates, List.mem_toFinset, and_comm]

variable (implicants targets) in
theorem pairwise_essential : (essential implicants targets).Pairwise (· < ·) :=
  Indices.pairwise_ofList _

theorem lt_length_of_mem_minimal {s : List ℕ}
    (hs : s ∈ minimalHittingSets (remaining implicants targets)) {k : ℕ} (hk : k ∈ s) :
    k < implicants.length := by
  obtain ⟨c, hc, hkc⟩ := mem_clause_of_mem_minimalHittingSets hs hk
  exact lt_length_of_mem_clause (List.mem_filter.1 hc).1 hkc

/-- A minimal hitting set of the remaining clauses, put together with the essential places, is
their disjoint union. -/
theorem perm_union_essential {s : List ℕ}
    (hs : s ∈ minimalHittingSets (remaining implicants targets)) :
    (Indices.union s (essential implicants targets)).Perm (essential implicants targets ++ s) := by
  have hdisjoint := List.disjoint_toFinset_iff_disjoint.1 (disjoint_essential hs)
  have hnodup : (essential implicants targets ++ s).Nodup :=
    List.Nodup.append ((pairwise_essential implicants targets).imp Nat.ne_of_lt)
      ((pairwise_of_mem_minimalHittingSets hs).imp Nat.ne_of_lt) hdisjoint.symm
  have hunion := (Indices.pairwise_union s (pairwise_essential implicants targets)).imp Nat.ne_of_lt
  refine (List.perm_ext_iff_of_nodup hunion hnodup).2 fun k => ?_
  rw [Indices.mem_union, List.mem_append, or_comm]

/-- **The selection is an optimum.** Its places increase and account for all targets, and no
selection that accounts for them has a lesser cost: fewer implicants, as many with fewer literals in
all, or as many of both with an earlier sorted list of all texts. -/
theorem selectCover_least (hall : ∀ i ∈ targets, ∃ p ∈ implicants, i ∈ p.minterms) :
    (selectCover implicants targets).Pairwise (· < ·) ∧
      (∀ k ∈ selectCover implicants targets, k < implicants.length) ∧
      Covers implicants targets (selectCover implicants targets) ∧
      ∀ s : List ℕ, Covers implicants targets s →
        (selectionCost implicants (selectCover implicants targets)).key ≤
          (selectionCost implicants s).key := by
  refine ⟨pairwise_selectCover hall, fun k hk => lt_length_of_mem_selectCover hall hk,
    covers_iff_accounts.2 (accounts_selectCover hall), fun s hcovers => ?_⟩
  obtain ⟨best, hbest⟩ := exists_cheapest? hall
  obtain ⟨hmem, hle⟩ := cheapest?_le hbest
  obtain ⟨t, ht, hsub⟩ := exists_minimal_subset (covers_iff_accounts.1 hcovers)
  have htnodup := (perm_union_essential ht).nodup_iff.1
    ((Indices.pairwise_union t (pairwise_essential implicants targets)).imp Nat.ne_of_lt)
  have hts : essential implicants targets ++ t ⊆ s := by
    intro k hk
    exact List.mem_toFinset.1 (hsub (by simpa [or_comm] using hk))
  calc (selectionCost implicants (selectCover implicants targets)).key
      = (selectionCost implicants (essential implicants targets ++ best)).key := by
        rw [selectCover_of_cheapest? hbest, selectionCost_eq_of_perm (perm_union_essential hmem)]
    _ ≤ (selectionCost implicants (essential implicants targets ++ t)).key :=
        selectionCost_append_le _ (fun k hk => lt_length_of_mem_minimal hmem hk)
          (fun k hk => lt_length_of_mem_minimal ht hk) (hle t ht)
    _ ≤ (selectionCost implicants s).key := key_le_of_subset htnodup hts

/-- One essential implicant, and three others any two of which account for the rest. -/
def tied : List Implicant :=
  [⟨[some true, none], [9]⟩, ⟨[some true, some true], [1, 2]⟩, ⟨[none, some false], [2, 3]⟩,
    ⟨[some false, some false], [1, 3]⟩]

/-- Of the pairs with three literals, `-0` with `00` goes before `-0` with `11`. -/
theorem selectCover_least_tied :
    (∀ i ∈ [1, 2, 3, 9], ∃ p ∈ tied, i ∈ p.minterms) ∧
      selectCover tied [1, 2, 3, 9] = [0, 2, 3] ∧
      selectionCost tied [0, 2, 3] = ⟨3, 4, ["-0", "00", "1-"]⟩ ∧
      ∀ s : List ℕ, Covers tied [1, 2, 3, 9] s →
        (selectionCost tied [0, 2, 3]).key ≤ (selectionCost tied s).key := by
  have hall : ∀ i ∈ [1, 2, 3, 9], ∃ p ∈ tied, i ∈ p.minterms := by decide
  have hselected : selectCover tied [1, 2, 3, 9] = [0, 2, 3] := by cbv
  have hleast := (selectCover_least hall).2.2.2
  rw [hselected] at hleast
  exact ⟨hall, hselected, by cbv, hleast⟩

end Selection

end Switching
