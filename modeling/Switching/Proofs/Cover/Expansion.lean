import Mathlib.Data.List.Pairwise
import Mathlib.Data.List.Sort
import Mathlib.Order.Minimal
import Switching.Proofs.Cover.Hitting

/-!
# All minimal hitting sets

* `Indices.toSet`: the set that a list stands for. `HitsAll clauses T`: `T` hits all clauses.
* `Enumerates P sets`: the sets of the list have the property, every set with the property contains
  one of them, and none contains another. `Enumerates.exists_iff_minimal`: such a list has exactly
  the minimal sets with the property; `Enumerates.perm`: but for the order there is only one.
* `enumerates_minimalHittingSets`: `minimalHittingSets` is such a list.
* `Expansion.products`: the product of the clauses, multiplied out factor by factor, where after
  each factor a set that contains another one is absorbed. `Expansion.enumerates_products`: so is
  this.
* **`minimalHittingSets_exact`**: the two lists have the same sets, all the minimal ones and no
  others.
-/

namespace Switching

/-! ## Lists of sets -/

namespace Indices

/-- The set that a list of indices stands for. -/
def toSet (s : List ℕ) : Set ℕ := {k | k ∈ s}

theorem toSet_inj {s t : List ℕ} (hs : s.Pairwise (· < ·)) (ht : t.Pairwise (· < ·))
    (h : toSet s = toSet t) : s = t :=
  hs.eq_of_mem_iff ht fun k => Set.ext_iff.1 h k

/-- Sets that are extended from outside of both are contained in each other as before, and only by
the same new member. -/
theorem eq_of_insert_subset_insert {s t : List ℕ} {i k : ℕ} (hs : i ∉ s) (ht : i ∉ t)
    (h : insert i s ⊆ insert k t) : i = k ∧ s ⊆ t := by
  have hik : i = k := (mem_insert.1 (h (mem_insert.2 (.inl rfl)))).resolve_right ht
  refine ⟨hik, fun j hj => (mem_insert.1 (h (mem_insert.2 (.inr hj)))).resolve_left ?_⟩
  rintro rfl
  exact hs (hik ▸ hj)

end Indices

open Indices (toSet)

/-- Neither set contains the other. -/
def Incomparable (s t : List ℕ) : Prop := ¬ s ⊆ t ∧ ¬ t ⊆ s

instance : Std.Symm Incomparable := ⟨fun _ _ => And.symm⟩

variable {P : Set ℕ → Prop} {sets sets' clauses : List (List ℕ)} {clause s t : List ℕ} {T : Set ℕ}

theorem incomparable_insert {i k : ℕ} (hi : i ∉ s ∧ i ∉ t) (hk : k ∉ s ∧ k ∉ t)
    (h : i ≠ k ∨ Incomparable s t) : Incomparable (Indices.insert i s) (Indices.insert k t) := by
  refine ⟨fun hsub => ?_, fun hsub => ?_⟩
  · obtain ⟨hik, hst⟩ := Indices.eq_of_insert_subset_insert hi.1 hi.2 hsub
    exact h.elim (· hik) (·.1 hst)
  · obtain ⟨hki, hts⟩ := Indices.eq_of_insert_subset_insert hk.2 hk.1 hsub
    exact h.elim (· hki.symm) (·.2 hts)

theorem eq_of_subset_of_pairwise (h : sets.Pairwise Incomparable) (hs : s ∈ sets) (ht : t ∈ sets)
    (hst : s ⊆ t) : s = t := by
  by_contra hne
  exact (h.forall hs ht hne).1 hst

/-- The list has sets with the property, one inside each set with the property, and none of them
contains another. -/
structure Enumerates (P : Set ℕ → Prop) (sets : List (List ℕ)) : Prop where
  sorted : ∀ s ∈ sets, s.Pairwise (· < ·)
  holds : ∀ s ∈ sets, P (toSet s)
  exists_subset : ∀ T, P T → ∃ s ∈ sets, toSet s ⊆ T
  incomparable : sets.Pairwise Incomparable

theorem Enumerates.exists_iff_minimal (h : Enumerates P sets) :
    (∃ s ∈ sets, toSet s = T) ↔ Minimal P T := by
  constructor
  · rintro ⟨s, hs, rfl⟩
    refine ⟨h.holds s hs, fun U hU hUs => ?_⟩
    obtain ⟨t, ht, htU⟩ := h.exists_subset U hU
    obtain rfl := eq_of_subset_of_pairwise h.incomparable ht hs (htU.trans hUs)
    exact htU
  · intro hT
    obtain ⟨s, hs, hsT⟩ := h.exists_subset T hT.prop
    exact ⟨s, hs, hsT.antisymm (hT.le_of_le (h.holds s hs) hsT)⟩

theorem Enumerates.nodup (h : Enumerates P sets) : sets.Nodup :=
  h.incomparable.imp fun {s t} hst => by
    rintro rfl
    exact hst.1 (List.Subset.refl s)

theorem Enumerates.mem_of_mem (h : Enumerates P sets) (h' : Enumerates P sets') (hs : s ∈ sets) :
    s ∈ sets' := by
  obtain ⟨t, ht, heq⟩ := h'.exists_iff_minimal.2 (h.exists_iff_minimal.1 ⟨s, hs, rfl⟩)
  exact Indices.toSet_inj (h'.sorted t ht) (h.sorted s hs) heq ▸ ht

/-- But for the order there is only one list of the minimal sets. -/
theorem Enumerates.perm (h : Enumerates P sets) (h' : Enumerates P sets') : sets.Perm sets' :=
  (List.perm_ext_iff_of_nodup h.nodup h'.nodup).2 fun _ => ⟨h.mem_of_mem h', h'.mem_of_mem h⟩

/-! ## Hitting sets -/

/-- The set has a member of every clause. -/
def HitsAll (clauses : List (List ℕ)) (T : Set ℕ) : Prop := ∀ c ∈ clauses, ∃ k ∈ c, k ∈ T

theorem not_mem_of_missed {k : ℕ} (ht : t ∈ sets.filter (!hits · clause))
    (hk : k ∈ Indices.ofList clause) : k ∉ t := by
  intro hkt
  have hnot := (List.mem_filter.1 ht).2
  rw [hits_iff.2 ⟨k, Indices.mem_ofList.1 hk, hkt⟩] at hnot
  cases hnot

theorem pairwise_hitClause (h : sets.Pairwise Incomparable) :
    (hitClause sets clause).Pairwise Incomparable := by
  refine List.pairwise_append.2 ⟨h.filter _, List.pairwise_flatMap.2 ⟨fun t ht => ?_, ?_⟩, ?_⟩
  · -- extensions of one set by different members
    refine .filter _ (List.pairwise_map.2 ((Indices.pairwise_ofList clause).imp_of_mem ?_))
    intro i k hi hk hik
    have hi' := not_mem_of_missed ht hi
    have hk' := not_mem_of_missed ht hk
    exact incomparable_insert ⟨hi', hi'⟩ ⟨hk', hk'⟩ (.inl hik.ne)
  · -- extensions of two sets
    refine (h.filter _).imp_of_mem fun hs ht hst a ha b hb => ?_
    obtain ⟨i, hi, rfl⟩ := List.mem_map.1 (List.mem_filter.1 ha).1
    obtain ⟨k, hk, rfl⟩ := List.mem_map.1 (List.mem_filter.1 hb).1
    exact incomparable_insert ⟨not_mem_of_missed hs hi, not_mem_of_missed ht hi⟩
      ⟨not_mem_of_missed hs hk, not_mem_of_missed ht hk⟩ (.inr hst)
  · -- a set that stays, and an extension that contains none of these
    intro s hs a ha
    obtain ⟨t, ht, ha⟩ := List.mem_flatMap.1 ha
    obtain ⟨ha, hfree⟩ := List.mem_filter.1 ha
    obtain ⟨k, -, rfl⟩ := List.mem_map.1 ha
    obtain ⟨hs, hhits⟩ := List.mem_filter.1 hs
    refine ⟨fun hsub => ?_, fun hsub => ?_⟩
    · have hstay : (sets.filter (hits · clause)).any
          (Indices.isSubset · (Indices.insert k t)) = true :=
        List.any_eq_true.2 ⟨s, List.mem_filter.2 ⟨hs, hhits⟩, Indices.isSubset_iff.2 hsub⟩
      rw [hstay] at hfree
      cases hfree
    · have hts : t ⊆ s := fun j hj => hsub (Indices.mem_insert.2 (.inr hj))
      obtain rfl := eq_of_subset_of_pairwise h (List.mem_filter.1 ht).1 hs hts
      obtain ⟨j, hj, hjt⟩ := hits_iff.1 hhits
      exact not_mem_of_missed ht (Indices.mem_ofList.2 hj) hjt

theorem pairwise_minimalHittingSets (clauses : List (List ℕ)) :
    (minimalHittingSets clauses).Pairwise Incomparable := by
  induction clauses using List.reverseRecOn with
  | nil => exact List.pairwise_singleton _ _
  | append_singleton clauses clause ih =>
    rw [minimalHittingSets_append]
    exact pairwise_hitClause ih

theorem enumerates_minimalHittingSets (clauses : List (List ℕ)) :
    Enumerates (HitsAll clauses) (minimalHittingSets clauses) where
  sorted _ hs := pairwise_of_mem_minimalHittingSets hs
  holds _ hs c hc := hits_iff.1 (hits_of_mem_minimalHittingSets hs c hc)
  exists_subset _ hT := exists_minimalHittingSet hT
  incomparable := pairwise_minimalHittingSets clauses

/-! ## Multiplying out -/

namespace Expansion

/-- Each set with each member of the clause. -/
def multiply (sets : List (List ℕ)) (clause : List ℕ) : List (List ℕ) :=
  sets.flatMap fun s => clause.map (Indices.insert · s)

/-- Adds a set, unless it contains one that has been kept. -/
def keep (kept : List (List ℕ)) (s : List ℕ) : List (List ℕ) :=
  if kept.any (Indices.isSubset · s) then kept else kept ++ [s]

/-- Drops the sets that contain another one. Small sets come first, so that a set is kept before
all those that contain it. -/
def absorb (sets : List (List ℕ)) : List (List ℕ) :=
  (sets.mergeSort fun s t => decide (s.length ≤ t.length)).foldl keep []

/-- The product of the clauses, without the sets that contain another one. -/
def products (clauses : List (List ℕ)) : List (List ℕ) :=
  clauses.foldl (fun sets clause => absorb (multiply sets clause)) [[]]

theorem mem_multiply :
    s ∈ multiply sets clause ↔ ∃ t ∈ sets, ∃ k ∈ clause, Indices.insert k t = s := by
  simp [multiply]

/-! ### Absorbing -/

section Keep

variable {kept rest : List (List ℕ)}

theorem keep_cases (kept : List (List ℕ)) (s : List ℕ) :
    ((∃ t ∈ kept, t ⊆ s) ∧ keep kept s = kept) ∨
      ((∀ t ∈ kept, ¬ t ⊆ s) ∧ keep kept s = kept ++ [s]) := by
  by_cases h : kept.any (Indices.isSubset · s) = true
  · refine .inl ⟨?_, if_pos h⟩
    obtain ⟨t, ht, hsub⟩ := List.any_eq_true.1 h
    exact ⟨t, ht, Indices.isSubset_iff.1 hsub⟩
  · refine .inr ⟨fun t ht hsub => h ?_, if_neg h⟩
    exact List.any_eq_true.2 ⟨t, ht, Indices.isSubset_iff.2 hsub⟩

/-- A set that is no smaller than those before it is contained in none of them. -/
theorem pairwise_keep (hkept : kept.Pairwise Incomparable) (hs : s.Nodup)
    (hlength : ∀ t ∈ kept, t.length ≤ s.length) : (keep kept s).Pairwise Incomparable := by
  rcases keep_cases kept s with ⟨-, heq⟩ | ⟨hnot, heq⟩ <;> rw [heq]
  · exact hkept
  · refine List.pairwise_append.2 ⟨hkept, List.pairwise_singleton _ _, fun t ht u hu => ?_⟩
    obtain rfl := List.mem_singleton.1 hu
    refine ⟨hnot t ht, fun hsub => hnot t ht ?_⟩
    exact ((List.subperm_of_subset hs hsub).perm_of_length_le (hlength t ht)).symm.subset

theorem mem_foldl_keep_of_mem (h : s ∈ kept) : s ∈ rest.foldl keep kept := by
  induction rest generalizing kept with
  | nil => exact h
  | cons u rest ih =>
    refine ih ?_
    rcases keep_cases kept u with ⟨-, heq⟩ | ⟨-, heq⟩ <;> simp [heq, h]

theorem mem_or_mem_of_mem_foldl_keep (h : s ∈ rest.foldl keep kept) : s ∈ kept ∨ s ∈ rest := by
  induction rest generalizing kept with
  | nil => exact .inl h
  | cons u rest ih =>
    rcases ih h with hs | hs
    · rcases keep_cases kept u with ⟨-, heq⟩ | ⟨-, heq⟩ <;> rw [heq] at hs
      · exact .inl hs
      · exact (List.mem_append.1 hs).imp_right fun hs => by simp_all
    · exact .inr (List.mem_cons_of_mem u hs)

theorem exists_subset_of_mem (h : s ∈ rest) : ∃ t ∈ rest.foldl keep kept, t ⊆ s := by
  induction rest generalizing kept with
  | nil => cases h
  | cons u rest ih =>
    rw [List.foldl_cons]
    rcases List.mem_cons.1 h with rfl | hs
    · rcases keep_cases kept s with ⟨⟨t, ht, hts⟩, heq⟩ | ⟨-, heq⟩ <;> rw [heq]
      · exact ⟨t, mem_foldl_keep_of_mem ht, hts⟩
      · exact ⟨s, mem_foldl_keep_of_mem (by simp), List.Subset.refl s⟩
    · exact ih hs

theorem pairwise_foldl_keep (hkept : kept.Pairwise Incomparable) (hnodup : ∀ s ∈ rest, s.Nodup)
    (hlength : (kept ++ rest).Pairwise fun s t => s.length ≤ t.length) :
    (rest.foldl keep kept).Pairwise Incomparable := by
  induction rest generalizing kept with
  | nil => exact hkept
  | cons u rest ih =>
    obtain ⟨hu, hrest⟩ := List.forall_mem_cons.1 hnodup
    have hbefore := (List.pairwise_append.1 hlength).2.2
    refine ih (pairwise_keep hkept hu fun t ht => hbefore t ht u List.mem_cons_self) hrest ?_
    rcases keep_cases kept u with ⟨-, heq⟩ | ⟨-, heq⟩ <;> rw [heq]
    · exact hlength.sublist ((List.sublist_cons_self u rest).append_left kept)
    · rwa [List.append_assoc]

end Keep

theorem mem_of_mem_absorb (h : s ∈ absorb sets) : s ∈ sets :=
  List.mem_mergeSort.1 ((mem_or_mem_of_mem_foldl_keep h).resolve_left List.not_mem_nil)

theorem exists_mem_absorb_subset (h : s ∈ sets) : ∃ t ∈ absorb sets, t ⊆ s :=
  exists_subset_of_mem (List.mem_mergeSort.2 h)

theorem pairwise_absorb (hnodup : ∀ s ∈ sets, s.Nodup) : (absorb sets).Pairwise Incomparable := by
  refine pairwise_foldl_keep .nil (fun s hs => hnodup s (List.mem_mergeSort.1 hs)) ?_
  have hsorted : (sets.mergeSort fun s t => decide (s.length ≤ t.length)).Pairwise
      fun s t => decide (s.length ≤ t.length) = true :=
    List.pairwise_mergeSort
      (fun s t u hst htu => by simpa using (of_decide_eq_true hst).trans (of_decide_eq_true htu))
      (fun s t => by simpa using le_total s.length t.length) sets
  exact hsorted.imp of_decide_eq_true

/-! ### All factors -/

theorem products_append (clauses : List (List ℕ)) (clause : List ℕ) :
    products (clauses ++ [clause]) = absorb (multiply (products clauses) clause) := by
  simp [products]

/-- One more factor, multiplied out and absorbed, gives the minimal sets that hit this clause,
too. -/
theorem enumerates_absorb_multiply (h : Enumerates (HitsAll clauses) sets) (clause : List ℕ) :
    Enumerates (HitsAll (clauses ++ [clause])) (absorb (multiply sets clause)) := by
  have hsorted : ∀ s ∈ multiply sets clause, s.Pairwise (· < ·) := by
    intro s hs
    obtain ⟨t, ht, k, -, rfl⟩ := mem_multiply.1 hs
    exact Indices.pairwise_insert (h.sorted t ht)
  refine ⟨fun s hs => hsorted s (mem_of_mem_absorb hs), fun s hs c hc => ?_, fun T hT => ?_,
    pairwise_absorb fun s hs => (hsorted s hs).imp Nat.ne_of_lt⟩
  · obtain ⟨t, ht, k, hk, rfl⟩ := mem_multiply.1 (mem_of_mem_absorb hs)
    rcases List.mem_append.1 hc with hc | hc
    · obtain ⟨i, hi, hit⟩ := h.holds t ht c hc
      exact ⟨i, hi, Indices.mem_insert.2 (.inr hit)⟩
    · rw [List.mem_singleton.1 hc]
      exact ⟨k, hk, Indices.mem_insert.2 (.inl rfl)⟩
  · obtain ⟨t, ht, htT⟩ := h.exists_subset T fun c hc => hT c (List.mem_append_left _ hc)
    obtain ⟨k, hk, hkT⟩ := hT clause (by simp)
    obtain ⟨s, hs, hsub⟩ := exists_mem_absorb_subset (mem_multiply.2 ⟨t, ht, k, hk, rfl⟩)
    refine ⟨s, hs, fun i hi => ?_⟩
    rcases Indices.mem_insert.1 (hsub hi) with rfl | hi
    · exact hkT
    · exact htT hi

theorem enumerates_products (clauses : List (List ℕ)) :
    Enumerates (HitsAll clauses) (products clauses) := by
  induction clauses using List.reverseRecOn with
  | nil =>
    have hmem : ∀ s ∈ products [], s = [] := fun s => List.mem_singleton.1
    refine ⟨fun s hs => ?_, fun s _ c hc => (List.not_mem_nil hc).elim, fun T _ => ?_,
      List.pairwise_singleton _ _⟩
    · rw [hmem s hs]
      exact .nil
    · exact ⟨[], List.mem_singleton_self _, fun k hk => (List.not_mem_nil hk).elim⟩
  | append_singleton clauses clause ih =>
    rw [products_append]
    exact enumerates_absorb_multiply ih clause

end Expansion

/-! ## Main statement -/

theorem minimalHittingSets_eq_nil_iff : minimalHittingSets clauses = [] ↔ [] ∈ clauses := by
  constructor
  · intro h
    by_contra hnot
    -- Without an empty clause the set of all indices hits every clause.
    have hall : HitsAll clauses Set.univ := fun c hc => by
      obtain ⟨k, hk⟩ := List.exists_mem_of_ne_nil c fun hnil => hnot (hnil ▸ hc)
      exact ⟨k, hk, trivial⟩
    obtain ⟨s, hs, -⟩ := (enumerates_minimalHittingSets clauses).exists_subset _ hall
    rw [h] at hs
    cases hs
  · refine fun h => List.eq_nil_iff_forall_not_mem.2 fun s hs => ?_
    obtain ⟨k, hk, -⟩ := (enumerates_minimalHittingSets clauses).holds s hs [] h
    cases hk

/-- **The minimal hitting sets are exact.** They are all the minimal sets that hit every clause, and
no others: none if some clause is empty, and only the empty set if there are no clauses. Each stands
here once, in order, and multiplying out and absorbing gives the same sets. -/
theorem minimalHittingSets_exact (clauses : List (List ℕ)) :
    (∀ T : Set ℕ, (∃ s ∈ minimalHittingSets clauses, toSet s = T) ↔ Minimal (HitsAll clauses) T) ∧
      (∀ s ∈ minimalHittingSets clauses, s.Pairwise (· < ·)) ∧
      (minimalHittingSets clauses).Nodup ∧
      (Expansion.products clauses).Perm (minimalHittingSets clauses) ∧
      (minimalHittingSets clauses = [] ↔ [] ∈ clauses) ∧
      minimalHittingSets [] = [[]] := by
  have h := enumerates_minimalHittingSets clauses
  exact ⟨fun T => h.exists_iff_minimal, h.sorted, h.nodup,
    (Expansion.enumerates_products clauses).perm h, minimalHittingSets_eq_nil_iff, rfl⟩

/-- Three clauses, one of them with a repetition, that any two of three places hit. -/
theorem minimalHittingSets_exact_cycle :
    [1, 3] ∈ minimalHittingSets [[1, 2, 1], [3, 2], [1, 3]] ∧ [1, 3].Pairwise (· < ·) ∧
      Minimal (HitsAll [[1, 2, 1], [3, 2], [1, 3]]) (toSet [1, 3]) ∧
      ¬ Minimal (HitsAll [[1, 2, 1], [3, 2], [1, 3]]) (toSet [1, 2, 3]) := by
  obtain ⟨hminimal, hsorted, -⟩ := minimalHittingSets_exact [[1, 2, 1], [3, 2], [1, 3]]
  have hmem : [1, 3] ∈ minimalHittingSets [[1, 2, 1], [3, 2], [1, 3]] := by decide
  refine ⟨hmem, hsorted _ hmem, (hminimal _).1 ⟨_, hmem, rfl⟩, fun h => ?_⟩
  obtain ⟨s, hs, heq⟩ := (hminimal _).2 h
  have hall : [1, 2, 3] ∈ minimalHittingSets [[1, 2, 1], [3, 2], [1, 3]] :=
    Indices.toSet_inj (hsorted s hs) (by decide) heq ▸ hs
  exact absurd hall (by decide)

end Switching
