import Mathlib.Data.List.Induction
import Mathlib.Order.Basic
import Switching.Cover.Hitting

/-!
# Minimal hitting sets

* `Indices.pairwise_insert`, `Indices.pairwise_ofList`, `Indices.pairwise_union`: sets stay sorted.
* `hits_of_mem_minimalHittingSets`: the members of `minimalHittingSets` hit every clause.
* **`exists_minimalHittingSet`**: every set that hits all clauses contains one of them.
-/

namespace Switching

/-! ## Sorted sets -/

namespace Indices

theorem pairwise_insert {i : Nat} {js : List Nat} (h : js.Pairwise (· < ·)) :
    (insert i js).Pairwise (· < ·) := by
  induction js with
  | nil => exact List.pairwise_singleton _ i
  | cons j js ih =>
    obtain ⟨hj, hjs⟩ := List.pairwise_cons.1 h
    rw [insert]
    split_ifs with hlt heq
    · refine List.pairwise_cons.2 ⟨fun k hk => ?_, h⟩
      rcases List.mem_cons.1 hk with rfl | hk
      · exact hlt
      · exact Nat.lt_trans hlt (hj k hk)
    · exact h
    · refine List.pairwise_cons.2 ⟨fun k hk => ?_, ih hjs⟩
      rcases mem_insert.1 hk with rfl | hk
      · omega
      · exact hj k hk

theorem pairwise_union (is : List Nat) {js : List Nat} (h : js.Pairwise (· < ·)) :
    (union is js).Pairwise (· < ·) := by
  induction is with
  | nil => exact h
  | cons i is ih => exact pairwise_insert ih

theorem pairwise_ofList (is : List Nat) : (ofList is).Pairwise (· < ·) :=
  pairwise_union is List.Pairwise.nil

theorem isSubset_iff {is js : List Nat} : isSubset is js = true ↔ ∀ i ∈ is, i ∈ js := by
  simp [isSubset]

end Indices

/-! ## One clause -/

theorem hits_iff {set clause : List Nat} : hits set clause = true ↔ ∃ k ∈ clause, k ∈ set := by
  simp [hits]

theorem mem_hitClause {sets : List (List Nat)} {clause s : List Nat} (h : s ∈ hitClause sets clause) :
    (s ∈ sets ∧ hits s clause = true) ∨
      ∃ t ∈ sets, ∃ k ∈ clause, s = Indices.insert k t := by
  rcases List.mem_append.1 h with h | h
  · exact .inl (List.mem_filter.1 h)
  · obtain ⟨t, ht, hs⟩ := List.mem_flatMap.1 h
    obtain ⟨k, hk, rfl⟩ := List.mem_map.1 (List.mem_filter.1 hs).1
    exact .inr ⟨t, (List.mem_filter.1 ht).1, k, Indices.mem_ofList.1 hk, rfl⟩

theorem hits_of_mem_hitClause {sets : List (List Nat)} {clause s : List Nat}
    (h : s ∈ hitClause sets clause) : hits s clause = true := by
  rcases mem_hitClause h with ⟨-, hs⟩ | ⟨t, -, k, hk, rfl⟩
  · exact hs
  · exact hits_iff.2 ⟨k, hk, Indices.mem_insert.2 (.inl rfl)⟩

/-- A set that hits the clause and contains one of the sets before it contains one of those after
it. -/
theorem exists_mem_hitClause {sets : List (List Nat)} {clause : List Nat} {T : Nat → Prop}
    {t : List Nat} (ht : t ∈ sets) (htT : ∀ k ∈ t, T k) (hT : ∃ k ∈ clause, T k) :
    ∃ s ∈ hitClause sets clause, ∀ k ∈ s, T k := by
  by_cases hhit : hits t clause = true
  · exact ⟨t, List.mem_append.2 (.inl (List.mem_filter.2 ⟨ht, hhit⟩)), htT⟩
  obtain ⟨k, hk, hTk⟩ := hT
  have hlarger : ∀ i ∈ Indices.insert k t, T i := by
    intro i hi
    rcases Indices.mem_insert.1 hi with rfl | hi
    · exact hTk
    · exact htT i hi
  by_cases hstay : (sets.filter (hits · clause)).any (Indices.isSubset · (Indices.insert k t)) = true
  · -- a smaller set that stays has replaced the extension
    obtain ⟨s, hs, hsub⟩ := List.any_eq_true.1 hstay
    exact ⟨s, List.mem_append.2 (.inl hs), fun i hi =>
      hlarger i (Indices.isSubset_iff.1 hsub i hi)⟩
  · refine ⟨Indices.insert k t, List.mem_append.2 (.inr (List.mem_flatMap.2 ⟨t, ?_, ?_⟩)), hlarger⟩
    · exact List.mem_filter.2 ⟨ht, by rw [Bool.eq_false_iff.2 hhit]; rfl⟩
    · refine List.mem_filter.2 ⟨List.mem_map.2 ⟨k, Indices.mem_ofList.2 hk, rfl⟩, ?_⟩
      rw [Bool.eq_false_iff.2 hstay]
      rfl

/-! ## All clauses -/

/-- Induction over the clauses from the last one. -/
theorem minimalHittingSets_append (clauses : List (List Nat)) (clause : List Nat) :
    minimalHittingSets (clauses ++ [clause]) = hitClause (minimalHittingSets clauses) clause := by
  simp [minimalHittingSets]

theorem pairwise_of_mem_minimalHittingSets {clauses : List (List Nat)} {s : List Nat}
    (h : s ∈ minimalHittingSets clauses) : s.Pairwise (· < ·) := by
  induction clauses using List.reverseRecOn generalizing s with
  | nil => rw [List.mem_singleton.1 h]; exact .nil
  | append_singleton clauses clause ih =>
    rw [minimalHittingSets_append] at h
    rcases mem_hitClause h with ⟨hs, -⟩ | ⟨t, ht, k, -, rfl⟩
    · exact ih hs
    · exact Indices.pairwise_insert (ih ht)

theorem mem_clause_of_mem_minimalHittingSets {clauses : List (List Nat)} {s : List Nat}
    (h : s ∈ minimalHittingSets clauses) {k : Nat} (hk : k ∈ s) : ∃ c ∈ clauses, k ∈ c := by
  induction clauses using List.reverseRecOn generalizing s with
  | nil => rw [List.mem_singleton.1 h] at hk; cases hk
  | append_singleton clauses clause ih =>
    rw [minimalHittingSets_append] at h
    have hmono : (∃ c ∈ clauses, k ∈ c) → ∃ c ∈ clauses ++ [clause], k ∈ c := fun ⟨c, hc, hkc⟩ =>
      ⟨c, List.mem_append_left _ hc, hkc⟩
    rcases mem_hitClause h with ⟨hs, -⟩ | ⟨t, ht, i, hi, rfl⟩
    · exact hmono (ih hs hk)
    · rcases Indices.mem_insert.1 hk with rfl | hk
      · exact ⟨clause, by simp, hi⟩
      · exact hmono (ih ht hk)

theorem hits_of_mem_minimalHittingSets {clauses : List (List Nat)} {s : List Nat}
    (h : s ∈ minimalHittingSets clauses) : ∀ c ∈ clauses, hits s c = true := by
  induction clauses using List.reverseRecOn generalizing s with
  | nil => simp
  | append_singleton clauses clause ih =>
    rw [minimalHittingSets_append] at h
    intro c hc
    rcases List.mem_append.1 hc with hc | hc
    · rcases mem_hitClause h with ⟨hs, -⟩ | ⟨t, ht, i, -, rfl⟩
      · exact ih hs c hc
      · obtain ⟨k, hkc, hkt⟩ := hits_iff.1 (ih ht c hc)
        exact hits_iff.2 ⟨k, hkc, Indices.mem_insert.2 (.inr hkt)⟩
    · rw [List.mem_singleton.1 hc]
      exact hits_of_mem_hitClause h

theorem exists_minimalHittingSet {clauses : List (List Nat)} {T : Nat → Prop}
    (hT : ∀ c ∈ clauses, ∃ k ∈ c, T k) : ∃ s ∈ minimalHittingSets clauses, ∀ k ∈ s, T k := by
  induction clauses using List.reverseRecOn with
  | nil => exact ⟨[], List.mem_singleton.2 rfl, by simp⟩
  | append_singleton clauses clause ih =>
    obtain ⟨t, ht, htT⟩ := ih fun c hc => hT c (List.mem_append_left _ hc)
    rw [minimalHittingSets_append]
    exact exists_mem_hitClause ht htT (hT clause (by simp))

end Switching
