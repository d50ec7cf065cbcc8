import Switching.Cover.Primes
import Switching.Proofs.Cover.Cubes

/-!
# Prime implicants

* `PatternSet.contains_ofList`: the members of a set that is given by a list.
* `PatternSet.includes_iff`: the inclusion of a cube, read through membership.
* `mem_primeCubes_succ`: the prime cubes by their first input.
* **`exists_primeCube`**: every cube inside a set is part of a prime cube.
* `inside_of_mem_primeImplicants`, `exists_primeImplicant`: the same for a set of indices.
* `primeImplicants?_eq_some`, `primeImplicants?_of_lt`: when words have prime implicants.
-/

namespace Switching

attribute [local simp] primeCubes PatternSet.includes

/-! ## Sets of patterns -/

namespace PatternSet

theorem contains_insert {p bits : List Bool} (hlen : p.length = bits.length) (s : PatternSet) :
    (insert p s).contains bits = true ↔ bits = p ∨ s.contains bits = true := by
  induction p generalizing bits s with
  | nil =>
    cases bits with
    | nil => simp [insert, contains]
    | cons b bits => simp at hlen
  | cons x p ih =>
    cases bits with
    | nil => simp at hlen
    | cons b bits =>
      have hlen' : p.length = bits.length := Nat.succ.inj hlen
      have hrest := fun t => ih hlen' t
      cases s <;> cases x <;> cases b <;> simp [insert, half, contains, hrest]

theorem contains_ofList {ps : List (List Bool)} {bits : List Bool}
    (hlen : ∀ p ∈ ps, p.length = bits.length) :
    (ofList ps).contains bits = true ↔ bits ∈ ps := by
  induction ps with
  | nil => simp [ofList]
  | cons p ps ih =>
    have hrest := ih fun q hq => hlen q (List.mem_cons_of_mem p hq)
    rw [ofList] at hrest
    rw [ofList, List.foldr_cons, contains_insert (hlen p List.mem_cons_self), hrest,
      List.mem_cons]

/-! ## Halves

A set is known by what follows the first bit of its patterns, so facts about cubes go by induction
on the cube and not on the set. -/

theorem contains_cons (s : PatternSet) (b : Bool) (bits : List Bool) :
    s.contains (b :: bits) = (s.half b).contains bits := by
  cases s <;> cases b <;> simp [contains, half]

theorem includes_nil (s : PatternSet) : s.includes [] = s.contains [] := by
  cases s <;> rfl

@[simp] theorem includes_empty (c : Cube) : empty.includes c = false := by
  cases c <;> rfl

theorem includes_some (s : PatternSet) (b : Bool) (c : Cube) :
    s.includes (some b :: c) = (s.half b).includes c := by
  cases s <;> cases b <;> simp [includes, half]

theorem includes_none (s : PatternSet) (c : Cube) :
    s.includes (none :: c) = ((s.half false).includes c && (s.half true).includes c) := by
  cases s <;> simp [includes, half]

theorem includes_iff {s : PatternSet} {c : Cube} :
    s.includes c = true ↔
      ∀ bits, bits.length = c.length → c.contains bits = true → s.contains bits = true := by
  induction c generalizing s with
  | nil =>
    rw [includes_nil]
    constructor
    · intro h bits hlen _
      rw [List.length_eq_zero_iff.1 hlen]
      exact h
    · intro h
      exact h [] rfl rfl
  | cons x c ih =>
    have hcons : (∀ bits, bits.length = (x :: c).length → Cube.contains (x :: c) bits = true →
        s.contains bits = true) ↔ ∀ b, x.all (· = b) = true → (s.half b).includes c = true := by
      constructor
      · intro h b hb
        refine ih.2 fun bits hlen hc => ?_
        rw [← contains_cons]
        exact h (b :: bits) (by simp [hlen]) (by simp [Cube.contains, hb, hc])
      · intro h bits hlen hc
        obtain ⟨b, bits, rfl⟩ := List.exists_cons_of_length_eq_add_one hlen
        rw [Cube.contains, Bool.and_eq_true] at hc
        rw [contains_cons]
        exact ih.1 (h b hc.1) bits (by simpa using hlen) hc.2
    rw [hcons]
    cases x with
    | none => simp [includes_none]
    | some v => cases v <;> simp [includes_some]

theorem includes_inter (s t : PatternSet) (c : Cube) :
    (s.inter t).includes c = true ↔ s.includes c = true ∧ t.includes c = true := by
  simp only [includes_iff, contains_inter, Bool.and_eq_true]
  exact ⟨fun h => ⟨fun b hl hc => (h b hl hc).1, fun b hl hc => (h b hl hc).2⟩,
    fun h b hl hc => ⟨h.1 b hl hc, h.2 b hl hc⟩⟩

end PatternSet

/-! ## Prime cubes -/

open PatternSet

theorem primeCubes_empty (w : Nat) : primeCubes w .empty = [] := by
  cases w <;> rfl

/-- A prime cube leaves the first input free, or it fixes it and does not fit into the other
half. -/
theorem mem_primeCubes_succ {w : Nat} {s : PatternSet} {c : Cube} :
    c ∈ primeCubes (w + 1) s ↔
      (∃ d ∈ primeCubes w ((s.half false).inter (s.half true)), none :: d = c) ∨
        ∃ b, ∃ d ∈ primeCubes w (s.half b), (s.half !b).includes d = false ∧ some b :: d = c := by
  cases s with
  | empty => simp [primeCubes, half, inter, primeCubes_empty]
  | unit => simp [primeCubes, half, inter, primeCubes_empty]
  | split z o => simp [primeCubes, half, and_assoc]

theorem length_of_mem_primeCubes {w : Nat} {s : PatternSet} {c : Cube} (h : c ∈ primeCubes w s) :
    c.length = w := by
  induction w generalizing s c with
  | zero => cases s <;> simp_all [primeCubes]
  | succ w ih =>
    rcases mem_primeCubes_succ.1 h with ⟨d, hd, rfl⟩ | ⟨b, d, hd, -, rfl⟩ <;>
      rw [List.length_cons, ih hd]

theorem primeCubes_sound {w : Nat} {s : PatternSet} {c : Cube} (h : c ∈ primeCubes w s) :
    s.includes c = true := by
  induction w generalizing s c with
  | zero => cases s <;> simp_all [primeCubes, includes]
  | succ w ih =>
    rcases mem_primeCubes_succ.1 h with ⟨d, hd, rfl⟩ | ⟨b, d, hd, -, rfl⟩
    · rw [includes_none, Bool.and_eq_true]
      exact (includes_inter _ _ d).1 (ih hd)
    · rw [includes_some]
      exact ih hd

/-- Every cube inside the set is part of a prime cube. -/
theorem exists_primeCube {w : Nat} {s : PatternSet} {c : Cube} (hlen : c.length = w)
    (h : s.includes c = true) : ∃ d ∈ primeCubes w s, d.Subsumes c := by
  induction w generalizing s c with
  | zero =>
    rw [List.length_eq_zero_iff.1 hlen] at h ⊢
    cases s with
    | unit => exact ⟨[], by simp [primeCubes], .refl _⟩
    | empty => simp at h
    | split z o => simp [includes] at h
  | succ w ih =>
    obtain ⟨x, c, rfl⟩ := List.exists_cons_of_length_eq_add_one hlen
    have hlen' : c.length = w := by simpa using hlen
    -- a cube that fits into both halves is part of a prime cube that leaves the input free
    have hfree : ∀ e : Cube, e.length = w → (s.half false).includes e = true →
        (s.half true).includes e = true → ∃ d ∈ primeCubes (w + 1) s, d.Subsumes (x :: e) := by
      intro e he hz ho
      obtain ⟨d, hd, hde⟩ := ih he ((includes_inter _ _ e).2 ⟨hz, ho⟩)
      exact ⟨none :: d, mem_primeCubes_succ.2 (.inl ⟨d, hd, rfl⟩), .cons (.inl rfl) hde⟩
    cases x with
    | none =>
      rw [includes_none, Bool.and_eq_true] at h
      exact hfree c hlen' h.1 h.2
    | some b =>
      rw [includes_some] at h
      obtain ⟨e, he, hec⟩ := ih hlen' h
      have hlift : Cube.Subsumes (some b :: e) (some b :: c) := .cons (.inr rfl) hec
      by_cases hother : (s.half !b).includes e = true
      · have hboth : (s.half false).includes e = true ∧ (s.half true).includes e = true := by
          have hself := primeCubes_sound he
          cases b
          · exact ⟨hself, hother⟩
          · exact ⟨hother, hself⟩
        obtain ⟨d, hd, hde⟩ := hfree e (length_of_mem_primeCubes he) hboth.1 hboth.2
        exact ⟨d, hd, hde.trans hlift⟩
      · exact ⟨some b :: e,
          mem_primeCubes_succ.2 (.inr ⟨b, e, he, Bool.eq_false_iff.2 hother, rfl⟩), hlift⟩

theorem nodup_primeCubes (w : Nat) (s : PatternSet) : (primeCubes w s).Nodup := by
  induction w generalizing s with
  | zero => cases s <;> simp [primeCubes]
  | succ w ih =>
    cases s with
    | empty => exact List.nodup_nil
    | unit => exact List.nodup_nil
    | split z o =>
      have hcons (x : Option Bool) {cs : List Cube} (h : cs.Nodup) : (cs.map (x :: ·)).Nodup :=
        List.Pairwise.map _ (fun _ _ hne he => hne (List.cons.inj he).2) h
      rw [primeCubes, List.nodup_append, List.nodup_append]
      refine ⟨⟨hcons _ (ih _), hcons _ ((ih _).filter _), ?_⟩, hcons _ ((ih _).filter _), ?_⟩
      · intro c hc d hd he
        obtain ⟨_, -, rfl⟩ := List.mem_map.1 hc
        obtain ⟨_, -, rfl⟩ := List.mem_map.1 hd
        cases he
      · intro c hc d hd he
        obtain ⟨_, -, rfl⟩ := List.mem_map.1 hd
        rcases List.mem_append.1 hc with hc | hc <;>
        · obtain ⟨_, -, rfl⟩ := List.mem_map.1 hc
          cases he

/-! ## Prime implicants of a set of indices -/

section Indices

variable {n : Nat} {terms : List Nat} (hterms : ∀ i ∈ terms, i < 2 ^ n)

include hterms

theorem largestOfEachPattern_eq_self : largestOfEachPattern n terms = terms := by
  have hbeyond : terms.filter (Bits.count n ≤ ·) = [] := by
    refine List.filter_eq_nil_iff.2 fun i hi => ?_
    rw [decide_eq_true_iff, Nat.not_le]
    exact hterms i hi
  simp [largestOfEachPattern, hbeyond]

theorem includes_patterns_iff {c : Cube} (hlen : c.length = n) :
    (ofList (terms.map (Bits.pattern · n))).includes c = true ↔ c.Inside n terms := by
  have hwidth : ∀ bits : List Bool, bits.length = n →
      ∀ p ∈ terms.map (Bits.pattern · n), p.length = bits.length := by
    intro bits hbits p hp
    obtain ⟨i, -, rfl⟩ := List.mem_map.1 hp
    rw [Bits.length_pattern, hbits]
  rw [includes_iff, hlen]
  constructor
  · intro h
    refine ⟨hlen, fun i hi hc => ?_⟩
    rw [Cube.covers, hlen] at hc
    have hmem := h _ (Bits.length_pattern i n) hc
    rw [contains_ofList (hwidth _ (Bits.length_pattern i n))] at hmem
    obtain ⟨j, hj, he⟩ := List.mem_map.1 hmem
    exact (Bits.pattern_inj (hterms j hj) hi).1 he ▸ hj
  · intro h bits hbits hc
    rw [contains_ofList (hwidth bits hbits)]
    have hi : Bits.number bits < 2 ^ n := hbits ▸ Bits.number_lt bits
    refine List.mem_map.2 ⟨Bits.number bits, h.mem _ hi ?_, ?_⟩
    · rw [Cube.covers_number (hbits.trans hlen.symm)]
      exact hc
    · rw [← hbits, Bits.pattern_number]

omit hterms in
theorem inside_ofList_iff {c : Cube} : c.Inside n (Indices.ofList terms) ↔ c.Inside n terms :=
  ⟨fun h => ⟨h.1, fun i hi hc => Indices.mem_ofList.1 (h.2 i hi hc)⟩,
    fun h => ⟨h.1, fun i hi hc => Indices.mem_ofList.2 (h.2 i hi hc)⟩⟩

theorem mem_ofList_lt : ∀ i ∈ Indices.ofList terms, i < 2 ^ n := fun i hi =>
  hterms i (Indices.mem_ofList.1 hi)

theorem primeImplicants_eq :
    primeImplicants n terms =
      (primeCubes n (ofList ((Indices.ofList terms).map (Bits.pattern · n)))).map
        fun c => ⟨c, (Indices.ofList terms).filter c.covers⟩ := by
  rw [primeImplicants, largestOfEachPattern_eq_self (mem_ofList_lt hterms), primesAmong]

theorem inside_of_mem_primeImplicants {p : Implicant} (hp : p ∈ primeImplicants n terms) :
    p.cube.Inside n terms := by
  rw [primeImplicants_eq hterms] at hp
  obtain ⟨c, hc, rfl⟩ := List.mem_map.1 hp
  rw [← inside_ofList_iff,
    ← includes_patterns_iff (mem_ofList_lt hterms) (length_of_mem_primeCubes hc)]
  exact primeCubes_sound hc

theorem mem_minterms_iff {p : Implicant} (hp : p ∈ primeImplicants n terms) {i : Nat} :
    i ∈ p.minterms ↔ i < 2 ^ n ∧ p.cube.covers i = true := by
  have hinside := inside_of_mem_primeImplicants hterms hp
  rw [primeImplicants_eq hterms] at hp
  obtain ⟨c, -, rfl⟩ := List.mem_map.1 hp
  rw [List.mem_filter, Indices.mem_ofList]
  exact ⟨fun h => ⟨hterms i h.1, h.2⟩, fun h => ⟨hinside.mem i h.1 h.2, h.2⟩⟩

theorem exists_primeImplicant {c : Cube} (hc : c.Inside n terms) :
    ∃ p ∈ primeImplicants n terms, p.cube.Subsumes c := by
  have hin := (includes_patterns_iff (mem_ofList_lt hterms) hc.length_eq).2
    (inside_ofList_iff.2 hc)
  obtain ⟨d, hd, hsub⟩ := exists_primeCube hc.length_eq hin
  rw [primeImplicants_eq hterms]
  exact ⟨_, List.mem_map_of_mem hd, hsub⟩

theorem exists_mem_minterms {i : Nat} (hi : i ∈ terms) :
    ∃ p ∈ primeImplicants n terms, i ∈ p.minterms := by
  obtain ⟨p, hp, hsub⟩ := exists_primeImplicant hterms (Cube.inside_ofBits hi (hterms i hi))
  have hcovers := hsub.covers (Cube.covers_ofBits_pattern i n)
  exact ⟨p, hp, (mem_minterms_iff hterms hp).2 ⟨hterms i hi, hcovers⟩⟩

theorem nodup_primeImplicants : ((primeImplicants n terms).map (·.cube)).Nodup := by
  rw [primeImplicants_eq hterms, List.map_map]
  show (List.map id (primeCubes n _)).Nodup
  rw [List.map_id]
  exact nodup_primeCubes n _

end Indices

/-! ## Words -/

section Words

variable {n : Nat} {terms : List Nat}

theorem largestOfEachPattern_ne_nil (h : terms ≠ []) : largestOfEachPattern n terms ≠ [] := by
  -- no index is above the largest one
  refine List.ne_nil_of_mem (List.mem_filter.2 ⟨List.max_mem h, ?_⟩)
  rw [Bool.not_eq_true', List.any_eq_false]
  intro j hj
  have hle : j ≤ terms.max h := List.le_max_of_mem (List.mem_of_mem_filter hj)
  simp [Nat.not_lt.2 hle]

/-- At most as many inputs as a word has bits, or no word that needs a pattern. -/
theorem primeImplicants?_eq_some (h : n ≤ Bits.wordSize ∨ terms = []) :
    primeImplicants? n terms = some (primeImplicants n terms) := by
  rcases h with h | rfl
  · exact primeImplicants?_of_le h terms
  · rfl

theorem primeImplicants_nil : primeImplicants n [] = [] := by
  show (primeCubes n .empty).map _ = []
  rw [primeCubes_empty, List.map_nil]

theorem primeImplicants?_of_lt (h : Bits.wordSize < n) (hne : terms ≠ []) :
    primeImplicants? n terms = none := by
  have hofList : Indices.ofList terms ≠ [] := by
    obtain ⟨i, hi⟩ := List.exists_mem_of_ne_nil terms hne
    exact List.ne_nil_of_mem (Indices.mem_ofList.2 hi)
  obtain ⟨i, kept, hkept⟩ :=
    List.exists_cons_of_ne_nil (largestOfEachPattern_ne_nil (n := n) hofList)
  simp only [primeImplicants?, hkept, List.mapM_cons, Bits.pattern?_of_lt h]
  rfl

end Words

end Switching
