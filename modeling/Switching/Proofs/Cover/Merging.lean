import Mathlib
import Switching.Proofs.Cover.Rounds

/-!
# Which cubes merge

* `Cube.Adjacent`: two cubes with the same free inputs that differ in one fixed input.
  `Cube.isSome_merge?_iff`: just these merge.
* `Cube.indices`: the indices that a cube covers; `Cube.card_indices`: how many they are.
* `Cube.subsumes_of_indices_subset`: a cube that covers more arises by freeing inputs.
* `Cube.Joinable`: two cubes of equal size, without a common word, that cover what a cube covers.
  `Cube.adjacent_iff_joinable`: just the adjacent ones do, up to the width of a word.
* **`Implicant.merging_exact`**: which implicants merge, and to what.
-/

namespace Switching

namespace Cube

variable {d e u : Cube} {k : ℕ}

/-! ## Adjacent cubes -/

/-- The cubes have the same free inputs and differ in exactly one fixed input. -/
structure Adjacent (d e : Cube) : Prop where
  length_eq : d.length = e.length
  free_iff : ∀ k : ℕ, d[k]? = some none ↔ e[k]? = some none
  differ : ∃! k : ℕ, d[k]? ≠ e[k]?

theorem exists_fixed_of_ne (hk : k < d.length) (h : d[k]? ≠ some none) :
    ∃ x, d[k]? = some (some x) := by
  rw [List.getElem?_eq_getElem hk] at h ⊢
  obtain ⟨x, hx⟩ := Option.ne_none_iff_exists'.1 fun hnone => h (congrArg some hnone)
  exact ⟨x, congrArg some hx⟩

theorem adjacent_iff_halves : Adjacent d e ↔ ∃ (u : Cube) (k : ℕ) (x : Bool),
    u[k]? = some none ∧ d = u.set k (some x) ∧ e = u.set k (some !x) := by
  constructor
  · rintro ⟨hlen, hfree, k, hk, hunique⟩
    have hkd : k < d.length := by
      by_contra hnot
      rw [List.getElem?_eq_none (by omega), List.getElem?_eq_none (by omega)] at hk
      exact hk rfl
    obtain ⟨x, hx⟩ := exists_fixed_of_ne hkd fun h => hk (h.trans ((hfree k).1 h).symm)
    obtain ⟨y, hy⟩ := exists_fixed_of_ne (hlen ▸ hkd) fun h => hk (((hfree k).2 h).trans h.symm)
    obtain ⟨hnone, hself⟩ := half_set_none hx
    have hxy : y = !x := by
      rw [hx, hy] at hk
      cases x <;> cases y <;> simp_all
    refine ⟨d.set k none, k, x, hnone, hself.symm, List.ext_getElem? fun j => ?_⟩
    rw [List.set_set]
    by_cases hj : k = j
    · rw [← hj, List.getElem?_set_self hkd, hy, hxy]
    · rw [List.getElem?_set_ne hj]
      by_contra hne
      exact hj (hunique j (Ne.symm hne)).symm
  · rintro ⟨u, k, x, hk, rfl, rfl⟩
    have hku := (List.getElem?_eq_some_iff.1 hk).1
    refine ⟨by simp, fun j => ?_, k, ?_, fun j hj => ?_⟩
    · by_cases hj : k = j
      · simp [← hj, hku]
      · simp [List.getElem?_set_ne hj]
    · simp [hku]
    · by_contra hne
      simp [List.getElem?_set_ne (Ne.symm hne)] at hj

theorem isSome_merge?_iff : (d.merge? e).isSome ↔ Adjacent d e := by
  rw [Option.isSome_iff_exists, adjacent_iff_halves]
  exact exists_congr fun u => merge?_eq_some_iff

theorem merge?_comm (d e : Cube) : d.merge? e = e.merge? d := by
  have hswap : ∀ {d e u : Cube}, d.merge? e = some u → e.merge? d = some u := by
    intro d e u h
    obtain ⟨k, x, hk, rfl, rfl⟩ := merge?_eq_some_iff.1 h
    exact merge?_eq_some_iff.2 ⟨k, !x, hk, rfl, by rw [Bool.not_not]⟩
  exact Option.ext fun u => ⟨hswap, hswap⟩

/-! ## Patterns in a cube -/

theorem contains_iff {bits : List Bool} (h : bits.length = d.length) :
    d.contains bits = true ↔ ∀ (k : ℕ) (b : Bool), d[k]? = some (some b) → bits[k]? = some b := by
  induction d generalizing bits with
  | nil => simp [contains]
  | cons x d ih =>
    obtain ⟨y, bits, rfl⟩ := List.exists_cons_of_length_eq_add_one h
    rw [contains, Bool.and_eq_true, ih (Nat.succ.inj h)]
    constructor
    · rintro ⟨hx, hrest⟩ k b hk
      cases k with
      | zero => simp_all
      | succ k => exact hrest k b hk
    · intro hall
      refine ⟨?_, fun k b => hall (k + 1) b⟩
      cases x with
      | none => rfl
      | some b => simpa [eq_comm] using hall 0 b rfl

/-- The pattern in a cube with the bit `b` at all free inputs. -/
def fill (b : Bool) (d : Cube) : List Bool := d.map (·.getD b)

@[simp] theorem length_fill (b : Bool) (d : Cube) : (d.fill b).length = d.length :=
  List.length_map _

theorem contains_fill (b : Bool) (d : Cube) : d.contains (d.fill b) = true := by
  refine (contains_iff (length_fill b d)).2 fun k x hk => ?_
  rw [fill, List.getElem?_map, hk]
  rfl

/-! ## Indices of a cube -/

/-- The indices that a cube covers, among those of its width. -/
def indices (d : Cube) : Finset ℕ := (Finset.range (2 ^ d.length)).filter (d.covers ·)

@[simp] theorem mem_indices {i : ℕ} : i ∈ d.indices ↔ i < 2 ^ d.length ∧ d.covers i = true := by
  simp [indices]

theorem number_mem_indices {bits : List Bool} (h : bits.length = d.length) :
    Bits.number bits ∈ d.indices ↔ d.contains bits = true := by
  rw [mem_indices, covers_number h, ← h]
  exact and_iff_right (Bits.number_lt bits)

theorem indices_ofBits (bits : List Bool) : (ofBits bits).indices = {Bits.number bits} := by
  have hlen : (ofBits bits).length = bits.length := List.length_map _
  ext i
  rw [mem_indices, covers, hlen, contains_ofBits (Bits.length_pattern i _).symm,
    Finset.mem_singleton]
  constructor
  · rintro ⟨hlt, hbits⟩
    exact (Bits.number_pattern_of_lt hlt).symm.trans (congrArg Bits.number hbits.symm)
  · rintro rfl
    exact ⟨Bits.number_lt bits, (Bits.pattern_number bits).symm⟩

/-- A cube is another one with some inputs freed if the other one has all its fixed inputs. -/
theorem subsumes_iff : Subsumes d e ↔ d.length = e.length ∧
    ∀ (k : ℕ) (b : Bool), d[k]? = some (some b) → e[k]? = some (some b) := by
  rw [Subsumes, List.forall₂_iff_get]
  refine and_congr_right fun hlen => ⟨fun h k b hk => ?_, fun h k hk hk' => ?_⟩
  · obtain ⟨hkd, hget⟩ := List.getElem?_eq_some_iff.1 hk
    have hke : k < e.length := hlen ▸ hkd
    rw [List.getElem?_eq_getElem hke]
    rcases h k hkd hke with hnone | hsame
    · simp_all
    · simp_all
  · cases hx : d.get ⟨k, hk⟩ with
    | none => exact .inl rfl
    | some b =>
      have hb := h k b (List.getElem?_eq_some_iff.2 ⟨hk, hx⟩)
      exact .inr (List.getElem?_eq_some_iff.1 hb).2.symm

/-- A cube with all the indices of another one is that one with some inputs freed. -/
theorem subsumes_of_indices_subset (hlen : d.length = e.length) (h : e.indices ⊆ d.indices) :
    Subsumes d e := by
  refine subsumes_iff.2 ⟨hlen, fun k b hk => ?_⟩
  -- a pattern of `e` with the bit `!b` at `k`, wherever `e` allows it
  have hmem := h ((number_mem_indices (length_fill (!b) e)).2 (contains_fill _ e))
  have hlen' : (e.fill !b).length = d.length := by rw [length_fill, hlen]
  have hbit := (contains_iff hlen').1 ((number_mem_indices hlen').1 hmem) k b hk
  rw [fill, List.getElem?_map, Option.map_eq_some_iff] at hbit
  obtain ⟨x, hx, hxb⟩ := hbit
  rw [hx]
  cases x with
  | none => cases b <;> cases hxb
  | some y => exact congrArg (some ∘ some) hxb

theorem free_add_literals (d : Cube) : d.free + d.literals = d.length := by
  rw [List.length_eq_countP_add_countP Option.isNone, free, literals]
  refine congrArg (d.countP Option.isNone + ·) (List.countP_congr fun x _ => ?_)
  cases x <;> simp

theorem Subsumes.free_le (h : Subsumes d e) : e.free ≤ d.free := by
  have hlen : d.length = e.length := List.Forall₂.length_eq h
  have hliterals := h.literals_le
  rw [← free_add_literals, ← free_add_literals] at hlen
  omega

/-- Freeing inputs adds free inputs, unless nothing is freed. -/
theorem Subsumes.eq_of_free_le (h : Subsumes d e) (hfree : d.free ≤ e.free) : d = e := by
  by_contra hne
  obtain ⟨k, b, hk, hsub⟩ := h.exists_set_none hne
  have hle := hsub.free_le
  obtain ⟨hnone, hself⟩ := half_set_none hk
  have hhalf := free_half hnone b
  rw [hself] at hhalf
  omega

/-! ## Halves -/

theorem indices_halves (h : u[k]? = some none) (b : Bool) :
    u.indices = indices (u.set k (some b)) ∪ indices (u.set k (some !b)) := by
  ext i
  rw [Finset.mem_union, mem_indices, mem_indices, mem_indices, List.length_set, List.length_set,
    covers_halves h, Bool.or_eq_true]
  cases b <;> simp only [Bool.not_false, Bool.not_true] <;> tauto

theorem disjoint_halves (h : u[k]? = some none) (b : Bool) :
    Disjoint (indices (u.set k (some b))) (indices (u.set k (some !b))) := by
  have hk := (List.getElem?_eq_some_iff.1 h).1
  refine Finset.disjoint_left.2 fun i hi hi' => ?_
  have hbit : ∀ x, i ∈ indices (u.set k (some x)) → (Bits.pattern i u.length)[k]? = some x := by
    intro x hx
    have hcontains := (mem_indices.1 hx).2
    rw [covers, List.length_set] at hcontains
    exact (contains_iff (by simp)).1 hcontains k x (List.getElem?_set_self hk)
  have hsame := (hbit _ hi).symm.trans (hbit _ hi')
  cases b <;> cases hsame

theorem card_indices (d : Cube) : d.indices.card = 2 ^ d.free := by
  induction hn : d.free generalizing d with
  | zero =>
    obtain ⟨bits, rfl⟩ := exists_ofBits hn
    rw [indices_ofBits, Finset.card_singleton, pow_zero]
  | succ n ih =>
    have hpos : 0 < d.free := hn.symm ▸ Nat.succ_pos n
    obtain ⟨x, hx, hnone⟩ := List.countP_pos_iff.1 hpos
    obtain ⟨k, hk⟩ := List.mem_iff_getElem?.1 hx
    obtain rfl := Option.isNone_iff_eq_none.1 hnone
    have hhalf : ∀ b, (indices (d.set k (some b))).card = 2 ^ n := fun b =>
      ih _ (Nat.succ.inj ((free_half hk b).trans hn))
    rw [indices_halves hk false, Finset.card_union_of_disjoint (disjoint_halves hk false), hhalf,
      hhalf, pow_succ, mul_two]

/-- A cube that covers twice as much as another one, and all of it, has the other one as a half. -/
theorem exists_half_of_indices_subset (hlen : u.length = d.length) (h : d.indices ⊆ u.indices)
    (hfree : u.free = d.free + 1) :
    ∃ (k : ℕ) (b : Bool), u[k]? = some none ∧ d = u.set k (some b) := by
  have hsub := subsumes_of_indices_subset hlen h
  have hne : u ≠ d := by
    rintro rfl
    omega
  obtain ⟨k, b, hk, hsub'⟩ := hsub.exists_set_none hne
  obtain ⟨hnone, hself⟩ := half_set_none hk
  have hhalf := free_half hnone b
  rw [hself] at hhalf
  obtain rfl := hsub'.eq_of_free_le (by omega)
  exact ⟨k, b, hnone, hself.symm⟩

theorem indices_injective (hlen : d.length = e.length) (h : d.indices = e.indices) : d = e := by
  have hfree : 2 ^ d.free = 2 ^ e.free := by rw [← card_indices, ← card_indices, h]
  exact (subsumes_of_indices_subset hlen h.symm.subset).eq_of_free_le
    (Nat.pow_right_injective le_rfl hfree).le

/-! ## Words of a cube -/

/-- The words that a cube is found to cover, among the indices of its width. -/
def covered (d : Cube) : Finset ℕ := (Finset.range (2 ^ d.length)).filter (d.covers? · = some true)

theorem covered_eq_indices (h : d.length ≤ Bits.wordSize) : d.covered = d.indices := by
  refine Finset.filter_congr fun i _ => ?_
  rw [covers?_of_le h, Option.some_inj]

/-- The cubes cover equally many words and none in common, and together they cover what some cube
covers. -/
structure Joinable (d e : Cube) : Prop where
  card_eq : d.covered.card = e.covered.card
  disjoint : Disjoint d.covered e.covered
  exists_union : ∃ u : Cube, u.length = d.length ∧ u.covered = d.covered ∪ e.covered

theorem joinable_iff (hlen : d.length = e.length) (hwidth : d.length ≤ Bits.wordSize) :
    Joinable d e ↔ d.indices.card = e.indices.card ∧ Disjoint d.indices e.indices ∧
      ∃ u : Cube, u.length = d.length ∧ u.indices = d.indices ∪ e.indices := by
  rw [← covered_eq_indices hwidth, ← covered_eq_indices (hlen.symm.trans_le hwidth)]
  have hunion : ∀ u : Cube, u.length = d.length → u.covered = u.indices := fun u hu =>
    covered_eq_indices (hu.trans_le hwidth)
  constructor
  · rintro ⟨hcard, hdisjoint, u, hu, hcovered⟩
    exact ⟨hcard, hdisjoint, u, hu, (hunion u hu).symm.trans hcovered⟩
  · rintro ⟨hcard, hdisjoint, u, hu, hindices⟩
    exact ⟨hcard, hdisjoint, u, hu, (hunion u hu).trans hindices⟩

/-- **Adjacent cubes in terms of what they cover.** -/
theorem adjacent_iff_joinable (hlen : d.length = e.length) (hwidth : d.length ≤ Bits.wordSize) :
    Adjacent d e ↔ Joinable d e := by
  rw [adjacent_iff_halves, joinable_iff hlen hwidth]
  constructor
  · rintro ⟨u, k, x, hk, rfl, rfl⟩
    refine ⟨?_, disjoint_halves hk x, u, (List.length_set ..).symm, indices_halves hk x⟩
    have hfree := (free_half hk x).trans (free_half hk !x).symm
    rw [card_indices, card_indices, Nat.succ.inj hfree]
  · rintro ⟨hcard, hdisjoint, u, hu, hunion⟩
    have hfree : u.free = d.free + 1 := by
      refine Nat.pow_right_injective le_rfl ?_
      calc 2 ^ u.free = d.indices.card + e.indices.card := by
            rw [← card_indices, hunion, Finset.card_union_of_disjoint hdisjoint]
        _ = 2 ^ (d.free + 1) := by rw [← hcard, card_indices, pow_succ, mul_two]
    have hsub : d.indices ⊆ u.indices := hunion ▸ Finset.subset_union_left
    obtain ⟨k, b, hk, rfl⟩ := exists_half_of_indices_subset hu hsub hfree
    refine ⟨u, k, b, hk, rfl, indices_injective ?_ ?_⟩
    · rw [← hlen, List.length_set, List.length_set]
    · -- both are what the first half leaves of the cube
      have hother := indices_halves hk b
      rw [hunion] at hother
      calc e.indices = (indices (u.set k (some b)) ∪ e.indices) \ indices (u.set k (some b)) :=
            (Finset.union_sdiff_cancel_left hdisjoint).symm
        _ = indices (u.set k (some !b)) := by
            rw [hother, Finset.union_sdiff_cancel_left (disjoint_halves hk b)]

end Cube

namespace Implicant

variable {a b p : Implicant}

theorem combine?_eq_some_iff : a.combine? b = some p ↔
    a.cube.merge? b.cube = some p.cube ∧ Indices.union a.minterms b.minterms = p.minterms := by
  obtain ⟨u, is⟩ := p
  rw [combine?, Option.map_eq_some_iff]
  constructor
  · rintro ⟨u', hu, heq⟩
    obtain ⟨rfl, rfl⟩ := Implicant.mk.inj heq
    exact ⟨hu, rfl⟩
  · rintro ⟨hu, rfl⟩
    exact ⟨u, hu, rfl⟩

theorem isSome_combine?_iff : (a.combine? b).isSome ↔ a.cube.Adjacent b.cube := by
  rw [combine?, Option.isSome_map, Cube.isSome_merge?_iff]

theorem length_of_combine? (h : a.combine? b = some p) : p.cube.length = a.cube.length := by
  obtain ⟨k, x, -, ha, -⟩ := Cube.merge?_eq_some_iff.1 (combine?_eq_some_iff.1 h).1
  rw [ha, List.length_set]

theorem covers_of_combine? (h : a.combine? b = some p) (i : ℕ) :
    p.cube.covers i = (a.cube.covers i || b.cube.covers i) := by
  obtain ⟨k, x, hk, ha, hb⟩ := Cube.merge?_eq_some_iff.1 (combine?_eq_some_iff.1 h).1
  rw [ha, hb, Cube.covers_halves hk]
  cases x
  · rfl
  · exact Bool.or_comm ..

theorem covers?_of_combine? (h : a.combine? b = some p) (hwidth : a.cube.length ≤ Bits.wordSize)
    (i : ℕ) : ∃ x y, a.cube.covers? i = some x ∧ b.cube.covers? i = some y ∧
      p.cube.covers? i = some (x || y) := by
  have hb : a.cube.length = b.cube.length := (isSome_combine?_iff.1 (h ▸ rfl)).length_eq
  refine ⟨_, _, Cube.covers?_of_le hwidth i, Cube.covers?_of_le (hb ▸ hwidth) i, ?_⟩
  rw [Cube.covers?_of_le ((length_of_combine? h).trans_le hwidth), covers_of_combine? h]

theorem combine?_comm (ha : a.minterms.Pairwise (· < ·)) (hb : b.minterms.Pairwise (· < ·)) :
    a.combine? b = b.combine? a := by
  have hunion : Indices.union a.minterms b.minterms = Indices.union b.minterms a.minterms :=
    (Indices.pairwise_union _ hb).eq_of_mem_iff (Indices.pairwise_union _ ha) fun i => by
      rw [Indices.mem_union, Indices.mem_union, or_comm]
  rw [combine?, combine?, Cube.merge?_comm, hunion]

/-- **Merging is exact.** Implicants merge exactly if their cubes are adjacent, and those of
different widths never do. Up to the width of a word, cubes of one width are adjacent exactly if
they are joinable, and a merged implicant covers what the two cover. At any width it accounts for
what they account for, whichever of them comes first. -/
theorem merging_exact (a b : Implicant) :
    (a.cube.length ≠ b.cube.length → a.combine? b = none) ∧
      ((a.combine? b).isSome ↔ a.cube.Adjacent b.cube) ∧
      (a.cube.length = b.cube.length → a.cube.length ≤ Bits.wordSize →
        ((a.combine? b).isSome ↔ a.cube.Joinable b.cube)) ∧
      (∀ p, a.combine? b = some p →
        p.cube.length = a.cube.length ∧
          (a.cube.length ≤ Bits.wordSize → ∀ i < 2 ^ a.cube.length, ∃ x y,
            a.cube.covers? i = some x ∧ b.cube.covers? i = some y ∧
              p.cube.covers? i = some (x || y)) ∧
          ∀ i, i ∈ p.minterms ↔ i ∈ a.minterms ∨ i ∈ b.minterms) ∧
      (b.combine? a).map cube = (a.combine? b).map cube ∧
      (a.minterms.Pairwise (· < ·) → b.minterms.Pairwise (· < ·) →
        b.combine? a = a.combine? b ∧
          ∀ p, a.combine? b = some p → p.minterms.Pairwise (· < ·)) := by
  refine ⟨fun hlen => ?_, isSome_combine?_iff, fun hlen hwidth => ?_, fun p hp => ?_, ?_,
    fun ha hb => ?_⟩
  · exact Option.not_isSome_iff_eq_none.1 fun h => hlen (isSome_combine?_iff.1 h).length_eq
  · exact isSome_combine?_iff.trans (Cube.adjacent_iff_joinable hlen hwidth)
  · refine ⟨length_of_combine? hp, fun hwidth i _ => covers?_of_combine? hp hwidth i, fun i => ?_⟩
    rw [← (combine?_eq_some_iff.1 hp).2, Indices.mem_union]
  · rw [combine?, combine?, Cube.merge?_comm, Option.map_map, Option.map_map]
    rfl
  · refine ⟨combine?_comm hb ha, fun p hp => ?_⟩
    rw [← (combine?_eq_some_iff.1 hp).2]
    exact Indices.pairwise_union _ hb

/-- The cubes `0-1` and `0-0` merge to `0--`, whichever comes first; `00-` and `0-0` have as many
indices, but one in common. -/
theorem merging_exact_aligned :
    (⟨[some false, none, some true], [1, 3]⟩ : Implicant).combine?
        ⟨[some false, none, some false], [0, 2]⟩ = some ⟨[some false, none, none], [0, 1, 2, 3]⟩ ∧
      (⟨[some false, none, some false], [0, 2]⟩ : Implicant).combine?
        ⟨[some false, none, some true], [1, 3]⟩ = some ⟨[some false, none, none], [0, 1, 2, 3]⟩ ∧
      (∀ i < 2 ^ 3, ∃ x y, Cube.covers? [some false, none, some true] i = some x ∧
        Cube.covers? [some false, none, some false] i = some y ∧
          Cube.covers? [some false, none, none] i = some (x || y)) ∧
      ¬ Cube.Joinable [some false, some false, none] [some false, none, some false] := by
  have hmerge : (⟨[some false, none, some true], [1, 3]⟩ : Implicant).combine?
      ⟨[some false, none, some false], [0, 2]⟩ = some ⟨[some false, none, none], [0, 1, 2, 3]⟩ := by
    decide
  obtain ⟨-, -, -, hmerged, -, hcomm⟩ := merging_exact
    ⟨[some false, none, some true], [1, 3]⟩ ⟨[some false, none, some false], [0, 2]⟩
  obtain ⟨-, -, hjoin, -⟩ := merging_exact
    ⟨[some false, some false, none], [0, 1]⟩ ⟨[some false, none, some false], [0, 2]⟩
  refine ⟨hmerge, (hcomm (by decide) (by decide)).1.trans hmerge,
    (hmerged _ hmerge).2.1 (by decide), fun h => ?_⟩
  exact absurd ((hjoin rfl (by decide)).2 h) (by decide)

/-- Over one input more than a word has bits, what two cubes merge to is not found to cover what
they cover, and the two implicants are not to be had from their indices: no word has a pattern of
that width. -/
theorem merging_overflow :
    ofIndex? 0 65 = none ∧ ofIndex? 1 65 = none ∧
      (⟨List.replicate 65 (some false), [0]⟩ : Implicant).combine?
        ⟨List.replicate 64 (some false) ++ [some true], [1]⟩ =
          some ⟨List.replicate 64 (some false) ++ [none], [0, 1]⟩ ∧
      ¬ ∀ i < 2 ^ 65, ∃ x y,
        Cube.covers? (List.replicate 65 (some false)) i = some x ∧
          Cube.covers? (List.replicate 64 (some false) ++ [some true]) i = some y ∧
            Cube.covers? (List.replicate 64 (some false) ++ [none]) i = some (x || y) := by
  refine ⟨ofIndex?_of_lt (by decide), ofIndex?_of_lt (by decide), by decide, fun h => ?_⟩
  obtain ⟨x, y, hx, -⟩ := h 0 (by decide)
  rw [Cube.covers?_of_lt (by decide)] at hx
  cases hx

end Implicant

end Switching
