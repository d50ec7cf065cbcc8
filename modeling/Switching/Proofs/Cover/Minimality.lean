import Mathlib
import Switching.Cover.Basic
import Switching.Proofs.Cover.Primes
import Switching.Proofs.Cover.Selection

/-!
# Minimal covers are minimal

* `CoversExactly n terms cubes`: the cubes over `n` inputs cover `terms` and nothing else.
* `exists_accounts`: any such cubes can be replaced by prime implicants at no cost.
* `Cover.mem_minimal_iff`: the implicants of a minimal cover.
* `Cover.minimal?_eq_some`: when words have a minimal cover.
* **`Cover.minimal?_least`**: up to the width of a word, a minimal cover has the fewest implicants,
  and then the fewest literals, of all sets of cubes that cover the same indices.
-/

namespace Switching

/-- The cubes over `n` inputs cover exactly `terms`. -/
structure CoversExactly (n : ℕ) (terms : List ℕ) (cubes : Finset Cube) : Prop where
  length_eq : ∀ c ∈ cubes, c.length = n
  covers_iff : ∀ i < 2 ^ n, (∃ c ∈ cubes, c.covers i = true) ↔ i ∈ terms

theorem CoversExactly.inside {n : ℕ} {terms : List ℕ} {cubes : Finset Cube}
    (h : CoversExactly n terms cubes) {c : Cube} (hc : c ∈ cubes) : c.Inside n terms :=
  ⟨h.length_eq c hc, fun i hi hci => (h.covers_iff i hi).1 ⟨c, hc, hci⟩⟩

/-! ## Prime implicants suffice -/

section Primes

variable {n : ℕ} {terms : List ℕ} (hterms : ∀ i ∈ terms, i < 2 ^ n)

include hterms

/-- Cubes that cover exactly `terms` can be replaced by prime implicants at no cost. -/
theorem exists_accounts {cubes : Finset Cube} (h : CoversExactly n terms cubes) :
    ∃ S, Selection.Accounts (primeImplicants n terms) terms S ∧
      price (primeImplicants n terms) S ≤ toLex (cubes.card, ∑ c ∈ cubes, c.literals) := by
  have hprime : ∀ c ∈ cubes, ∃ k : ℕ, ∃ p : Implicant, (primeImplicants n terms)[k]? = some p ∧
      p.cube.Subsumes c := by
    intro c hc
    obtain ⟨p, hp, hsub⟩ := exists_primeImplicant hterms (h.inside hc)
    obtain ⟨k, hk⟩ := List.mem_iff_getElem?.1 hp
    exact ⟨k, p, hk, hsub⟩
  choose! place hprime using hprime
  refine ⟨cubes.image place, fun i hi => ?_, Prod.Lex.toLex_mono ⟨Finset.card_image_le, ?_⟩⟩
  · obtain ⟨c, hc, hci⟩ := (h.covers_iff i (hterms i hi)).2 hi
    obtain ⟨p, hp, hsub⟩ := hprime c hc
    refine ⟨place c, mem_candidates.2 ⟨p, hp, ?_⟩, Finset.mem_image_of_mem _ hc⟩
    rw [mem_minterms_iff hterms (List.mem_of_getElem? hp)]
    exact ⟨hterms i hi, hsub.covers hci⟩
  · calc ∑ k ∈ cubes.image place, literalsAt (primeImplicants n terms) k
        ≤ ∑ c ∈ cubes, literalsAt (primeImplicants n terms) (place c) :=
          Finset.sum_image_le_of_nonneg fun _ _ => Nat.zero_le _
      _ ≤ ∑ c ∈ cubes, c.literals := Finset.sum_le_sum fun c hc => by
          obtain ⟨p, hp, hsub⟩ := hprime c hc
          rw [literalsAt, hp]
          exact hsub.literals_le

end Primes

/-! ## Minimal covers -/

theorem nodup_filterMap_getElem? {α : Type} {xs : List α} (hxs : xs.Nodup) {s : List ℕ}
    (hs : s.Nodup) : (s.filterMap (xs[·]?)).Nodup := by
  refine hs.filterMap fun i j x hi hj => ?_
  obtain ⟨hi', rfl⟩ := List.getElem?_eq_some_iff.1 hi
  exact (List.getElem?_inj hi' hxs).1 (hi.trans hj.symm)

namespace Cover

def cubes (c : Cover) : List Cube := c.implicants.map (·.cube)

section Minimal

variable {inputs : List String} {terms : List ℕ} (form : Form)

variable (inputs terms) in
/-- The implicants of a minimal cover, in the order of the prime implicants. -/
def chosen : List Implicant :=
  (selectCover (primeImplicants inputs.length terms) terms).filterMap
    ((primeImplicants inputs.length terms)[·]?)

theorem perm_chosen : (minimal inputs terms form).implicants.Perm (chosen inputs terms) :=
  List.mergeSort_perm _ _

theorem mem_minimal_iff {p : Implicant} :
    p ∈ (minimal inputs terms form).implicants ↔
      ∃ k ∈ selectCover (primeImplicants inputs.length terms) terms,
        (primeImplicants inputs.length terms)[k]? = some p := by
  rw [(perm_chosen form).mem_iff, chosen, List.mem_filterMap]

variable (hterms : ∀ i ∈ terms, i < 2 ^ inputs.length)

include hterms

omit hterms in
theorem mem_primeImplicants_of_mem_minimal {p : Implicant}
    (hp : p ∈ (minimal inputs terms form).implicants) :
    p ∈ primeImplicants inputs.length terms := by
  obtain ⟨k, -, hk⟩ := (mem_minimal_iff form).1 hp
  exact List.mem_of_getElem? hk

theorem nodup_cubes_minimal : (minimal inputs terms form).cubes.Nodup := by
  have hsorted := Selection.pairwise_selectCover fun i hi => exists_mem_minterms hterms hi
  have hnodup := nodup_filterMap_getElem? (nodup_primeImplicants hterms) (hsorted.imp Nat.ne_of_lt)
  rw [cubes, ((perm_chosen form).map _).nodup_iff, chosen, List.map_filterMap]
  simpa only [List.getElem?_map] using hnodup

theorem exists_mem_minterms_minimal_iff {i : ℕ} :
    (∃ p ∈ (minimal inputs terms form).implicants, i ∈ p.minterms) ↔ i ∈ terms := by
  constructor
  · rintro ⟨p, hp, hi⟩
    have hprime := mem_primeImplicants_of_mem_minimal form hp
    obtain ⟨hlt, hcovers⟩ := (mem_minterms_iff hterms hprime).1 hi
    exact (inside_of_mem_primeImplicants hterms hprime).mem i hlt hcovers
  · intro hi
    obtain ⟨k, hk, hsel⟩ := Selection.accounts_selectCover
      (fun i hi => exists_mem_minterms hterms hi) i hi
    obtain ⟨p, hp, hip⟩ := mem_candidates.1 hk
    exact ⟨p, (mem_minimal_iff form).2 ⟨k, List.mem_toFinset.1 hsel, hp⟩, hip⟩

theorem exists_covers_minimal_iff {i : ℕ} (hi : i < 2 ^ inputs.length) :
    (∃ p ∈ (minimal inputs terms form).implicants, p.cube.covers i = true) ↔ i ∈ terms := by
  rw [← exists_mem_minterms_minimal_iff form hterms]
  refine exists_congr fun p => and_congr_right fun hp => ?_
  rw [mem_minterms_iff hterms (mem_primeImplicants_of_mem_minimal form hp)]
  exact ⟨fun h => ⟨hi, h⟩, fun h => h.2⟩

theorem coversExactly_minimal :
    CoversExactly inputs.length terms (minimal inputs terms form).cubes.toFinset where
  length_eq c hc := by
    obtain ⟨p, hp, rfl⟩ := List.mem_map.1 (List.mem_toFinset.1 hc)
    have hprime := mem_primeImplicants_of_mem_minimal form hp
    exact (inside_of_mem_primeImplicants hterms hprime).length_eq
  covers_iff i hi := by
    rw [← exists_covers_minimal_iff form hterms hi]
    simp [cubes]

theorem price_selectCover :
    price (primeImplicants inputs.length terms)
        (selectCover (primeImplicants inputs.length terms) terms).toFinset =
      toLex ((minimal inputs terms form).implicants.length,
        (minimal inputs terms form).literals) := by
  have hall := fun i (hi : i ∈ terms) => exists_mem_minterms hterms hi
  have hsorted := Selection.pairwise_selectCover hall
  have hlen : (chosen inputs terms).length =
      (selectCover (primeImplicants inputs.length terms) terms).length :=
    length_filterMap_getElem? fun k hk => Selection.lt_length_of_mem_selectCover hall hk
  rw [price_toFinset (hsorted.imp Nat.ne_of_lt), selectionCost, literals,
    (perm_chosen form).length_eq, hlen, totalLiterals_eq_sum, totalLiterals_eq_sum,
    ((perm_chosen form).map Implicant.literals).sum_eq, chosen]

theorem cost_minimal_le {cubes : Finset Cube} (hcubes : CoversExactly inputs.length terms cubes) :
    toLex ((minimal inputs terms form).implicants.length, (minimal inputs terms form).literals) ≤
      toLex (cubes.card, ∑ c ∈ cubes, c.literals) := by
  obtain ⟨S, hS, hprice⟩ := exists_accounts hterms hcubes
  rw [← price_selectCover form hterms]
  exact (Selection.price_selectCover_le (fun i hi => exists_mem_minterms hterms hi) hS).trans
    hprice

omit hterms in
theorem minimal?_eq_some (hwidth : inputs.length ≤ Bits.wordSize ∨ terms = []) :
    minimal? inputs terms form = some (minimal inputs terms form) := by
  rw [minimal?, primeImplicants?_eq_some hwidth]
  rfl

omit hterms in
theorem minimal?_of_lt (hwidth : Bits.wordSize < inputs.length) (hne : terms ≠ []) :
    minimal? inputs terms form = none := by
  rw [minimal?, primeImplicants?_of_lt hwidth hne]
  rfl

/-- **A minimal cover has the least cost**, for at most as many inputs as a word has bits: it covers
exactly `terms`, each cube stands in it once, and no finite set of cubes that covers exactly `terms`
has fewer cubes, or as many cubes with fewer literals. -/
theorem minimal?_least (hwidth : inputs.length ≤ Bits.wordSize ∨ terms = []) :
    ∃ cover, minimal? inputs terms form = some cover ∧
      (∀ i, (∃ p ∈ cover.implicants, i ∈ p.minterms) ↔ i ∈ terms) ∧
      CoversExactly inputs.length terms cover.cubes.toFinset ∧
      cover.cubes.Nodup ∧
      ∀ cubes : Finset Cube, CoversExactly inputs.length terms cubes →
        toLex (cover.implicants.length, cover.literals) ≤
          toLex (cubes.card, ∑ c ∈ cubes, c.literals) :=
  ⟨_, minimal?_eq_some form hwidth, fun _ => exists_mem_minterms_minimal_iff form hterms,
    coversExactly_minimal form hterms, nodup_cubes_minimal form hterms,
    fun _ => cost_minimal_le form hterms⟩

end Minimal

/-- Six rows in a cycle: no cube is essential, and three cubes of two literals are needed. -/
theorem minimal?_least_cycle :
    ((∀ i ∈ [0, 1, 2, 5, 6, 7], i < 2 ^ 3) ∧ 3 ≤ Bits.wordSize) ∧
      ∀ cubes : Finset Cube, CoversExactly 3 [0, 1, 2, 5, 6, 7] cubes →
        toLex (3, 6) ≤ toLex (cubes.card, ∑ c ∈ cubes, c.literals) := by
  have hlt : ∀ i ∈ [0, 1, 2, 5, 6, 7], i < 2 ^ ["A", "B", "C"].length := by decide
  have hcost : (minimal? ["A", "B", "C"] [0, 1, 2, 5, 6, 7] .sumOfProducts).map
      (fun cover => (cover.implicants.length, cover.literals)) = some (3, 6) := by cbv
  obtain ⟨cover, hcover, -, -, -, hleast⟩ := minimal?_least .sumOfProducts hlt (.inl (by decide))
  rw [hcover] at hcost
  have hprice : (cover.implicants.length, cover.literals) = (3, 6) := Option.some.inj hcost
  rw [hprice] at hleast
  exact ⟨⟨hlt, by decide⟩, hleast⟩

/-- Over one input more than a word has bits there are cubes that cover the first two rows, and no
minimal cover to be had. -/
theorem minimal?_overflow :
    (∀ i ∈ [0, 1], i < 2 ^ 65) ∧ (∃ cubes, CoversExactly 65 [0, 1] cubes) ∧
      ∀ form, ¬ ∃ cover,
        minimal? ((List.range 65).map ("V" ++ toString ·)) [0, 1] form = some cover ∧
          CoversExactly 65 [0, 1] cover.cubes.toFinset := by
  have hlen : ((List.range 65).map ("V" ++ toString ·)).length = 65 := by simp
  have hlt : ∀ i ∈ [0, 1], i < 2 ^ 65 := by decide
  have hcovers : CoversExactly ((List.range 65).map ("V" ++ toString ·)).length [0, 1] _ :=
    coversExactly_minimal .sumOfProducts (hlen.symm ▸ hlt)
  rw [hlen] at hcovers
  refine ⟨hlt, ⟨_, hcovers⟩, fun form => ?_⟩
  rintro ⟨cover, hcover, -⟩
  have hwidth : Bits.wordSize < ((List.range 65).map ("V" ++ toString ·)).length := by
    rw [hlen]
    decide
  rw [minimal?_of_lt form hwidth (by decide)] at hcover
  cases hcover

end Cover

end Switching
