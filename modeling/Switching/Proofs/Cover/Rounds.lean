import Mathlib
import Switching.Proofs.Cover.Halves
import Switching.Proofs.Cover.Maximal

/-!
# Prime implicants by rounds of merging

The tabular method: begin with the cubes of single indices, merge whatever merges, and keep what
does not. Each round frees one more input.

* `Rounds.merged`, `Rounds.unmerged`: what becomes of the implicants of a round.
* `Rounds.primes`: the implicants that are left over, sorted by their texts. `Rounds.primes?`: those
  of a set of words.
* `Rounds.Level n terms r ps`: `ps` are the cubes inside `terms` with `r` free inputs, each with all
  indices that it covers.
* `Rounds.Level.merged`, `Rounds.Level.mem_unmerged_iff`: one round, from one level to the next.
* `Rounds.mem_collect_iff`: all rounds.
* `Rounds.primes_eq`: the rounds end with `primeImplicants`.
* **`primeImplicants?_exact`**: up to the width of a word, the prime implicants are the maximal
  cubes in the order of their texts, each with all indices that it covers.
-/

namespace Switching

namespace Rounds

/-! ## Rounds -/

/-- Adds an implicant. If there is one with the same cube, that one accounts for the indices of
both. -/
def add (p : Implicant) : List Implicant → List Implicant
  | [] => [p]
  | q :: qs =>
    if q.cube = p.cube then ⟨q.cube, Indices.union p.minterms q.minterms⟩ :: qs else q :: add p qs

/-- The pairs that merge, each with what it merges to. A pair is tried only if its second cube has
one 1 more than the first. -/
def mergers (ps : List Implicant) : List (Implicant × Implicant × Implicant) :=
  ps.flatMap fun low =>
    (ps.filter (·.cube.ones = low.cube.ones + 1)).filterMap fun high =>
      (low.combine? high).map (low, high, ·)

/-- What the pairs of a round merge to. -/
def merged (ps : List Implicant) : List Implicant :=
  ((mergers ps).map (·.2.2)).foldl (fun next p => add p next) []

/-- The implicants of a round that merge with no other. -/
def unmerged (ps : List Implicant) : List Implicant :=
  ps.filter fun p => !(mergers ps).any fun m => m.1.cube = p.cube || m.2.1.cube = p.cube

/-- The implicants that merge with no other in one of several rounds, and those that are left after
the last one. -/
def collect : Nat → List Implicant → List Implicant
  | 0, ps => ps
  | rounds + 1, ps => unmerged ps ++ collect rounds (merged ps)

/-- What is left over of implicants over `width` inputs. -/
def primesFrom (width : Nat) (ps : List Implicant) : List Implicant :=
  (collect (width + 1) ps).mergeSort fun p q => decide (p.text ≤ q.text)

/-- The prime implicants over `width` inputs of the function that is 1 on `indices`. -/
def primes (width : Nat) (indices : List Nat) : List Implicant :=
  primesFrom width ((Indices.ofList indices).map (Implicant.ofIndex · width))

/-- The same for words, each of which needs a pattern of that width. -/
def primes? (width : Nat) (indices : List Nat) : Option (List Implicant) :=
  ((Indices.ofList indices).mapM (Implicant.ofIndex? · width)).map (primesFrom width)

theorem primes?_eq_some {n : Nat} {terms : List Nat} (h : n ≤ Bits.wordSize ∨ terms = []) :
    primes? n terms = some (primes n terms) := by
  rcases h with h | rfl
  · have hindex : (Implicant.ofIndex? · n) = fun i => pure (Implicant.ofIndex i n) :=
      funext fun _ => Implicant.ofIndex?_of_le h
    rw [primes?, hindex]
    simp only [List.mapM_pure]
    rfl
  · rfl

theorem mem_mergers_iff {ps : List Implicant} {m : Implicant × Implicant × Implicant} :
    m ∈ mergers ps ↔ m.1 ∈ ps ∧ m.2.1 ∈ ps ∧ m.2.1.cube.ones = m.1.cube.ones + 1 ∧
      m.1.combine? m.2.1 = some m.2.2 := by
  obtain ⟨low, high, p⟩ := m
  simp only [mergers, List.mem_flatMap, List.mem_filterMap, List.mem_filter, decide_eq_true_iff,
    Option.map_eq_some_iff, Prod.mk.injEq]
  constructor
  · rintro ⟨low, hlow, high, ⟨hhigh, hones⟩, p, hp, rfl, rfl, rfl⟩
    exact ⟨hlow, hhigh, hones, hp⟩
  · rintro ⟨hlow, hhigh, hones, hp⟩
    exact ⟨low, hlow, high, ⟨hhigh, hones⟩, p, hp, rfl, rfl, rfl⟩

theorem mem_unmerged_iff {ps : List Implicant} {p : Implicant} :
    p ∈ unmerged ps ↔ p ∈ ps ∧ ∀ m ∈ mergers ps, m.1.cube ≠ p.cube ∧ m.2.1.cube ≠ p.cube := by
  simp [unmerged]

end Rounds

/-- A maximal cube is no half of a cube inside `terms`. -/
theorem Cube.maximal_iff_not_half {n : Nat} {terms : List Nat} {c : Cube} :
    c.Maximal n terms ↔ c.Inside n terms ∧
      ∀ (d : Cube) (k : Nat) (b : Bool), d[k]? = some none → d.set k (some b) = c →
        ¬ d.Inside n terms := by
  constructor
  · refine fun h => ⟨h.inside, ?_⟩
    rintro d k b hk rfl hd
    obtain ⟨hlt, hget⟩ := List.getElem?_eq_some_iff.1 hk
    refine h.not_inside k b (List.getElem?_set_self hlt) ?_
    rwa [List.set_set, ← hget, List.set_getElem_self]
  · refine fun ⟨hin, hnot⟩ => ⟨hin, fun k b hk => ?_⟩
    obtain ⟨hk', hhalf⟩ := half_set_none hk
    exact hnot _ k b hk' hhalf

theorem Cube.exists_ofBits {c : Cube} (h : c.free = 0) : ∃ bits, c = ofBits bits := by
  have hfixed := List.countP_eq_zero.1 h
  refine ⟨c.map (·.getD false), ?_⟩
  rw [ofBits, List.map_map]
  refine (List.map_id c).symm.trans (List.map_congr_left fun x hx => ?_)
  cases x with
  | none => exact absurd rfl (hfixed none hx)
  | some b => rfl

/-! ## Cubes with the indices that they cover -/

/-- A cube with the indices of a set that it covers. -/
def Implicant.within (terms : List Nat) (c : Cube) : Implicant :=
  ⟨c, (Indices.ofList terms).filter c.covers⟩

namespace Rounds

variable {n r : Nat} {terms : List Nat} {ps qs : List Implicant} {p q : Implicant}

open Implicant (within)

theorem pairwise_minterms_within (c : Cube) : (within terms c).minterms.Pairwise (· < ·) :=
  (Indices.pairwise_ofList terms).filter _

theorem combine?_halves {d : Cube} {k : Nat} (h : d[k]? = some none) (b : Bool) :
    (within terms (d.set k (some b))).combine? (within terms (d.set k (some !b))) =
      some (within terms d) := by
  have hminterms : Indices.union (within terms (d.set k (some b))).minterms
      (within terms (d.set k (some !b))).minterms = (within terms d).minterms := by
    refine (Indices.pairwise_union _ (pairwise_minterms_within _)).eq_of_mem_iff
      (pairwise_minterms_within d) fun i => ?_
    rw [Indices.mem_union]
    simp only [within, List.mem_filter, ← and_or_left, Cube.covers_halves h i, Bool.or_eq_true]
    cases b <;> simp [or_comm]
  rw [Implicant.combine?, within, within, Cube.merge?_half h]
  exact congrArg (fun is => some (Implicant.mk d is)) hminterms

/-- Each cube stands here once, with the indices that it covers. -/
structure Tabled (terms : List Nat) (ps : List Implicant) : Prop where
  nodup : (ps.map (·.cube)).Nodup
  eq_within : ∀ p ∈ ps, p = within terms p.cube

theorem Tabled.add_eq (h : Tabled terms qs) (c : Cube) :
    (within terms c ∈ qs ∧ add (within terms c) qs = qs) ∨
      ((∀ q ∈ qs, q.cube ≠ c) ∧ add (within terms c) qs = qs ++ [within terms c]) := by
  obtain ⟨-, hwithin⟩ := h
  induction qs with
  | nil => exact .inr ⟨by simp, rfl⟩
  | cons q qs ih =>
    rw [add]
    split_ifs with hcube
    · obtain rfl : q.cube = c := hcube
      have hq := hwithin q List.mem_cons_self
      have hself : Indices.union (within terms q.cube).minterms q.minterms = q.minterms := by
        rw [← hq]
        have hsorted : q.minterms.Pairwise (· < ·) := hq ▸ pairwise_minterms_within q.cube
        exact (Indices.pairwise_union _ hsorted).eq_of_mem_iff hsorted fun k => by simp
      rw [hself, ← hq]
      exact .inl ⟨List.mem_cons_self, rfl⟩
    · rcases ih fun r hr => hwithin r (List.mem_cons_of_mem q hr) with ⟨hmem, heq⟩ | ⟨hne, heq⟩
      · exact .inl ⟨List.mem_cons_of_mem q hmem, by rw [heq]⟩
      · exact .inr ⟨List.forall_mem_cons.2 ⟨hcube, hne⟩, by rw [heq, List.cons_append]⟩

theorem Tabled.add (h : Tabled terms qs) (hp : p = within terms p.cube) :
    Tabled terms (add p qs) ∧ ∀ q, q ∈ Rounds.add p qs ↔ q = p ∨ q ∈ qs := by
  have hcases := h.add_eq p.cube
  rw [← hp] at hcases
  rcases hcases with ⟨hmem, heq⟩ | ⟨hne, heq⟩ <;> rw [heq]
  · exact ⟨h, fun q => ⟨.inr, fun hq => hq.elim (fun he => he ▸ hmem) id⟩⟩
  · refine ⟨⟨?_, ?_⟩, fun q => by simp [or_comm]⟩
    · rw [List.map_append, List.nodup_append]
      refine ⟨h.nodup, by simp, fun c hc d hd => ?_⟩
      obtain ⟨q, hq, rfl⟩ := List.mem_map.1 hc
      rw [List.map_singleton, List.mem_singleton] at hd
      exact hd ▸ hne q hq
    · intro q hq
      rcases List.mem_append.1 hq with hq | hq
      · exact h.eq_within q hq
      · rw [List.mem_singleton.1 hq]
        exact hp

theorem Tabled.foldl_add (h : Tabled terms qs) (hps : ∀ p ∈ ps, p = within terms p.cube) :
    Tabled terms (ps.foldl (fun next p => Rounds.add p next) qs) ∧
      ∀ q, q ∈ ps.foldl (fun next p => Rounds.add p next) qs ↔ q ∈ ps ∨ q ∈ qs := by
  induction ps generalizing qs with
  | nil => exact ⟨h, by simp⟩
  | cons p ps ih =>
    obtain ⟨hadd, hmem⟩ := h.add (hps p List.mem_cons_self)
    obtain ⟨hrest, hall⟩ := ih hadd fun q hq => hps q (List.mem_cons_of_mem p hq)
    refine ⟨hrest, fun q => ?_⟩
    rw [List.foldl_cons, hall, hmem, List.mem_cons, ← or_assoc, or_comm (a := q ∈ ps)]

/-! ## Levels -/

/-- The cubes inside `terms` with `r` free inputs, each with the indices that it covers. -/
structure Level (n : Nat) (terms : List Nat) (r : Nat) (ps : List Implicant) : Prop
    extends Tabled terms ps where
  mem_iff : ∀ c, within terms c ∈ ps ↔ c.Inside n terms ∧ c.free = r

/-- The pairs of a level that merge are the halves of the cubes of the next level. -/
theorem Level.mem_mergers_iff (h : Level n terms r ps) {m : Implicant × Implicant × Implicant} :
    m ∈ mergers ps ↔ ∃ d : Cube, ∃ k, d.Inside n terms ∧ d.free = r + 1 ∧ d[k]? = some none ∧
      m = (within terms (d.set k (some false)), within terms (d.set k (some true)),
        within terms d) := by
  rw [Rounds.mem_mergers_iff]
  obtain ⟨low, high, p⟩ := m
  constructor
  · rintro ⟨hlow, hhigh, hones, hcombine⟩
    simp only at hlow hhigh hones hcombine
    obtain ⟨a, rfl⟩ : ∃ a, low = within terms a := ⟨_, h.eq_within low hlow⟩
    obtain ⟨b, rfl⟩ : ∃ b, high = within terms b := ⟨_, h.eq_within high hhigh⟩
    obtain ⟨d, hmerge, -⟩ := Option.map_eq_some_iff.1 hcombine
    obtain ⟨k, x, hk, rfl, rfl⟩ := Cube.merge?_eq_some_iff.1 hmerge
    -- the cube with fewer ones is the half with the 0
    obtain rfl : x = false := by
      have hcount : Cube.ones (d.set k (some !x)) = Cube.ones (d.set k (some x)) + 1 := hones
      rw [Cube.ones_half hk, Cube.ones_half hk] at hcount
      cases x with
      | false => rfl
      | true =>
        simp only [Bool.not_true, Bool.toNat_false, Bool.toNat_true] at hcount
        omega
    obtain rfl := Option.some.inj ((combine?_halves hk false).symm.trans hcombine)
    have hlow' := (h.mem_iff _).1 hlow
    have hhigh' := (h.mem_iff _).1 hhigh
    have hin := (Cube.inside_halves_iff hk).2 (Bool.forall_bool.2 ⟨hlow'.1, hhigh'.1⟩)
    refine ⟨d, k, hin, ?_, hk, rfl⟩
    rw [← Cube.free_half hk false, hlow'.2]
  · rintro ⟨d, k, hin, hfree, hk, hm⟩
    obtain ⟨rfl, rfl, rfl⟩ : low = _ ∧ high = _ ∧ p = _ := by simpa using hm
    have hhalf : ∀ b, within terms (d.set k (some b)) ∈ ps := fun b =>
      (h.mem_iff _).2 ⟨(Cube.inside_halves_iff hk).1 hin b,
        Nat.succ.inj ((Cube.free_half hk b).trans hfree)⟩
    refine ⟨hhalf false, hhalf true, ?_, combine?_halves hk false⟩
    show Cube.ones (d.set k (some true)) = Cube.ones (d.set k (some false)) + 1
    rw [Cube.ones_half hk, Cube.ones_half hk]
    rfl

/-- **The merged implicants are the next level.** -/
theorem Level.merged (h : Level n terms r ps) : Level n terms (r + 1) (merged ps) := by
  have hwithin : ∀ p ∈ (mergers ps).map (·.2.2), p = within terms p.cube := by
    intro p hp
    obtain ⟨m, hm, rfl⟩ := List.mem_map.1 hp
    obtain ⟨c, k, -, -, -, rfl⟩ := h.mem_mergers_iff.1 hm
    rfl
  have hempty : Tabled terms [] := ⟨List.nodup_nil, by simp⟩
  obtain ⟨htabled, hmem⟩ := hempty.foldl_add hwithin
  refine ⟨htabled, fun c => ?_⟩
  rw [Rounds.merged, hmem, or_iff_left (List.not_mem_nil)]
  constructor
  · intro hc
    obtain ⟨m, hm, hmc⟩ := List.mem_map.1 hc
    obtain ⟨d, k, hin, hfree, -, rfl⟩ := h.mem_mergers_iff.1 hm
    obtain rfl : d = c := congrArg Implicant.cube hmc
    exact ⟨hin, hfree⟩
  · rintro ⟨hin, hfree⟩
    have hpos : 0 < c.free := hfree ▸ Nat.succ_pos r
    obtain ⟨x, hx, hnone⟩ := List.countP_pos_iff.1 hpos
    obtain ⟨k, hk⟩ := List.mem_iff_getElem?.1 hx
    obtain rfl := Option.isNone_iff_eq_none.1 hnone
    exact List.mem_map.2 ⟨_, h.mem_mergers_iff.2 ⟨c, k, hin, hfree, hk, rfl⟩, rfl⟩

/-- **The unmerged implicants are the maximal cubes of the level.** -/
theorem Level.mem_unmerged_iff (h : Level n terms r ps) :
    p ∈ unmerged ps ↔ p ∈ ps ∧ p.cube.Maximal n terms := by
  rw [Rounds.mem_unmerged_iff]
  refine and_congr_right fun hp => ?_
  obtain ⟨c, rfl⟩ : ∃ c, p = within terms c := ⟨_, h.eq_within p hp⟩
  obtain ⟨hin, hfree⟩ := (h.mem_iff c).1 hp
  rw [Cube.maximal_iff_not_half]
  constructor
  · refine fun hnone => ⟨hin, fun d k b hk hhalf hd => ?_⟩
    have hfree' : d.free = r + 1 := by rw [← Cube.free_half hk b, hhalf, ← hfree]; rfl
    have hne := hnone _ (h.mem_mergers_iff.2 ⟨d, k, hd, hfree', hk, rfl⟩)
    cases b with
    | false => exact hne.1 hhalf
    | true => exact hne.2 hhalf
  · rintro hmax m hm
    obtain ⟨d, k, hd, -, hk, rfl⟩ := h.mem_mergers_iff.1 hm
    exact ⟨fun he => hmax.2 d k false hk he hd, fun he => hmax.2 d k true hk he hd⟩

theorem Level.mem_unmerged_iff_exists (h : Level n terms r ps) :
    p ∈ unmerged ps ↔ ∃ c : Cube, c.Maximal n terms ∧ c.free = r ∧ within terms c = p := by
  rw [h.mem_unmerged_iff]
  constructor
  · rintro ⟨hp, hmax⟩
    have hwithin := h.eq_within p hp
    exact ⟨p.cube, hmax, ((h.mem_iff _).1 (hwithin ▸ hp)).2, hwithin.symm⟩
  · rintro ⟨c, hmax, hfree, rfl⟩
    exact ⟨(h.mem_iff c).2 ⟨hmax.inside, hfree⟩, hmax⟩

/-! ## All rounds -/

theorem Level.nodup_unmerged (h : Level n terms r ps) : ((unmerged ps).map (·.cube)).Nodup :=
  h.nodup.sublist (List.filter_sublist.map _)

/-- **The rounds leave the maximal cubes**, if there are as many as there can be free inputs. -/
theorem mem_collect_iff {rounds : Nat} (h : Level n terms r ps) (hrounds : n < r + rounds) :
    ((collect rounds ps).map (·.cube)).Nodup ∧
      ∀ p, p ∈ collect rounds ps ↔
        ∃ c : Cube, c.Maximal n terms ∧ r ≤ c.free ∧ within terms c = p := by
  induction rounds generalizing r ps with
  | zero =>
    have hnone : ∀ c : Cube, c.Inside n terms → r ≤ c.free → False := fun c hin hfree => by
      have := c.free_le
      have := hin.length_eq
      omega
    refine ⟨h.nodup, fun p => ⟨fun hp => ?_, fun ⟨c, hmax, hfree, _⟩ => ?_⟩⟩
    · obtain ⟨c, rfl⟩ : ∃ c, p = within terms c := ⟨_, h.eq_within p hp⟩
      obtain ⟨hin, hfree⟩ := (h.mem_iff c).1 hp
      exact (hnone c hin hfree.ge).elim
    · exact (hnone c hmax.inside hfree).elim
  | succ rounds ih =>
    obtain ⟨hnodup, hmem⟩ := ih h.merged (by omega)
    rw [collect]
    refine ⟨?_, fun p => ?_⟩
    · rw [List.map_append, List.nodup_append]
      refine ⟨h.nodup_unmerged, hnodup, fun c hc d hd => ?_⟩
      obtain ⟨p, hp, rfl⟩ := List.mem_map.1 hc
      obtain ⟨q, hq, rfl⟩ := List.mem_map.1 hd
      obtain ⟨c, -, hc, rfl⟩ := h.mem_unmerged_iff_exists.1 hp
      obtain ⟨d, -, hd, rfl⟩ := (hmem q).1 hq
      rintro (rfl : c = d)
      omega
    · rw [List.mem_append, h.mem_unmerged_iff_exists, hmem, ← exists_or]
      refine exists_congr fun c => ?_
      rw [← and_or_left, ← or_and_right, Nat.succ_le_iff, eq_comm, ← le_iff_eq_or_lt]

section Indices

variable (hterms : ∀ i ∈ terms, i < 2 ^ n)

include hterms

theorem within_ofBits_pattern {i : Nat} (hi : i ∈ terms) :
    within terms (.ofBits (Bits.pattern i n)) = .ofIndex i n := by
  have hminterms : (Indices.ofList terms).filter (Cube.ofBits (Bits.pattern i n)).covers = [i] := by
    refine ((Indices.pairwise_ofList terms).filter _).eq_of_mem_iff (List.pairwise_singleton _ i)
      fun j => ?_
    rw [List.mem_filter, Indices.mem_ofList, List.mem_singleton]
    constructor
    · rintro ⟨hj, hcovers⟩
      have hlen : (Cube.ofBits (Bits.pattern i n)).length = n := by simp [Cube.ofBits]
      rw [Cube.covers, hlen, Cube.contains_ofBits (by simp)] at hcovers
      exact ((Bits.pattern_inj (hterms i hi) (hterms j hj)).1 hcovers).symm
    · rintro rfl
      exact ⟨hi, Cube.covers_ofBits_pattern j n⟩
  rw [within, hminterms, Implicant.ofIndex]

theorem level_zero : Level n terms 0 ((Indices.ofList terms).map (Implicant.ofIndex · n)) where
  nodup := by
    rw [List.map_map]
    refine List.Nodup.map_on ?_ ((Indices.pairwise_ofList terms).imp Nat.ne_of_lt)
    intro i hi j hj he
    have hpattern : Bits.pattern i n = Bits.pattern j n :=
      List.map_injective_iff.2 (Option.some_injective Bool) he
    exact (Bits.pattern_inj (mem_ofList_lt hterms i hi) (mem_ofList_lt hterms j hj)).1 hpattern
  eq_within p hp := by
    obtain ⟨i, hi, rfl⟩ := List.mem_map.1 hp
    exact (within_ofBits_pattern hterms (Indices.mem_ofList.1 hi)).symm
  mem_iff c := by
    constructor
    · intro hc
      obtain ⟨i, hi, he⟩ := List.mem_map.1 hc
      obtain rfl : Cube.ofBits (Bits.pattern i n) = c := congrArg Implicant.cube he
      have hi' := Indices.mem_ofList.1 hi
      refine ⟨Cube.inside_ofBits hi' (hterms i hi'), ?_⟩
      simp [Cube.free, Cube.ofBits]
    · rintro ⟨hin, hfree⟩
      obtain ⟨bits, rfl⟩ := Cube.exists_ofBits hfree
      obtain rfl : bits.length = n := by rw [← hin.length_eq, Cube.ofBits, List.length_map]
      have hi : Bits.number bits ∈ terms := by
        refine hin.mem _ (Bits.number_lt bits) ?_
        rw [Cube.covers_number (by simp [Cube.ofBits]), Cube.contains_ofBits rfl]
      have hwithin := within_ofBits_pattern hterms hi
      rw [Bits.pattern_number] at hwithin
      exact List.mem_map.2 ⟨_, Indices.mem_ofList.2 hi, hwithin.symm⟩

theorem mem_primeImplicants_iff :
    p ∈ primeImplicants n terms ↔ ∃ c : Cube, c.Maximal n terms ∧ within terms c = p := by
  rw [primeImplicants_eq hterms, List.mem_map]
  exact exists_congr fun c => and_congr_left' (mem_primeCubes_iff hterms)

theorem pairwise_text_primeImplicants :
    ((primeImplicants n terms).map Implicant.text).Pairwise (· < ·) := by
  rw [primeImplicants_eq hterms, List.map_map, List.pairwise_map]
  exact pairwise_text_primeCubes n _

/-- **The rounds end with the prime implicants.** -/
theorem primes_eq : primes n terms = primeImplicants n terms := by
  have hrounds : n < 0 + (n + 1) := by omega
  obtain ⟨hnodup, hmem⟩ := mem_collect_iff (level_zero hterms) hrounds
  have hsame : ∀ p, p ∈ collect (n + 1) ((Indices.ofList terms).map (Implicant.ofIndex · n)) ↔
      p ∈ primeImplicants n terms := by
    intro p
    rw [hmem, mem_primeImplicants_iff hterms]
    simp only [Nat.zero_le, true_and]
  have hperm : (primes n terms).Perm (primeImplicants n terms) :=
    (List.mergeSort_perm _ _).trans ((List.perm_ext_iff_of_nodup (.of_map _ hnodup)
      (.of_map _ (nodup_primeImplicants hterms))).2 hsame)
  have hsorted : (primes n terms).Pairwise fun p q => decide (p.text ≤ q.text) = true :=
    List.pairwise_mergeSort
      (fun p q r hpq hqr => by simpa using (of_decide_eq_true hpq).trans (of_decide_eq_true hqr))
      (fun p q => by simpa using le_total p.text q.text) _
  refine hperm.eq_of_pairwise ?_ (hsorted.imp of_decide_eq_true)
    ((List.pairwise_map.1 (pairwise_text_primeImplicants hterms)).imp le_of_lt)
  intro p q hp hq hpq hqp
  obtain ⟨c, -, rfl⟩ := (mem_primeImplicants_iff hterms).1 (hperm.mem_iff.1 hp)
  obtain ⟨d, -, rfl⟩ := (mem_primeImplicants_iff hterms).1 hq
  exact congrArg (within terms) (Cube.text_injective (le_antisymm hpq hqp))

end Indices

end Rounds

/-! ## The prime implicants of a set of indices -/

section Exact

variable {n : Nat} {terms : List Nat} (hterms : ∀ i ∈ terms, i < 2 ^ n)

include hterms

theorem exists_cube_eq_iff {c : Cube} :
    (∃ p ∈ primeImplicants n terms, p.cube = c) ↔ c.Maximal n terms := by
  constructor
  · rintro ⟨p, hp, rfl⟩
    obtain ⟨c, hmax, rfl⟩ := (Rounds.mem_primeImplicants_iff hterms).1 hp
    exact hmax
  · exact fun hmax => ⟨_, (Rounds.mem_primeImplicants_iff hterms).2 ⟨c, hmax, rfl⟩, rfl⟩

theorem pairwise_minterms {p : Implicant} (hp : p ∈ primeImplicants n terms) :
    p.minterms.Pairwise (· < ·) := by
  obtain ⟨c, -, rfl⟩ := (Rounds.mem_primeImplicants_iff hterms).1 hp
  exact Rounds.pairwise_minterms_within c

/-- **The prime implicants are exact**, for at most as many inputs as a word has bits. Rounds of
merging end with them. They stand in the order of their texts without repetition; their cubes are
the maximal cubes inside `terms`, all of them and no others; and each accounts for all indices that
its cube covers. -/
theorem primeImplicants?_exact (hwidth : n ≤ Bits.wordSize ∨ terms = []) :
    ∃ ps, primeImplicants? n terms = some ps ∧ Rounds.primes? n terms = some ps ∧
      (ps.map Implicant.text).Pairwise (· < ·) ∧
      (∀ c : Cube, (∃ p ∈ ps, p.cube = c) ↔ c.Maximal n terms) ∧
      ∀ p ∈ ps, p.minterms.Pairwise (· < ·) ∧
        ∀ i, i ∈ p.minterms ↔ i < 2 ^ n ∧ p.cube.covers? i = some true := by
  refine ⟨_, primeImplicants?_eq_some hwidth,
    (Rounds.primes?_eq_some hwidth).trans (congrArg some (Rounds.primes_eq hterms)),
    Rounds.pairwise_text_primeImplicants hterms, fun c => exists_cube_eq_iff hterms,
    fun p hp => ⟨pairwise_minterms hterms hp, fun i => ?_⟩⟩
  have hlen : p.cube.length ≤ Bits.wordSize := by
    rcases hwidth with h | rfl
    · rwa [(inside_of_mem_primeImplicants hterms hp).length_eq]
    · rw [primeImplicants_nil] at hp
      cases hp
  rw [mem_minterms_iff hterms hp, Cube.covers?_of_le hlen, Option.some_inj]

end Exact

/-- Six rows of sixteen, with five maximal cubes. -/
theorem primeImplicants?_exact_sixRows :
    ((∀ i ∈ [4, 8, 10, 11, 12, 15], i < 2 ^ 4) ∧ 4 ≤ Bits.wordSize) ∧
      (primeImplicants? 4 [4, 8, 10, 11, 12, 15]).map (·.map Implicant.text) =
        some ["-100", "1-00", "1-11", "10-0", "101-"] ∧
      ∀ c : Cube, c.Maximal 4 [4, 8, 10, 11, 12, 15] ↔
        c.text ∈ ["-100", "1-00", "1-11", "10-0", "101-"] := by
  have hterms : ∀ i ∈ [4, 8, 10, 11, 12, 15], i < 2 ^ 4 := by decide
  have htexts : (primeImplicants? 4 [4, 8, 10, 11, 12, 15]).map (·.map Implicant.text) =
      some ["-100", "1-00", "1-11", "10-0", "101-"] := by cbv
  refine ⟨⟨hterms, by decide⟩, htexts, fun c => ?_⟩
  obtain ⟨ps, hps, -, -, hcubes, -⟩ := primeImplicants?_exact hterms (.inl (by decide))
  rw [hps] at htexts
  rw [← hcubes c, ← Option.some.inj htexts, List.mem_map]
  exact exists_congr fun p => and_congr_right fun _ => Cube.text_injective.eq_iff.symm

/-- Over one input more than a word has bits there are maximal cubes, and no prime implicants to be
had: the shift by the first place overflows. -/
theorem primeImplicants?_overflow :
    (∀ i ∈ [0, 1], i < 2 ^ 65) ∧ (∃ c : Cube, c.Maximal 65 [0, 1]) ∧
      ¬ ∃ ps, primeImplicants? 65 [0, 1] = some ps ∧
        ∀ c : Cube, (∃ p ∈ ps, p.cube = c) ↔ c.Maximal 65 [0, 1] := by
  have hterms : ∀ i ∈ [0, 1], i < 2 ^ 65 := by decide
  obtain ⟨p, hp, -⟩ := exists_mem_minterms hterms List.mem_cons_self
  refine ⟨hterms, ⟨p.cube, (exists_cube_eq_iff hterms).1 ⟨p, hp, rfl⟩⟩, ?_⟩
  rintro ⟨ps, hps, -⟩
  rw [primeImplicants?_of_lt (by decide) (by decide)] at hps
  cases hps

end Switching
