import Mathlib.Data.List.Lex
import Mathlib.Data.Nat.Bitwise
import Mathlib.Data.Set.Function
import Mathlib.Tactic.Ring
import Switching.Bits

/-!
# Patterns and numbers

The patterns of width `w` are the numbers below `2 ^ w`.

* `Bits.number`: the number that a list of bits writes, however long it is.
* `Bits.index_eq_number`: in a word, the number is the index.
* `Bits.number_pattern`, `Bits.pattern_number`: the two directions.
* **`Bits.pattern_inj`**: below `2 ^ w`, different numbers have different patterns.
* `Bits.pattern_eq_map`, `Bits.getElem?_patterns_eq_some_iff`: which bits stand in a pattern, and
  which pattern in the list of them all.
* `Bits.number_lt_number_iff`: lists of one length are in the order of their numbers.
* **`Bits.index_pattern_bijective`**: indices and patterns correspond to each other, and their
  orders do too.
-/

namespace Switching.Bits

/-- The number that `bs` writes in binary, most significant bit first. -/
def number : List Bool → Nat
  | [] => 0
  | b :: bs => b.toNat * 2 ^ bs.length + number bs

theorem number_lt (bs : List Bool) : number bs < 2 ^ bs.length := by
  induction bs with
  | nil => simp [number]
  | cons b bs ih =>
    rw [number, List.length_cons, pow_succ]
    cases b <;> simp <;> omega

theorem foldl_eq_number (bs : List Bool) (i : Nat) :
    bs.foldl (fun i b => 2 * i + b.toNat) i = i * 2 ^ bs.length + number bs := by
  induction bs generalizing i with
  | nil => simp [number]
  | cons b bs ih =>
    rw [List.foldl_cons, ih, number, List.length_cons, pow_succ]
    ring

theorem index_eq_number {bs : List Bool} (h : bs.length ≤ wordSize) : index bs = number bs := by
  have hlt : number bs < count wordSize :=
    (number_lt bs).trans_le (Nat.pow_le_pow_right (Nat.succ_pos 1) h)
  rw [index, foldl_eq_number, Nat.zero_mul, Nat.zero_add, Nat.mod_eq_of_lt hlt]

theorem pattern_congr {i j w : Nat} (h : ∀ k < w, i.testBit k = j.testBit k) :
    pattern i w = pattern j w := by
  induction w with
  | zero => rfl
  | succ w ih =>
    rw [pattern, pattern, h w (Nat.lt_succ_self w), ih fun k hk => h k (Nat.lt_succ_of_lt hk)]

theorem pattern_number (bs : List Bool) : pattern (number bs) bs.length = bs := by
  induction bs with
  | nil => rfl
  | cons b bs ih =>
    have hbit : ∀ k, (number (b :: bs)).testBit k =
        if k < bs.length then (number bs).testBit k else b.toNat.testBit (k - bs.length) := by
      intro k
      rw [number, Nat.mul_comm, Nat.testBit_two_pow_mul_add _ (number_lt bs)]
    have hlow : pattern (number (b :: bs)) bs.length = pattern (number bs) bs.length :=
      pattern_congr fun k hk => by rw [hbit, if_pos hk]
    rw [List.length_cons, pattern, hlow, ih, hbit, if_neg (Nat.lt_irrefl _), Nat.sub_self]
    cases b <;> rfl

theorem number_pattern (i w : Nat) : number (pattern i w) = i % 2 ^ w := by
  induction w with
  | zero => simp [pattern, number, Nat.mod_one]
  | succ w ih =>
    rw [pattern, number, ih, length_pattern, Nat.mod_pow_succ, Nat.toNat_testBit, Nat.mul_comm,
      Nat.add_comm]

theorem number_pattern_of_lt {i w : Nat} (h : i < 2 ^ w) : number (pattern i w) = i := by
  rw [number_pattern, Nat.mod_eq_of_lt h]

theorem pattern_inj {i j w : Nat} (hi : i < 2 ^ w) (hj : j < 2 ^ w) :
    pattern i w = pattern j w ↔ i = j := by
  refine ⟨fun h => ?_, fun h => h ▸ rfl⟩
  rw [← number_pattern_of_lt hi, h, number_pattern_of_lt hj]

theorem pattern_eq_map (i w : Nat) :
    pattern i w = (List.range w).map fun j => i.testBit (w - 1 - j) := by
  induction w with
  | zero => rfl
  | succ w ih =>
    rw [pattern, ih, List.range_succ_eq_map, List.map_cons, List.map_map]
    refine congrArg (i.testBit w :: ·) (List.map_congr_left fun j _ => ?_)
    rw [Function.comp, Nat.succ_eq_add_one, Nat.add_sub_cancel, Nat.sub_sub, Nat.add_comm 1]

theorem getElem?_patterns_eq_some_iff {w i : Nat} {bits : List Bool} :
    (patterns w)[i]? = some bits ↔ i < 2 ^ w ∧ pattern i w = bits := by
  rw [patterns, List.getElem?_map, Option.map_eq_some_iff]
  constructor
  · rintro ⟨j, hj, rfl⟩
    obtain ⟨hlt, rfl⟩ := List.getElem?_eq_some_iff.1 hj
    rw [List.length_range] at hlt
    exact ⟨hlt, by rw [List.getElem_range]⟩
  · rintro ⟨hlt, rfl⟩
    exact ⟨i, List.getElem?_range hlt, rfl⟩

/-! ## Order -/

theorem number_lt_number_iff {bs cs : List Bool} (h : bs.length = cs.length) :
    number bs < number cs ↔ bs < cs := by
  induction bs generalizing cs with
  | nil =>
    obtain rfl := List.length_eq_zero_iff.1 h.symm
    simp
  | cons b bs ih =>
    obtain ⟨c, cs, rfl⟩ := List.exists_cons_of_length_eq_add_one h.symm
    have hlen : bs.length = cs.length := Nat.succ.inj h
    -- if the first bits differ, they outweigh all the others
    have hbs : number bs < 2 ^ cs.length := hlen ▸ number_lt bs
    have hcs : number cs < 2 ^ cs.length := number_lt cs
    rw [List.cons_lt_cons_iff, Bool.lt_iff, ← ih hlen, number, number, hlen]
    cases b <;> cases c <;> simp <;> omega

theorem pattern_lt_pattern_iff {i j w : Nat} (hi : i < 2 ^ w) (hj : j < 2 ^ w) :
    pattern i w < pattern j w ↔ i < j := by
  have hlen : (pattern i w).length = (pattern j w).length := by simp
  rw [← number_lt_number_iff hlen, number_pattern_of_lt hi, number_pattern_of_lt hj]

/-- The numbers below `2 ^ w` have all lists of `w` bits as patterns, each list once. -/
theorem bijOn_pattern (w : Nat) :
    Set.BijOn (pattern · w) (Set.Iio (2 ^ w)) {bs | bs.length = w} := by
  refine ⟨fun i _ => length_pattern i w, fun i hi j hj => (pattern_inj hi hj).1, ?_⟩
  rintro bs rfl
  exact ⟨number bs, number_lt bs, pattern_number bs⟩

/-- **Indices and patterns correspond to each other.** In a word, a pattern is read off by shifts, its
index is what its width leaves of the number, and the pattern of an index is the list of bits that
has it. The patterns of width `w` are all the lists of `w` bits, in the lexicographic order of
lists. -/
theorem index_pattern_bijective :
    (∀ w ≤ wordSize, ∀ i, pattern? i w = some (pattern i w) ∧
        index (pattern i w) = i % 2 ^ w ∧ (pattern i w).length = w) ∧
      (∀ bs : List Bool, bs.length ≤ wordSize → pattern (index bs) bs.length = bs) ∧
      ∀ w, Set.BijOn (pattern · w) (Set.Iio (2 ^ w)) {bs | bs.length = w} ∧
        ∀ i < 2 ^ w, ∀ j < 2 ^ w, i < j ↔ pattern i w < pattern j w := by
  refine ⟨fun w hw i => ⟨pattern?_of_le hw, ?_, length_pattern i w⟩, fun bs hbs => ?_,
    fun w => ⟨bijOn_pattern w, ?_⟩⟩
  · rw [index_eq_number ((length_pattern i w).trans_le hw), number_pattern]
  · rw [index_eq_number hbs, pattern_number]
  · exact fun i hi j hj => (pattern_lt_pattern_iff hi hj).symm

/-- The widest patterns in a word, on both sides of the middle. -/
theorem index_pattern_bijective_widest :
    index (pattern (2 ^ 64 - 1) 64) = (2 ^ 64 - 1) % 2 ^ 64 ∧
      pattern (index (List.replicate 64 true)) 64 = List.replicate 64 true ∧
      pattern (2 ^ 63 - 1) 64 < pattern (2 ^ 63) 64 := by
  obtain ⟨hindex, hpattern, horder⟩ := index_pattern_bijective
  have hwidest := hpattern (List.replicate 64 true) (by decide)
  rw [List.length_replicate] at hwidest
  refine ⟨(hindex 64 (by decide) _).2.1, hwidest, ?_⟩
  exact ((horder 64).2 _ (by decide) _ (by decide)).1 (by decide)

end Switching.Bits
