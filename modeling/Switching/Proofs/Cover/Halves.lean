import Switching.Proofs.Cover.Cubes

/-!
# Halves of a cube

A cube with a free input is made of two halves, which fix that input to 0 and to 1.

* `Cube.contains_halves`, `Cube.inside_halves_iff`: a cube in terms of its halves.
* `Cube.free_half`, `Cube.ones_half`: a half has one free input less, and the half with a 1 has one
  1 more than the other.
* `Cube.half_set_none`: freeing a fixed input gives a cube with the old one as a half.
* **`Cube.merge?_eq_some_iff`**: cubes merge exactly if they are the halves of a cube.
-/

namespace Switching.Cube

/-! ## What the halves have in common -/

/-- The number of free inputs. -/
def free (d : Cube) : Nat := d.countP Option.isNone

theorem free_le (d : Cube) : d.free ≤ d.length := List.countP_le_length

section Halves

variable {d : Cube} {k : Nat}

theorem free_half (h : d[k]? = some none) (b : Bool) : free (d.set k (some b)) + 1 = d.free := by
  obtain ⟨hk, hget⟩ := List.getElem?_eq_some_iff.1 h
  have hpos : 0 < d.free := List.countP_pos_iff.2 ⟨none, hget ▸ List.getElem_mem hk, rfl⟩
  unfold free at hpos ⊢
  rw [List.countP_set hk, hget]
  simp
  omega

theorem ones_half (h : d[k]? = some none) (b : Bool) :
    ones (d.set k (some b)) = d.ones + b.toNat := by
  obtain ⟨hk, hget⟩ := List.getElem?_eq_some_iff.1 h
  unfold ones
  rw [List.countP_set hk, hget]
  cases b <;> simp

theorem contains_halves (h : d[k]? = some none) (bits : List Bool) :
    d.contains bits =
      (contains (d.set k (some false)) bits || contains (d.set k (some true)) bits) := by
  induction d generalizing k bits with
  | nil => simp at h
  | cons x d ih =>
    cases bits with
    | nil => cases k <;> rfl
    | cons b bits =>
      cases k with
      | zero =>
        obtain rfl : x = none := by simpa using h
        cases b <;> simp [contains]
      | succ k =>
        have hrest : d[k]? = some none := by simpa using h
        simp only [List.set_cons_succ, contains, ih hrest, Bool.and_or_distrib_left]

theorem covers_halves (h : d[k]? = some none) (i : Nat) :
    d.covers i = (covers (d.set k (some false)) i || covers (d.set k (some true)) i) := by
  simp only [covers, List.length_set, contains_halves h]

theorem inside_halves_iff (h : d[k]? = some none) {n : Nat} {terms : List Nat} :
    d.Inside n terms ↔ ∀ b, Inside n terms (d.set k (some b)) := by
  have hcovers := covers_halves h
  constructor
  · intro hc b
    refine ⟨by rw [List.length_set, hc.length_eq], fun i hi hb => hc.mem i hi ?_⟩
    rw [hcovers]
    cases b <;> simp [hb]
  · intro hb
    refine ⟨by rw [← (hb true).length_eq, List.length_set], fun i hi hc => ?_⟩
    rw [hcovers, Bool.or_eq_true] at hc
    exact hc.elim ((hb false).mem i hi) ((hb true).mem i hi)

end Halves

/-! ## Merging -/

theorem half_set_none {d : Cube} {k : Nat} {b : Bool} (h : d[k]? = some (some b)) :
    (d.set k none)[k]? = some none ∧ List.set (d.set k none) k (some b) = d := by
  obtain ⟨hk, hget⟩ := List.getElem?_eq_some_iff.1 h
  refine ⟨List.getElem?_set_self hk, ?_⟩
  rw [List.set_set, ← hget, List.set_getElem_self]

theorem merge?_half {d : Cube} {k : Nat} (h : d[k]? = some none) (b : Bool) :
    merge? (d.set k (some b)) (d.set k (some !b)) = some d := by
  induction d generalizing k with
  | nil => simp at h
  | cons x d ih =>
    cases k with
    | zero =>
      obtain rfl : x = none := by simpa using h
      cases b <;> simp [merge?]
    | succ k =>
      have hrest : d[k]? = some none := by simpa using h
      cases x <;> simp [merge?, ih hrest]

/-- Two cubes merge exactly if they are the halves of a cube, and then they merge to it. -/
theorem merge?_eq_some_iff {a b d : Cube} :
    a.merge? b = some d ↔
      ∃ k x, d[k]? = some none ∧ a = d.set k (some x) ∧ b = d.set k (some !x) := by
  constructor
  · intro h
    induction a generalizing b d with
    | nil => simp [merge?] at h
    | cons x a ih =>
      cases b with
      | nil => cases x <;> simp [merge?] at h
      | cons y b =>
        have hlift : ∀ e, merge? a b = some e → x = y → d = x :: e →
            ∃ k v, d[k]? = some none ∧ x :: a = d.set k (some v) ∧ y :: b = d.set k (some !v) := by
          rintro e he rfl rfl
          obtain ⟨k, v, hk, ha, hb⟩ := ih he
          exact ⟨k + 1, v, by simpa using hk, by simp [← ha], by simp [← hb]⟩
        cases x with
        | none =>
          cases y with
          | none =>
            obtain ⟨e, he, rfl⟩ := Option.map_eq_some_iff.1 h
            exact hlift e he rfl rfl
          | some v => simp [merge?] at h
        | some u =>
          cases y with
          | none => simp [merge?] at h
          | some v =>
            rw [merge?] at h
            split_ifs at h with huv hab
            · obtain ⟨e, he, rfl⟩ := Option.map_eq_some_iff.1 h
              exact hlift e he (huv ▸ rfl) rfl
            · obtain rfl := Option.some.inj h
              have hv : v = !u := by cases u <;> cases v <;> simp_all
              exact ⟨0, u, rfl, rfl, by simp [hab, hv]⟩
  · rintro ⟨k, x, hk, rfl, rfl⟩
    exact merge?_half hk x

end Switching.Cube
