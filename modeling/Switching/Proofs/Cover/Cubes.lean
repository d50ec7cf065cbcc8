import Mathlib.Data.List.Forall2
import Switching.Cover.Cube
import Switching.Proofs.Patterns

/-!
# Larger cubes and cubes inside sets

* `Cube.Subsumes`: one cube arises from another by freeing inputs. It contains what the other one
  contains (`Cube.Subsumes.contains`), with no more literals (`Cube.Subsumes.literals_le`).
* `Cube.Inside n terms`: a cube over `n` inputs with indices in `terms` only.
-/

namespace Switching

namespace Cube

/-! ## Larger cubes -/

/-- `c` is `d` with some inputs freed. -/
def Subsumes (c d : Cube) : Prop := List.Forall₂ (fun x y => x = none ∨ x = y) c d

@[refl] theorem Subsumes.refl (c : Cube) : Subsumes c c := List.forall₂_same.2 fun _ _ => Or.inr rfl

theorem Subsumes.trans {c d e : Cube} (h : Subsumes c d) (h' : Subsumes d e) : Subsumes c e := by
  unfold Subsumes at h h'
  induction h generalizing e with
  | nil => exact h'
  | cons hx _ ih =>
    rcases h' with _ | ⟨hy, hrest⟩
    refine List.Forall₂.cons ?_ (ih hrest)
    rcases hx with rfl | rfl
    · exact Or.inl rfl
    · exact hy

theorem Subsumes.literals_le {c d : Cube} (h : Subsumes c d) : c.literals ≤ d.literals := by
  unfold Subsumes at h
  induction h with
  | nil => rfl
  | cons hx _ ih =>
    unfold literals at ih ⊢
    rw [List.countP_cons, List.countP_cons]
    rcases hx with rfl | rfl
    · simp only [Option.isSome_none, Bool.false_eq_true, if_false]
      omega
    · omega

theorem Subsumes.contains {c d : Cube} (h : Subsumes c d) {bits : List Bool}
    (hd : d.contains bits = true) : c.contains bits = true := by
  unfold Subsumes at h
  induction h generalizing bits with
  | nil => rfl
  | cons hx _ ih =>
    cases bits with
    | nil => rfl
    | cons b bits =>
      simp only [Cube.contains, Bool.and_eq_true] at hd ⊢
      refine ⟨?_, ih hd.2⟩
      rcases hx with rfl | rfl
      · rfl
      · exact hd.1

theorem Subsumes.covers {c d : Cube} (h : Subsumes c d) {i : Nat} (hd : d.covers i = true) :
    c.covers i = true := by
  have hlen : c.length = d.length := List.Forall₂.length_eq h
  rw [Cube.covers, hlen]
  exact h.contains hd

/-! ## Cubes of indices -/

/-- A cube over `n` inputs with indices in `terms` only. -/
structure Inside (n : Nat) (terms : List Nat) (c : Cube) : Prop where
  length_eq : c.length = n
  mem : ∀ i < 2 ^ n, c.covers i = true → i ∈ terms

theorem covers_number {c : Cube} {bits : List Bool} (hlen : bits.length = c.length) :
    c.covers (Bits.number bits) = c.contains bits := by
  rw [Cube.covers, ← hlen, Bits.pattern_number]

theorem contains_ofBits {p bits : List Bool} (hlen : p.length = bits.length) :
    (ofBits p).contains bits = true ↔ p = bits := by
  induction p generalizing bits with
  | nil => cases bits <;> simp_all [ofBits, Cube.contains]
  | cons x p ih =>
    cases bits with
    | nil => simp at hlen
    | cons b bits =>
      have hlen' : p.length = bits.length := Nat.succ.inj hlen
      have hrest := ih hlen'
      rw [ofBits] at hrest
      simp [ofBits, Cube.contains, hrest]

theorem inside_ofBits {n i : Nat} {terms : List Nat} (hi : i ∈ terms) (hlt : i < 2 ^ n) :
    Inside n terms (ofBits (Bits.pattern i n)) where
  length_eq := by rw [ofBits, List.length_map, Bits.length_pattern]
  mem j hj hc := by
    have hlen : (ofBits (Bits.pattern i n)).length = n := by simp [ofBits]
    rw [Cube.covers, hlen, contains_ofBits (by simp), Bits.pattern_inj hlt hj] at hc
    exact hc ▸ hi

theorem covers_ofBits_pattern (i n : Nat) : (ofBits (Bits.pattern i n)).covers i = true := by
  have hlen : (ofBits (Bits.pattern i n)).length = n := by simp [ofBits]
  rw [Cube.covers, hlen, contains_ofBits rfl]

end Cube

end Switching
