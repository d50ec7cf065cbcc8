import Mathlib.Data.List.Lex
import Mathlib.Data.String.Basic
import Switching.Proofs.Cover.Hitting
import Switching.Proofs.Cover.Primes

/-!
# Prime cubes are the maximal cubes

* `Cube.Maximal n terms`: a cube inside `terms` that is inside no more when a fixed input is freed.
* `Cube.maximal_iff`: such a cube is part of no other cube inside `terms`.
* `eq_of_subsumes`: no prime cube is part of another cube inside the set.
* `pairwise_text_primeCubes`: the prime cubes are listed by their texts.
* **`mem_primeCubes_iff`**: the prime cubes of a set of indices are its maximal cubes.
-/

namespace Switching

namespace Cube

/-! ## Freeing an input -/

/-- A cube inside `terms` from which no fixed input can be freed. -/
structure Maximal (n : Nat) (terms : List Nat) (d : Cube) : Prop where
  inside : d.Inside n terms
  not_inside : ∀ k b, d[k]? = some (some b) → ¬ Inside n terms (d.set k none)

theorem subsumes_set_none (c : Cube) (k : Nat) : Subsumes (c.set k none) c := by
  induction c generalizing k with
  | nil => exact .nil
  | cons x c ih =>
    cases k with
    | zero => exact .cons (.inl rfl) (Subsumes.refl c)
    | succ k => exact .cons (.inr rfl) (ih k)

/-- A cube that is part of another one is part of it with some input freed. -/
theorem Subsumes.exists_set_none {c d : Cube} (h : Subsumes c d) (hne : c ≠ d) :
    ∃ k b, d[k]? = some (some b) ∧ Subsumes c (d.set k none) := by
  unfold Subsumes at h
  induction h with
  | nil => exact absurd rfl hne
  | @cons x y c d hx hrest ih =>
    by_cases hxy : x = y
    · subst hxy
      obtain ⟨k, b, hk, hsub⟩ := ih fun he => hne (he ▸ rfl)
      exact ⟨k + 1, b, by simpa using hk, .cons (.inr rfl) hsub⟩
    · obtain rfl : x = none := hx.resolve_right hxy
      obtain ⟨b, rfl⟩ := Option.ne_none_iff_exists'.1 (Ne.symm hxy)
      exact ⟨0, b, rfl, .cons (.inl rfl) hrest⟩

theorem Inside.of_subsumes {n : Nat} {terms : List Nat} {c d : Cube} (h : Inside n terms d)
    (hsub : Subsumes d c) : Inside n terms c where
  length_eq := by rw [← h.length_eq, List.Forall₂.length_eq hsub]
  mem i hi hc := h.mem i hi (hsub.covers hc)

theorem maximal_iff {n : Nat} {terms : List Nat} {c : Cube} :
    Maximal n terms c ↔
      Inside n terms c ∧ ∀ d, Inside n terms d → Subsumes d c → d = c := by
  constructor
  · refine fun h => ⟨h.inside, fun d hd hsub => ?_⟩
    by_contra hne
    obtain ⟨k, b, hk, hsub'⟩ := hsub.exists_set_none hne
    exact h.not_inside k b hk (hd.of_subsumes hsub')
  · refine fun ⟨hin, hmax⟩ => ⟨hin, fun k b hk hin' => ?_⟩
    have heq := hmax _ hin' (subsumes_set_none c k)
    have hget : (c.set k none)[k]? = some none := by
      rw [List.getElem?_set_self (List.getElem?_eq_some_iff.1 hk).1]
    rw [heq, hk] at hget
    cases hget

end Cube

/-! ## Prime cubes are maximal -/

open PatternSet

theorem eq_of_subsumes {w : Nat} {s : PatternSet} {c d : Cube} (hc : c ∈ primeCubes w s)
    (hd : s.includes d = true) (hsub : d.Subsumes c) : d = c := by
  induction w generalizing s c d with
  | zero =>
    obtain rfl := List.length_eq_zero_iff.1 (length_of_mem_primeCubes hc)
    exact List.forall₂_nil_right_iff.1 hsub
  | succ w ih =>
    rcases mem_primeCubes_succ.1 hc with ⟨e, he, rfl⟩ | ⟨b, e, he, hother, rfl⟩ <;>
      obtain ⟨x, f, hx, hfe, rfl⟩ := List.forall₂_cons_right_iff.1 hsub
    · obtain rfl : x = none := by simpa using hx
      rw [includes_none, Bool.and_eq_true] at hd
      rw [ih he ((includes_inter _ _ f).2 hd) hfe]
    · rcases hx with rfl | rfl
      · -- with the first input free the cube would fit into the other half
        rw [includes_none, Bool.and_eq_true] at hd
        have hboth : ∀ v, (s.half v).includes f = true := Bool.forall_bool.2 hd
        rw [ih he (hboth b) hfe] at hboth
        rw [hboth] at hother
        cases hother
      · rw [includes_some] at hd
        rw [ih he hd hfe]

/-! ## The order of texts -/

theorem Cube.symbol_injective : Function.Injective Cube.symbol := by
  rintro (_ | _ | _) (_ | _ | _) h <;> first | rfl | exact absurd h (by decide)

theorem Cube.text_injective : Function.Injective Cube.text := fun _ _ h =>
  List.map_injective_iff.2 symbol_injective (String.ofList_inj.1 h)

theorem Cube.text_lt_text_iff {c d : Cube} :
    c.text < d.text ↔ c.map symbol < d.map symbol := by
  rw [String.lt_iff_toList_lt, text, text, String.toList_ofList, String.toList_ofList]

/-- Prime cubes are listed by their texts: first those that leave the first input free, then those
that fix it to 0, then those that fix it to 1. -/
theorem pairwise_text_primeCubes (w : Nat) (s : PatternSet) :
    (primeCubes w s).Pairwise fun c d => c.text < d.text := by
  simp only [Cube.text_lt_text_iff]
  induction w generalizing s with
  | zero => cases s <;> simp [primeCubes]
  | succ w ih =>
    cases s with
    | empty => exact List.Pairwise.nil
    | unit => exact List.Pairwise.nil
    | split z o =>
      have hcons (x : Option Bool) {cs : List Cube}
          (h : cs.Pairwise fun c d => c.map Cube.symbol < d.map Cube.symbol) :
          (cs.map (x :: ·)).Pairwise fun c d => c.map Cube.symbol < d.map Cube.symbol :=
        h.map _ fun c d hcd => List.cons_lt_cons_iff.2 (.inr ⟨rfl, hcd⟩)
      have hblock {x y : Option Bool} (hxy : Cube.symbol x < Cube.symbol y) {c d : Cube} :
          (x :: c).map Cube.symbol < (y :: d).map Cube.symbol :=
        List.cons_lt_cons_iff.2 (.inl hxy)
      rw [primeCubes, List.pairwise_append, List.pairwise_append]
      refine ⟨⟨hcons _ (ih _), hcons _ ((ih _).filter _), ?_⟩, hcons _ ((ih _).filter _), ?_⟩
      · intro c hc d hd
        obtain ⟨_, -, rfl⟩ := List.mem_map.1 hc
        obtain ⟨_, -, rfl⟩ := List.mem_map.1 hd
        exact hblock (by decide)
      · intro c hc d hd
        obtain ⟨_, -, rfl⟩ := List.mem_map.1 hd
        rcases List.mem_append.1 hc with hc | hc <;>
        · obtain ⟨_, -, rfl⟩ := List.mem_map.1 hc
          exact hblock (by decide)

/-! ## Prime implicants of a set of indices -/

section Indices

variable {n : Nat} {terms : List Nat} (hterms : ∀ i ∈ terms, i < 2 ^ n)

include hterms

theorem mem_primeCubes_iff {c : Cube} :
    c ∈ primeCubes n (ofList ((Indices.ofList terms).map (Bits.pattern · n))) ↔
      c.Maximal n terms := by
  have hincludes : ∀ {d : Cube}, d.length = n →
      ((ofList ((Indices.ofList terms).map (Bits.pattern · n))).includes d = true ↔
        d.Inside n terms) := fun hlen => by
    rw [includes_patterns_iff (mem_ofList_lt hterms) hlen, inside_ofList_iff]
  rw [Cube.maximal_iff]
  constructor
  · refine fun hc => ⟨(hincludes (length_of_mem_primeCubes hc)).1 (primeCubes_sound hc), ?_⟩
    exact fun d hd hsub => eq_of_subsumes hc ((hincludes hd.length_eq).2 hd) hsub
  · rintro ⟨hin, hmax⟩
    obtain ⟨d, hd, hsub⟩ := exists_primeCube hin.length_eq ((hincludes hin.length_eq).2 hin)
    have hinside := (hincludes (length_of_mem_primeCubes hd)).1 (primeCubes_sound hd)
    exact hmax d hinside hsub ▸ hd

end Indices

end Switching
