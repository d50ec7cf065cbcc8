/-!
# Ranges of code points

* `Ranges`: closed ranges of code points, from low to high.
* `Ranges.contains`: whether a code point lies in one of them.
* **`Ranges.contains_iff`**: the look-up, which stops early, finds every range of an ascending list.
-/

namespace Switching

/-- Closed ranges of code points, the lower ones first. -/
abbrev Ranges := List (Nat × Nat)

namespace Ranges

/-- Each range ends before the next one begins. -/
def isAscending : Ranges → Bool
  | [] => true
  | [r] => r.1 ≤ r.2
  | r :: s :: rs => r.1 ≤ r.2 && r.2 < s.1 && isAscending (s :: rs)

/-- The code point lies in one of the ranges. The search ends at the first range above it. -/
def contains : Ranges → Nat → Bool
  | [], _ => false
  | r :: rs, n => r.1 ≤ n && (n ≤ r.2 || contains rs n)

theorem le_fst_of_isAscending {r : Nat × Nat} {rs : Ranges} (h : isAscending (r :: rs)) :
    ∀ s ∈ rs, r.1 ≤ s.1 := by
  induction rs generalizing r with
  | nil => simp
  | cons t rs ih =>
    simp only [isAscending, Bool.and_eq_true, decide_eq_true_eq] at h
    obtain ⟨⟨h1, h2⟩, h3⟩ := h
    intro s hs
    rcases List.mem_cons.1 hs with rfl | hs
    · omega
    · have := ih h3 s hs
      omega

theorem isAscending_tail {r : Nat × Nat} {rs : Ranges} (h : isAscending (r :: rs)) :
    isAscending rs := by
  cases rs with
  | nil => rfl
  | cons t rs =>
    simp only [isAscending, Bool.and_eq_true] at h
    exact h.2

/-- In ascending ranges the search finds every range around a code point. -/
theorem contains_iff {rs : Ranges} (h : isAscending rs) (n : Nat) :
    contains rs n ↔ ∃ r ∈ rs, r.1 ≤ n ∧ n ≤ r.2 := by
  induction rs with
  | nil => simp [contains]
  | cons r rs ih =>
    simp only [contains, Bool.and_eq_true, Bool.or_eq_true, decide_eq_true_eq,
      ih (isAscending_tail h), List.mem_cons, exists_eq_or_imp]
    constructor
    · rintro ⟨h1, h2 | h2⟩
      · exact Or.inl ⟨h1, h2⟩
      · exact Or.inr h2
    · rintro (⟨h1, h2⟩ | ⟨s, hs, h2⟩)
      · exact ⟨h1, Or.inl h2⟩
      · exact ⟨Nat.le_trans (le_fst_of_isAscending h s hs) h2.1, Or.inr ⟨s, hs, h2⟩⟩

end Ranges

end Switching
