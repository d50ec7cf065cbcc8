/-!
# Sets of indices

Sets of numbers as lists that are sorted and without repetition.

* `Indices.insert`, `Indices.ofList`, `Indices.union`.
* **`Indices.mem_insert`**, **`Indices.mem_ofList`**, **`Indices.mem_union`**: their members.
* `Indices.isSubset`: inclusion.
-/

namespace Switching.Indices

def insert (i : Nat) : List Nat → List Nat
  | [] => [i]
  | j :: js => if i < j then i :: j :: js else if i = j then j :: js else j :: insert i js

@[simp] theorem mem_insert {i k : Nat} {js : List Nat} : k ∈ insert i js ↔ k = i ∨ k ∈ js := by
  induction js with
  | nil => simp [insert]
  | cons j js ih =>
    simp only [insert]
    split
    · simp
    split
    · rename_i h; simp [h]
    · simp only [List.mem_cons, ih]
      exact ⟨by rintro (h | h | h) <;> simp [h], by rintro (h | h | h) <;> simp [h]⟩

def ofList (is : List Nat) : List Nat := is.foldr insert []

@[simp] theorem mem_ofList {k : Nat} {is : List Nat} : k ∈ ofList is ↔ k ∈ is := by
  induction is with
  | nil => simp [ofList]
  | cons i is ih => simp only [ofList, List.foldr_cons, mem_insert, List.mem_cons] at ih ⊢; rw [ih]

def union (is js : List Nat) : List Nat := is.foldr insert js

@[simp] theorem mem_union {k : Nat} {is js : List Nat} : k ∈ union is js ↔ k ∈ is ∨ k ∈ js := by
  induction is with
  | nil => simp [union]
  | cons i is ih =>
    simp only [union, List.foldr_cons, mem_insert, List.mem_cons] at ih ⊢
    rw [ih, or_assoc]

/-- Every member of `is` is one of `js`. -/
def isSubset (is js : List Nat) : Bool := is.all js.contains

end Switching.Indices
