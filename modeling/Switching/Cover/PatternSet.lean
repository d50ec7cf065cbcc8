import Switching.Cover.Cube

/-!
# Sets of patterns

* `PatternSet`: a set of patterns of one width, branching on their first bit.
* `PatternSet.contains`: membership, the view of a set.
* **`PatternSet.contains_inter`**: the members of an intersection are those of both sets.
* `PatternSet.includes`: all patterns of a cube are in the set.
-/

namespace Switching

/-- A set of patterns of one width. -/
inductive PatternSet where
  /-- No pattern. -/
  | empty
  /-- The pattern without bits. -/
  | unit
  /-- Patterns by their first bit. -/
  | split (zero one : PatternSet)

namespace PatternSet

def contains : PatternSet → List Bool → Bool
  | unit, [] => true
  | split z o, b :: bits => if b then o.contains bits else z.contains bits
  | _, _ => false

/-! ## Building sets -/

/-- What follows the first bit of the patterns of a set. -/
def half (b : Bool) : PatternSet → PatternSet
  | split z o => if b then o else z
  | empty | unit => empty

def insert : List Bool → PatternSet → PatternSet
  | [], _ => unit
  | true :: bits, s => split (s.half false) (insert bits (s.half true))
  | false :: bits, s => split (insert bits (s.half false)) (s.half true)

def ofList (ps : List (List Bool)) : PatternSet := ps.foldr insert empty

/-- Branches, unless both are empty. -/
def join : PatternSet → PatternSet → PatternSet
  | empty, empty => empty
  | z, o => split z o

def inter : PatternSet → PatternSet → PatternSet
  | unit, unit => unit
  | split z o, split z' o' => join (z.inter z') (o.inter o')
  | _, _ => empty

/-- Every pattern of the cube is in the set. -/
def includes : PatternSet → Cube → Bool
  | unit, [] => true
  | split z o, none :: c => z.includes c && o.includes c
  | split _ o, some true :: c => o.includes c
  | split z _, some false :: c => z.includes c
  | _, _ => false

/-! ## Members -/

@[simp] theorem contains_empty (bits : List Bool) : empty.contains bits = false := by
  cases bits <;> rfl

theorem contains_join (z o : PatternSet) (bits : List Bool) :
    (join z o).contains bits = (split z o).contains bits := by
  unfold join
  split
  · cases bits <;> simp [contains]
  · rfl

theorem contains_inter (s t : PatternSet) (bits : List Bool) :
    (s.inter t).contains bits = (s.contains bits && t.contains bits) := by
  induction s generalizing t bits with
  | empty => simp [inter]
  | unit => cases t <;> cases bits <;> simp [inter, contains]
  | split z o ihz iho =>
    cases t with
    | split z' o' =>
      rw [inter, contains_join]
      rcases bits with _ | ⟨_ | _, bits⟩ <;> simp [contains, ihz, iho]
    | empty => simp [inter]
    | unit => cases bits <;> simp [inter, contains]

end PatternSet

end Switching
