import Switching.Cover.PatternSet

/-!
# Prime implicants

* `primeCubes`: the largest cubes inside a set of patterns. Such a cube leaves the first input
  free, and then it is one for the patterns that occur with both first bits; or it fixes it, and
  then it is one for the patterns with that first bit and does not fit among those with the other.
* `primeImplicants`: the prime implicants of a set of indices, sorted by their text.
* `primeImplicants?`: those of a set of words, which must have patterns of that width.
-/

namespace Switching

/-- The largest cubes of width `w` inside a set. -/
def primeCubes : (w : Nat) → PatternSet → List Cube
  | 0, .unit => [[]]
  | w + 1, .split z o =>
    (primeCubes w (z.inter o)).map (none :: ·) ++
      ((primeCubes w z).filter (!o.includes ·)).map (some false :: ·) ++
      ((primeCubes w o).filter (!z.includes ·)).map (some true :: ·)
  | _, _ => []

/-- Of the indices that share their `width` low bits, the largest one. -/
def largestOfEachPattern (width : Nat) (indices : List Nat) : List Nat :=
  let beyond := indices.filter (Bits.count width ≤ ·)
  indices.filter fun i => !beyond.any fun j => i < j && i % Bits.count width = j % Bits.count width

/-- The largest cubes inside `patterns`, which are those of `indices`. Each accounts for the
indices in it. -/
def primesAmong (width : Nat) (indices : List Nat) (patterns : List (List Bool)) :
    List Implicant :=
  (primeCubes width (.ofList patterns)).map fun c => ⟨c, indices.filter c.covers⟩

/-- The prime implicants over `width` inputs of the function that is 1 on `indices`. -/
def primeImplicants (width : Nat) (indices : List Nat) : List Implicant :=
  let kept := largestOfEachPattern width (Indices.ofList indices)
  primesAmong width kept (kept.map (Bits.pattern · width))

/-- The prime implicants over `width` inputs of the function that is 1 on words. There are none to
be had if the words have no patterns of that width. -/
def primeImplicants? (width : Nat) (indices : List Nat) : Option (List Implicant) := do
  let kept := largestOfEachPattern width (Indices.ofList indices)
  let patterns ← kept.mapM (Bits.pattern? · width)
  return primesAmong width kept patterns

theorem primeImplicants?_of_le {width : Nat} (h : width ≤ Bits.wordSize) (indices : List Nat) :
    primeImplicants? width indices = some (primeImplicants width indices) := by
  have hpattern : (Bits.pattern? · width) = fun i => pure (Bits.pattern i width) :=
    funext fun _ => Bits.pattern?_of_le h
  rw [primeImplicants?, hpattern]
  simp only [List.mapM_pure]
  rfl

end Switching
