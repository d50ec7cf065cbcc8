import Switching.Cover.Cube
import Switching.Cover.Hitting

/-!
# Selecting a cover

* `candidates`: the implicants that account for an index.
* `Cost`: what a selection costs: implicants, then literals, then the texts of its cubes.
* `selectCover`: a selection of least cost that accounts for all targets.
-/

namespace Switching

/-- The places of the implicants that account for `index`. -/
def candidates (implicants : List Implicant) (index : Nat) : List Nat :=
  (implicants.zipIdx.filter (·.1.minterms.contains index)).map (·.2)

/-! ## Cost -/

/-- What a selection of implicants costs. -/
structure Cost where
  count : Nat
  literals : Nat
  /-- The texts of the cubes, sorted. -/
  texts : List String
  deriving DecidableEq

/-- The cost of the implicants at the places `selection`. -/
def selectionCost (implicants : List Implicant) (selection : List Nat) : Cost :=
  let chosen := selection.filterMap (implicants[·]?)
  ⟨selection.length, Implicant.totalLiterals chosen,
    (chosen.map Implicant.text).mergeSort fun a b => decide (a ≤ b)⟩

/-- One cost is less than another: fewer implicants, then fewer literals, then earlier texts. -/
def Cost.less (a b : Cost) : Bool :=
  if a.count ≠ b.count then a.count < b.count
  else if a.literals ≠ b.literals then a.literals < b.literals
  else decide (a.texts < b.texts)

/-- The selection `s` goes before `t`: it costs less, or as much with earlier places. -/
def preferred (implicants : List Implicant) (s t : List Nat) : Bool :=
  let a := selectionCost implicants s
  let b := selectionCost implicants t
  a.less b || (!b.less a && decide (s < t))

/-- The selection that goes before all others of a list. -/
def cheapest? (implicants : List Implicant) : List (List Nat) → Option (List Nat)
  | [] => none
  | s :: ss => some (ss.foldl (fun best t => if preferred implicants t best then t else best) s)

/-! ## Selection -/

/-- The places of a cheapest selection of implicants that account for all targets.

An implicant that is alone in accounting for a target is essential. The others are a cheapest
minimal choice for the targets that no essential one accounts for; if there is none, they are left
out. -/
def selectCover (implicants : List Implicant) (targets : List Nat) : List Nat :=
  let clauses := (Indices.ofList targets).map (candidates implicants)
  let essential := Indices.ofList (clauses.filter (·.length = 1)).flatten
  let remaining := clauses.filter (!hits essential ·)
  match cheapest? implicants (minimalHittingSets remaining) with
  | some best => Indices.union best essential
  | none => essential

end Switching
