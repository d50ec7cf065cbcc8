import Switching.Cover.Indices

/-!
# Minimal hitting sets

A set hits a clause if they have a member in common.

* `hitsClause`: one more clause. The sets that hit it stay; each of the others is extended by a
  member of the clause, unless that makes it larger than a set that stays.
* `minimalHittingSets`: the smallest sets that hit every clause.
-/

namespace Switching

/-- The set has a member of the clause. -/
def hits (set clause : List Nat) : Bool := clause.any set.contains

/-- The minimal sets that also hit `clause`, from those that hit the clauses before it. -/
def hitClause (sets : List (List Nat)) (clause : List Nat) : List (List Nat) :=
  let stay := sets.filter (hits · clause)
  let extend (set : List Nat) : List (List Nat) :=
    ((Indices.ofList clause).map (Indices.insert · set)).filter
      fun larger => !stay.any (Indices.isSubset · larger)
  stay ++ (sets.filter (!hits · clause)).flatMap extend

/-- The smallest sets that hit every clause. -/
def minimalHittingSets (clauses : List (List Nat)) : List (List Nat) :=
  clauses.foldl hitClause [[]]

end Switching
