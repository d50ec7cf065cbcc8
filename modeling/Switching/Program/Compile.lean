import Switching.Engine.Environment
import Switching.Expr.Chain

/-!
# Functions from tables

* `FunctionTable.validate`: what is wrong with a table.
* `FunctionTable.body`: the disjunction of the rows, each the conjunction of what its pattern asks
  for and its output.
* `FunctionTable.compile`: the function of a table.
-/

namespace Switching

/-- The names that the bits of a pattern stand for. -/
def FunctionTable.names (t : FunctionTable) : List String := t.params ++ t.subparams

/-! ## Validity -/

/-- The first thing wrong with the patterns of `rows`, where those of `seen` stand before them. -/
def FunctionTable.checkRows (t : FunctionTable) (seen : List (List Bool)) :
    List TableRow → Except TableError Unit
  | [] => .ok ()
  | r :: rows =>
    let least := t.params.length
    let most := t.params.length + t.subparams.length
    if r.pattern.length < least ∨ most < r.pattern.length then
      .error (.patternLength (Bits.text r.pattern) r.pattern.length least most)
    else if r.pattern ∈ seen then .error (.repeatedPattern (Bits.text r.pattern))
    else t.checkRows (r.pattern :: seen) rows

/-- The first thing wrong with a table: a parameter listed twice, a pattern that leaves out a
parameter or goes beyond the subparameters, or a pattern that stands twice. -/
def FunctionTable.validate (t : FunctionTable) : Except TableError Unit :=
  match Environment.firstRepeated? [] t.names with
  | some n => .error (.repeatedParameter n)
  | none => t.checkRows [] t.rows

/-! ## Compilation -/

/-- What the pattern of a row asks for, and then its output. -/
def TableRow.product (r : TableRow) (names : List String) : Expr :=
  match Expr.chain? .and ((names.zip r.pattern).map fun (n, b) => .literal n b r.span) with
  | some condition => condition.join .and r.output
  | none => r.output

theorem TableRow.product_eq (r : TableRow) (names : List String) : r.product names =
    (Expr.chain? .and ((names.zip r.pattern).map fun p => .literal p.1 p.2 r.span)).elim r.output
      (·.join .and r.output) := by
  unfold product
  split <;> simp_all

/-- The disjunction of the rows; without rows, 0. -/
def FunctionTable.body (t : FunctionTable) : Expr :=
  (Expr.chain? .or (t.rows.map (·.product t.names))).getD (.lit false t.span)

def FunctionTable.compile (t : FunctionTable) : Except RuntimeError Function :=
  match t.validate with
  | .error reason => .error (.invalidTable t.name reason t.span)
  | .ok () => .ok ⟨t.name, t.names, t.body, t.span⟩

end Switching
