import Switching.Cover.Primes
import Switching.Cover.Select
import Switching.Expr.Chain
import Switching.Expr.Printer
import Switching.TruthTable.Basic

/-!
# Minimal two-level forms

* `Form`: sums of products, and products of sums.
* `Cover`: implicants over named inputs.
* `Cover.minimal`: a cheapest cover of a set of indices; `Cover.minimal?`: of a set of words.
* `Cover.toExpr`: a cover as an expression.
* `TruthTable.minimize`: the minimal form of a table. `TruthTable.minimal?_eq_minimize`: tables of
  outputs are not too wide for it.
-/

namespace Switching

/-- The two-level forms. -/
inductive Form where
  /-- A disjunction of conjunctions, one for each implicant of the rows with output 1. -/
  | sumOfProducts
  /-- A conjunction of disjunctions, one for each implicant of the rows with output 0. -/
  | productOfSums
  deriving DecidableEq

namespace Form

def text : Form → String
  | sumOfProducts => "SOP"
  | productOfSums => "POS"

/-- The output of the rows that a cover of this form is made of. -/
def output : Form → Bool
  | sumOfProducts => true
  | productOfSums => false

/-- The operator that joins the literals of an implicant. -/
def inner : Form → Operator
  | sumOfProducts => .and
  | productOfSums => .or

/-- The operator that joins the implicants. -/
def outer : Form → Operator
  | sumOfProducts => .or
  | productOfSums => .and

end Form

/-- Implicants over named inputs. -/
structure Cover where
  inputs : List String
  form : Form
  implicants : List Implicant

namespace Cover

/-! ## Minimal covers -/

/-- The order of the implicants of a cover: by the first index, then by the text. -/
def implicantLE (p q : Implicant) : Bool :=
  let i := p.minterms.headD 0
  let j := q.minterms.headD 0
  if i ≠ j then i < j else decide (p.text ≤ q.text)

/-- A cheapest cover of `terms` by some of `primes`. -/
def ofPrimes (inputs : List String) (terms : List Nat) (form : Form) (primes : List Implicant) :
    Cover :=
  let chosen := (selectCover primes terms).filterMap (primes[·]?)
  ⟨inputs, form, chosen.mergeSort implicantLE⟩

/-- A cheapest cover of `terms`: rows with output 1 for a sum, with output 0 for a product. -/
def minimal (inputs : List String) (terms : List Nat) (form : Form) : Cover :=
  ofPrimes inputs terms form (primeImplicants inputs.length terms)

/-- A cheapest cover of `terms`, which are words, if they have patterns over that many inputs. -/
def minimal? (inputs : List String) (terms : List Nat) (form : Form) : Option Cover :=
  (primeImplicants? inputs.length terms).map (ofPrimes inputs terms form)

theorem minimal?_of_le {inputs : List String} (h : inputs.length ≤ Bits.wordSize)
    (terms : List Nat) (form : Form) :
    minimal? inputs terms form = some (minimal inputs terms form) := by
  rw [minimal?, primeImplicants?_of_le h]
  rfl

def literals (c : Cover) : Nat := Implicant.totalLiterals c.implicants

/-! ## Expressions -/

/-- The literals of a cube over named inputs. In a sum of products a name alone asks for the bit 1,
in a product of sums for the bit 0. -/
def cubeLiterals (form : Form) (inputs : List String) (cube : Cube) (span : Span) :
    List Expr :=
  (inputs.zip cube).filterMap fun (n, x) => x.map fun b => .literal n (b == form.output) span

def cubeExpr (form : Form) (inputs : List String) (cube : Cube) (span : Span) : Expr :=
  (Expr.chain? form.inner (cubeLiterals form inputs cube span)).getD (.lit form.output span)

/-- A cover as an expression with all places `span`. A cover with a universal cube is a constant,
and so is one without implicants. -/
def toExpr (c : Cover) (span : Span) : Expr :=
  if c.implicants.any (·.cube.isUniversal) then .lit c.form.output span
  else
    (Expr.chain? c.form.outer
      (c.implicants.map fun p => cubeExpr c.form c.inputs p.cube span)).getD
        (.lit (!c.form.output) span)

def text (c : Cover) : String := (c.toExpr .none).text

end Cover

/-- A minimal form of a table. Tables have fewer inputs than a word has bits, so that the indices of
their rows have patterns. -/
def TruthTable.minimize (t : TruthTable) (form : Form) : Cover :=
  .minimal t.inputs (t.indicesWhere form.output) form

theorem TruthTable.minimal?_of_width_le {t : TruthTable} (h : t.width ≤ Bits.wordSize)
    (form : Form) :
    Cover.minimal? t.inputs (t.indicesWhere form.output) form = some (t.minimize form) :=
  Cover.minimal?_of_le h _ form

theorem TruthTable.minimal?_eq_minimize {inputs : List String} {label : String}
    {outputs : List Bool} {t : TruthTable} (h : ofOutputs? inputs label outputs = some t)
    (form : Form) :
    Cover.minimal? t.inputs (t.indicesWhere form.output) form = some (t.minimize form) :=
  minimal?_of_width_le (Nat.le_of_lt (width_lt_of_ofOutputs? h)) form

end Switching
