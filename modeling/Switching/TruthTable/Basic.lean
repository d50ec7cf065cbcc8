import Switching.Bits

/-!
# Truth tables

* `TruthTable`: a column of outputs, one for each combination of the inputs.
* `TruthTable.ofOutputs?`: a table, if the number of outputs is right and fits into a word.
* `TruthTable.minterms`, `TruthTable.maxterms`: the rows with output 1 and those with output 0.
* `TruthTable.text`: a table in columns.
-/

namespace Switching

/-- A truth table. Row `i` holds the output where the inputs have the bits of `i`, the first
one the most significant one. -/
structure TruthTable where
  inputs : List String
  label : String
  outputs : List Bool
  /-- There is one output for each combination. -/
  complete : outputs.length = Bits.count inputs.length

namespace TruthTable

/-- The table with these outputs, if there is one for each combination and the number of
combinations fits into a word. -/
def ofOutputs? (inputs : List String) (label : String) (outputs : List Bool) :
    Option TruthTable :=
  if inputs.length < Bits.wordSize then
    if h : outputs.length = Bits.count inputs.length then some ⟨inputs, label, outputs, h⟩ else none
  else none

def width (t : TruthTable) : Nat := t.inputs.length

theorem width_lt_of_ofOutputs? {inputs : List String} {label : String} {outputs : List Bool}
    {t : TruthTable} (h : ofOutputs? inputs label outputs = some t) : t.width < Bits.wordSize := by
  unfold ofOutputs? at h
  split at h
  case isTrue hwidth =>
    split at h
    · cases h
      exact hwidth
    · cases h
  case isFalse => cases h

/-! ## Rows -/

/-- The rows: the bits of the inputs, and the output. -/
def rows (t : TruthTable) : List (List Bool × Bool) := (Bits.patterns t.width).zip t.outputs

/-- The indices of the rows with output `b`, in order. -/
def indicesWhere (t : TruthTable) (b : Bool) : List Nat :=
  (t.outputs.zipIdx.filter (·.1 = b)).map (·.2)

def minterms (t : TruthTable) : List Nat := t.indicesWhere true

def maxterms (t : TruthTable) : List Nat := t.indicesWhere false

/-! ## Text -/

/-- A cell filled up with blanks to `width` characters. -/
def pad (width : Nat) (cell : String) : String :=
  cell ++ String.ofList (List.replicate (width - cell.length) ' ')

/-- A line of cells: all but the last one are padded to the widths of their columns. -/
def line : List (String × Nat) → String
  | [] => ""
  | [(cell, _)] => cell
  | (cell, width) :: rest => pad width cell ++ " | " ++ line rest

def headers (t : TruthTable) : List String := t.inputs ++ [t.label]

/-- The widths of the columns: that of the header, and at least one. -/
def widths (t : TruthTable) : List Nat := t.headers.map fun h => max h.length 1

def rule (t : TruthTable) : String :=
  "-+-".intercalate (t.widths.map fun w => String.ofList (List.replicate w '-'))

def rowLine (t : TruthTable) (row : List Bool × Bool) : String :=
  line (((row.1 ++ [row.2]).map fun b => String.singleton (Bits.digit b)).zip t.widths)

/-- The lines of a table: headers, rule, rows. -/
def lines (t : TruthTable) : List String :=
  line (t.headers.zip t.widths) :: t.rule :: t.rows.map t.rowLine

def text (t : TruthTable) : String := "\n".intercalate t.lines

end TruthTable

end Switching
