/-!
# Built-in functions

* `Builtin`: the built-in functions with their keywords (`Builtin.keyword`).
* `Builtin.isExpression`: those that have a value and so stand inside an expression.
* `Builtin.isUnsupported`: those whose name is reserved and which do nothing yet.
-/

namespace Switching

inductive Builtin where
  | print | display | table | graph | exportTo | importFrom
  | toNand | toNor | solveSop | solvePos | input
  deriving DecidableEq

namespace Builtin

def all : List Builtin :=
  [.print, .display, .table, .graph, .exportTo, .importFrom, .toNand, .toNor, .solveSop, .solvePos,
    .input]

theorem mem_all (b : Builtin) : b ∈ all := by cases b <;> decide

def keyword : Builtin → String
  | .print => "PRINT"
  | .display => "SHOW"
  | .table => "TABLE"
  | .graph => "GRAPH"
  | .exportTo => "EXPORT"
  | .importFrom => "IMPORT"
  | .toNand => "TO_NAND"
  | .toNor => "TO_NOR"
  | .solveSop => "SOLVE_SOP"
  | .solvePos => "SOLVE_POS"
  | .input => "INPUT"

/-- The built-in function that `word` names. -/
def ofKeyword? (word : String) : Option Builtin := all.find? (·.keyword = word)

theorem ofKeyword?_keyword (b : Builtin) : ofKeyword? b.keyword = some b := by
  cases b <;> decide

/-- The function has a value. -/
def isExpression : Builtin → Bool
  | .toNand | .toNor | .solveSop | .solvePos | .input => true
  | _ => false

/-- The name is reserved for a function that does nothing yet. -/
def isUnsupported : Builtin → Bool
  | .graph | .exportTo | .importFrom => true
  | _ => false

end Builtin

end Switching
