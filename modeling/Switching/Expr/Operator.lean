/-!
# Binary operators

* `Operator`: the eight connectives with their keywords (`Operator.keyword`).
* `Operator.apply`: the truth function of each.
* `Operator.precedence`: how tightly each binds; the four tiers are all left associative.
-/

namespace Switching

inductive Operator where
  | and | or | xor | nand | nor | xnor | imply | nimply
  deriving DecidableEq

namespace Operator

def all : List Operator := [.and, .or, .xor, .nand, .nor, .xnor, .imply, .nimply]

theorem mem_all (op : Operator) : op ∈ all := by cases op <;> decide

def keyword : Operator → String
  | .and => "and"
  | .or => "or"
  | .xor => "xor"
  | .nand => "nand"
  | .nor => "nor"
  | .xnor => "xnor"
  | .imply => "imply"
  | .nimply => "nimply"

def ofKeyword? (word : String) : Option Operator := all.find? (·.keyword = word)

theorem ofKeyword?_keyword (op : Operator) : ofKeyword? op.keyword = some op := by
  cases op <;> decide

def apply (op : Operator) (a b : Bool) : Bool :=
  match op with
  | .and => a && b
  | .or => a || b
  | .xor => a ^^ b
  | .nand => !(a && b)
  | .nor => !(a || b)
  | .xnor => !(a ^^ b)
  | .imply => !a || b
  | .nimply => a && !b

/-- How tightly the operator binds: the larger, the tighter. -/
def precedence : Operator → Nat
  | .imply | .nimply => 1
  | .or | .nor => 2
  | .xor | .xnor => 3
  | .and | .nand => 4

/-- How tightly `not` binds: tighter than every operator. -/
def notPrecedence : Nat := 5

theorem precedence_lt_notPrecedence (op : Operator) : op.precedence < notPrecedence := by
  cases op <;> decide

end Operator

end Switching
