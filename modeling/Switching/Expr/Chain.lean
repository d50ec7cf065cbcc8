import Switching.Expr.Basic

/-!
# Chains of one operator

* `Expr.chain?`: expressions joined by an operator from the left.
* `Expr.literal`: a variable or its negation, as a row of a table or a cube asks for it.
-/

namespace Switching.Expr

/-- The expressions joined by `op`, the first two first; nothing if there are none. -/
def chain? (op : Operator) : List Expr → Option Expr
  | [] => none
  | e :: es => some (es.foldl (·.join op ·) e)

/-- The variable `name` if it has to be `b = 1`, and else its negation. -/
def literal (name : String) (b : Bool) (span : Span) : Expr :=
  if b then .var name false span else negation (.var name false span) span

end Switching.Expr
