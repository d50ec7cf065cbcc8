import Switching.Bits
import Switching.Expr.Basic

/-!
# Text of expressions

* `Expr.textAt min`: an expression where something that binds at strength `min` surrounds it: it
  stands in parentheses exactly if its outermost operator binds less tightly.
* `Expr.text`: an expression on its own.
-/

namespace Switching

def commaList (items : List String) : String := ", ".intercalate items

namespace Expr

mutual

/-- The text of an expression in a place that admits operators of precedence `min` and above. The
left operand of an operator may repeat its precedence and the right one may not, so chains read
from the left. -/
def textAt (min : Nat) : Expr → String
  | .lit b _ => String.singleton (Bits.digit b)
  | .str t _ => "\"" ++ t ++ "\""
  | .var n reference _ => if reference then n ++ "*" else n
  | .binary a op b _ =>
    let inner := a.textAt op.precedence ++ " " ++ op.keyword ++ " " ++ b.textAt (op.precedence + 1)
    if op.precedence < min then "(" ++ inner ++ ")" else inner
  | .not a _ => "not " ++ a.textAt Operator.notPrecedence
  | .call n args _ => n ++ "(" ++ commaList (textAll args) ++ ")"
  | .builtin f args _ => f.keyword ++ "(" ++ commaList (textAll args) ++ ")"
  | .error m _ => "<error: " ++ m ++ ">"

def textAll : List Expr → List String
  | [] => []
  | e :: es => e.textAt 0 :: textAll es

end

/-- The text of an expression, with parentheses only where its shape needs them. -/
def text (e : Expr) : String := e.textAt 0

theorem textAll_eq_map (es : List Expr) : textAll es = es.map text := by
  induction es with
  | nil => simp [textAll]
  | cons e es ih => simp [textAll, ih, text]

end Expr

end Switching
