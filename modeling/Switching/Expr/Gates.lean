import Switching.Expr.Basic

/-!
# Expressions over one gate

* `Gate`: the gates from which every connective can be built.
* `Gate.build`: a connective of two operands over one gate.
* `Expr.toGateForm`: an expression with every connective rebuilt over one gate.
-/

namespace Switching

/-- A gate from which every connective can be built. -/
inductive Gate where
  | nand
  | nor
  deriving DecidableEq

namespace Gate

def operator : Gate → Operator
  | nand => .nand
  | nor => .nor

def apply (g : Gate) (a b : Expr) : Expr := a.join g.operator b

/-- The gate on one input twice, which is its negation. -/
def invert (g : Gate) (a : Expr) : Expr := g.apply a a

/-- Four gates that share their first one: `xor` over `nand`, and `xnor` over `nor`. -/
def exclusive (g : Gate) (a b : Expr) : Expr :=
  let t := g.apply a b
  g.apply (g.apply a t) (g.apply b t)

/-- The operands `a` and `b` under `op`, over one gate. -/
def build (g : Gate) (op : Operator) (a b : Expr) : Expr :=
  match g, op with
  | nand, .nand => apply nand a b
  | nand, .and => invert nand (apply nand a b)
  | nand, .or => apply nand (invert nand a) (invert nand b)
  | nand, .nor => invert nand (apply nand (invert nand a) (invert nand b))
  | nand, .xor => exclusive nand a b
  | nand, .xnor => invert nand (exclusive nand a b)
  | nand, .imply => apply nand a (invert nand b)
  | nand, .nimply => invert nand (apply nand a (invert nand b))
  | nor, .nor => apply nor a b
  | nor, .or => invert nor (apply nor a b)
  | nor, .and => apply nor (invert nor a) (invert nor b)
  | nor, .nand => invert nor (apply nor (invert nor a) (invert nor b))
  | nor, .xnor => exclusive nor a b
  | nor, .xor => invert nor (exclusive nor a b)
  | nor, .nimply => apply nor (invert nor a) b
  | nor, .imply => invert nor (apply nor (invert nor a) b)

end Gate

namespace Expr

mutual

/-- The expression with every connective rebuilt over one gate, also inside arguments. Calls
themselves stay as they are. -/
def toGateForm (g : Gate) : Expr → Expr
  | .lit b s => .lit b s
  | .str t s => .str t s
  | .var n reference s => .var n reference s
  | .binary a op b _ => g.build op (a.toGateForm g) (b.toGateForm g)
  | .not a _ => g.invert (a.toGateForm g)
  | .call n args s => .call n (toGateFormAll g args) s
  | .builtin f args s => .builtin f (toGateFormAll g args) s
  | .error m s => .error m s

def toGateFormAll (g : Gate) : List Expr → List Expr
  | [] => []
  | e :: es => e.toGateForm g :: toGateFormAll g es

end

end Expr

end Switching
