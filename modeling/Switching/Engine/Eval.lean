import Switching.Engine.Environment
import Switching.Input.Dialogue

/-!
# Evaluation

* `EvalM`: computations that may ask for bits and may fail.
* `Expr.evalWith`: the bit of an expression, where a given computation stands for the bodies of
  functions. All parts of an expression are evaluated, from left to right, whatever their bits.
* `enterBody`: the body of a function, with a bound on the calls that may still be opened.
* `Expr.eval`: the bit of an expression.
-/

namespace Switching

/-- Computations that may ask for bits and may fail. -/
abbrev EvalM := ExceptT RuntimeError Dialogue

/-- A result that is there without asking. -/
def EvalM.ofExcept {α : Type} : Except RuntimeError α → EvalM α
  | .ok a => pure a
  | .error e => throw e

/-! ## Input -/

/-- The prompt that the arguments of `INPUT` give. -/
def inputPrompt (args : List Expr) (span : Span) : Except RuntimeError String :=
  match args with
  | [] => .ok Builtin.input.keyword
  | [.str text _] => .ok text
  | [_] => .error (.invalidArgument .input .promptNotString span)
  | _ => .error (.invalidArgument .input (.manyPrompts args.length) span)

def requestBit (prompt : String) (span : Span) : EvalM Bool := do
  match ← (Dialogue.request prompt : Dialogue Reply) with
  | .ok b => pure b
  | .error .unavailable => throw (.inputUnavailable prompt span)
  | .error .cancelled => throw (.inputCancelled prompt span)

/-! ## Expressions -/

/-- Enters a function with the bits of its arguments; the place is that of the call. -/
abbrev Enter := Function → List Bool → Span → EvalM Bool

namespace Expr

mutual

/-- The bit of an expression in a scope, where `enter` stands for the bodies of functions. The
built-in functions that transform an expression for display have its value. -/
def evalWith (env : Environment) (enter : Enter) (scope : Scope) : Expr → EvalM Bool
  | .lit b _ => pure b
  | .str _ s => throw (.stringNotBinary s)
  | .var n reference s => .ofExcept (env.read scope n reference s)
  | .binary a op b _ => do
    let x ← a.evalWith env enter scope
    let y ← b.evalWith env enter scope
    return op.apply x y
  | .not a _ => do return !(← a.evalWith env enter scope)
  | .call n args s => do
    let f ← EvalM.ofExcept (env.callee n args.length s)
    enter f (← evalAllWith env enter scope args) s
  | .builtin f args s =>
    match f with
    | .toNand | .toNor | .solveSop | .solvePos =>
      match args with
      | [a] => a.evalWith env enter scope
      | _ => throw (.invalidArgument f (.notOne args.length) s)
    | .input => do requestBit (← EvalM.ofExcept (inputPrompt args s)) s
    | .print | .display | .table | .graph | .exportTo | .importFrom =>
      throw (.invalidBuiltinInExpression f s)
  | .error m s => throw (.errorNode m s)

def evalAllWith (env : Environment) (enter : Enter) (scope : Scope) : List Expr → EvalM (List Bool)
  | [] => pure []
  | e :: es => do
    let b ← e.evalWith env enter scope
    let bs ← evalAllWith env enter scope es
    return b :: bs

end

end Expr

/-! ## Calls -/

/-- The body of a function, where `depth` more calls may be opened, of `limit` in all. -/
def enterBody (env : Environment) (limit : Nat) : (depth : Nat) → Enter
  | 0, f, _, s => throw (.recursionLimit f.name limit s)
  | depth + 1, f, bits, _ => f.body.evalWith env (enterBody env limit depth) (.zip f.params bits)

/-- The bit of an expression in a scope, where at most `limit` calls may be open at once. -/
def Expr.eval (env : Environment) (limit : Nat) (scope : Scope) (e : Expr) : EvalM Bool :=
  e.evalWith env (enterBody env limit limit) scope

end Switching
