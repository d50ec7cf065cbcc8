import Switching.Cover.Basic
import Switching.Expr.Gates
import Switching.TruthTable.Eval

/-!
# What SHOW displays

* `Expr.substitute`: expressions in place of plain variables.
* `Expr.displayWith`: an expression with the transforming built-in functions carried out, where a
  given choice of calls is replaced by the bodies of their functions.
* `inlinedBody`: the bodies that may replace calls, each function at most once on the way inward.
* `Expr.display`: an expression as `SHOW` displays it.
-/

namespace Switching

namespace Expr

/-! ## Substitution -/

mutual

/-- The expression with the expressions of `bindings` in place of its plain variables. References
stay. -/
def substitute (bindings : List (String × Expr)) : Expr → Expr
  | .var n false s => (bindings.lookup n).getD (.var n false s)
  | .binary a op b s => .binary (a.substitute bindings) op (b.substitute bindings) s
  | .not a s => .not (a.substitute bindings) s
  | .call n args s => .call n (substituteAll bindings args) s
  | .builtin f args s => .builtin f (substituteAll bindings args) s
  | .lit b s => .lit b s
  | .str t s => .str t s
  | .var n true s => .var n true s
  | .error m s => .error m s

def substituteAll (bindings : List (String × Expr)) : List Expr → List Expr
  | [] => []
  | e :: es => e.substitute bindings :: substituteAll bindings es

end

/-! ## Transforming -/

/-- The body to put in place of a call, by the name and the number of arguments: its parameters,
and what it displays as. -/
abbrev Inline := String → Nat → Option (List String × EvalM Expr)

mutual

/-- An expression with the transforming built-in functions carried out: `TO_NAND` and `TO_NOR` give
the gate form of their operand, `SOLVE_SOP` and `SOLVE_POS` the minimal form of its truth table.
Calls are replaced as `inline` says, once their arguments are transformed. -/
def displayWith (env : Environment) (config : Config) (inline : Inline) : Expr → EvalM Expr
  | .lit b s => pure (.lit b s)
  | .str t s => pure (.str t s)
  | .var n reference s => pure (.var n reference s)
  | .error m s => pure (.error m s)
  | .not a s => do return .not (← a.displayWith env config inline) s
  | .binary a op b s => do
    let a ← a.displayWith env config inline
    let b ← b.displayWith env config inline
    return .binary a op b s
  | .call n args s => do
    let args' ← displayAllWith env config inline args
    match inline n args.length with
    | some (params, body) => return (← body).substitute (params.zip args')
    | none => return .call n args' s
  | .builtin f args s =>
    match f with
    | .toNand | .toNor =>
      match args with
      | [a] => do
        let a ← a.displayWith env config inline
        return a.toGateForm (if f = .toNand then .nand else .nor)
      | _ => throw (.invalidArgument f (.notOne args.length) s)
    | .solveSop | .solvePos =>
      match args with
      | [a] => do
        let t ← a.truthTable env config
        return (t.minimize (if f = .solveSop then .sumOfProducts else .productOfSums)).toExpr a.span
      | _ => throw (.invalidArgument f (.notOne args.length) s)
    | .print | .display | .table | .graph | .exportTo | .importFrom | .input => do
      return .builtin f (← displayAllWith env config inline args) s

def displayAllWith (env : Environment) (config : Config) (inline : Inline) :
    List Expr → EvalM (List Expr)
  | [] => pure []
  | e :: es => do
    let e ← e.displayWith env config inline
    let es ← displayAllWith env config inline es
    return e :: es

end

end Expr

/-! ## Inlining -/

/-- The bodies that may replace calls, where `available` are the functions that no call around
them means already, and `rounds` is their number. -/
def inlinedBody (env : Environment) (config : Config) :
    (rounds : Nat) → (available : List Function) → Expr.Inline
  | 0, _ => fun _ _ => none
  | rounds + 1, available => fun name arity =>
    match available.find? (·.name = name) with
    | none => none
    | some f =>
      if f.params.length = arity then
        let others := available.filter (·.name ≠ name)
        some (f.params, f.body.displayWith env config (inlinedBody env config rounds others))
      else none

/-- An expression as `SHOW` displays it. -/
def Expr.display (env : Environment) (config : Config) (e : Expr) : EvalM Expr :=
  e.displayWith env config <|
    if config.inlineCalls then inlinedBody env config env.functions.length env.functions
    else fun _ _ => none

end Switching
