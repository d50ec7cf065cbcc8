import Switching.Engine.Display
import Switching.Program.Compile
import Switching.Program.Printer

/-!
# Running programs

* `Effect`: what a statement does: declare a name, or put out a unit of text.
* `Statement.effect`: the effect of a statement.
* `Engine`: what runs leave behind; `Engine.execute`: one statement.
* `Engine.run`: a program up to its first failing statement, with `ExecutionError` for that one.
-/

namespace Switching

/-! ## Statements -/

/-- What a statement does. -/
inductive Effect where
  /-- The environment with one more name. -/
  | declare (env : Environment)
  /-- One more unit of output. -/
  | emit (unit : String)

/-- A value that `PRINT` puts out: a string as it is, or the bit of an expression. -/
def Expr.printed (env : Environment) (config : Config) : Expr → EvalM String
  | .str text _ => pure text
  | e => do return String.singleton (Bits.digit (← e.eval env config.maxCallDepth .empty))

/-- The unit of output of a built-in function. -/
def Builtin.output (env : Environment) (config : Config) (f : Builtin) (args : List Expr)
    (span : Span) : EvalM String :=
  match f with
  | .print => do
    return config.printSeparator.intercalate (← args.mapM (Expr.printed env config))
  | .display => do
    return "\n".intercalate (← args.mapM fun e => do return (← e.display env config).text)
  | .table => do
    return "\n\n".intercalate (← args.mapM fun e => do return (← e.truthTable env config).text)
  | .graph | .exportTo | .importFrom => throw (.notSupported f span)
  | .toNand | .toNor | .solveSop | .solvePos | .input =>
    throw (.invalidBuiltinInStatement f span)

/-- The effect of a statement. That a name is taken shows before anything is evaluated. -/
def Statement.effect (env : Environment) (config : Config) : Statement → EvalM Effect
  | .variable n e s => do
    EvalM.ofExcept (env.ensureUndeclared n s)
    let b ← e.eval env config.maxCallDepth .empty
    return .declare (← EvalM.ofExcept (env.declareVariable n b s))
  | .function f => do return .declare (← EvalM.ofExcept (env.declareFunction f))
  | .table t => do
    EvalM.ofExcept (env.ensureUndeclared t.name t.span)
    let f ← EvalM.ofExcept t.compile
    return .declare (← EvalM.ofExcept (env.declareFunction f))
  | .builtin f args s => do return .emit (← f.output env config args s)
  | .error m s => throw (.errorNode m s)

/-! ## Engines -/

/-- An engine with what it has run so far. -/
structure Engine where
  config : Config
  environment : Environment
  /-- The units of output of all runs. -/
  output : List String

namespace Engine

def fresh (config : Config) : Engine := ⟨config, .empty, []⟩

def apply (g : Engine) : Effect → Engine
  | .declare env => { g with environment := env }
  | .emit unit => { g with output := g.output ++ [unit] }

/-- Executes one statement. If it fails, the engine is as before. -/
def execute (g : Engine) (s : Statement) : Dialogue (Except RuntimeError Unit × Engine) := do
  match ← (s.effect g.environment g.config).run with
  | .ok effect => return (.ok (), g.apply effect)
  | .error e => return (.error e, g)

end Engine

/-! ## Runs -/

/-- How a run failed. -/
structure ExecutionError where
  /-- The place of the failing statement in its program. -/
  index : Nat
  /-- The failing statement as text. -/
  statement : String
  span : Span
  error : RuntimeError
  /-- The units of output before it. -/
  output : List String

def ExecutionError.message (e : ExecutionError) : String :=
  s!"statement {e.index + 1} failed: " ++ e.error.message ++ "\n  in: " ++ e.statement

namespace Engine

/-- Executes statements up to the first that fails. The first one has the number `index`, and
`start` units were there before the run. -/
def runFrom (g : Engine) (start index : Nat) :
    Program → Dialogue (Except ExecutionError (List String) × Engine)
  | [] => return (.ok (g.output.drop start), g)
  | s :: rest => do
    match ← g.execute s with
    | (.ok (), g') => g'.runFrom start (index + 1) rest
    | (.error e, g') => return (.error ⟨index, s.text, s.span, e, g'.output.drop start⟩, g')

/-- Runs a program: the units of output of this run, or how it failed. -/
def run (g : Engine) (p : Program) : Dialogue (Except ExecutionError (List String) × Engine) :=
  g.runFrom g.output.length 0 p

end Engine

end Switching
