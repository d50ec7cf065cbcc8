import Switching.Engine.Basic

/-!
# Machines

A machine is an engine that counts its open calls. It reads everything from its state and changes it
step by step; nothing is undone when a computation fails.

* `Machine`: the state; `MachineM`: computations on it.
* `MachineM.inCall`: a computation in one more open call.
* `Machine.evalWith`, `Machine.enter`, `Machine.eval`: evaluation; a call may be opened while fewer
  are open than `maxCallDepth`.
* `Machine.truthTable`, `Machine.display`: tables and what `SHOW` displays.
* `Machine.perform`, `Machine.execute`, `Machine.run`: statements and programs.
-/

namespace Switching

variable {α : Type}

/-- An engine with the number of its open calls. -/
structure Machine extends Engine where
  depth : Nat

/-- Computations on a machine. What one has changed stays so when it fails. -/
abbrev MachineM := ExceptT RuntimeError (StateT Machine Dialogue)

namespace MachineM

/-- A computation that the machine has no part in. -/
def lift (c : EvalM α) : MachineM α := ExceptT.mk (StateT.lift c.run)

/-- A computation in one more open call, which is closed again when the computation succeeds and when
it fails. -/
def inCall (m : MachineM α) : MachineM α := ExceptT.mk do
  modify fun g => { g with depth := g.depth + 1 }
  let r ← m.run
  modify fun g => { g with depth := g.depth - 1 }
  return r

end MachineM

namespace Machine

/-! ## Evaluation -/

/-- Enters a function with the bits of its arguments; the place is that of the call. -/
abbrev Enter := Function → List Bool → Span → MachineM Bool

mutual

/-- The bit of an expression in a scope, where `enter` enters functions. -/
def evalWith (enter : Enter) (scope : Scope) : Expr → MachineM Bool
  | .lit b _ => pure b
  | .str _ s => throw (.stringNotBinary s)
  | .var n reference s => do .lift (.ofExcept ((← get).environment.read scope n reference s))
  | .not a _ => do return !(← evalWith enter scope a)
  | .binary a op b _ => do
    let x ← evalWith enter scope a
    let y ← evalWith enter scope b
    return op.apply x y
  | .call n args s => do
    let f ← .lift (.ofExcept ((← get).environment.callee n args.length s))
    let bits ← evalAllWith enter scope args
    enter f bits s
  | .builtin f args s =>
    match f with
    | .toNand | .toNor | .solveSop | .solvePos =>
      match args with
      | [a] => evalWith enter scope a
      | _ => throw (.invalidArgument f (.notOne args.length) s)
    | .input => do
      let prompt ← .lift (.ofExcept (inputPrompt args s))
      .lift (requestBit prompt s)
    | .print | .display | .table | .graph | .exportTo | .importFrom =>
      throw (.invalidBuiltinInExpression f s)
  | .error m s => throw (.errorNode m s)

def evalAllWith (enter : Enter) (scope : Scope) : List Expr → MachineM (List Bool)
  | [] => pure []
  | e :: es => do
    let b ← evalWith enter scope e
    let bs ← evalAllWith enter scope es
    return b :: bs

end

/-- Enters a function in one more open call, unless as many are open as may be. `rounds` only bounds
the recursion: the depth is checked first. -/
def enter : (rounds : Nat) → Enter
  | 0, f, _, s => do throw (.recursionLimit f.name (← get).config.maxCallDepth s)
  | rounds + 1, f, bits, s => do
    let g ← get
    if g.config.maxCallDepth ≤ g.depth then
      throw (.recursionLimit f.name g.config.maxCallDepth s)
    else (evalWith (enter rounds) (.zip f.params bits) f.body).inCall

/-- The bit of an expression in a scope. -/
def eval (scope : Scope) (e : Expr) : MachineM Bool := do
  evalWith (enter (← get).config.maxCallDepth) scope e

/-! ## Truth tables -/

/-- The results of `f` on each item, in order. -/
def sampleAll (f : α → MachineM Bool) :
    (items : List α) → MachineM { bits : List Bool // bits.length = items.length }
  | [] => pure ⟨[], rfl⟩
  | a :: rest => do
    let b ← f a
    let bits ← sampleAll f rest
    return ⟨b :: bits.1, by simp [bits.2]⟩

theorem length_outputs (e : Expr)
    (outputs : { bits : List Bool // bits.length = (Bits.patterns e.inputs.length).length }) :
    outputs.1.length = Bits.count e.inputs.length := by
  rw [outputs.2, Bits.length_patterns]

/-- The truth table of an expression. -/
def truthTable (e : Expr) : MachineM TruthTable :=
  match e.firstReference? with
  | some (name, span) => throw (.referenceAtTopLevel name span)
  | none => do
    let limit := (← get).config.tableLimit
    if limit < e.inputs.length then
      throw (.tableTooLarge e.inputs.length limit e.span)
    else
      let outputs ← sampleAll (fun bits => eval (.zip e.inputs bits) e)
        (Bits.patterns e.inputs.length)
      return ⟨e.inputs, e.text, outputs.1, length_outputs e outputs⟩

/-! ## Displayed expressions -/

/-- The body to put in place of a call, by the name and the number of arguments. -/
abbrev Inline := String → Nat → Option (List String × MachineM Expr)

mutual

/-- An expression with the transforming built-in functions carried out. -/
def displayWith (inline : Inline) : Expr → MachineM Expr
  | .lit b s => pure (.lit b s)
  | .str t s => pure (.str t s)
  | .var n reference s => pure (.var n reference s)
  | .error m s => pure (.error m s)
  | .not a s => do return .not (← displayWith inline a) s
  | .binary a op b s => do
    let a ← displayWith inline a
    let b ← displayWith inline b
    return .binary a op b s
  | .call n args s => do
    let args' ← displayAllWith inline args
    match inline n args.length with
    | some (params, body) => return (← body).substitute (params.zip args')
    | none => return .call n args' s
  | .builtin f args s =>
    match f with
    | .toNand | .toNor =>
      match args with
      | [a] => do
        let a ← displayWith inline a
        return a.toGateForm (if f = .toNand then .nand else .nor)
      | _ => throw (.invalidArgument f (.notOne args.length) s)
    | .solveSop | .solvePos =>
      match args with
      | [a] => do
        let t ← truthTable a
        return (t.minimize (if f = .solveSop then .sumOfProducts else .productOfSums)).toExpr a.span
      | _ => throw (.invalidArgument f (.notOne args.length) s)
    | .print | .display | .table | .graph | .exportTo | .importFrom | .input => do
      return .builtin f (← displayAllWith inline args) s

def displayAllWith (inline : Inline) : List Expr → MachineM (List Expr)
  | [] => pure []
  | e :: es => do
    let e ← displayWith inline e
    let es ← displayAllWith inline es
    return e :: es

end

/-- The bodies that may replace calls, where `available` are the functions that no call around them
means already. -/
def inlinedBody : (rounds : Nat) → (available : List Function) → Inline
  | 0, _ => fun _ _ => none
  | rounds + 1, available => fun name arity =>
    match available.find? (·.name = name) with
    | none => none
    | some f =>
      if f.params.length = arity then
        let others := available.filter (·.name ≠ name)
        some (f.params, displayWith (inlinedBody rounds others) f.body)
      else none

/-- An expression as `SHOW` displays it. -/
def display (e : Expr) : MachineM Expr := do
  let g ← get
  displayWith (if g.config.inlineCalls then
    inlinedBody g.environment.functions.length g.environment.functions else fun _ _ => none) e

/-! ## Statements -/

def printed : Expr → MachineM String
  | .str text _ => pure text
  | e => do return String.singleton (Bits.digit (← eval .empty e))

/-- The unit of output of a built-in function. -/
def unit (f : Builtin) (args : List Expr) (span : Span) : MachineM String :=
  match f with
  | .print => do
    let parts ← args.mapM printed
    return (← get).config.printSeparator.intercalate parts
  | .display => do
    return "\n".intercalate (← args.mapM fun e => do return (← display e).text)
  | .table => do
    return "\n\n".intercalate (← args.mapM fun e => do return (← truthTable e).text)
  | .graph | .exportTo | .importFrom => throw (.notSupported f span)
  | .toNand | .toNor | .solveSop | .solvePos | .input =>
    throw (.invalidBuiltinInStatement f span)

/-- Puts a new environment in place of the old one, unless there is none. -/
def declare (declared : Environment → Except RuntimeError Environment) : MachineM Unit := do
  let env ← .lift (.ofExcept (declared (← get).environment))
  modify fun g => { g with environment := env }

/-- Carries out a statement. -/
def perform : Statement → MachineM Unit
  | .variable n e s => do
    .lift (.ofExcept ((← get).environment.ensureUndeclared n s))
    let b ← eval .empty e
    declare (·.declareVariable n b s)
  | .function f => declare (·.declareFunction f)
  | .table t => do
    .lift (.ofExcept ((← get).environment.ensureUndeclared t.name t.span))
    let f ← .lift (.ofExcept t.compile)
    declare (·.declareFunction f)
  | .builtin f args s => do
    let text ← unit f args s
    modify fun g => { g with output := g.output ++ [text] }
  | .error m s => throw (.errorNode m s)

def fresh (config : Config) : Machine := ⟨.fresh config, 0⟩

/-- Executes one statement: whether it succeeds, and the machine after it. -/
def execute (g : Machine) (s : Statement) : Dialogue (Except RuntimeError Unit × Machine) :=
  (perform s).run.run g

/-! ## Programs -/

/-- Executes statements up to the first that fails. -/
def runFrom (g : Machine) (start index : Nat) :
    Program → Dialogue (Except ExecutionError (List String) × Machine)
  | [] => return (.ok (g.output.drop start), g)
  | s :: rest => do
    match ← g.execute s with
    | (.ok (), g') => g'.runFrom start (index + 1) rest
    | (.error e, g') => return (.error ⟨index, s.text, s.span, e, g'.output.drop start⟩, g')

/-- Runs a program: the units of output of this run, or how it failed. -/
def run (g : Machine) (p : Program) : Dialogue (Except ExecutionError (List String) × Machine) :=
  g.runFrom g.output.length 0 p

end Machine

end Switching
