import Switching.Engine.RuntimeError
import Switching.Engine.Scope
import Switching.Program.Basic

/-!
# The global environment

* `Environment`: the variables and functions that have been declared. A name is declared once.
* `Environment.declareVariable`, `Environment.declareFunction`: declarations.
* `Environment.read`: the bit that a variable stands for in a scope.
* `Environment.callee`: the function that a call means.
-/

namespace Switching

/-- The variables and functions that have been declared, oldest first. -/
structure Environment where
  globals : List (String × Bool)
  functions : List Function

namespace Environment

def empty : Environment := ⟨[], []⟩

/-! ## Looking up -/

def bit? (env : Environment) (name : String) : Option Bool := env.globals.lookup name

def function? (env : Environment) (name : String) : Option Function :=
  env.functions.find? (·.name = name)

def declared? (env : Environment) (name : String) : Option Declared :=
  if (env.bit? name).isSome then some .variable
  else if (env.function? name).isSome then some .function
  else none

/-- The bit that a variable stands for. Inside a function a plain name is a parameter and a
reference a global variable; outside, a plain name is a global variable and there are no
references. -/
def read (env : Environment) (scope : Scope) (name : String) (reference : Bool) (span : Span) :
    Except RuntimeError Bool :=
  match scope.isEmpty, reference with
  | false, false => (scope.get? name).elim (.error (.parameterNotDefined name span)) .ok
  | false, true => (env.bit? name).elim (.error (.referenceNotDefined name span)) .ok
  | true, false => (env.bit? name).elim (.error (.undefinedVariable name span)) .ok
  | true, true => .error (.referenceAtTopLevel name span)

/-- The function that a call with `found` arguments means. -/
def callee (env : Environment) (name : String) (found : Nat) (span : Span) :
    Except RuntimeError Function :=
  match env.function? name with
  | none => .error (.undefinedFunction name span)
  | some f =>
    if f.params.length = found then .ok f
    else .error (.arityMismatch name f.params.length found span)

/-! ## Declaring -/

/-- Fails if a name is already declared. -/
def ensureUndeclared (env : Environment) (name : String) (span : Span) : Except RuntimeError Unit :=
  match env.declared? name with
  | some existing => .error (.alreadyDeclared name existing span)
  | none => .ok ()

def declareVariable (env : Environment) (name : String) (b : Bool) (span : Span) :
    Except RuntimeError Environment := do
  env.ensureUndeclared name span
  return { env with globals := env.globals ++ [(name, b)] }

/-- The first name that stands a second time in a list. -/
def firstRepeated? : List String → List String → Option String
  | _, [] => none
  | seen, n :: ns => if n ∈ seen then some n else firstRepeated? (n :: seen) ns

/-- Declares a function. Its parameters have to be distinct. -/
def declareFunction (env : Environment) (f : Function) : Except RuntimeError Environment := do
  env.ensureUndeclared f.name f.span
  match firstRepeated? [] f.params with
  | some p => .error (.duplicateParameter f.name p f.span)
  | none => return { env with functions := env.functions ++ [f] }

end Environment

end Switching
