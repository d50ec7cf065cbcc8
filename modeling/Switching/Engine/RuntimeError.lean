import Switching.Expr.Builtin
import Switching.Source.Span
import Switching.Text.Quoted

/-!
# Runtime errors

* `RuntimeError`: what can go wrong while a program runs.
* `RuntimeError.message`: its text; `RuntimeError.span`: its place.
* `ErrorClass` and `RuntimeError.errorClass`: the kind of mistake behind it.
-/

namespace Switching

/-- What a name is declared as. -/
inductive Declared where
  | variable
  | function
  deriving DecidableEq

def Declared.text : Declared → String
  | .variable => "variable"
  | .function => "function"

/-- What can be wrong with the arguments of a built-in function. -/
inductive ArgumentError where
  /-- It takes one expression. -/
  | notOne (found : Nat)
  /-- The prompt is no string. -/
  | promptNotString
  /-- There is more than one prompt. -/
  | manyPrompts (found : Nat)
  deriving DecidableEq

def ArgumentError.message : ArgumentError → String
  | notOne found => s!"expected exactly one expression, found {found}"
  | promptNotString => "the prompt must be a string literal"
  | manyPrompts found => s!"expected at most one prompt, found {found}"

/-- What can be wrong with a function table. -/
inductive TableError where
  /-- A parameter is listed twice. -/
  | repeatedParameter (name : String)
  /-- A pattern has not between `least` and `most` bits. -/
  | patternLength (pattern : String) (length least most : Nat)
  /-- Two rows have the same pattern. -/
  | repeatedPattern (pattern : String)
  deriving DecidableEq

def TableError.message : TableError → String
  | repeatedParameter name => s!"parameter `{name}` is listed more than once"
  | patternLength pattern length least most =>
    let bounds := if least = most then s!"{least}" else s!"{least} to {most}"
    s!"row `{pattern}` has {length} bit(s) but the table expects {bounds}"
  | repeatedPattern pattern => s!"row `{pattern}` appears more than once"

/-- What can go wrong while a program runs, and where. -/
inductive RuntimeError where
  | alreadyDeclared (name : String) (existing : Declared) (span : Span)
  | duplicateParameter (function parameter : String) (span : Span)
  | undefinedVariable (name : String) (span : Span)
  | parameterNotDefined (name : String) (span : Span)
  | referenceNotDefined (name : String) (span : Span)
  | referenceAtTopLevel (name : String) (span : Span)
  | undefinedFunction (name : String) (span : Span)
  | arityMismatch (name : String) (expected found : Nat) (span : Span)
  | recursionLimit (name : String) (limit : Nat) (span : Span)
  | invalidArgument (builtin : Builtin) (reason : ArgumentError) (span : Span)
  | errorNode (message : String) (span : Span)
  | stringNotBinary (span : Span)
  | invalidTable (name : String) (reason : TableError) (span : Span)
  | notSupported (builtin : Builtin) (span : Span)
  | invalidBuiltinInExpression (builtin : Builtin) (span : Span)
  | invalidBuiltinInStatement (builtin : Builtin) (span : Span)
  | tableTooLarge (found limit : Nat) (span : Span)
  | inputUnavailable (prompt : String) (span : Span)
  | inputCancelled (prompt : String) (span : Span)
  deriving DecidableEq

/-- The kinds of mistakes. -/
inductive ErrorClass where
  | declarationConflict | resolution | contractViolation | unsupported | input
  deriving DecidableEq

namespace RuntimeError

def message : RuntimeError → String
  | alreadyDeclared name existing _ => s!"`{name}` is already declared as a {existing.text}"
  | duplicateParameter function parameter _ =>
    s!"parameter `{parameter}` appears more than once in `{function}`"
  | undefinedVariable name _ => s!"variable not defined: `{name}`"
  | parameterNotDefined name _ => s!"parameter not defined: `{name}`"
  | referenceNotDefined name _ => s!"reference not defined: `{name}*`"
  | referenceAtTopLevel name _ =>
    s!"reference `{name}*` is only meaningful inside a function body"
  | undefinedFunction name _ => s!"function not defined: `{name}`"
  | arityMismatch name expected found _ =>
    s!"`{name}` expects {expected} argument(s) but was called with {found}"
  | recursionLimit name limit _ => s!"call to `{name}` exceeds the maximum call depth of {limit}"
  | invalidArgument builtin reason _ =>
    s!"invalid argument to {builtin.keyword}: {reason.message}"
  | errorNode message _ => s!"cannot execute malformed code: {message}"
  | stringNotBinary _ => "a string literal has no binary value"
  | invalidTable name reason _ => s!"invalid function table `{name}`: {reason.message}"
  | notSupported builtin _ => s!"{builtin.keyword} is not supported yet"
  | invalidBuiltinInExpression builtin _ => s!"invalid builtin in expression: {builtin.keyword}"
  | invalidBuiltinInStatement builtin _ =>
    s!"{builtin.keyword} can only be used inside an expression"
  | tableTooLarge found limit _ =>
    s!"truth table over {found} variables exceeds the limit of {limit}"
  | inputUnavailable prompt _ =>
    "no input source available for INPUT(" ++ Quoted.text prompt ++ ")"
  | inputCancelled prompt _ => "input request " ++ Quoted.text prompt ++ " was cancelled"

def span : RuntimeError → Span
  | alreadyDeclared _ _ s | duplicateParameter _ _ s | undefinedVariable _ s
  | parameterNotDefined _ s | referenceNotDefined _ s | referenceAtTopLevel _ s
  | undefinedFunction _ s | arityMismatch _ _ _ s | recursionLimit _ _ s | invalidArgument _ _ s
  | errorNode _ s | stringNotBinary s | invalidTable _ _ s | notSupported _ s
  | invalidBuiltinInExpression _ s | invalidBuiltinInStatement _ s | tableTooLarge _ _ s
  | inputUnavailable _ s | inputCancelled _ s => s

def errorClass : RuntimeError → ErrorClass
  | alreadyDeclared .. | duplicateParameter .. => .declarationConflict
  | undefinedVariable .. | parameterNotDefined .. | referenceNotDefined .. | referenceAtTopLevel ..
  | undefinedFunction .. | arityMismatch .. | recursionLimit .. | invalidArgument .. => .resolution
  | errorNode .. | stringNotBinary .. | invalidTable .. => .contractViolation
  | notSupported .. | invalidBuiltinInExpression .. | invalidBuiltinInStatement ..
  | tableTooLarge .. => .unsupported
  | inputUnavailable .. | inputCancelled .. => .input

/-- The error is that a function has a reserved name and does nothing yet. -/
def isNotSupported : RuntimeError → Bool
  | notSupported .. => true
  | _ => false

def eraseSpan : RuntimeError → RuntimeError
  | alreadyDeclared n e _ => alreadyDeclared n e .none
  | duplicateParameter f p _ => duplicateParameter f p .none
  | undefinedVariable n _ => undefinedVariable n .none
  | parameterNotDefined n _ => parameterNotDefined n .none
  | referenceNotDefined n _ => referenceNotDefined n .none
  | referenceAtTopLevel n _ => referenceAtTopLevel n .none
  | undefinedFunction n _ => undefinedFunction n .none
  | arityMismatch n e f _ => arityMismatch n e f .none
  | recursionLimit n l _ => recursionLimit n l .none
  | invalidArgument b r _ => invalidArgument b r .none
  | errorNode m _ => errorNode m .none
  | stringNotBinary _ => stringNotBinary .none
  | invalidTable n r _ => invalidTable n r .none
  | notSupported b _ => notSupported b .none
  | invalidBuiltinInExpression b _ => invalidBuiltinInExpression b .none
  | invalidBuiltinInStatement b _ => invalidBuiltinInStatement b .none
  | tableTooLarge v l _ => tableTooLarge v l .none
  | inputUnavailable p _ => inputUnavailable p .none
  | inputCancelled p _ => inputCancelled p .none

end RuntimeError

end Switching
