import Switching.Expr.Builtin
import Switching.Expr.Operator
import Switching.Source.Span

/-!
# Expressions

* `Expr`: the expressions of the language, each node with its place in the source.
* `Expr.join` and `Expr.negation`: nodes whose place covers their operands.
* `Expr.inputs`, `Expr.firstReference?`: the names that an expression reads.
* `Expr.usesOnly`: every connective is the given operator, and there is no `not`.
* `Expr.eraseSpans`: the expression without its places.
-/

namespace Switching

/-- An expression. A variable with `reference` set is written `name*` and always names a global
variable. An `error` stands where the source held something that is no expression. -/
inductive Expr where
  | lit (bit : Bool) (span : Span)
  | str (text : String) (span : Span)
  | var (name : String) (reference : Bool) (span : Span)
  | binary (left : Expr) (op : Operator) (right : Expr) (span : Span)
  | not (operand : Expr) (span : Span)
  | call (name : String) (args : List Expr) (span : Span)
  | builtin (builtin : Builtin) (args : List Expr) (span : Span)
  | error (message : String) (span : Span)
  deriving Inhabited

namespace Expr

/-! ## Places -/

def span : Expr → Span
  | .lit _ s | .str _ s | .var _ _ s | .binary _ _ _ s | .not _ s | .call _ _ s | .builtin _ _ s
  | .error _ s => s

mutual

/-- The expression with every place replaced by `Span.none`. -/
def eraseSpans : Expr → Expr
  | .lit b _ => .lit b .none
  | .str t _ => .str t .none
  | .var n r _ => .var n r .none
  | .binary a op b _ => .binary a.eraseSpans op b.eraseSpans .none
  | .not a _ => .not a.eraseSpans .none
  | .call n args _ => .call n (eraseSpansAll args) .none
  | .builtin f args _ => .builtin f (eraseSpansAll args) .none
  | .error m _ => .error m .none

def eraseSpansAll : List Expr → List Expr
  | [] => []
  | e :: es => e.eraseSpans :: eraseSpansAll es

end

/-! ## Building expressions -/

/-- The literal that `text` writes, or an error if it is not a single digit. -/
def ofDigits (text : String) (span : Span) : Expr :=
  match text.toList with
  | ['0'] => .lit false span
  | ['1'] => .lit true span
  | _ => .error s!"`{text}` is not a binary literal, expected 0 or 1" span

/-- The two operands under `op`, in the least place around both. -/
def join (a : Expr) (op : Operator) (b : Expr) : Expr := .binary a op b (a.span.merge b.span)

/-- The negation of `a`, in the least place around `a` and the word at `span`. -/
def negation (a : Expr) (span : Span) : Expr := .not a (span.merge a.span)

/-! ## Names -/

mutual

/-- The names of all variables that are not references, in order and with repetitions. -/
def names : Expr → List String
  | .var n false _ => [n]
  | .binary a _ b _ => a.names ++ b.names
  | .not a _ => a.names
  | .call _ args _ | .builtin _ args _ => namesAll args
  | .lit .. | .str .. | .var _ true _ | .error .. => []

def namesAll : List Expr → List String
  | [] => []
  | e :: es => e.names ++ namesAll es

end

/-- The variables that are not references, in order of first appearance. -/
def inputs (e : Expr) : List String :=
  e.names.foldl (fun seen n => if n ∈ seen then seen else seen ++ [n]) []

mutual

/-- The first reference `name*` and its place. -/
def firstReference? : Expr → Option (String × Span)
  | .var n true s => some (n, s)
  | .binary a _ b _ => a.firstReference? <|> b.firstReference?
  | .not a _ => a.firstReference?
  | .call _ args _ | .builtin _ args _ => firstReferenceAmong? args
  | .lit .. | .str .. | .var _ false _ | .error .. => none

def firstReferenceAmong? : List Expr → Option (String × Span)
  | [] => none
  | e :: es => e.firstReference? <|> firstReferenceAmong? es

end

/-! ## Shape -/

mutual

/-- Every connective is `op`; in particular there is no `not`. -/
def usesOnly (op : Operator) : Expr → Bool
  | .binary a o b _ => o = op && a.usesOnly op && b.usesOnly op
  | .not .. => false
  | .call _ args _ | .builtin _ args _ => allUseOnly op args
  | .lit .. | .str .. | .var .. | .error .. => true

def allUseOnly (op : Operator) : List Expr → Bool
  | [] => true
  | e :: es => e.usesOnly op && allUseOnly op es

end

mutual

def size : Expr → Nat
  | .binary a _ b _ => 1 + (a.size + b.size)
  | .not a _ => 1 + a.size
  | .call _ args _ | .builtin _ args _ => 1 + sizeAll args
  | .lit .. | .str .. | .var .. | .error .. => 1

def sizeAll : List Expr → Nat
  | [] => 0
  | e :: es => e.size + sizeAll es

end

end Expr

end Switching
