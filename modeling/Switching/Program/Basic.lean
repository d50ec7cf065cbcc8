import Switching.Bits
import Switching.Expr.Basic

/-!
# Programs

* `Function`, `TableRow`, `FunctionTable`: the two ways to declare a function.
* `Statement`: a declaration, or a built-in function called for its effect.
* `Program`: statements in order.
* `Statement.declaredName?`: the name that a statement declares.
-/

namespace Switching

/-! ## Functions -/

/-- A function given by an expression over its parameters. -/
structure Function where
  name : String
  params : List String
  body : Expr
  span : Span
  deriving Inhabited

/-- One row of a function table: `output` counts for inputs that begin with `pattern`. -/
structure TableRow where
  pattern : List Bool
  output : Expr
  span : Span
  deriving Inhabited

/-- The row whose pattern `digits` writes, or nothing if it holds another character than `0` and
`1`. -/
def TableRow.ofDigits? (digits : String) (output : Expr) (span : Span) : Option TableRow :=
  (digits.toList.mapM Bits.ofDigit?).map (⟨·, output, span⟩)

/-- A function given by a table. A row fixes all of `params` and as many of `subparams` as its
pattern reaches. -/
structure FunctionTable where
  name : String
  params : List String
  subparams : List String
  rows : List TableRow
  span : Span
  deriving Inhabited

/-! ## Statements -/

/-- A statement. An `error` stands where the source held something that is no statement. -/
inductive Statement where
  | variable (name : String) (init : Expr) (span : Span)
  | function (decl : Function)
  | table (decl : FunctionTable)
  | builtin (builtin : Builtin) (args : List Expr) (span : Span)
  | error (message : String) (span : Span)
  deriving Inhabited

/-- A program: its statements in order. -/
abbrev Program := List Statement

namespace Statement

def span : Statement → Span
  | .variable _ _ s | .builtin _ _ s | .error _ s => s
  | .function decl => decl.span
  | .table decl => decl.span

def declaredName? : Statement → Option String
  | .variable n _ _ => some n
  | .function decl => some decl.name
  | .table decl => some decl.name
  | .builtin .. | .error .. => none

end Statement

/-! ## Erasing places -/

def Function.eraseSpans (f : Function) : Function :=
  { f with body := f.body.eraseSpans, span := .none }

def TableRow.eraseSpans (r : TableRow) : TableRow :=
  { r with output := r.output.eraseSpans, span := .none }

def FunctionTable.eraseSpans (t : FunctionTable) : FunctionTable :=
  { t with rows := t.rows.map TableRow.eraseSpans, span := .none }

def Statement.eraseSpans : Statement → Statement
  | .variable n e _ => .variable n e.eraseSpans .none
  | .function decl => .function decl.eraseSpans
  | .table decl => .table decl.eraseSpans
  | .builtin f args _ => .builtin f (args.map Expr.eraseSpans) .none
  | .error m _ => .error m .none

end Switching
