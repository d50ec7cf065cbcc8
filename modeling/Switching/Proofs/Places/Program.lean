import Switching.Engine.Basic
import Switching.Proofs.Places.Expr

/-!
# Statements and declarations without places

* `Statement.text_eraseSpans`: the text of a statement.
* `FunctionTable.compile_eraseSpans`: the function of a table, or what is wrong with it.
* `Environment.eraseSpans`: an environment without places; `Environment.function?_eraseSpans` and its
  siblings read it.
* `Environment.declareFunction_eraseSpans`, `Environment.declareVariable_eraseSpans`: declarations.
-/

namespace Switching

/-- An outcome without its places, where `f` takes them out of a result. -/
def eraseOutcome {α β : Type} (f : α → β) : Except RuntimeError α → Except RuntimeError β
  | .ok a => .ok (f a)
  | .error e => .error e.eraseSpan

/-! ## Texts -/

theorem TableRow.text_eraseSpans (r : TableRow) : r.eraseSpans.text = r.text :=
  congrArg (Bits.text r.pattern ++ ": " ++ · ++ ";") r.output.text_eraseSpans

theorem FunctionTable.text_eraseSpans (t : FunctionTable) : t.eraseSpans.text = t.text := by
  have hrows : (t.rows.map TableRow.eraseSpans).map (fun r => " " ++ r.text) =
      t.rows.map fun r => " " ++ r.text := by
    rw [List.map_map]
    exact List.map_congr_left fun r _ => congrArg (" " ++ ·) r.text_eraseSpans
  rw [text, text, eraseSpans, hrows]

theorem Statement.text_eraseSpans (s : Statement) : s.eraseSpans.text = s.text := by
  cases s with
  | «variable» n e s => exact congrArg (n ++ " = " ++ · ++ ";") e.text_eraseSpans
  | function f =>
    exact congrArg (f.name ++ "(" ++ commaList f.params ++ ") = " ++ · ++ ";") f.body.text_eraseSpans
  | table t => exact t.text_eraseSpans
  | builtin f args s =>
    have hargs : (args.map Expr.eraseSpans).map Expr.text = args.map Expr.text := by
      rw [List.map_map]
      exact List.map_congr_left fun a _ => a.text_eraseSpans
    rw [eraseSpans, text, text, hargs]
  | error m s => rfl

theorem Statement.span_eraseSpans (s : Statement) : s.eraseSpans.span = .none := by
  cases s <;> rfl

/-! ## Tables -/

namespace FunctionTable

theorem checkRows_eraseSpans (t : FunctionTable) (seen : List (List Bool)) (rows : List TableRow) :
    t.eraseSpans.checkRows seen (rows.map TableRow.eraseSpans) = t.checkRows seen rows := by
  induction rows generalizing seen with
  | nil => rfl
  | cons r rows ih =>
    rw [List.map_cons, checkRows, checkRows, ih]
    rfl

theorem validate_eraseSpans (t : FunctionTable) : t.eraseSpans.validate = t.validate := by
  have hrows : t.eraseSpans.checkRows [] t.eraseSpans.rows = t.checkRows [] t.rows :=
    t.checkRows_eraseSpans [] t.rows
  rw [validate, validate, hrows]
  rfl

end FunctionTable

theorem TableRow.eraseSpans_product (r : TableRow) (names : List String) :
    (r.product names).eraseSpans = r.eraseSpans.product names := by
  have hliterals : ((names.zip r.pattern).map fun p => Expr.literal p.1 p.2 r.span).map
      Expr.eraseSpans = (names.zip r.pattern).map fun p => Expr.literal p.1 p.2 .none := by
    rw [List.map_map]
    exact List.map_congr_left fun p _ => Expr.eraseSpans_literal p.1 p.2 r.span
  have hcondition := Expr.eraseSpans_chain? .and
    ((names.zip r.pattern).map fun p => Expr.literal p.1 p.2 r.span)
  rw [hliterals] at hcondition
  rw [product_eq, product_eq, eraseSpans, ← hcondition]
  cases Expr.chain? .and ((names.zip r.pattern).map _) with
  | none => rfl
  | some condition => exact Expr.eraseSpans_join condition .and r.output

namespace FunctionTable

theorem eraseSpans_body (t : FunctionTable) : t.body.eraseSpans = t.eraseSpans.body := by
  have hrows : (t.rows.map fun r => r.product t.names).map Expr.eraseSpans =
      (t.rows.map TableRow.eraseSpans).map fun r => r.product t.names := by
    rw [List.map_map, List.map_map]
    exact List.map_congr_left fun r _ => r.eraseSpans_product t.names
  have hnames : t.eraseSpans.names = t.names := rfl
  rw [body, body, hnames, eraseSpans, ← hrows, ← Expr.eraseSpans_chain?]
  cases Expr.chain? .or (t.rows.map fun r => r.product t.names) <;> rfl

theorem compile_eraseSpans (t : FunctionTable) :
    t.eraseSpans.compile = eraseOutcome Function.eraseSpans t.compile := by
  rw [compile, compile, validate_eraseSpans, ← eraseSpans_body]
  cases t.validate <;> rfl

end FunctionTable

/-! ## Environments -/

namespace Environment

def eraseSpans (env : Environment) : Environment :=
  { env with functions := env.functions.map Function.eraseSpans }

variable (env : Environment)

theorem function?_eraseSpans (n : String) :
    env.eraseSpans.function? n = (env.function? n).map Function.eraseSpans :=
  List.find?_map ..

theorem declared?_eraseSpans (n : String) : env.eraseSpans.declared? n = env.declared? n := by
  rw [declared?, declared?, function?_eraseSpans, Option.isSome_map]
  rfl

theorem read_eraseSpans (scope : Scope) (n : String) (r : Bool) (s : Span) :
    env.eraseSpans.read scope n r .none = eraseOutcome id (env.read scope n r s) := by
  have helim : ∀ (o : Option Bool) (e : RuntimeError),
      o.elim (.error e.eraseSpan) .ok = eraseOutcome id (o.elim (.error e) .ok) := fun o e => by
    cases o <;> rfl
  unfold read
  cases scope.isEmpty <;> cases r
  · exact helim (scope.get? n) (.parameterNotDefined n s)
  · exact helim (env.bit? n) (.referenceNotDefined n s)
  · exact helim (env.bit? n) (.undefinedVariable n s)
  · rfl

theorem callee_eraseSpans (n : String) (found : Nat) (s : Span) :
    env.eraseSpans.callee n found .none =
      eraseOutcome Function.eraseSpans (env.callee n found s) := by
  rw [callee, callee, function?_eraseSpans]
  cases env.function? n with
  | none => rfl
  | some f =>
    by_cases hf : f.params.length = found <;> simp [hf, Function.eraseSpans, eraseOutcome, RuntimeError.eraseSpan]

/-! ## Declarations -/

theorem ensureUndeclared_eraseSpans (n : String) (s : Span) :
    env.eraseSpans.ensureUndeclared n .none = eraseOutcome id (env.ensureUndeclared n s) := by
  rw [ensureUndeclared, ensureUndeclared, declared?_eraseSpans]
  cases env.declared? n <;> rfl

theorem declareVariable_eraseSpans (n : String) (b : Bool) (s : Span) :
    env.eraseSpans.declareVariable n b .none =
      eraseOutcome eraseSpans (env.declareVariable n b s) := by
  rw [declareVariable, declareVariable, ensureUndeclared_eraseSpans env n s]
  cases env.ensureUndeclared n s <;> rfl

theorem declareFunction_eraseSpans (f : Function) :
    env.eraseSpans.declareFunction f.eraseSpans =
      eraseOutcome eraseSpans (env.declareFunction f) := by
  have hfree : env.eraseSpans.ensureUndeclared f.eraseSpans.name f.eraseSpans.span =
      eraseOutcome id (env.ensureUndeclared f.name f.span) :=
    ensureUndeclared_eraseSpans env f.name f.span
  have hparams : f.eraseSpans.params = f.params := rfl
  rw [declareFunction, declareFunction, hfree, hparams]
  cases env.ensureUndeclared f.name f.span with
  | error e => rfl
  | ok u =>
    cases firstRepeated? [] f.params with
    | some p => rfl
    | none => simp [eraseOutcome, eraseSpans, pure, Except.pure, bind, Except.bind]

end Environment

end Switching
