import Switching.Parse.Phrase
import Switching.Program.Basic

/-!
# Programs, token by token

* `Head`: the name and the parameters at the beginning of a function.
* `Stage`: how far a statement has come.
* `Draft`: the statements read so far and the stage of the next one.
* `Draft.step`: one more token.
-/

namespace Switching

/-- The beginning of a declared function. `subparams?` is there once the colon is. -/
structure Head where
  name : String
  start : Nat
  params : List String
  subparams? : Option (List String)

namespace Head

def push (h : Head) (name : String) : Head :=
  match h.subparams? with
  | none => { h with params := h.params ++ [name] }
  | some subparams => { h with subparams? := some (subparams ++ [name]) }

/-- The statement that gives the function the body `e`. Only a table may have subparameters. -/
def define (h : Head) (e : Expr) (stop : Nat) : Statement :=
  match h.subparams? with
  | none => .function ⟨h.name, h.params, e, ⟨h.start, stop⟩⟩
  | some _ =>
    .error s!"function `{h.name}` has subparameters but no table body" ⟨h.start, stop⟩

/-- The table with the rows `rows`. -/
def tabulate (h : Head) (rows : List TableRow) (stop : Nat) : FunctionTable :=
  ⟨h.name, h.params, h.subparams?.getD [], rows, ⟨h.start, stop⟩⟩

end Head

/-- How far a statement has come. -/
inductive Stage where
  /-- Before the statement. -/
  | fresh
  /-- After the name that it declares. -/
  | named (name : String) (start : Nat)
  /-- In the value of a variable. -/
  | value (name : String) (start : Nat) (phrase : Phrase)
  /-- In the parameters, where a name may stand. -/
  | params (head : Head)
  /-- In the parameters, after a name. -/
  | separator (head : Head)
  /-- After the parameters. -/
  | equals (head : Head)
  /-- Before the body of a function. -/
  | body (head : Head)
  /-- In a body that is an expression. -/
  | formula (head : Head) (phrase : Phrase)
  /-- Before the brace of a table. -/
  | brace (head : Head)
  /-- Between the rows of a table. -/
  | rows (head : Head) (rows : List TableRow)
  /-- After the pattern of a row. -/
  | pattern (head : Head) (rows : List TableRow) (pattern : List Bool) (start : Nat)
  /-- In the output of a row. -/
  | output (head : Head) (rows : List TableRow) (pattern : List Bool) (start : Nat)
      (phrase : Phrase)
  /-- After the brace that ends a table, where a semicolon may stand. -/
  | tabled (table : FunctionTable)
  /-- After the keyword of a built-in function. -/
  | keyword (f : Builtin) (start : Nat)
  /-- In its arguments. -/
  | args (f : Builtin) (start : Nat) (done : List Expr) (phrase : Phrase)
  /-- After its arguments. -/
  | called (f : Builtin) (start : Nat) (args : List Expr)

/-- What the token `found` closes. A token that may end an expression closes its last operand. A
colon, as it ends the parameters, closes a list of subparameters with a name in it. -/
def Stage.closed (found : Option Terminal) (t : Terminal) : Stage → Bool
  | .value _ _ ph | .formula _ ph | .output _ _ _ _ ph | .args _ _ _ ph =>
    ph.closed (found = some .rparen || found = some .comma || found = some .semicolon) t
  | .params h | .separator h =>
    found = some .colon && h.subparams?.any (!·.isEmpty) && (t = .comma || t = .identifier)
  | _ => false

/-- The beginning of a program. -/
structure Draft where
  done : List Statement
  stage : Stage

namespace Draft

def empty : Draft := ⟨[], .fresh⟩

def begin (done : List Statement) (t : Token) : Option Draft :=
  match t.terminal with
  | .identifier => some ⟨done, .named t.text t.span.start⟩
  | .builtin f => some ⟨done, .keyword f t.span.start⟩
  | _ => none

/-- A token in an expression that a semicolon ends: `stay` goes on with the expression, `finish`
ends it. -/
def untilSemicolon (ph : Phrase) (t : Token) (stay : Phrase → Draft) (finish : Expr → Draft) :
    Option Draft :=
  if t.terminal = .semicolon then ph.result?.map finish else (ph.step t).map stay

/-- A token in the arguments of a built-in function. The last one may be followed by a comma. -/
def argument (done : List Statement) (f : Builtin) (start : Nat) (args : List Expr) (ph : Phrase)
    (t : Token) : Option Draft :=
  match ph.step t with
  | some ph => some ⟨done, .args f start args ph⟩
  | none =>
    match t.terminal, ph.result?, ph with
    | .comma, some e, _ => some ⟨done, .args f start (args ++ [e]) .empty⟩
    | .rparen, some e, _ => some ⟨done, .called f start (args ++ [e])⟩
    | .rparen, none, ⟨[], .operand⟩ => some ⟨done, .called f start args⟩
    | _, _, _ => none

def step (d : Draft) (t : Token) : Option Draft :=
  match d.stage, t.terminal with
  | .fresh, _ => begin d.done t
  | .named n start, .equals => some ⟨d.done, .value n start .empty⟩
  | .named n start, .lparen => some ⟨d.done, .params ⟨n, start, [], none⟩⟩
  | .value n start ph, _ =>
    untilSemicolon ph t (⟨d.done, .value n start ·⟩)
      fun e => ⟨d.done ++ [.variable n e ⟨start, t.span.stop⟩], .fresh⟩
  | .params h, .identifier => some ⟨d.done, .separator (h.push t.text)⟩
  | .separator h, .comma => some ⟨d.done, .params h⟩
  | .params h, .colon | .separator h, .colon =>
    if h.subparams?.isNone then some ⟨d.done, .params { h with subparams? := some [] }⟩ else none
  | .params h, .rparen | .separator h, .rparen => some ⟨d.done, .equals h⟩
  | .equals h, .equals => some ⟨d.done, .body h⟩
  | .body h, .table => some ⟨d.done, .brace h⟩
  | .body h, _ => (Phrase.empty.step t).map (⟨d.done, .formula h ·⟩)
  | .formula h ph, _ =>
    untilSemicolon ph t (⟨d.done, .formula h ·⟩)
      fun e => ⟨d.done ++ [h.define e t.span.stop], .fresh⟩
  | .brace h, .lbrace => some ⟨d.done, .rows h []⟩
  | .rows h rows, .digits =>
    some ⟨d.done, .pattern h rows (t.text.toList.filterMap Bits.ofDigit?) t.span.start⟩
  | .rows h rows, .rbrace => some ⟨d.done, .tabled (h.tabulate rows t.span.stop)⟩
  | .pattern h rows bits start, .colon => some ⟨d.done, .output h rows bits start .empty⟩
  | .output h rows bits start ph, _ =>
    untilSemicolon ph t (⟨d.done, .output h rows bits start ·⟩)
      fun e => ⟨d.done, .rows h (rows ++ [⟨bits, e, ⟨start, t.span.stop⟩⟩])⟩
  | .tabled table, .semicolon =>
    some ⟨d.done ++ [.table { table with span := ⟨table.span.start, t.span.stop⟩ }], .fresh⟩
  | .tabled table, _ => begin (d.done ++ [.table table]) t
  | .keyword f start, .lparen => some ⟨d.done, .args f start [] .empty⟩
  | .args f start args ph, _ => argument d.done f start args ph t
  | .called f start args, .semicolon =>
    some ⟨d.done ++ [.builtin f args ⟨start, t.span.stop⟩], .fresh⟩
  | _, _ => none

/-- The program, if it may end here. -/
def result? (d : Draft) : Option Program :=
  match d.stage with
  | .fresh => some d.done
  | .tabled table => some (d.done ++ [.table table])
  | _ => none

end Draft

end Switching
