import Switching.Expr.Basic
import Switching.Token.Basic

/-!
# Expressions, token by token

* `Phrase`: the beginning of an expression. It holds what is still open, innermost first, and
  where in it the last token ended.
* `Phrase.reduce`: closes `not` and the operators that bind at least as tightly as a given
  strength. As operators are left associative, an operator closes those of its own tier.
* `Phrase.step`: one more token.
* `Phrase.result?`: the expression, if nothing is left open.
-/

namespace Switching

/-! ## What is open -/

/-- What an argument list belongs to. -/
inductive Callee where
  | function (name : String)
  | builtin (f : Builtin)

def Callee.apply (c : Callee) (args : List Expr) (span : Span) : Expr :=
  match c with
  | .function name => .call name args span
  | .builtin f => .builtin f args span

/-- A construct that waits for more. -/
inductive Opened where
  /-- An operator with its left operand. -/
  | operator (left : Expr) (op : Operator)
  /-- The word `not` at the offset `start`. -/
  | not (start : Nat)
  /-- A parenthesis around an expression. -/
  | group
  /-- An argument list; its call begins at `start`, and `done` are the arguments before the last
  comma. -/
  | args (callee : Callee) (start : Nat) (done : List Expr)

/-- Where the last token ended. -/
inductive Focus where
  /-- Before an operand. -/
  | operand
  /-- After a name, which may still become a reference or a call. -/
  | name (name : String) (span : Span)
  /-- After the keyword of a built-in function, before its parenthesis. -/
  | keyword (f : Builtin) (start : Nat)
  /-- After an operand. -/
  | complete (e : Expr)

/-- The beginning of an expression. -/
structure Phrase where
  opened : List Opened
  focus : Focus

namespace Phrase

def empty : Phrase := ⟨[], .operand⟩

/-! ## Closing -/

/-- Closes what `e` completes: each `not`, and operators of precedence `p` and above. -/
def reduce (p : Nat) (e : Expr) : List Opened → Expr × List Opened
  | .not start :: rest => reduce p (e.negation ⟨start, start + 3⟩) rest
  | .operator left op :: rest =>
    if p ≤ op.precedence then reduce p (left.join op e) rest else (e, .operator left op :: rest)
  | opened => (e, opened)

/-- The token `t` after the operand `e`. -/
def follow (opened : List Opened) (e : Expr) (t : Token) : Option Phrase :=
  match t.terminal with
  | .operator op =>
    let (e, opened) := reduce op.precedence e opened
    some ⟨.operator e op :: opened, .operand⟩
  | .comma =>
    match reduce 0 e opened with
    | (e, .args callee start done :: rest) =>
      some ⟨.args callee start (done ++ [e]) :: rest, .operand⟩
    | _ => none
  | .rparen =>
    match reduce 0 e opened with
    | (e, .group :: rest) => some ⟨rest, .complete e⟩
    | (e, .args callee start done :: rest) =>
      some ⟨rest, .complete (callee.apply (done ++ [e]) ⟨start, t.span.stop⟩)⟩
    | _ => none
  | _ => none

/-! ## One token -/

/-- The text between the quotes of a string token. -/
def unquote (text : String) : String := String.ofList (text.toList.drop 1).dropLast

/-- The token `t` in the place of an operand. A closing parenthesis may stand there only to end an
argument list, which may be empty or end in a comma. -/
def begin (opened : List Opened) (t : Token) : Option Phrase :=
  match t.terminal with
  | .digits => some ⟨opened, .complete (.ofDigits t.text t.span)⟩
  | .string => some ⟨opened, .complete (.str (unquote t.text) t.span)⟩
  | .identifier => some ⟨opened, .name t.text t.span⟩
  | .builtin f => some ⟨opened, .keyword f t.span.start⟩
  | .lparen => some ⟨.group :: opened, .operand⟩
  | .not => some ⟨.not t.span.start :: opened, .operand⟩
  | .rparen =>
    match opened with
    | .args callee start done :: rest =>
      some ⟨rest, .complete (callee.apply done ⟨start, t.span.stop⟩)⟩
    | _ => none
  | _ => none

def step (ph : Phrase) (t : Token) : Option Phrase :=
  match ph.focus with
  | .operand => begin ph.opened t
  | .keyword f start =>
    if t.terminal = .lparen then some ⟨.args (.builtin f) start [] :: ph.opened, .operand⟩ else none
  | .name n span =>
    match t.terminal with
    | .star => some ⟨ph.opened, .complete (.var n true ⟨span.start, t.span.stop⟩)⟩
    | .lparen => some ⟨.args (.function n) span.start [] :: ph.opened, .operand⟩
    | _ => follow ph.opened (.var n false span) t
  | .complete e => follow ph.opened e t

/-- The operand that the last token completed. -/
def operand? (ph : Phrase) : Option Expr :=
  match ph.focus with
  | .name n span => some (.var n false span)
  | .complete e => some e
  | .operand | .keyword .. => none

/-- The kinds of tokens that continue a finished operand. -/
def continues : Terminal → Bool
  | .operator _ | .lparen | .star => true
  | _ => false

/-- A token that may end an expression, where `isEnd` says that the next one is such, ends the last
operand: what would have continued it is closed. -/
def closed (ph : Phrase) (isEnd : Bool) (t : Terminal) : Bool :=
  isEnd && ph.operand?.isSome && continues t

/-- The expression, if nothing is left open. -/
def result? (ph : Phrase) : Option Expr :=
  match ph.operand? with
  | none => none
  | some e =>
    match reduce 0 e ph.opened with
    | (e, []) => some e
    | _ => none

end Phrase

end Switching
