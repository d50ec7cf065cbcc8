import Switching.Parse.Reader
import Switching.Parse.Stage

/-!
# Parsing

* `Program.parse`: the program that a text writes.
* `Expr.parse`: the expression that a text writes.
-/

namespace Switching

/-- Programs, token by token. -/
def programReader : TokenReader Draft Program where
  start := .empty
  step := Draft.step
  result? := Draft.result?
  closed d found t := d.stage.closed found t

/-- Single expressions, token by token. -/
def exprReader : TokenReader Phrase Expr where
  start := .empty
  step := Phrase.step
  result? := Phrase.result?
  closed ph found t := ph.closed (found = some .rparen || found = some .comma || found = none) t

/-- The program that `source` writes. -/
def Program.parse (source : String) : Except SyntaxError Program := programReader.parse source

/-- The expression that `source` writes. -/
def Expr.parse (source : String) : Except SyntaxError Expr := exprReader.parse source

end Switching
