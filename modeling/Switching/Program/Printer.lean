import Switching.Expr.Printer
import Switching.Program.Basic

/-!
# Text of programs

* `Statement.text`: a statement on one line.
* `Program.text`: a program, one statement a line.
-/

namespace Switching

def TableRow.text (r : TableRow) : String := Bits.text r.pattern ++ ": " ++ r.output.text ++ ";"

def Function.text (f : Function) : String :=
  f.name ++ "(" ++ commaList f.params ++ ") = " ++ f.body.text ++ ";"

/-- The text of a table. The colon stands only before a subparameter. -/
def FunctionTable.text (t : FunctionTable) : String :=
  let subparams := if t.subparams.isEmpty then "" else " : " ++ commaList t.subparams
  t.name ++ "(" ++ commaList t.params ++ subparams ++ ") = table \x7b" ++
    String.join (t.rows.map fun r => " " ++ r.text) ++ " \x7d"

def Statement.text : Statement → String
  | .variable n e _ => n ++ " = " ++ e.text ++ ";"
  | .function decl => decl.text
  | .table decl => decl.text
  | .builtin f args _ => f.keyword ++ "(" ++ commaList (args.map Expr.text) ++ ");"
  | .error m _ => "<error: " ++ m ++ ">"

def Program.text (p : Program) : String := String.join (p.map fun s => s.text ++ "\n")

end Switching
