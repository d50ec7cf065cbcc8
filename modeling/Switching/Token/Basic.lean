import Switching.Expr.Builtin
import Switching.Expr.Operator
import Switching.Source.Span

/-!
# Tokens

* `Terminal`: the kinds of tokens.
* `Terminal.ofWord`: the kind of a word. A keyword is never an identifier.
* `Terminal.all`: all kinds in the order in which messages list them.
* `Token`: a kind with its text and place.
-/

namespace Switching

/-- The kinds of tokens. -/
inductive Terminal where
  | lparen | rparen | star | comma | colon | semicolon | equals | lbrace | rbrace
  | builtin (f : Builtin)
  | operator (op : Operator)
  | not | table
  | string | digits | identifier
  deriving DecidableEq

namespace Terminal

/-- The kind of a word of letters, digits and underscores. -/
def ofWord (word : String) : Terminal :=
  match Builtin.ofKeyword? word, Operator.ofKeyword? word with
  | some f, _ => builtin f
  | none, some op => operator op
  | none, none => if word = "not" then .not else if word = "table" then table else identifier

/-- The kind of the mark `c`. -/
def ofMark? : Char → Option Terminal
  | '(' => some lparen
  | ')' => some rparen
  | '*' => some star
  | ',' => some comma
  | ':' => some colon
  | ';' => some semicolon
  | '=' => some equals
  | '\x7b' => some lbrace
  | '\x7d' => some rbrace
  | _ => none

/-- The name of a kind in messages: its only text in quotes, or the pattern of its texts. -/
def label : Terminal → String
  | lparen => "\"(\""
  | rparen => "\")\""
  | star => "\"*\""
  | comma => "\",\""
  | colon => "\":\""
  | semicolon => "\";\""
  | equals => "\"=\""
  | lbrace => "\"\x7b\""
  | rbrace => "\"\x7d\""
  | builtin f => "\"" ++ f.keyword ++ "\""
  | operator op => "\"" ++ op.keyword ++ "\""
  | .not => "\"not\""
  | table => "\"table\""
  | string => "r#\"\\\"[^\\\"]*\\\"\"#"
  | digits => "r#\"[01]+\"#"
  | identifier => "r#\"[A-Za-z_][A-Za-z0-9_]*\"#"

/-- All kinds, in the order of their names in messages: those with one text by that text, then
the others. -/
def all : List Terminal :=
  [lparen, rparen, star, comma, colon, semicolon, equals,
    builtin .exportTo, builtin .graph, builtin .importFrom, builtin .input, builtin .print,
    builtin .display, builtin .solvePos, builtin .solveSop, builtin .table, builtin .toNand,
    builtin .toNor, operator .and, operator .imply, operator .nand, operator .nimply,
    operator .nor, .not, operator .or, table, operator .xnor, operator .xor, lbrace, rbrace,
    string, digits, identifier]

theorem mem_all (t : Terminal) : t ∈ all := by
  cases t with
  | builtin f => cases f <;> decide
  | operator op => cases op <;> decide
  | _ => decide

end Terminal

/-- A token: its kind, its text, and its place in the source. -/
structure Token where
  terminal : Terminal
  text : String
  span : Span
  deriving DecidableEq

end Switching
