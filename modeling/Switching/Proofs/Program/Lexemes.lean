import Switching.Program.Printer
import Switching.Proofs.Expr.Lexemes

/-!
# The tokens of the text of a program

* `Statement.isSource`: the statement is no error, its names are identifiers, its expressions can
  stand in a source, and the patterns of its rows hold a bit.
* `headLexemes`, `Statement.lexemes`: the tokens of its text, part by part.
* `Statement.spells_text`: the text of a statement scans to them.
* **`Program.lexes_text`**: the text of a program scans to the tokens of its statements in order.
-/

namespace Switching

/-! ## Names and heads -/

/-- The tokens of a list of names. -/
def nameLexemes (ns : List String) : List Lexeme := commas (ns.map fun n => [.name n])

/-- The tokens of the colon and the subparameters. -/
def subparamLexemes (ns : List String) : List Lexeme :=
  if ns.isEmpty then [] else .mark .colon ':' :: nameLexemes ns

/-- The tokens of the name and the parameters of a function, up to the equals sign. -/
def headLexemes (name : String) (params subparams : List String) : List Lexeme :=
  .name name :: .mark .lparen '(' :: (nameLexemes params ++ (subparamLexemes subparams ++
    [.mark .rparen ')', .mark .equals '=']))

theorem spells_names {ns : List String} (h : ns.all isIdentifier = true) :
    Spells (commaList ns).toList (nameLexemes ns) := by
  rw [List.all_eq_true] at h
  refine .commaList ?_
  rw [List.forall₂_map_right_iff, List.forall₂_same]
  exact fun n hn => .identifier (h n hn)

theorem spells_head {name : String} {params subparams : List String}
    (hname : isIdentifier name = true) (hparams : params.all isIdentifier = true)
    (hsubparams : subparams.all isIdentifier = true) :
    Spells (name ++ "(" ++ commaList params ++
        (if subparams.isEmpty then "" else " : " ++ commaList subparams) ++ ") =").toList
      (headLexemes name params subparams) := by
  have hname := Spells.identifier hname
  have hparams := spells_names hparams
  rw [headLexemes, subparamLexemes]
  split
  case isTrue =>
    have hhead := hname.marked (c := '(') rfl (hparams.marked (c := ')') rfl
      (.blank (.marked (c := '=') .nil rfl .nil)))
    simpa using hhead
  case isFalse =>
    have hhead := hname.marked (c := '(') rfl (hparams.spaced (.marked (c := ':') .nil rfl
      (.blank ((spells_names hsubparams).marked (c := ')') rfl
        (.blank (.marked (c := '=') .nil rfl .nil))))))
    simpa using hhead

/-! ## Statements -/

def TableRow.isSource (r : TableRow) : Bool := !r.pattern.isEmpty && r.output.isSource

/-- The statement can stand in a source. -/
def Statement.isSource : Statement → Bool
  | .variable n e _ => isIdentifier n && e.isSource
  | .function f => isIdentifier f.name && f.params.all isIdentifier && f.body.isSource
  | .table t =>
    isIdentifier t.name && t.params.all isIdentifier && t.subparams.all isIdentifier &&
      t.rows.all TableRow.isSource
  | .builtin _ args _ => args.all Expr.isSource
  | .error .. => false

def TableRow.lexemes (r : TableRow) : List Lexeme :=
  ⟨.digits, Bits.text r.pattern⟩ :: .mark .colon ':' ::
    (r.output.lexemes ++ [.mark .semicolon ';'])

def rowLexemes (rows : List TableRow) : List Lexeme :=
  rows.flatMap TableRow.lexemes ++ [.mark .rbrace '\x7d']

def Statement.lexemes : Statement → List Lexeme
  | .variable n e _ =>
    .name n :: .mark .equals '=' :: (e.lexemes ++ [.mark .semicolon ';'])
  | .function f => headLexemes f.name f.params [] ++ (f.body.lexemes ++ [.mark .semicolon ';'])
  | .table t =>
    headLexemes t.name t.params t.subparams ++
      ⟨.table, "table"⟩ :: .mark .lbrace '\x7b' :: rowLexemes t.rows
  | .builtin f args _ =>
    applied ⟨.builtin f, f.keyword⟩ (args.map Expr.lexemes) ++ [.mark .semicolon ';']
  | .error .. => []

theorem spells_rows {rows : List TableRow} (h : rows.all TableRow.isSource = true) :
    Spells ((String.join (rows.map fun r => " " ++ r.text)) ++ " \x7d").toList
      (rowLexemes rows) := by
  induction rows with
  | nil => exact .blank (.marked .nil rfl .nil)
  | cons r rows ih =>
    rw [List.all_cons, Bool.and_eq_true, TableRow.isSource, Bool.and_eq_true] at h
    obtain ⟨⟨hpattern, houtput⟩, hrows⟩ := h
    have hbits : r.pattern ≠ [] := by simpa using hpattern
    -- The semicolon of the row needs no blank after it, so the other rows may follow at once.
    have hrow := ((Spells.digits hbits).marked (c := ':') rfl
      (.blank ((Expr.spells_textAt houtput 0).marked (c := ';') rfl (ih hrows)))).blank
    simpa [rowLexemes, TableRow.lexemes, TableRow.text, Expr.text, Expr.lexemes] using hrow

theorem Statement.spells_text {s : Statement} (h : s.isSource = true) :
    Spells s.text.toList s.lexemes := by
  cases s with
  | «variable» n e span =>
    rw [isSource, Bool.and_eq_true] at h
    have hs := (Spells.identifier h.1).spaced (.marked (c := '=') .nil rfl
      (.blank ((Expr.spells_textAt h.2 0).marked (c := ';') rfl .nil)))
    simpa [text, lexemes, Expr.text, Expr.lexemes] using hs
  | function f =>
    simp only [isSource, Bool.and_eq_true] at h
    obtain ⟨⟨hname, hparams⟩, hbody⟩ := h
    have hhead := spells_head hname hparams (List.all_nil : [].all isIdentifier = true)
    have hs := hhead.spaced ((Expr.spells_textAt hbody 0).marked (c := ';') rfl .nil)
    simpa [text, Function.text, lexemes, Expr.text, Expr.lexemes] using hs
  | table t =>
    simp only [isSource, Bool.and_eq_true] at h
    obtain ⟨⟨⟨hname, hparams⟩, hsubparams⟩, hrows⟩ := h
    have htable : Spells "table".toList [⟨.table, "table"⟩] := .word rfl
    have hs := (spells_head hname hparams hsubparams).spaced
      (htable.spaced (.marked (c := '\x7b') .nil rfl (spells_rows hrows)))
    simpa [text, FunctionTable.text, lexemes] using hs
  | builtin f args span =>
    rw [isSource, List.all_eq_true] at h
    have hargs : ∀ a ∈ args, Spells a.text.toList a.lexemes := fun a ha =>
      Expr.spells_textAt (h a ha) 0
    have hs := ((Spells.builtin f).applied (Expr.spells_textAll hargs)).marked (c := ';') rfl .nil
    simpa [text, lexemes, Expr.textAll_eq_map, Expr.lexemesAll_eq_map] using hs
  | error m span => cases h

/-- **The text of a program, token by token.** -/
theorem Program.lexes_text {p : Program} (h : ∀ s ∈ p, s.isSource = true) :
    Lexes (Program.text p).toList (p.flatMap Statement.lexemes) := by
  induction p with
  | nil => exact lexes_nil
  | cons s p ih =>
    rw [List.forall_mem_cons] at h
    have hs := s.spells_text h.1 _ _ (endsWord_cons (c := '\n') rfl _)
      (lexes_blank rfl (ih h.2))
    simpa [text] using hs

end Switching
