import Switching.Parse.Phrase
import Switching.Parse.Stage

/-!
# The grammar

The rules of the language, as relations between the tokens of a text and what they stand for. Places
are those of the first and the last token.

* `Grammar.Comma`, `Grammar.Many`: lists with commas, and lists without anything in between.
* `Grammar.Tier`, `Grammar.Expression`: expressions, in six tiers; `Grammar.Expression.induction` is
  the induction on a derivation.
* `Grammar.Row`, `Grammar.Head`, `Grammar.Table`, `Grammar.Stmt`: rows, and statements of all forms.
* `Grammar.Expression.mono`: what is derived in a tier is derived in every looser one.
-/

namespace Switching.Grammar

/-! ## Lists -/

/-- Items with a comma after each, which may be missing after the last one. -/
inductive Comma {α : Type} (Item : List Token → α → Prop) : List Token → List α → Prop where
  | nil : Comma Item [] []
  | last {ts : List Token} {a : α} (ha : Item ts a) : Comma Item ts [a]
  | cons {ts us : List Token} {t : Token} {a : α} {as : List α} (ha : Item ts a)
    (ht : t.terminal = .comma) (has : Comma Item us as) : Comma Item (ts ++ t :: us) (a :: as)

/-- Any number of items. -/
inductive Many {α : Type} (Item : List Token → α → Prop) : List Token → List α → Prop where
  | nil : Many Item [] []
  | cons {ts us : List Token} {a : α} {as : List α} (ha : Item ts a) (has : Many Item us as) :
    Many Item (ts ++ us) (a :: as)

/-! ## Expressions -/

/-- The kinds of expressions, by how tightly they hold together: four tiers of operators, then `not`,
then what needs no parentheses anywhere. -/
inductive Tier where
  | implication | disjunction | exclusive | conjunction | unary | term
  deriving DecidableEq

namespace Tier

/-- The operators of a tier. -/
def operators : Tier → List Operator
  | implication => [.imply, .nimply]
  | disjunction => [.or, .nor]
  | exclusive => [.xor, .xnor]
  | conjunction => [.and, .nand]
  | unary | term => []

/-- The next tier. -/
def tighter : Tier → Tier
  | implication => disjunction
  | disjunction => exclusive
  | exclusive => conjunction
  | conjunction => unary
  | unary | term => term

end Tier

/-- `Expression tier ts e`: the tokens `ts` are an expression of the tier, and it is `e`. An operator
has an expression of its own tier on its left and one of the next tier on its right. -/
inductive Expression : Tier → List Token → Expr → Prop where
  | join {tier : Tier} {ts us : List Token} {t : Token} {op : Operator} {a b : Expr}
    (ha : Expression tier ts a) (ht : t.terminal = .operator op) (hop : op ∈ tier.operators)
    (hb : Expression tier.tighter us b) : Expression tier (ts ++ t :: us) (a.join op b)
  | tighter {tier : Tier} {ts : List Token} {e : Expr} (htier : tier ≠ .term)
    (he : Expression tier.tighter ts e) : Expression tier ts e
  | not {ts : List Token} {t : Token} {a : Expr} (ht : t.terminal = .not)
    (ha : Expression .unary ts a) :
    Expression .unary (t :: ts) (a.negation ⟨t.span.start, t.span.start + 3⟩)
  | digits {t : Token} (ht : t.terminal = .digits) : Expression .term [t] (.ofDigits t.text t.span)
  | string {t : Token} (ht : t.terminal = .string) :
    Expression .term [t] (.str (Phrase.unquote t.text) t.span)
  | name {t : Token} (ht : t.terminal = .identifier) :
    Expression .term [t] (.var t.text false t.span)
  | reference {t star : Token} (ht : t.terminal = .identifier) (hstar : star.terminal = .star) :
    Expression .term [t, star] (.var t.text true ⟨t.span.start, star.span.stop⟩)
  | call {t l r : Token} {ts : List Token} {args : List Expr} (ht : t.terminal = .identifier)
    (hl : l.terminal = .lparen) (hargs : Comma (Expression .implication) ts args)
    (hr : r.terminal = .rparen) :
    Expression .term (t :: l :: (ts ++ [r])) (.call t.text args ⟨t.span.start, r.span.stop⟩)
  | builtin {t l r : Token} {f : Builtin} {ts : List Token} {args : List Expr}
    (ht : t.terminal = .builtin f) (hl : l.terminal = .lparen)
    (hargs : Comma (Expression .implication) ts args) (hr : r.terminal = .rparen) :
    Expression .term (t :: l :: (ts ++ [r])) (.builtin f args ⟨t.span.start, r.span.stop⟩)
  | group {l r : Token} {ts : List Token} {e : Expr} (hl : l.terminal = .lparen)
    (he : Expression .implication ts e) (hr : r.terminal = .rparen) :
    Expression .term (l :: (ts ++ [r])) e

/-- Induction on the derivation of an expression, where `motive` holds of the arguments of a call. -/
@[elab_as_elim]
theorem Expression.induction {motive : ∀ tier ts e, Expression tier ts e → Prop}
    (join : ∀ {tier ts us t op a b} (ha : Expression tier ts a) (ht : t.terminal = .operator op)
      (hop : op ∈ tier.operators) (hb : Expression tier.tighter us b), motive tier ts a ha →
      motive tier.tighter us b hb → motive tier (ts ++ t :: us) (a.join op b) (.join ha ht hop hb))
    (tighter : ∀ {tier ts e} (htier : tier ≠ .term) (he : Expression tier.tighter ts e),
      motive tier.tighter ts e he → motive tier ts e (.tighter htier he))
    (not : ∀ {ts t a} (ht : t.terminal = .not) (ha : Expression .unary ts a),
      motive .unary ts a ha →
      motive .unary (t :: ts) (a.negation ⟨t.span.start, t.span.start + 3⟩) (.not ht ha))
    (digits : ∀ {t} (ht : t.terminal = .digits),
      motive .term [t] (.ofDigits t.text t.span) (.digits ht))
    (string : ∀ {t} (ht : t.terminal = .string),
      motive .term [t] (.str (Phrase.unquote t.text) t.span) (.string ht))
    (name : ∀ {t} (ht : t.terminal = .identifier),
      motive .term [t] (.var t.text false t.span) (.name ht))
    (reference : ∀ {t star} (ht : t.terminal = .identifier) (hstar : star.terminal = .star),
      motive .term [t, star] (.var t.text true ⟨t.span.start, star.span.stop⟩)
        (.reference ht hstar))
    (call : ∀ {t l r : Token} {ts args} (ht : t.terminal = .identifier) (hl : l.terminal = .lparen)
      (hargs : Comma (Expression .implication) ts args) (hr : r.terminal = .rparen),
      Comma (fun us e => ∃ he, motive .implication us e he) ts args →
      motive .term (t :: l :: (ts ++ [r])) (.call t.text args ⟨t.span.start, r.span.stop⟩)
        (.call ht hl hargs hr))
    (builtin : ∀ {t l r : Token} {f ts args} (ht : t.terminal = .builtin f) (hl : l.terminal = .lparen)
      (hargs : Comma (Expression .implication) ts args) (hr : r.terminal = .rparen),
      Comma (fun us e => ∃ he, motive .implication us e he) ts args →
      motive .term (t :: l :: (ts ++ [r])) (.builtin f args ⟨t.span.start, r.span.stop⟩)
        (.builtin ht hl hargs hr))
    (group : ∀ {l r : Token} {ts e} (hl : l.terminal = .lparen) (he : Expression .implication ts e)
      (hr : r.terminal = .rparen), motive .implication ts e he →
      motive .term (l :: (ts ++ [r])) e (.group hl he hr))
    {tier : Tier} {ts : List Token} {e : Expr} (h : Expression tier ts e) : motive tier ts e h :=
  @Expression.rec motive (fun ts args _ => Comma (fun us e => ∃ he, motive .implication us e he) ts args)
    join tighter not digits string name reference call builtin
    (fun hl he hr ih => group hl he hr ih)
    .nil (fun ha ih => .last ⟨ha, ih⟩) (fun ha ht _ ih ihs => .cons ⟨ha, ih⟩ ht ihs) tier ts e h

/-! ## Statements -/

/-- A name. -/
def Ident (ts : List Token) (n : String) : Prop := ∃ t, ts = [t] ∧ t.terminal = .identifier ∧ t.text = n

/-- A row of a table: a pattern with the output for it. -/
inductive Row : List Token → TableRow → Prop where
  | mk {t colon semi : Token} {ts : List Token} {e : Expr} (ht : t.terminal = .digits)
    (hcolon : colon.terminal = .colon) (he : Expression .implication ts e)
    (hsemi : semi.terminal = .semicolon) :
    Row (t :: colon :: (ts ++ [semi]))
      ⟨t.text.toList.filterMap Bits.ofDigit?, e, ⟨t.span.start, semi.span.stop⟩⟩

/-- The subparameters after the parameters, which may be missing altogether. -/
inductive Subparams : List Token → Option (List String) → Prop where
  | none : Subparams [] .none
  | some {colon : Token} {ts : List Token} {ns : List String} (hcolon : colon.terminal = .colon)
    (hns : Comma Ident ts ns) : Subparams (colon :: ts) (.some ns)

/-- The beginning of a declared function, up to the equals sign. -/
inductive Head : List Token → Switching.Head → Prop where
  | mk {t l r eq : Token} {ts us : List Token} {ns : List String} {subparams? : Option (List String)}
    (ht : t.terminal = .identifier) (hl : l.terminal = .lparen) (hns : Comma Ident ts ns)
    (hsub : Subparams us subparams?) (hr : r.terminal = .rparen) (heq : eq.terminal = .equals) :
    Head (t :: l :: (ts ++ us ++ [r, eq])) ⟨t.text, t.span.start, ns, subparams?⟩

/-- A function that a table gives, up to the brace that ends the table. -/
inductive Table : List Token → FunctionTable → Prop where
  | mk {t l r : Token} {ts us : List Token} {head : Switching.Head} {rows : List TableRow}
    (hhead : Head ts head) (ht : t.terminal = .table) (hl : l.terminal = .lbrace)
    (hrows : Many Row us rows) (hr : r.terminal = .rbrace) :
    Table (ts ++ t :: l :: (us ++ [r]))
      ⟨head.name, head.params, head.subparams?.getD [], rows, ⟨head.start, r.span.stop⟩⟩

/-- A statement. A formula with subparameters is taken for a mistake. After a table a semicolon may
stand, which is then its last token. -/
inductive Stmt : List Token → Statement → Prop where
  | assignment {t eq semi : Token} {ts : List Token} {e : Expr} (ht : t.terminal = .identifier)
    (heq : eq.terminal = .equals) (he : Expression .implication ts e)
    (hsemi : semi.terminal = .semicolon) :
    Stmt (t :: eq :: (ts ++ [semi])) (.variable t.text e ⟨t.span.start, semi.span.stop⟩)
  | function {semi : Token} {ts us : List Token} {head : Switching.Head} {e : Expr}
    (hhead : Head ts head) (hsub : head.subparams? = none) (he : Expression .implication us e)
    (hsemi : semi.terminal = .semicolon) :
    Stmt (ts ++ us ++ [semi])
      (.function ⟨head.name, head.params, e, ⟨head.start, semi.span.stop⟩⟩)
  | misplaced {semi : Token} {ts us : List Token} {head : Switching.Head} {ns : List String} {e : Expr}
    (hhead : Head ts head) (hsub : head.subparams? = some ns) (he : Expression .implication us e)
    (hsemi : semi.terminal = .semicolon) :
    Stmt (ts ++ us ++ [semi])
      (.error s!"function `{head.name}` has subparameters but no table body"
        ⟨head.start, semi.span.stop⟩)
  | table {ts : List Token} {table : FunctionTable} (htable : Table ts table) :
    Stmt ts (.table table)
  | tableEnded {semi : Token} {ts : List Token} {table : FunctionTable} (htable : Table ts table)
    (hsemi : semi.terminal = .semicolon) :
    Stmt (ts ++ [semi]) (.table { table with span := ⟨table.span.start, semi.span.stop⟩ })
  | builtin {t l r semi : Token} {f : Builtin} {ts : List Token} {args : List Expr}
    (ht : t.terminal = .builtin f) (hl : l.terminal = .lparen)
    (hargs : Comma (Expression .implication) ts args) (hr : r.terminal = .rparen)
    (hsemi : semi.terminal = .semicolon) :
    Stmt (t :: l :: (ts ++ [r, semi])) (.builtin f args ⟨t.span.start, semi.span.stop⟩)

/-! ## Tiers -/

namespace Tier

/-- How tightly the tier holds together, as a precedence. -/
def strength : Tier → Nat
  | implication => 1
  | disjunction => 2
  | exclusive => 3
  | conjunction => 4
  | unary => Operator.notPrecedence
  | term => Operator.notPrecedence + 1

theorem mem_operators_iff {tier : Tier} {op : Operator} :
    op ∈ tier.operators ↔ op.precedence = tier.strength := by
  cases tier <;> cases op <;> decide

theorem exists_mem_operators (op : Operator) : ∃ tier : Tier, op ∈ tier.operators := by
  cases op with
  | imply | nimply => exact ⟨.implication, by decide⟩
  | or | nor => exact ⟨.disjunction, by decide⟩
  | xor | xnor => exact ⟨.exclusive, by decide⟩
  | and | nand => exact ⟨.conjunction, by decide⟩

theorem ne_term_of_mem {tier : Tier} {op : Operator} (h : op ∈ tier.operators) : tier ≠ term := by
  rintro rfl
  cases h

theorem strength_tighter {tier : Tier} (h : tier ≠ .term) :
    tier.tighter.strength = tier.strength + 1 := by
  cases tier <;> first | rfl | exact absurd rfl h

theorem one_le_strength (tier : Tier) : 1 ≤ tier.strength := by cases tier <;> decide

theorem strength_le (tier : Tier) : tier.strength ≤ Operator.notPrecedence + 1 := by
  cases tier <;> decide

theorem strength_injective {tier tier' : Tier} (h : tier.strength = tier'.strength) :
    tier = tier' := by
  cases tier <;> cases tier' <;> first | rfl | cases h

end Tier

/-- What is derived in a tier is derived in every looser one. -/
theorem Expression.mono {tier tier' : Tier} {ts : List Token} {e : Expr} (h : Expression tier' ts e)
    (htier : tier.strength ≤ tier'.strength) : Expression tier ts e := by
  obtain ⟨n, hn⟩ := Nat.exists_eq_add_of_le htier
  induction n generalizing tier with
  | zero => rwa [Tier.strength_injective hn.symm]
  | succ n ih =>
    have hterm : tier ≠ .term := by
      rintro rfl
      have := tier'.strength_le
      simp only [Tier.strength] at hn this
      omega
    have hnext := Tier.strength_tighter hterm
    exact .tighter hterm (ih (by omega) (by omega))

end Switching.Grammar
