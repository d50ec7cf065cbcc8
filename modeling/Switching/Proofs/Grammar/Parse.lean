import Switching.Proofs.Grammar.Places
import Switching.Proofs.Grammar.Sound.Draft
import Switching.Proofs.Token.Kinds

/-!
# Parsing is deriving

* `Grammar.Recognises`: what it is for a parser to recognise exactly what is derived.
* `Grammar.Realises`: a reader whose runs are the derivations; `Grammar.Realises.recognises`: it
  recognises them. `Grammar.program_realised`, `Grammar.expr_realised`: both readers are such.
* `Grammar.Expression.unique`, with the shape of an expression as a consequence:
  `Grammar.expression_join_join_iff`, `Grammar.expression_not_join_iff`.
* **`Grammar.parse_recognises`**: programs and expressions.
-/

namespace Switching

namespace Grammar

/-! ## Recognising -/

/-- The parser recognises exactly what is derived; `erase` takes out the places. -/
structure Recognises {α : Type} (parse : String → Except SyntaxError α)
    (Derives : List Token → α → Prop) (erase : α → α) : Prop where
  /-- At most one value is derived from tokens of these kinds and texts, up to places. -/
  unique : ∀ ts ts' a a', ts'.map Token.lexeme = ts.map Token.lexeme → Derives ts a →
    Derives ts' a' → erase a' = erase a
  /-- A text whose tokens derive a value is parsed to it, and no other text is. -/
  ok_iff : ∀ source a, parse source = .ok a ↔
    (scan source).invalid? = none ∧ Derives (scan source).tokens a
  /-- A text is an error if a part of it is no token, or if nothing is derived from tokens of these
  kinds and texts, and not otherwise. -/
  error_iff : ∀ source, (∃ err, parse source = .error err) ↔ (scan source).invalid? ≠ none ∨
    ∀ ts a, ts.map Token.lexeme = (scan source).tokens.map Token.lexeme → ¬ Derives ts a

variable {σ α : Type} {r : TokenReader σ α} {Derives : List Token → α → Prop} {erase : α → α}

/-- The runs of the reader are the derivations, and these do not depend on places. -/
structure Realises (r : TokenReader σ α) (Derives : List Token → α → Prop) (erase : α → α) : Prop where
  sound : ∀ ts s a, Runs r.step r.start ts s → r.result? s = some a → Derives ts a
  complete : ∀ ts a, Derives ts a → ∃ s, Runs r.step r.start ts s ∧ r.result? s = some a
  moved : ∀ ts a, Derives ts a → Moved erase Derives ts a

theorem Realises.recognises (h : Realises r Derives erase) : Recognises r.parse Derives erase := by
  have hok : ∀ source a, r.parse source = .ok a ↔
      (scan source).invalid? = none ∧ Derives (scan source).tokens a := fun source a => by
    rw [TokenReader.parse, TokenReader.readFrom_eq_ok_iff]
    refine and_congr_right fun _ => ⟨?_, h.complete _ a⟩
    rintro ⟨s, hrun, hresult⟩
    exact h.sound _ s a hrun hresult
  refine ⟨fun ts ts' a a' hts ha ha' => ?_, hok, fun source => ⟨?_, ?_⟩⟩
  · obtain ⟨a'', ha'', herase⟩ := h.moved ts a ha ts' hts
    obtain ⟨s', hrun', hresult'⟩ := h.complete ts' a' ha'
    obtain ⟨s'', hrun'', hresult''⟩ := h.complete ts' a'' ha''
    rw [hrun'.unique hrun'', hresult''] at hresult'
    rw [← Option.some.inj hresult', herase]
  · rintro ⟨err, herr⟩
    by_contra hnot
    simp only [not_or, not_forall, not_not, exists_prop] at hnot
    obtain ⟨hvalid, ts, a, hts, ha⟩ := hnot
    obtain ⟨a', ha', -⟩ := h.moved ts a ha _ hts.symm
    rw [(hok source a').2 ⟨hvalid, ha'⟩] at herr
    cases herr
  · intro hrefused
    cases hparse : r.parse source with
    | error err => exact ⟨err, rfl⟩
    | ok a =>
      obtain ⟨hvalid, ha⟩ := (hok source a).1 hparse
      rcases hrefused with hinvalid | hnone
      · exact absurd hvalid hinvalid
      · exact absurd ha (hnone _ a rfl)

theorem program_realised : Realises programReader (Many Stmt) (List.map Statement.eraseSpans) where
  sound _ _ _ := program_of_runs
  complete _ _ := runs_program
  moved _ _ := Many.moved fun _ _ => Stmt.moved

theorem expr_realised : Realises exprReader (Expression .implication) Expr.eraseSpans where
  sound _ _ _ := expression_of_runs
  complete _ _ h := (runs_expression h).imp fun _ h => h.imp_right Phrase.Ends.result?
  moved _ _ := Expression.moved

theorem program_recognises :
    Recognises Program.parse (Many Stmt) (List.map Statement.eraseSpans) := program_realised.recognises

theorem expr_recognises : Recognises Expr.parse (Expression .implication) Expr.eraseSpans :=
  expr_realised.recognises

/-! ## Shapes -/

variable {ts us vs : List Token} {t t' : Token} {a b c e : Expr} {op op' : Operator} {tier : Tier}

theorem Expression.unique (ha : Expression .implication ts a) (hb : Expression .implication ts b) :
    a = b := by
  obtain ⟨ph, hrun, hends⟩ := runs_expression ha
  obtain ⟨ph', hrun', hends'⟩ := runs_expression hb
  rw [hrun.unique hrun'] at hends
  exact Option.some.inj (hends.result?.symm.trans hends'.result?)

theorem Expression.iff_eq (h : Expression tier ts a) : Expression .implication ts e ↔ e = a := by
  have ha : Expression .implication ts a := h.mono tier.one_le_strength
  constructor
  · exact fun he => he.unique ha
  · rintro rfl
    exact ha

/-- Operators of one tier are left associative. -/
theorem expression_join_join_iff (hop : op ∈ tier.operators) (hop' : op' ∈ tier.operators)
    (ha : Expression tier ts a) (ht : t.terminal = .operator op) (hb : Expression tier.tighter us b)
    (ht' : t'.terminal = .operator op') (hc : Expression tier.tighter vs c) :
    Expression .implication (ts ++ t :: us ++ t' :: vs) e ↔ e = (a.join op b).join op' c :=
  (Expression.join (.join ha ht hop hb) ht' hop' hc).iff_eq

/-- Every operator takes a negation for its left operand. -/
theorem expression_not_join_iff (ht : t.terminal = .not) (ha : Expression .unary ts a)
    (ht' : t'.terminal = .operator op) (hop : op ∈ tier.operators) (hb : Expression tier.tighter us b) :
    Expression .implication (t :: ts ++ t' :: us) e ↔
      e = (a.negation ⟨t.span.start, t.span.start + 3⟩).join op b := by
  have hnot : Expression tier (t :: ts) (a.negation ⟨t.span.start, t.span.start + 3⟩) := by
    refine (Expression.not ht ha).mono ?_
    rw [← Tier.mem_operators_iff.1 hop]
    exact (Operator.precedence_lt_notPrecedence op).le
  exact (Expression.join hnot ht' hop hb).iff_eq

/-- **Parsing recognises exactly the grammar**, for programs and for single expressions. What kind a
token is, a keyword or an identifier, is said by its own text. Operators of one tier are left
associative, `not` holds together more tightly than all of them, and a list may end in a comma. -/
theorem parse_recognises :
    Recognises Program.parse (Many Stmt) (List.map Statement.eraseSpans) ∧
    Recognises Expr.parse (Expression .implication) Expr.eraseSpans ∧
    (∀ source, ∀ t ∈ (scan source).tokens, ∀ k : Terminal, t.terminal = k ↔ k.IsText t.text) ∧
    (∀ tier op op' ts t us t' vs a b c, op ∈ Tier.operators tier → op' ∈ Tier.operators tier →
      Expression tier ts a → t.terminal = .operator op → Expression tier.tighter us b →
      t'.terminal = .operator op' → Expression tier.tighter vs c → ∀ e,
        Expression .implication (ts ++ t :: us ++ t' :: vs) e ↔ e = (a.join op b).join op' c) ∧
    (∀ tier op t ts t' us a b, t.terminal = .not → Expression .unary ts a →
      t'.terminal = .operator op → op ∈ Tier.operators tier → Expression tier.tighter us b → ∀ e,
        Expression .implication (t :: ts ++ t' :: us) e ↔
          e = (a.negation ⟨t.span.start, t.span.start + 3⟩).join op b) ∧
    ∀ (α : Type) (Item : List Token → α → Prop) ts as, Comma Item ts as ↔
      ∃ us vs bs, ts = us ++ vs ∧ Listed Item us bs ∧
        (vs = [] ∧ as = bs ∨ ∃ a, Item vs a ∧ as = bs ++ [a]) :=
  ⟨program_recognises, expr_recognises, fun _ _ ht _ => terminal_eq_iff ht,
    fun _ _ _ _ _ _ _ _ _ _ _ hop hop' ha ht hb ht' hc _ =>
      expression_join_join_iff hop hop' ha ht hb ht' hc,
    fun _ _ _ _ _ _ _ _ ht ha ht' hop hb _ => expression_not_join_iff ht ha ht' hop hb,
    fun _ _ _ _ => comma_iff⟩

end Grammar

end Switching
