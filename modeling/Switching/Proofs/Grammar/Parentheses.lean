import Mathlib
import Switching.Proofs.Grammar.Parse

/-!
# The fewest parentheses

An expression is printed in parentheses only where no derivation can do without them.

* `openings`: the opening parentheses among tokens.
* `Expr.openings_lexemesAt_mono`, `Expr.openings_lexemesAt_le`: a place that asks for more strength
  costs no parenthesis less, and at most one more.
* `Grammar.Expression.openings_le`: what derives an expression has at least its parentheses.
* **`Expr.openings_text_least`**: no source of an expression has fewer than its text.
-/

namespace Switching

/-! ## Opening parentheses -/

/-- The number of opening parentheses. -/
def openings (ls : List Lexeme) : Nat := ls.countP (·.terminal = .lparen)

@[simp] theorem openings_nil : openings [] = 0 := rfl

@[simp] theorem openings_cons (l : Lexeme) (ls : List Lexeme) :
    openings (l :: ls) = openings ls + if l.terminal = .lparen then 1 else 0 := by
  simp [openings, List.countP_cons]

@[simp] theorem openings_append (ls ls' : List Lexeme) :
    openings (ls ++ ls') = openings ls + openings ls' := List.countP_append

@[simp] theorem openings_commas (lss : List (List Lexeme)) :
    openings (commas lss) = (lss.map openings).sum := by
  induction lss with
  | nil => rfl
  | cons ls lss ih =>
    cases lss with
    | nil => simp [commas]
    | cons ls' lss =>
      rw [commas, List.intercalate_cons_cons, openings_append, openings_append, ← commas, ih]
      simp [Lexeme.mark]

@[simp] theorem openings_applied (l : Lexeme) (lss : List (List Lexeme)) :
    openings (applied l lss) =
      (lss.map openings).sum + 1 + if l.terminal = .lparen then 1 else 0 := by
  simp [applied, Lexeme.mark]

/-! ## Printed expressions -/

namespace Expr

attribute [local simp] lexemesAt

theorem lexemesAt_eraseSpans (min : Nat) (e : Expr) :
    e.eraseSpans.lexemesAt min = e.lexemesAt min := by
  have hargs : ∀ {args : List Expr},
      (∀ a ∈ args, ∀ min, a.eraseSpans.lexemesAt min = a.lexemesAt min) →
        lexemesAll (eraseSpansAll args) = lexemesAll args := fun h => by
    rw [lexemesAll_eq_map, lexemesAll_eq_map, eraseSpansAll_eq, List.map_map]
    exact List.map_congr_left fun a ha => h a ha 0
  induction e generalizing min with
  | lit b s => rfl
  | str t s => rfl
  | var n r s => rfl
  | error m s => rfl
  | binary a op b s iha ihb => rw [eraseSpans, lexemesAt, lexemesAt, iha, ihb]
  | not a s ih => rw [eraseSpans, lexemesAt, lexemesAt, ih]
  | call n args s ih => rw [eraseSpans, lexemesAt, lexemesAt, hargs ih]
  | builtin f args s ih => rw [eraseSpans, lexemesAt, lexemesAt, hargs ih]

variable {p q : Nat} {e : Expr}

theorem openings_lexemesAt_binary (min : Nat) (a : Expr) (op : Operator) (b : Expr) (s : Span) :
    openings ((binary a op b s).lexemesAt min) =
      openings (a.lexemesAt op.precedence) + openings (b.lexemesAt (op.precedence + 1)) +
        if op.precedence < min then 1 else 0 := by
  rw [lexemesAt]
  split <;> simp [Lexeme.mark]

theorem openings_lexemesAt_mono (h : p ≤ q) :
    openings (e.lexemesAt p) ≤ openings (e.lexemesAt q) := by
  cases e with
  | binary a op b s =>
    rw [openings_lexemesAt_binary, openings_lexemesAt_binary]
    split_ifs <;> omega
  | _ => simp

theorem openings_lexemesAt_le (e : Expr) (q : Nat) :
    openings (e.lexemesAt q) ≤ openings (e.lexemesAt 1) + 1 := by
  cases e with
  | binary a op b s =>
    rw [openings_lexemesAt_binary, openings_lexemesAt_binary]
    split_ifs <;> omega
  | _ => simp

end Expr

/-! ## Derived expressions -/

namespace Grammar

theorem Comma.sum_openings_le {ts : List Token} {args : List Expr}
    (h : Comma (fun us e => openings e.lexemes ≤ openings (us.map Token.lexeme)) ts args) :
    ((Expr.lexemesAll args).map openings).sum ≤ openings (ts.map Token.lexeme) := by
  induction h with
  | nil => exact le_rfl
  | last ha => simpa [Expr.lexemesAll, Expr.lexemes] using ha
  | cons ha _ _ ih =>
    rw [List.map_append, List.map_cons, openings_append, openings_cons, Expr.lexemesAll,
      List.map_cons, List.sum_cons]
    exact Nat.add_le_add ha (ih.trans (Nat.le_add_right _ _))

/-- An expression has no more parentheses in its text than tokens that derive it have. -/
theorem Expression.openings_le {tier : Tier} {ts : List Token} {e : Expr}
    (h : Expression tier ts e) :
    openings (e.lexemesAt tier.strength) ≤ openings (ts.map Token.lexeme) := by
  have hargs : ∀ {ts args}, Comma (fun us e => ∃ _ : Expression .implication us e,
      openings (e.lexemesAt 1) ≤ openings (us.map Token.lexeme)) ts args →
        ((Expr.lexemesAll args).map openings).sum ≤ openings (ts.map Token.lexeme) := fun h =>
    (h.mono fun _ _ ha => (Expr.openings_lexemesAt_mono (Nat.zero_le 1)).trans
      (ha.elim fun _ h => h)).sum_openings_le
  induction h using Expression.induction with
  | @join tier ts us t op a b _ ht hop _ iha ihb =>
    -- The operands stand in the tiers in which they are printed, so the operator needs nothing.
    have hstrength := Tier.mem_operators_iff.1 hop
    rw [Tier.strength_tighter (Tier.ne_term_of_mem hop), ← hstrength] at ihb
    rw [← hstrength] at iha ⊢
    rw [Expr.join, Expr.openings_lexemesAt_binary, if_neg (Nat.lt_irrefl _)]
    simp [Token.lexeme, ht]
    omega
  | tighter htier _ ih =>
    refine (Expr.openings_lexemesAt_mono ?_).trans ih
    rw [Tier.strength_tighter htier]
    exact Nat.le_succ _
  | @not ts t a ht _ ih =>
    rw [Tier.strength] at ih ⊢
    simpa [Expr.negation, Expr.lexemesAt, Token.lexeme, ht] using ih
  | @digits t ht =>
    unfold Expr.ofDigits
    split <;> simp [Expr.lexemesAt]
  | string ht => simp [Expr.lexemesAt]
  | name ht => simp [Expr.lexemesAt, Lexeme.name]
  | reference ht hstar => simp [Expr.lexemesAt, Lexeme.name, Lexeme.mark]
  | @call t l r ts args ht hl _ hr ih =>
    rw [Expr.lexemesAt, openings_applied]
    simpa [Token.lexeme, Lexeme.name, ht, hl, hr] using hargs ih
  | @builtin t l r f ts args ht hl _ hr ih =>
    rw [Expr.lexemesAt, openings_applied]
    simpa [Token.lexeme, ht, hl, hr] using hargs ih
  | @group l r ts e hl _ hr ih =>
    rw [Tier.strength] at ih
    refine (Expr.openings_lexemesAt_le e _).trans ?_
    simpa [Token.lexeme, hl, hr] using ih

end Grammar

/-! ## Sources -/

/-- **The text of an expression has the fewest parentheses**: it is a source of that expression, and
every other source of it has at least as many opening parentheses among its tokens. -/
theorem Expr.openings_text_least {e : Expr} (he : e.isSource = true) :
    (∃ e', Expr.parse e.text = .ok e' ∧ e'.eraseSpans = e.eraseSpans) ∧
      ∀ source e', Expr.parse source = .ok e' → e'.eraseSpans = e.eraseSpans →
        openings ((scan e.text).tokens.map Token.lexeme) ≤
          openings ((scan source).tokens.map Token.lexeme) := by
  refine ⟨parse_text_of_isSource he, fun source e' hparse hsame => ?_⟩
  obtain ⟨-, hderives⟩ := (Grammar.expr_recognises.ok_iff source e').1 hparse
  have htext : (scan e.text).tokens.map Token.lexeme = e'.lexemes := by
    have hspells : (scan e.text).tokens.map Token.lexeme = e.lexemes :=
      ((spells_textAt he 0).lexes 0).1
    rw [hspells, lexemes, lexemes, ← lexemesAt_eraseSpans, ← hsame, lexemesAt_eraseSpans]
  rw [htext]
  exact (openings_lexemesAt_mono (Nat.zero_le 1)).trans hderives.openings_le

/-- A disjunction under a conjunction. -/
def groupedOperand : Expr :=
  .binary (.var "A" false .none) .and
    (.binary (.var "B" false .none) .or (.var "C" false .none) .none) .none

theorem Expr.openings_text_least_grouped :
    groupedOperand.text = "A and (B or C)" ∧ groupedOperand.isSource = true ∧
      ∃ e', Expr.parse "((A)) and (B or (C))" = .ok e' ∧
        e'.eraseSpans = groupedOperand.eraseSpans ∧
        openings ((scan groupedOperand.text).tokens.map Token.lexeme) ≤
          openings ((scan "((A)) and (B or (C))").tokens.map Token.lexeme) := by
  have he : groupedOperand.isSource = true := by rfl
  have hparse : Expr.parse "((A)) and (B or (C))" =
      .ok (.binary (.var "A" false ⟨2, 3⟩) .and
        (.binary (.var "B" false ⟨11, 12⟩) .or (.var "C" false ⟨17, 18⟩) ⟨11, 18⟩) ⟨2, 18⟩) := by
    cbv
  exact ⟨by rfl, he, _, hparse, rfl, (openings_text_least he).2 _ _ hparse rfl⟩

end Switching
