import Switching.Proofs.Grammar.Complete

/-!
# What is read as an expression is derived

* `Grammar.Listed`: items with a comma after each; `Grammar.comma_iff`: lists with commas by them.
* `Phrase.level`: how tightly an expression has to hold together in the place of the next operand.
* `Phrase.Opens`: the tokens that have opened what is open; every operator has a left operand of its
  own tier, and may stand where it stands.
* `Phrase.Opens.reduce`: closing keeps this, and what is closed is an expression.
* `Phrase.Reached`: the tokens that have been read, by what they are.
* **`Phrase.Reached.step`**: one more token; **`Grammar.expression_of_runs`**: whole texts.
-/

namespace Switching

/-! ## Lists that go on -/

namespace Grammar

variable {α : Type} {Item : List Token → α → Prop} {ts us : List Token} {a : α} {as bs : List α}

/-- Items with a comma after each. -/
inductive Listed (Item : List Token → α → Prop) : List Token → List α → Prop where
  | nil : Listed Item [] []
  | snoc {ts us : List Token} {t : Token} {a : α} {as : List α} (has : Listed Item ts as)
    (ha : Item us a) (ht : t.terminal = .comma) : Listed Item (ts ++ us ++ [t]) (as ++ [a])

theorem Listed.append (h : Listed Item ts as) (hbs : Comma Item us bs) :
    Comma Item (ts ++ us) (as ++ bs) := by
  induction h generalizing us bs with
  | nil => exact hbs
  | snoc _ ha ht ih =>
    rw [List.append_assoc, List.append_assoc, List.append_assoc]
    exact ih (.cons ha ht hbs)

theorem Listed.comma (h : Listed Item ts as) : Comma Item ts as := by
  have hnil := h.append .nil
  rwa [List.append_nil, List.append_nil] at hnil

theorem Listed.last (h : Listed Item ts as) (ha : Item us a) : Comma Item (ts ++ us) (as ++ [a]) :=
  h.append (.last ha)

theorem Listed.cons {t : Token} (ha : Item us a) (ht : t.terminal = .comma) (h : Listed Item ts as) :
    Listed Item (us ++ t :: ts) (a :: as) := by
  induction h with
  | nil => exact .snoc .nil ha ht
  | @snoc ts vs u b bs _ hb hu ih =>
    have hsnoc := ih.snoc hb hu
    simpa only [List.append_assoc, List.cons_append] using hsnoc

/-- Lists with commas are items with a comma after each, and at most one more item. -/
theorem comma_iff : Comma Item ts as ↔ ∃ us vs bs, ts = us ++ vs ∧ Listed Item us bs ∧
    (vs = [] ∧ as = bs ∨ ∃ a, Item vs a ∧ as = bs ++ [a]) := by
  constructor
  · intro h
    induction h with
    | nil => exact ⟨[], [], [], rfl, .nil, .inl ⟨rfl, rfl⟩⟩
    | last ha => exact ⟨[], _, [], rfl, .nil, .inr ⟨_, ha, rfl⟩⟩
    | cons ha ht _ ih =>
      obtain ⟨us, vs, bs, rfl, hlisted, hlast⟩ := ih
      refine ⟨_, vs, _, (List.append_assoc _ (_ :: us) vs).symm, hlisted.cons ha ht, ?_⟩
      rcases hlast with ⟨rfl, rfl⟩ | ⟨a, ha, rfl⟩
      · exact .inl ⟨rfl, rfl⟩
      · exact .inr ⟨a, ha, rfl⟩
  · rintro ⟨us, vs, bs, rfl, hlisted, ⟨rfl, rfl⟩ | ⟨a, ha, rfl⟩⟩
    · rw [List.append_nil]
      exact hlisted.comma
    · exact hlisted.last ha

theorem Many.snoc (h : Many Item ts as) (ha : Item us a) : Many Item (ts ++ us) (as ++ [a]) := by
  induction h with
  | nil =>
    have hone := Many.cons ha .nil
    rwa [List.append_nil] at hone
  | cons hb _ ih =>
    rw [List.append_assoc]
    exact .cons hb ih

/-! ## Expressions by strength -/

/-- The tokens are an expression that holds together at least as tightly as `p`. -/
def Tight (p : Nat) (ts : List Token) (e : Expr) : Prop :=
  ∃ tier : Tier, p ≤ tier.strength ∧ Expression tier ts e

variable {p q : Nat} {e : Expr}

theorem Tight.mono (h : Tight q ts e) (hpq : p ≤ q) : Tight p ts e :=
  let ⟨tier, hq, he⟩ := h
  ⟨tier, hpq.trans hq, he⟩

theorem Tight.expression {tier : Tier} (h : Tight tier.strength ts e) : Expression tier ts e :=
  let ⟨_, htier, he⟩ := h
  he.mono htier

theorem Tight.implication (h : Tight p ts e) : Expression .implication ts e :=
  let ⟨tier, _, he⟩ := h
  he.mono tier.one_le_strength

/-- The token that a call begins with. -/
inductive Calls : Token → Callee → Prop where
  | function {t : Token} (ht : t.terminal = .identifier) : Calls t (.function t.text)
  | builtin {t : Token} {f : Builtin} (ht : t.terminal = .builtin f) : Calls t (.builtin f)

theorem Expression.applied {t l r : Token} {callee : Callee} {args : List Expr} (ht : Calls t callee)
    (hl : l.terminal = .lparen) (hargs : Comma (Expression .implication) ts args)
    (hr : r.terminal = .rparen) :
    Expression .term (t :: l :: (ts ++ [r])) (callee.apply args ⟨t.span.start, r.span.stop⟩) := by
  cases ht with
  | function ht => exact .call ht hl hargs hr
  | builtin ht => exact .builtin ht hl hargs hr

end Grammar

namespace Phrase

open Grammar

variable {p q : Nat} {e e' : Expr} {opened opened' : List Opened} {ph ph' : Phrase} {t : Token}
  {ts us : List Token}

/-! ## What is open -/

/-- How tightly an expression has to hold together in the place of the next operand, unless it is in
parentheses. -/
def level : List Opened → Nat
  | .operator _ op :: _ => op.precedence + 1
  | .not _ :: _ => Operator.notPrecedence
  | .group :: _ | .args .. :: _ | [] => 1

theorem level_le (opened : List Opened) : level opened ≤ Operator.notPrecedence := by
  cases opened with
  | nil => exact Nat.le_add_left 1 4
  | cons o _ =>
    cases o with
    | operator left op => exact Operator.precedence_lt_notPrecedence op
    | not start => exact le_rfl
    | group => exact Nat.le_add_left 1 4
    | args callee start done => exact Nat.le_add_left 1 4

/-- The tokens that have opened what is open. -/
inductive Opens : List Opened → List Token → Prop where
  | nil : Opens [] []
  | operator {opened : List Opened} {ts us : List Token} {t : Token} {tier : Tier} {a : Expr}
    {op : Operator} (h : Opens opened ts) (ha : Expression tier us a) (ht : t.terminal = .operator op)
    (hop : op ∈ tier.operators) (hlevel : level opened ≤ tier.strength) :
    Opens (.operator a op :: opened) (ts ++ us ++ [t])
  | not {opened : List Opened} {ts : List Token} {t : Token} (h : Opens opened ts)
    (ht : t.terminal = .not) : Opens (.not t.span.start :: opened) (ts ++ [t])
  | group {opened : List Opened} {ts : List Token} {t : Token} (h : Opens opened ts)
    (ht : t.terminal = .lparen) : Opens (.group :: opened) (ts ++ [t])
  | args {opened : List Opened} {ts us : List Token} {t l : Token} {callee : Callee}
    {done : List Expr} (h : Opens opened ts) (ht : Calls t callee) (hl : l.terminal = .lparen)
    (hdone : Listed (Expression .implication) us done) :
    Opens (.args callee t.span.start done :: opened) (ts ++ t :: l :: us)

/-- The tokens `ts` are those of what is open with those of `e` after them. In that place `e` holds
together tightly enough, and as the left operand of an operator of precedence `q` too. -/
def Fits (q : Nat) (e : Expr) (opened : List Opened) (ts : List Token) : Prop :=
  ∃ us vs, ts = us ++ vs ∧ Opens opened us ∧ Tight (max q (level opened)) vs e

/-- Closing for the precedence `q` keeps what has been read, and leaves nothing that binds tighter
than `q`. -/
theorem Opens.reduce (hq : q ≤ Operator.notPrecedence) (h : Opens opened ts)
    (he : Tight (max q (level opened)) us e) :
    Fits q (Phrase.reduce q e opened).1 (Phrase.reduce q e opened).2 (ts ++ us) ∧
      level (Phrase.reduce q e opened).2 ≤ max q 1 := by
  induction h generalizing us e with
  | nil => exact ⟨⟨[], us, rfl, .nil, he⟩, le_max_right q 1⟩
  | @operator opened ts vs t tier a op h ha ht hop hlevel ih =>
    have hstrength := Tier.mem_operators_iff.1 hop
    rw [Phrase.reduce]
    by_cases hclosed : q ≤ op.precedence
    -- The operator is closed: its right operand is complete, since `e` holds together more tightly.
    · rw [if_pos hclosed, List.append_assoc, List.append_assoc, List.singleton_append]
      have hright : Expression tier.tighter us e := by
        refine Tight.expression (he.mono ?_)
        rw [Tier.strength_tighter (Tier.ne_term_of_mem hop), ← hstrength]
        exact le_max_right _ _
      exact ih ⟨tier, max_le (hstrength ▸ hclosed) hlevel, .join ha ht hop hright⟩
    · rw [if_neg hclosed]
      refine ⟨⟨_, us, rfl, .operator h ha ht hop hlevel, he⟩, ?_⟩
      exact lt_of_lt_of_le (Nat.not_le.1 hclosed) (le_max_left q 1)
  | @not opened ts t h ht ih =>
    rw [Phrase.reduce, List.append_assoc, List.singleton_append]
    have hoperand : Expression .unary us e := Tight.expression (he.mono (le_max_right _ _))
    exact ih ⟨.unary, max_le hq (level_le opened), .not ht hoperand⟩
  | group h ht => exact ⟨⟨_, us, rfl, .group h ht, he⟩, le_max_right q 1⟩
  | args h ht hl hdone => exact ⟨⟨_, us, rfl, .args h ht hl hdone, he⟩, le_max_right q 1⟩

/-! ## What has been read -/

/-- The tokens that have been read. -/
inductive Reached : Phrase → List Token → Prop where
  | operand {opened : List Opened} {ts : List Token} (h : Opens opened ts) :
    Reached ⟨opened, .operand⟩ ts
  | name {opened : List Opened} {ts : List Token} {t : Token} (h : Opens opened ts)
    (ht : t.terminal = .identifier) : Reached ⟨opened, .name t.text t.span⟩ (ts ++ [t])
  | keyword {opened : List Opened} {ts : List Token} {t : Token} {f : Builtin} (h : Opens opened ts)
    (ht : t.terminal = .builtin f) : Reached ⟨opened, .keyword f t.span.start⟩ (ts ++ [t])
  | complete {opened : List Opened} {ts us : List Token} {e : Expr} (h : Opens opened ts)
    (he : Expression .term us e) : Reached ⟨opened, .complete e⟩ (ts ++ us)

theorem reached_empty : Phrase.empty.Reached [] := .operand .nil

theorem Reached.eq_nil (h : Phrase.empty.Reached ts) : ts = [] := by
  cases h with
  | operand h =>
    cases h
    rfl

theorem Opens.fits (hq : q ≤ Operator.notPrecedence) (h : Opens opened ts)
    (he : Expression .term us e) (hreduce : Phrase.reduce q e opened = (e', opened')) :
    Fits q e' opened' (ts ++ us) ∧ level opened' ≤ max q 1 := by
  have htight : Tight (max q (level opened)) us e :=
    ⟨.term, (max_le hq (level_le opened)).trans (Nat.le_succ _), he⟩
  have hfits := h.reduce hq htight
  rwa [hreduce] at hfits

theorem Reached.follow (h : Opens opened ts) (he : Expression .term us e)
    (hstep : Phrase.follow opened e t = some ph) : Reached ph (ts ++ us ++ [t]) := by
  unfold Phrase.follow at hstep
  split at hstep
  case h_1 op ht =>
    rcases hreduce : Phrase.reduce op.precedence e opened with ⟨e', opened'⟩
    rw [hreduce] at hstep
    cases hstep
    obtain ⟨⟨us', vs', htokens, hopens, htight⟩, hlevel⟩ :=
      h.fits (Operator.precedence_lt_notPrecedence op).le he hreduce
    -- What stays open binds less tightly than `op`, so an expression of the tier of `op` may stand here.
    obtain ⟨tier, hop⟩ := Tier.exists_mem_operators op
    have hstrength := Tier.mem_operators_iff.1 hop
    rw [hstrength, max_eq_left tier.one_le_strength] at hlevel
    rw [hstrength] at htight
    rw [htokens]
    exact .operand (.operator hopens (htight.mono (le_max_left _ _)).expression ht hop hlevel)
  case h_2 hcomma =>
    split at hstep
    case h_2 => cases hstep
    case h_1 e' callee start done rest hreduce =>
      cases hstep
      obtain ⟨⟨us', vs', htokens, hopens, htight⟩, -⟩ := h.fits (Nat.zero_le _) he hreduce
      cases hopens with
      | @args _ _ us₀ t₀ l _ _ h₀ ht₀ hl hdone =>
        have hargs := Opens.args h₀ ht₀ hl (hdone.snoc htight.implication hcomma)
        rw [htokens]
        simpa only [List.append_assoc, List.cons_append] using Reached.operand hargs
  case h_3 hr =>
    split at hstep
    case h_3 => cases hstep
    case h_1 e' rest hreduce =>
      cases hstep
      obtain ⟨⟨us', vs', htokens, hopens, htight⟩, -⟩ := h.fits (Nat.zero_le _) he hreduce
      cases hopens with
      | group h₀ hl =>
        have hgroup := Reached.complete h₀ (.group hl htight.implication hr)
        rw [htokens]
        simpa only [List.append_assoc, List.cons_append, List.nil_append] using hgroup
    case h_2 e' callee start done rest hreduce =>
      cases hstep
      obtain ⟨⟨us', vs', htokens, hopens, htight⟩, -⟩ := h.fits (Nat.zero_le _) he hreduce
      cases hopens with
      | args h₀ ht₀ hl hdone =>
        have hcall := Reached.complete h₀ (.applied ht₀ hl (hdone.last htight.implication) hr)
        rw [htokens]
        simpa only [List.append_assoc, List.cons_append, List.nil_append] using hcall
  case h_4 => cases hstep

theorem Reached.begin (h : Opens opened ts) (hstep : Phrase.begin opened t = some ph) :
    Reached ph (ts ++ [t]) := by
  unfold Phrase.begin at hstep
  split at hstep
  case h_1 ht =>
    cases hstep
    exact .complete h (.digits ht)
  case h_2 ht =>
    cases hstep
    exact .complete h (.string ht)
  case h_3 ht =>
    cases hstep
    exact .name h ht
  case h_4 f ht =>
    cases hstep
    exact .keyword h ht
  case h_5 ht =>
    cases hstep
    exact .operand (.group h ht)
  case h_6 ht =>
    cases hstep
    exact .operand (.not h ht)
  case h_7 hr =>
    split at hstep
    case h_2 => cases hstep
    case h_1 =>
      cases hstep
      cases h with
      | args h₀ ht₀ hl hdone =>
        have hcall := Reached.complete h₀ (.applied ht₀ hl hdone.comma hr)
        simpa only [List.append_assoc, List.cons_append] using hcall
  case h_8 => cases hstep

/-- **One more token** of an expression. -/
theorem Reached.step (h : ph.Reached ts) (hstep : ph.step t = some ph') : ph'.Reached (ts ++ [t]) := by
  cases h with
  | operand h => exact .begin h hstep
  | @name opened ts u h hu =>
    simp only [Phrase.step] at hstep
    split at hstep
    case h_1 hstar =>
      cases hstep
      rw [List.append_assoc]
      exact .complete h (.reference hu hstar)
    case h_2 hl =>
      cases hstep
      rw [List.append_assoc]
      exact .operand (.args h (.function hu) hl .nil)
    case h_3 => exact .follow h (.name hu) hstep
  | @keyword opened ts u f h hu =>
    simp only [Phrase.step] at hstep
    split at hstep
    case isTrue hl =>
      cases hstep
      rw [List.append_assoc]
      exact .operand (.args h (.builtin hu) hl .nil)
    case isFalse => cases hstep
  | complete h he => exact .follow h he hstep

theorem Reached.exists_operand (h : ph.Reached ts) (hoperand : ph.operand? = some e) :
    ∃ us vs, ts = us ++ vs ∧ Opens ph.opened us ∧ Expression .term vs e := by
  cases h with
  | operand => cases hoperand
  | keyword => cases hoperand
  | name h ht =>
    cases hoperand
    exact ⟨_, _, rfl, h, .name ht⟩
  | complete h he =>
    cases hoperand
    exact ⟨_, _, rfl, h, he⟩

theorem Reached.expression (h : ph.Reached ts) (hresult : ph.result? = some e) :
    Expression .implication ts e := by
  obtain ⟨e₀, hoperand, hreduce⟩ := ends_of_result? hresult
  obtain ⟨us, vs, rfl, hopens, he₀⟩ := h.exists_operand hoperand
  obtain ⟨⟨us', vs', htokens, hnil, htight⟩, -⟩ := hopens.fits (Nat.zero_le _) he₀ hreduce
  cases hnil
  rw [htokens]
  exact htight.implication

end Phrase

namespace Grammar

/-- **The tokens read to an expression** derive it. -/
theorem expression_of_runs {ph : Phrase} {e : Expr} (h : Runs Phrase.step .empty ts ph)
    (hresult : ph.result? = some e) : Expression .implication ts e :=
  (h.reached (fun _ _ _ _ => Phrase.Reached.step) Phrase.reached_empty).expression hresult

end Grammar

end Switching
