import Switching.Parse.Basic
import Switching.Proofs.Expr.Lexemes
import Switching.Proofs.Parse.Reads

/-!
# Reading expressions

* `Expr.Same`: two expressions are the same up to places.
* `Phrase.Stops p opened`: what is open around an operand binds less tightly than `p`.
* `Phrase.Holds p e opened`: what is finished closes to `e`, up to places, as soon as something
  follows that binds no tighter than `p`. It says this of `Phrase.reduce`, since the operators and
  the `not`s inside `e` are closed only then.
* **`Phrase.readable_of_isSource`**: the tokens of an expression are read to that expression in
  every place that its text allows for.
-/

namespace Switching

/-- The expressions are the same up to places. -/
def Expr.Same (a b : Expr) : Prop := b.eraseSpans = a.eraseSpans

theorem Expr.eraseSpansAll_congr {as bs : List Expr} (h : List.Forall₂ Expr.Same as bs) :
    Expr.eraseSpansAll bs = Expr.eraseSpansAll as := by
  induction h with
  | nil => rfl
  | cons hab _ ih => rw [eraseSpansAll, eraseSpansAll, hab, ih]

theorem Callee.same_apply {args args' : List Expr} (callee : Callee)
    (h : List.Forall₂ Expr.Same args args') (span span' : Span) :
    (callee.apply args span).Same (callee.apply args' span') := by
  cases callee with
  | function n => exact congrArg (Expr.call n · .none) (Expr.eraseSpansAll_congr h)
  | builtin f => exact congrArg (Expr.builtin f · .none) (Expr.eraseSpansAll_congr h)

namespace Phrase

/-! ## Closing -/

/-- No operand is closed by what is open, if what follows it binds at least as tightly as `p`. -/
def Stops (p : Nat) (opened : List Opened) : Prop :=
  ∀ q e, p ≤ q → q < Operator.notPrecedence → reduce q e opened = (e, opened)

/-- The finished operand closes to `e`, up to places, before anything of precedence `p` or less. -/
def Holds (p : Nat) (e : Expr) (opened : List Opened) (ph : Phrase) : Prop :=
  ∃ e₀ e', ph.operand? = some e₀ ∧ e.Same e' ∧
    ∀ q ≤ p, reduce q e₀ ph.opened = reduce q e' opened

variable {p q : Nat} {e e₀ : Expr} {opened : List Opened} {ph : Phrase}

theorem Stops.mono (h : Stops p opened) (hpq : p ≤ q) : Stops q opened :=
  fun r e hr => h r e (hpq.trans hr)

theorem Holds.mono (h : Holds q e opened ph) (hpq : p ≤ q) : Holds p e opened ph :=
  let ⟨e₀, e', hoperand, he, hreduce⟩ := h
  ⟨e₀, e', hoperand, he, fun r hr => hreduce r (hr.trans hpq)⟩

theorem stops_nil : Stops p [] := fun _ _ _ _ => rfl

theorem stops_group : Stops p (.group :: opened) := fun _ _ _ _ => rfl

theorem stops_args {callee : Callee} {start : Nat} {done : List Expr} :
    Stops p (.args callee start done :: opened) := fun _ _ _ _ => rfl

theorem stops_operator {left : Expr} {op : Operator} :
    Stops (op.precedence + 1) (.operator left op :: opened) := fun q e hq _ => by
  rw [reduce, if_neg (by omega)]

/-- Nothing that may follow an operand binds as tightly as `not`. -/
theorem stops_not : Stops Operator.notPrecedence opened := fun q e hq hlt => by omega

theorem step_eq_follow {t : Token} (h : ph.operand? = some e₀) (hstar : t.terminal ≠ .star)
    (hlparen : t.terminal ≠ .lparen) : ph.step t = follow ph.opened e₀ t := by
  obtain ⟨opened, focus⟩ := ph
  cases focus with
  | operand => cases h
  | keyword f start => cases h
  | name n span =>
    cases h
    simp only [step]
  | complete e =>
    cases h
    rfl

theorem step_operator {t : Token} {op : Operator} (h : ph.operand? = some e₀)
    (ht : t.terminal = .operator op) : ph.step t =
      some ⟨.operator (reduce op.precedence e₀ ph.opened).1 op ::
        (reduce op.precedence e₀ ph.opened).2, .operand⟩ := by
  rw [step_eq_follow h (by simp [ht]) (by simp [ht]), follow, ht]

/-- A comma or a closing parenthesis follows what is finished as it follows the operand that this
closes to. -/
theorem step_eq_follow_closed {t : Token} (h : ph.operand? = some e₀)
    (hreduce : reduce 0 e₀ ph.opened = (e, opened)) (hstops : reduce 0 e opened = (e, opened))
    (ht : t.terminal = .comma ∨ t.terminal = .rparen) : ph.step t = follow opened e t := by
  rcases ht with ht | ht <;>
    rw [step_eq_follow h (by simp [ht]) (by simp [ht]), follow, follow, ht] <;>
    simp only [hreduce, hstops]

/-! ## Parts of expressions -/

/-- In every place that admits operators of precedence `p` and above, `e` is read. -/
def Readable (p : Nat) (e : Expr) : Prop :=
  ∀ opened, Stops p opened → Reads step ⟨opened, .operand⟩ (e.lexemesAt p) (Holds p e opened)

theorem holds_complete {e' : Expr} (h : e.Same e') : Holds p e opened ⟨opened, .complete e'⟩ :=
  ⟨e', e', rfl, h, fun _ _ => rfl⟩

theorem ofDigits_text (b : Bool) (span : Span) :
    Expr.ofDigits (Bits.text [b]) span = .lit b span := by
  rw [Expr.ofDigits, Bits.text, String.toList_ofList]
  cases b <;> rfl

theorem unquote_quoted (text : String) : unquote ("\"" ++ text ++ "\"") = text := by
  rw [unquote, ← String.toList_inj]
  simp

theorem step_name {t : Token} {n : String} (ht : t.terminal = .identifier) (htext : t.text = n) :
    step ⟨opened, .operand⟩ t = some ⟨opened, .name n t.span⟩ := by
  simp only [step, begin, ht, htext]

theorem reads_operator {a b : Expr} {op : Operator} {s : Span} (ha : Readable op.precedence a)
    (hb : Readable (op.precedence + 1) b) (hstops : Stops op.precedence opened) :
    Reads step ⟨opened, .operand⟩
      (a.lexemesAt op.precedence ++ ⟨.operator op, op.keyword⟩ :: b.lexemesAt (op.precedence + 1))
      (Holds op.precedence (.binary a op b s) opened) := by
  refine (ha opened hstops).append fun ph hph => ?_
  obtain ⟨e₀, a', hoperand, ha', hreduce⟩ := hph
  -- The operator closes the left operand and, by `hstops`, nothing of what was open before it.
  refine .cons fun t ht _ => ⟨⟨.operator a' op :: opened, .operand⟩, ?_, ?_⟩
  · rw [step_operator hoperand ht, hreduce _ le_rfl,
      hstops _ _ le_rfl (Operator.precedence_lt_notPrecedence op)]
  refine (hb _ stops_operator).mono fun ph hph => ?_
  obtain ⟨e₀, b', hoperand, hb', hreduce⟩ := hph
  -- What follows binds no tighter than the operator, so it closes the right operand with it.
  refine ⟨e₀, a'.join op b', hoperand, ?_, fun q hq => ?_⟩
  · rw [Expr.Same, Expr.join, Expr.eraseSpans, Expr.eraseSpans, ha', hb']
  · rw [hreduce q (by omega), reduce, if_pos hq]

/-- The last token ended an argument; `args` are the arguments up to this one. -/
def EndsArgument (callee : Callee) (start : Nat) (opened : List Opened) (args : List Expr)
    (ph : Phrase) : Prop :=
  ∃ e₀ done e, args = done ++ [e] ∧ ph.operand? = some e₀ ∧
    reduce 0 e₀ ph.opened = (e, .args callee start done :: opened)

section Arguments

variable {callee : Callee} {start : Nat} {args done : List Expr} {t : Token}

theorem EndsArgument.step_comma (h : EndsArgument callee start opened args ph)
    (ht : t.terminal = .comma) : ph.step t = some ⟨.args callee start args :: opened, .operand⟩ := by
  obtain ⟨e₀, done, e, rfl, hoperand, hreduce⟩ := h
  rw [step_eq_follow_closed hoperand hreduce rfl (.inl ht)]
  simp only [follow, reduce, ht]

theorem EndsArgument.step_rparen (h : EndsArgument callee start opened args ph)
    (ht : t.terminal = .rparen) :
    ph.step t = some ⟨opened, .complete (callee.apply args ⟨start, t.span.stop⟩)⟩ := by
  obtain ⟨e₀, done, e, rfl, hoperand, hreduce⟩ := h
  rw [step_eq_follow_closed hoperand hreduce rfl (.inr ht)]
  simp only [follow, reduce, ht]

theorem Readable.reads_argument {a : Expr} (ha : Readable 0 a) :
    Reads step ⟨.args callee start done :: opened, .operand⟩ a.lexemes fun ph =>
      ∃ a', a.Same a' ∧ EndsArgument callee start opened (done ++ [a']) ph := by
  refine (ha _ stops_args).mono ?_
  rintro ph ⟨e₀, a', hoperand, ha', hreduce⟩
  exact ⟨a', ha', e₀, done, a', rfl, hoperand, hreduce 0 le_rfl⟩

theorem reads_args (hargs : ∀ a ∈ args, Readable 0 a) (span : Span) :
    Reads step ⟨.args callee start [] :: opened, .operand⟩
      (commas (args.map Expr.lexemes) ++ [.mark .rparen ')'])
      (Holds p (callee.apply args span) opened) := by
  refine (Reads.commas (fun done => ⟨.args callee start done :: opened, .operand⟩)
    (EndsArgument callee start opened) (fun _ _ _ => EndsArgument.step_comma)
    (fun a ha _ => (hargs a ha).reads_argument) []).append ?_
  rintro ph ⟨args', hargs', hph⟩
  rw [List.nil_append] at hph
  refine .single fun t ht _ =>
    ⟨_, ?_, holds_complete (callee.same_apply hargs' span ⟨start, t.span.stop⟩)⟩
  rcases hph with rfl | hph
  · simp only [step, begin, ht]
  · exact hph.step_rparen ht

end Arguments

/-! ## Expressions -/

theorem readable_lit (b : Bool) (s : Span) : Readable p (.lit b s) := by
  intro opened _
  refine .single fun t ht htext => ⟨⟨opened, .complete (.lit b t.span)⟩, ?_, holds_complete rfl⟩
  simp only [step, begin, ht, htext, ofDigits_text]

theorem readable_str (text : String) (s : Span) : Readable p (.str text s) := by
  intro opened _
  refine .single fun t ht htext => ⟨⟨opened, .complete (.str text t.span)⟩, ?_, holds_complete rfl⟩
  simp only [step, begin, ht, htext, unquote_quoted]

theorem readable_var (n : String) (reference : Bool) (s : Span) :
    Readable p (.var n reference s) := by
  intro opened _
  refine .cons fun t ht htext => ⟨⟨opened, .name n t.span⟩, step_name ht htext, ?_⟩
  cases reference with
  | false => exact .nil ⟨_, .var n false t.span, rfl, rfl, fun _ _ => rfl⟩
  | true =>
    refine .single fun u hu _ =>
      ⟨⟨opened, .complete (.var n true ⟨t.span.start, u.span.stop⟩)⟩, ?_, holds_complete rfl⟩
    simp only [step, hu]

theorem readable_binary {a b : Expr} {op : Operator} (ha : Readable op.precedence a)
    (hb : Readable (op.precedence + 1) b) (s : Span) : Readable p (.binary a op b s) := by
  intro opened hstops
  rw [Expr.lexemesAt]
  split
  case isFalse hmin =>
    have hmin := Nat.not_lt.1 hmin
    exact (reads_operator ha hb (hstops.mono hmin)).mono fun _ hph => hph.mono hmin
  case isTrue =>
    refine .cons fun t ht _ => ⟨⟨.group :: opened, .operand⟩, ?_, ?_⟩
    · simp only [step, begin, ht]
    refine (reads_operator (s := s) ha hb stops_group).append ?_
    rintro ph ⟨e₀, e', hoperand, he', hreduce⟩
    refine .single fun u hu _ => ⟨⟨opened, .complete e'⟩, ?_, holds_complete he'⟩
    rw [step_eq_follow_closed hoperand (hreduce 0 (Nat.zero_le _)) rfl (.inr hu)]
    simp only [follow, reduce, hu]

theorem readable_not {a : Expr} (hp : p ≤ Operator.notPrecedence)
    (ha : Readable Operator.notPrecedence a) (s : Span) : Readable p (.not a s) := by
  intro opened _
  refine .cons fun t ht _ => ⟨⟨.not t.span.start :: opened, .operand⟩, ?_, ?_⟩
  · simp only [step, begin, ht]
  refine (ha _ stops_not).mono ?_
  rintro ph ⟨e₀, a', hoperand, ha', hreduce⟩
  refine ⟨e₀, a'.negation ⟨t.span.start, t.span.start + 3⟩, hoperand, ?_, fun q hq => ?_⟩
  · rw [Expr.Same, Expr.negation, Expr.eraseSpans, Expr.eraseSpans, ha']
  · rw [hreduce q (hq.trans hp), reduce]

theorem readable_call (n : String) {args : List Expr} (hargs : ∀ a ∈ args, Readable 0 a)
    (s : Span) : Readable p (.call n args s) := by
  intro opened _
  rw [Expr.lexemesAt, Expr.lexemesAll_eq_map]
  refine .cons fun t ht htext => ⟨⟨opened, .name n t.span⟩, step_name ht htext, ?_⟩
  refine .cons fun u hu _ => ⟨⟨.args (.function n) t.span.start [] :: opened, .operand⟩, ?_, ?_⟩
  · simp only [step, hu]
  · exact reads_args hargs s

theorem readable_builtin (f : Builtin) {args : List Expr} (hargs : ∀ a ∈ args, Readable 0 a)
    (s : Span) : Readable p (.builtin f args s) := by
  intro opened _
  rw [Expr.lexemesAt, Expr.lexemesAll_eq_map]
  refine .cons fun t ht _ => ⟨⟨opened, .keyword f t.span.start⟩, ?_, ?_⟩
  · simp only [step, begin, ht]
  refine .cons fun u hu _ => ⟨_, if_pos hu, ?_⟩
  exact reads_args hargs s

/-- **Reading an expression**, by the recursion of its text. -/
theorem readable_of_isSource (he : e.isSource = true) (hp : p ≤ Operator.notPrecedence) :
    Readable p e := by
  induction e generalizing p with
  | lit b s => exact readable_lit b s
  | str text s => exact readable_str text s
  | var n reference s => exact readable_var n reference s
  | binary a op b s iha ihb =>
    rw [Expr.isSource, Bool.and_eq_true] at he
    have hop := Operator.precedence_lt_notPrecedence op
    exact readable_binary (iha he.1 hop.le) (ihb he.2 hop) s
  | not a s ih => exact readable_not hp (ih he le_rfl) s
  | call n args s ih =>
    rw [Expr.isSource, Bool.and_eq_true, Expr.allSource_iff] at he
    exact readable_call n (fun a ha => ih a ha (he.2 a ha) (Nat.zero_le _)) s
  | builtin f args s ih =>
    rw [Expr.isSource, Expr.allSource_iff] at he
    exact readable_builtin f (fun a ha => ih a ha (he a ha) (Nat.zero_le _)) s
  | error m s => cases he

/-! ## Ends -/

/-- The phrase is the expression `e`, with nothing around it. -/
def Ends (ph : Phrase) (e : Expr) : Prop :=
  ∃ e₀, ph.operand? = some e₀ ∧ reduce 0 e₀ ph.opened = (e, [])

theorem Ends.result? (h : ph.Ends e) : ph.result? = some e := by
  obtain ⟨e₀, hoperand, hreduce⟩ := h
  rw [Phrase.result?, hoperand]
  simp only [hreduce]

theorem ends_of_result? (h : ph.result? = some e) : ph.Ends e := by
  unfold Phrase.result? at h
  split at h
  case h_1 => cases h
  case h_2 e₀ hoperand =>
    split at h
    case h_2 => cases h
    case h_1 e' hreduce =>
      cases h
      exact ⟨e₀, hoperand, hreduce⟩

theorem Ends.step_eq_none {t : Token} (h : ph.Ends e)
    (ht : t.terminal = .comma ∨ t.terminal = .rparen) : ph.step t = none := by
  obtain ⟨e₀, hoperand, hreduce⟩ := h
  rw [step_eq_follow_closed hoperand hreduce rfl ht]
  rcases ht with ht | ht <;> simp only [follow, reduce, ht]

theorem step_semicolon {t : Token} (ht : t.terminal = .semicolon) : ph.step t = none := by
  obtain ⟨opened, focus⟩ := ph
  cases focus <;> simp [step, begin, follow, ht]

theorem reads_lexemes (he : e.isSource = true) :
    Reads step .empty e.lexemes fun ph => ∃ e', e.Same e' ∧ ph.Ends e' :=
  (readable_of_isSource he (Nat.zero_le _) [] stops_nil).mono
    fun _ ⟨e₀, e', hoperand, he', hreduce⟩ => ⟨e', he', e₀, hoperand, hreduce 0 le_rfl⟩

end Phrase

end Switching
