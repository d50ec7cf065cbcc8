import Switching.Proofs.Grammar.Rules
import Switching.Proofs.Parse.Program

/-!
# What is derived is read

* `Phrase.Finished`: the last token ended an operand, and what is finished closes to `e`.
* `Grammar.Expression.runs`: the tokens of an expression are read to it, wherever its tier may stand.
* `Draft.runs_head`, `Draft.runs_rows`, `Draft.runs_args`: the other parts of statements.
* `Grammar.Stmt.runs`: the tokens of a statement are read to it.
* **`Grammar.runs_expression`**, **`Grammar.runs_program`**: whole texts.
-/

namespace Switching

/-! ## Expressions -/

namespace Phrase

open Grammar

variable {p q : Nat} {e : Expr} {opened : List Opened} {ph : Phrase} {t r : Token} {ts : List Token}

/-- The finished operand closes to `e` before anything of precedence `p` or less. -/
def Finished (p : Nat) (e : Expr) (opened : List Opened) (ph : Phrase) : Prop :=
  ∃ e₀, ph.operand? = some e₀ ∧ ∀ q ≤ p, reduce q e₀ ph.opened = reduce q e opened

theorem finished_complete : Finished p e opened ⟨opened, .complete e⟩ := ⟨e, rfl, fun _ _ => rfl⟩

theorem Finished.mono (h : Finished q e opened ph) (hpq : p ≤ q) : Finished p e opened ph :=
  let ⟨e₀, hoperand, hreduce⟩ := h
  ⟨e₀, hoperand, fun r hr => hreduce r (hr.trans hpq)⟩

/-- Wherever operators of precedence `p` and above may stand, the tokens are read to `e`. -/
def Accepts (p : Nat) (ts : List Token) (e : Expr) : Prop :=
  ∀ opened, Stops p opened → ∃ ph, Runs step ⟨opened, .operand⟩ ts ph ∧ Finished p e opened ph

theorem runs_args {args : List Expr} (hargs : Comma (Accepts 1) ts args) (hr : r.terminal = .rparen)
    (callee : Callee) (start : Nat) (done : List Expr) :
    Runs step ⟨.args callee start done :: opened, .operand⟩ (ts ++ [r])
      ⟨opened, .complete (callee.apply (done ++ args) ⟨start, r.span.stop⟩)⟩ := by
  induction hargs generalizing done with
  | nil =>
    refine .single ?_
    simp only [step, begin, hr, List.append_nil]
  | last ha =>
    obtain ⟨ph, hrun, e₀, hoperand, hreduce⟩ := ha _ stops_args
    refine hrun.append (.single ?_)
    rw [step_eq_follow_closed hoperand (hreduce 0 (Nat.zero_le 1)) rfl (.inr hr)]
    simp only [follow, reduce, hr]
  | @cons _ _ comma a as ha hcomma _ ih =>
    obtain ⟨ph, hrun, e₀, hoperand, hreduce⟩ := ha _ stops_args
    rw [List.append_assoc, List.cons_append, ← List.singleton_append (l := as), ← List.append_assoc]
    refine hrun.append (.cons ?_ (ih _))
    rw [step_eq_follow_closed hoperand (hreduce 0 (Nat.zero_le 1)) rfl (.inl hcomma)]
    simp only [follow, reduce, hcomma]

end Phrase

namespace Grammar

open Phrase

variable {ts us : List Token} {e : Expr}

theorem Comma.mono {α : Type} {Item Item' : List Token → α → Prop} {as : List α}
    (h : Comma Item ts as) (hItem : ∀ us a, Item us a → Item' us a) : Comma Item' ts as := by
  induction h with
  | nil => exact .nil
  | last ha => exact .last (hItem _ _ ha)
  | cons ha ht _ ih => exact .cons (hItem _ _ ha) ht ih

/-- An expression is read wherever its tier may stand. -/
theorem Expression.runs {tier : Tier} (h : Expression tier ts e) : Accepts tier.strength ts e := by
  induction h using Expression.induction with
  | @join tier ts us t op a b _ ht hop _ iha ihb =>
    intro opened hstops
    have hstrength := Tier.mem_operators_iff.1 hop
    rw [Tier.strength_tighter (Tier.ne_term_of_mem hop)] at ihb
    rw [← hstrength] at iha ihb hstops ⊢
    obtain ⟨ph, hrun, e₀, hoperand, hreduce⟩ := iha opened hstops
    obtain ⟨ph', hrun', e₁, hoperand', hreduce'⟩ := ihb (.operator a op :: opened) stops_operator
    -- The operator closes its left operand, and nothing of what was open before it.
    refine ⟨ph', hrun.append (.cons ?_ hrun'), e₁, hoperand', fun q hq => ?_⟩
    · rw [step_operator hoperand ht, hreduce _ le_rfl,
        hstops _ _ le_rfl (Operator.precedence_lt_notPrecedence op)]
    · rw [hreduce' q (by omega), reduce, if_pos hq]
  | @tighter tier ts e htier _ ih =>
    intro opened hstops
    rw [Tier.strength_tighter htier] at ih
    obtain ⟨ph, hrun, hfinished⟩ := ih opened (hstops.mono (Nat.le_succ _))
    exact ⟨ph, hrun, hfinished.mono (Nat.le_succ _)⟩
  | @not ts t a ht _ ih =>
    intro opened _
    obtain ⟨ph, hrun, e₀, hoperand, hreduce⟩ := ih (.not t.span.start :: opened) stops_not
    refine ⟨ph, .cons ?_ hrun, e₀, hoperand, fun q hq => ?_⟩
    · simp only [step, begin, ht]
    · rw [hreduce q hq, reduce]
  | digits ht =>
    refine fun opened _ => ⟨_, .single ?_, finished_complete⟩
    simp only [step, begin, ht]
  | string ht =>
    refine fun opened _ => ⟨_, .single ?_, finished_complete⟩
    simp only [step, begin, ht]
  | @name t ht =>
    exact fun opened _ => ⟨⟨opened, .name t.text t.span⟩, .single (step_name ht rfl),
      .var t.text false t.span, rfl, fun _ _ => rfl⟩
  | @reference t star ht hstar =>
    refine fun opened _ => ⟨_, .cons (step_name ht rfl) (.single ?_), finished_complete⟩
    simp only [step, hstar]
  | @call t l r ts args ht hl _ hr hargs =>
    replace hargs := hargs.mono fun _ _ ha => ha.elim fun _ h => h
    refine fun opened _ => ⟨_, .cons (step_name ht rfl) (.cons ?_
      (runs_args hargs hr (.function t.text) t.span.start [])), finished_complete⟩
    simp only [step, hl]
  | @builtin t l r f ts args ht hl _ hr hargs =>
    replace hargs := hargs.mono fun _ _ ha => ha.elim fun _ h => h
    intro opened _
    have hkeyword : step ⟨opened, .operand⟩ t = some ⟨opened, .keyword f t.span.start⟩ := by
      simp only [step, begin, ht]
    refine ⟨_, .cons hkeyword (.cons ?_ (runs_args hargs hr (.builtin f) t.span.start [])),
      finished_complete⟩
    simp only [step, hl, if_true]
  | @group l r ts e hl _ hr ih =>
    intro opened _
    obtain ⟨ph, hrun, e₀, hoperand, hreduce⟩ := ih (.group :: opened) stops_group
    refine ⟨⟨opened, .complete e⟩, .cons ?_ (hrun.append (.single ?_)), finished_complete⟩
    · simp only [step, begin, hl]
    · rw [step_eq_follow_closed hoperand (hreduce 0 (Nat.zero_le _)) rfl (.inr hr)]
      simp only [follow, reduce, hr]

/-- **The tokens of an expression** are read to it. -/
theorem runs_expression (h : Expression .implication ts e) :
    ∃ ph, Runs Phrase.step .empty ts ph ∧ ph.Ends e :=
  let ⟨ph, hrun, e₀, hoperand, hreduce⟩ := h.runs [] stops_nil
  ⟨ph, hrun, e₀, hoperand, hreduce 0 (Nat.zero_le _)⟩

end Grammar

/-! ## Parts of statements -/

namespace Draft

open Grammar

variable {done : List Statement} {d : Draft} {e : Expr} {ts us : List Token} {r semi : Token}
  {head : Switching.Head}

/-- An expression that a semicolon ends, in a stage that only passes tokens on to the phrase. -/
theorem runs_untilSemicolon (stay : Phrase → Draft) (finish : Token → Expr → Draft)
    (hstep : ∀ ph t, step (stay ph) t = untilSemicolon ph t stay (finish t))
    (he : Expression .implication ts e) (hsemi : semi.terminal = .semicolon) :
    Runs step (stay .empty) (ts ++ [semi]) (finish semi e) := by
  obtain ⟨ph, hrun, hends⟩ := runs_expression he
  refine (hrun.lift stay fun ph t ph' h => ?_).append (.single ?_)
  · rw [hstep, untilSemicolon_of_step h]
  · rw [hstep, untilSemicolon_semicolon hends hsemi]

theorem runs_names {ns : List String} (h : Comma Ident ts ns) (done : List Statement)
    (head : Switching.Head) :
    ∃ d, Runs step ⟨done, .params head⟩ ts d ∧ InParams done (ns.foldl Head.push head) d := by
  have hname : ∀ {us n}, Ident us n → ∀ head : Switching.Head,
      Runs step ⟨done, .params head⟩ us ⟨done, .separator (head.push n)⟩ := by
    rintro _ _ ⟨t, rfl, ht, rfl⟩ head
    refine .single ?_
    simp only [step, ht]
  induction h generalizing head with
  | nil => exact ⟨_, .nil, .inl rfl⟩
  | last ha => exact ⟨_, hname ha head, .inr rfl⟩
  | cons ha ht _ ih =>
    obtain ⟨d, hrun, hd⟩ := ih (head.push _)
    refine ⟨d, (hname ha head).append (.cons ?_ hrun), hd⟩
    simp only [step, ht]

theorem runs_subparams {n : String} {start : Nat} {ns : List String}
    {subparams? : Option (List String)} (h : Subparams ts subparams?)
    (hd : InParams done ⟨n, start, ns, none⟩ d) :
    ∃ d', Runs step d ts d' ∧ InParams done ⟨n, start, ns, subparams?⟩ d' := by
  cases h with
  | none => exact ⟨d, .nil, hd⟩
  | @some colon ts ms hcolon hms =>
    obtain ⟨d', hrun, hd'⟩ := runs_names hms done ⟨n, start, ns, some []⟩
    rw [Head.foldl_push_subparams, List.nil_append] at hd'
    refine ⟨d', .cons ?_ hrun, hd'⟩
    rcases hd with rfl | rfl <;> simp only [step, hcolon, Option.isNone_none, if_true]

theorem InParams.runs_close {eq : Token} (h : InParams done head d) (hr : r.terminal = .rparen)
    (heq : eq.terminal = .equals) : Runs step d [r, eq] ⟨done, .body head⟩ := by
  have hparams : step d r = some ⟨done, .equals head⟩ := by
    rcases h with rfl | rfl <;> simp only [step, hr]
  refine .cons hparams (.single ?_)
  simp only [step, heq]

theorem runs_head (h : Grammar.Head ts head) (hd : Ready done d) :
    Runs step d ts ⟨done, .body head⟩ := by
  obtain ⟨ht, hl, hns, hsub, hr, heq⟩ := h
  rename_i t l r eq ts us ns subparams?
  have hlparen : step ⟨done, .named t.text t.span.start⟩ l =
      some ⟨done, .params ⟨t.text, t.span.start, [], none⟩⟩ := by
    simp only [step, hl]
  obtain ⟨d₁, hrun, hd₁⟩ := runs_names hns done ⟨t.text, t.span.start, [], none⟩
  rw [Head.foldl_push_params, List.nil_append] at hd₁
  obtain ⟨d₂, hrun', hd₂⟩ := runs_subparams hsub hd₁
  exact .cons (hd.step_name ht rfl) (.cons hlparen ((hrun.append hrun').append
    (hd₂.runs_close hr heq)))

theorem runs_formula (he : Expression .implication ts e) (hsemi : semi.terminal = .semicolon) :
    Runs step ⟨done, .body head⟩ (ts ++ [semi])
      ⟨done ++ [head.define e semi.span.stop], .fresh⟩ := by
  have hrun : Runs step ⟨done, .formula head .empty⟩ (ts ++ [semi])
      ⟨done ++ [head.define e semi.span.stop], .fresh⟩ :=
    runs_untilSemicolon (⟨done, .formula head ·⟩)
      (fun t e => ⟨done ++ [head.define e t.span.stop], .fresh⟩) (fun _ _ => rfl) he hsemi
  -- The equals sign leaves open whether a table follows, so the first token is read differently.
  obtain ⟨t, us, hts⟩ : ∃ t us, ts ++ [semi] = t :: us :=
    List.exists_cons_of_ne_nil (List.append_ne_nil_of_right_ne_nil ts (List.cons_ne_nil semi []))
  rw [hts] at hrun ⊢
  exact hrun.of_step fun _ _ => step_body_of_formula

theorem runs_row {row : TableRow} (h : Row ts row) (before : List TableRow) :
    Runs step ⟨done, .rows head before⟩ ts ⟨done, .rows head (before ++ [row])⟩ := by
  obtain ⟨ht, hcolon, he, hsemi⟩ := h
  rename_i t colon semi ts e
  let bits := t.text.toList.filterMap Bits.ofDigit?
  have hpattern : step ⟨done, .rows head before⟩ t =
      some ⟨done, .pattern head before bits t.span.start⟩ := by
    simp only [step, ht, bits]
  have houtput : step ⟨done, .pattern head before bits t.span.start⟩ colon =
      some ⟨done, .output head before bits t.span.start .empty⟩ := by
    simp only [step, hcolon]
  exact .cons hpattern (.cons houtput (runs_untilSemicolon
    (⟨done, .output head before bits t.span.start ·⟩)
    (fun semi e => ⟨done, .rows head (before ++ [⟨bits, e, ⟨t.span.start, semi.span.stop⟩⟩])⟩)
    (fun _ _ => rfl) he hsemi))

theorem runs_rows {rows : List TableRow} (h : Many Row ts rows) (before : List TableRow) :
    Runs step ⟨done, .rows head before⟩ ts ⟨done, .rows head (before ++ rows)⟩ := by
  induction h generalizing before with
  | nil =>
    rw [List.append_nil]
    exact .nil
  | @cons ts us a as ha _ ih =>
    rw [← List.singleton_append (l := as), ← List.append_assoc]
    exact (runs_row ha before).append (ih _)

theorem runs_table {table : FunctionTable} (h : Table ts table) (hd : Ready done d) :
    Runs step d ts ⟨done, .tabled table⟩ := by
  obtain ⟨hhead, ht, hl, hrows, hr⟩ := h
  refine (runs_head hhead hd).append (.cons (step_table ht) (.cons (step_lbrace hl)
    ((runs_rows hrows []).append (.single ?_))))
  simp only [step, hr, List.nil_append, Head.tabulate]

theorem runs_args {f : Builtin} {start : Nat} {args : List Expr}
    (h : Comma (Expression .implication) ts args) (hr : r.terminal = .rparen)
    (before : List Expr) :
    Runs step ⟨done, .args f start before .empty⟩ (ts ++ [r])
      ⟨done, .called f start (before ++ args)⟩ := by
  have hargument : ∀ {us a}, Expression .implication us a → ∀ before, ∃ d,
      Runs step ⟨done, .args f start before .empty⟩ us d ∧
        EndsArgument done f start (before ++ [a]) d := fun {us a} ha before => by
    obtain ⟨ph, hrun, hends⟩ := runs_expression ha
    exact ⟨_, hrun.lift (Draft.mk done <| .args f start before ·) fun _ _ _ => step_args_of_step,
      ph, before, a, rfl, hends, rfl⟩
  induction h generalizing before with
  | nil =>
    rw [List.append_nil]
    exact .single (step_rparen_empty hr)
  | last ha =>
    obtain ⟨d, hrun, hd⟩ := hargument ha before
    exact hrun.append (.single (hd.step_rparen hr))
  | @cons _ _ comma a as ha ht _ ih =>
    obtain ⟨d, hrun, hd⟩ := hargument ha before
    rw [List.append_assoc, List.cons_append, ← List.singleton_append (l := as), ← List.append_assoc]
    exact hrun.append (.cons (hd.step_comma ht) (ih _))

end Draft

/-! ## Statements -/

namespace Grammar

open Draft

variable {ts : List Token} {s : Statement} {p : Program} {done : List Statement} {d : Draft}

theorem Stmt.runs (h : Stmt ts s) (hd : Ready done d) :
    ∃ d', Runs Draft.step d ts d' ∧ Ready (done ++ [s]) d' := by
  cases h with
  | @assignment t eq semi ts e ht heq he hsemi =>
    have hequals : Draft.step ⟨done, .named t.text t.span.start⟩ eq =
        some ⟨done, .value t.text t.span.start .empty⟩ := by
      simp only [Draft.step, heq]
    exact ⟨_, .cons (hd.step_name ht rfl) (.cons hequals (runs_untilSemicolon
      (⟨done, .value t.text t.span.start ·⟩)
      (fun semi e => ⟨done ++ [.variable t.text e ⟨t.span.start, semi.span.stop⟩], .fresh⟩)
      (fun _ _ => rfl) he hsemi)), .inl rfl⟩
  | @function semi ts us head e hhead hsub he hsemi =>
    have hdefine : head.define e semi.span.stop =
        .function ⟨head.name, head.params, e, ⟨head.start, semi.span.stop⟩⟩ := by
      rw [Head.define, hsub]
    rw [List.append_assoc, ← hdefine]
    exact ⟨_, (runs_head hhead hd).append (runs_formula he hsemi), .inl rfl⟩
  | @misplaced semi ts us head ns e hhead hsub he hsemi =>
    have hdefine : head.define e semi.span.stop =
        .error s!"function `{head.name}` has subparameters but no table body"
          ⟨head.start, semi.span.stop⟩ := by
      rw [Head.define, hsub]
    rw [List.append_assoc, ← hdefine]
    exact ⟨_, (runs_head hhead hd).append (runs_formula he hsemi), .inl rfl⟩
  | table htable => exact ⟨_, runs_table htable hd, .inr ⟨done, _, rfl, rfl⟩⟩
  | tableEnded htable hsemi =>
    refine ⟨_, (runs_table htable hd).append (.single ?_), .inl rfl⟩
    simp only [Draft.step, hsemi]
  | @builtin t l r semi f ts args ht hl hargs hr hsemi =>
    have hkeyword : d.step t = some ⟨done, .keyword f t.span.start⟩ := by
      rw [hd.step (by simp [ht]), begin, ht]
    have hlparen : Draft.step ⟨done, .keyword f t.span.start⟩ l =
        some ⟨done, .args f t.span.start [] .empty⟩ := by
      simp only [Draft.step, hl]
    have hcalled : Draft.step ⟨done, .called f t.span.start args⟩ semi =
        some ⟨done ++ [.builtin f args ⟨t.span.start, semi.span.stop⟩], .fresh⟩ := by
      simp only [Draft.step, hsemi]
    refine ⟨_, ?_, .inl rfl⟩
    rw [← List.singleton_append (l := [semi]), ← List.append_assoc]
    exact .cons hkeyword (.cons hlparen ((runs_args hargs hr []).append (.single hcalled)))

/-- **The tokens of a program** are read to its statements. -/
theorem runs_program (h : Many Stmt ts p) :
    ∃ d, Runs Draft.step .empty ts d ∧ d.result? = some p := by
  have hmany : ∀ {done d}, Ready done d →
      ∃ d', Runs Draft.step d ts d' ∧ Ready (done ++ p) d' := by
    induction h with
    | nil => exact fun {done d} hd => ⟨d, .nil, by rwa [List.append_nil]⟩
    | cons ha _ ih =>
      intro done d hd
      obtain ⟨d₁, hrun, hd₁⟩ := ha.runs hd
      obtain ⟨d₂, hrun', hd₂⟩ := ih hd₁
      rw [List.append_assoc] at hd₂
      exact ⟨d₂, hrun.append hrun', hd₂⟩
  obtain ⟨d, hrun, hd⟩ := hmany (.inl rfl)
  exact ⟨d, hrun, hd.result?⟩

end Grammar

end Switching
