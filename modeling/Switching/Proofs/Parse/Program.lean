import Switching.Proofs.Parse.Phrase
import Switching.Proofs.Program.Lexemes

/-!
# Reading programs

* `Statement.Same`: two statements are the same up to places.
* `Draft.reads_untilSemicolon`: an expression that a semicolon ends.
* `Draft.reads_head`, `Draft.reads_rows`, `Draft.reads_args`: the other parts of statements.
* `Draft.Ready done d`: the statements `done` are read, and another one may follow. A table that
  may still be followed by its semicolon counts as read.
* `Draft.takes_of_isSource`: wherever a statement may begin, its tokens are read to it.
* `Draft.reads_program`: the tokens of a program are read to its statements.
* **`parse_text`**: expressions and programs are read back from their texts.
-/

namespace Switching

theorem Bits.filterMap_ofDigit?_text (bs : List Bool) :
    (text bs).toList.filterMap ofDigit? = bs := by
  have hdigit : ofDigit? ∘ digit = some := funext ofDigit?_digit
  rw [text, String.toList_ofList, List.filterMap_map, hdigit, List.filterMap_some]

/-- The rows are the same up to places. -/
def TableRow.Same (a b : TableRow) : Prop := b.eraseSpans = a.eraseSpans

/-- The statements are the same up to places. -/
def Statement.Same (a b : Statement) : Prop := b.eraseSpans = a.eraseSpans

theorem map_eq_map_of_forall₂ {α β : Type} {f : α → β} {as bs : List α}
    (h : List.Forall₂ (fun a b => f b = f a) as bs) : bs.map f = as.map f := by
  rw [← List.forall₂_eq_eq_eq, List.forall₂_map_left_iff, List.forall₂_map_right_iff]
  exact h.flip

/-- The beginning that the text of a function writes, with a colon only before a subparameter. -/
def Head.written (name : String) (start : Nat) (params subparams : List String) : Head :=
  ⟨name, start, params, if subparams.isEmpty then none else some subparams⟩

theorem Head.tabulate_written (name : String) (start : Nat) (params subparams : List String)
    (rows : List TableRow) (stop : Nat) :
    (written name start params subparams).tabulate rows stop =
      ⟨name, params, subparams, rows, ⟨start, stop⟩⟩ := by
  rw [written, tabulate]
  split
  case isTrue h => rw [List.isEmpty_iff.1 h, Option.getD_none]
  case isFalse => rw [Option.getD_some]

theorem Head.foldl_push_params (name : String) (start : Nat) (params ns : List String) :
    ns.foldl Head.push ⟨name, start, params, none⟩ = ⟨name, start, params ++ ns, none⟩ := by
  induction ns generalizing params with
  | nil => rw [List.foldl_nil, List.append_nil]
  | cons n ns ih => rw [List.foldl_cons, push, ih, List.append_assoc, List.singleton_append]

theorem Head.foldl_push_subparams (name : String) (start : Nat)
    (params subparams ns : List String) :
    ns.foldl Head.push ⟨name, start, params, some subparams⟩ =
      ⟨name, start, params, some (subparams ++ ns)⟩ := by
  induction ns generalizing subparams with
  | nil => rw [List.foldl_nil, List.append_nil]
  | cons n ns ih => rw [List.foldl_cons, push, ih, List.append_assoc, List.singleton_append]

namespace Draft

variable {done : List Statement} {d : Draft} {e : Expr}

attribute [local simp] step argument

/-! ## Between statements -/

/-- The statements `done` are read. A table may still be followed by its semicolon. -/
def Ready (done : List Statement) (d : Draft) : Prop :=
  d = ⟨done, .fresh⟩ ∨ ∃ done₀ table, done = done₀ ++ [.table table] ∧ d = ⟨done₀, .tabled table⟩

theorem Ready.step {t : Token} (h : Ready done d) (ht : t.terminal ≠ .semicolon) :
    d.step t = begin done t := by
  rcases h with rfl | ⟨done₀, table, rfl, rfl⟩
  · rfl
  · simp only [Draft.step]

theorem Ready.step_name {t : Token} {n : String} (h : Ready done d) (ht : t.terminal = .identifier)
    (htext : t.text = n) : d.step t = some ⟨done, .named n t.span.start⟩ := by
  rw [h.step (by simp [ht]), begin, ht, htext]

theorem Ready.result? (h : Ready done d) : d.result? = some done := by
  rcases h with rfl | ⟨done₀, table, rfl, rfl⟩ <;> rfl

/-! ## Expressions -/

theorem untilSemicolon_of_step {ph ph' : Phrase} {t : Token} (h : ph.step t = some ph')
    (stay : Phrase → Draft) (finish : Expr → Draft) :
    untilSemicolon ph t stay finish = some (stay ph') := by
  have ht : t.terminal ≠ .semicolon := fun ht => by
    rw [Phrase.step_semicolon ht] at h
    cases h
  rw [untilSemicolon, if_neg ht, h, Option.map_some]

theorem untilSemicolon_semicolon {ph : Phrase} {t : Token} (h : ph.Ends e)
    (ht : t.terminal = .semicolon) (stay : Phrase → Draft) (finish : Expr → Draft) :
    untilSemicolon ph t stay finish = some (finish e) := by
  rw [untilSemicolon, if_pos ht, h.result?, Option.map_some]

theorem reads_untilSemicolon (stay : Phrase → Draft) (finish : Token → Expr → Draft)
    (hstep : ∀ ph t, step (stay ph) t = untilSemicolon ph t stay (finish t))
    (he : e.isSource = true) :
    Reads step (stay .empty) (e.lexemes ++ [.mark .semicolon ';']) fun d =>
      ∃ e' t, e.Same e' ∧ d = finish t e' := by
  refine ((Phrase.reads_lexemes he).lift stay fun ph t ph' h => ?_).append ?_
  · rw [hstep, untilSemicolon_of_step h]
  rintro _ ⟨ph, rfl, e', he', hends⟩
  refine .single fun t ht _ => ⟨finish t e', ?_, e', t, he', rfl⟩
  rw [hstep, untilSemicolon_semicolon hends ht]

/-- What goes on a formula that has just begun can follow the equals sign of a function. -/
theorem step_body_of_formula {head : Head} {t : Token}
    (h : step ⟨done, .formula head .empty⟩ t = some d) : step ⟨done, .body head⟩ t = some d := by
  have hsemicolon : t.terminal ≠ .semicolon := fun ht => by
    simp only [step, untilSemicolon, if_pos ht] at h
    cases h
  have htable : t.terminal ≠ .table := fun ht => by
    simp only [step, untilSemicolon, Phrase.step, Phrase.empty, Phrase.begin, ht] at h
    cases h
  simp only [step, untilSemicolon, if_neg hsemicolon] at h ⊢
  exact h

theorem step_table {head : Head} {t : Token} (ht : t.terminal = .table) :
    step ⟨done, .body head⟩ t = some ⟨done, .brace head⟩ := by
  simp only [step, ht]

theorem step_lbrace {head : Head} {t : Token} (ht : t.terminal = .lbrace) :
    step ⟨done, .brace head⟩ t = some ⟨done, .rows head []⟩ := by
  simp only [step, ht]

/-! ## Heads -/

/-- In the parameters, where the name or the list before is finished. -/
def InParams (done : List Statement) (head : Head) (d : Draft) : Prop :=
  d = ⟨done, .params head⟩ ∨ d = ⟨done, .separator head⟩

theorem reads_names (head : Head) (ns : List String) :
    Reads step ⟨done, .params head⟩ (nameLexemes ns) (InParams done (ns.foldl Head.push head)) := by
  refine (Reads.commas (R := Eq) (fun ms => Draft.mk done (.params (ms.foldl Head.push head)))
    (fun ms d => d = ⟨done, .separator (ms.foldl Head.push head)⟩) ?_ ?_ []).mono ?_
  · rintro ms _ t rfl ht
    simp only [step, ht]
  · intro n _ ms
    refine .single fun t ht htext => ⟨_, ?_, n, rfl, rfl⟩
    simp only [step, ht, htext, List.foldl_append, List.foldl_cons, List.foldl_nil]
  rintro d ⟨ms, hms, hd⟩
  rw [List.forall₂_eq_eq_eq] at hms
  subst hms
  exact hd

theorem InParams.reads_close {head : Head} (h : InParams done head d) :
    Reads step d [.mark .rparen ')', .mark .equals '='] (· = ⟨done, .body head⟩) := by
  refine .cons fun t ht _ => ⟨⟨done, .equals head⟩, ?_, ?_⟩
  · rcases h with rfl | rfl <;> simp only [step, ht]
  · refine .single fun t ht _ => ⟨_, ?_, rfl⟩
    simp only [step, ht]

theorem reads_head (hd : Ready done d) (name : String) (params subparams : List String) :
    Reads step d (headLexemes name params subparams) fun d' => ∃ start,
      d' = ⟨done, .body (.written name start params subparams)⟩ := by
  refine .cons fun t ht htext => ⟨_, hd.step_name ht htext, ?_⟩
  refine .cons fun u hu _ => ⟨⟨done, .params ⟨name, t.span.start, [], none⟩⟩, ?_, ?_⟩
  · simp only [step, hu]
  refine (reads_names _ params).append fun d hd => ?_
  rw [Head.foldl_push_params, List.nil_append] at hd
  unfold subparamLexemes Head.written
  split
  case isTrue => exact hd.reads_close.mono fun _ hd' => ⟨_, hd'⟩
  case isFalse =>
    refine .cons fun v hv _ => ⟨⟨done, .params ⟨name, t.span.start, params, some []⟩⟩, ?_, ?_⟩
    · rcases hd with rfl | rfl <;> simp only [step, hv] <;> rfl
    refine (reads_names _ subparams).append fun d hd => ?_
    rw [Head.foldl_push_subparams, List.nil_append] at hd
    exact hd.reads_close.mono fun _ hd' => ⟨_, hd'⟩

/-! ## Rows -/

theorem reads_rows {rows : List TableRow} (h : ∀ r ∈ rows, r.isSource = true) (head : Head)
    (before : List TableRow) :
    Reads step ⟨done, .rows head before⟩ (rowLexemes rows) fun d => ∃ rows' stop,
      List.Forall₂ TableRow.Same rows rows' ∧
        d = ⟨done, .tabled (head.tabulate (before ++ rows') stop)⟩ := by
  induction rows generalizing before with
  | nil =>
    refine .single fun t ht _ => ⟨_, ?_, [], t.span.stop, .nil, rfl⟩
    simp only [step, ht, List.append_nil]
  | cons r rows ih =>
    rw [List.forall_mem_cons, TableRow.isSource, Bool.and_eq_true] at h
    obtain ⟨⟨_, houtput⟩, hrows⟩ := h
    rw [rowLexemes, List.flatMap_cons, List.append_assoc]
    refine .cons fun t ht htext => ⟨⟨done, .pattern head before r.pattern t.span.start⟩, ?_, ?_⟩
    · simp only [step, ht, htext, Bits.filterMap_ofDigit?_text]
    refine .cons fun u hu _ =>
      ⟨⟨done, .output head before r.pattern t.span.start .empty⟩, ?_, ?_⟩
    · simp only [step, hu]
    refine (reads_untilSemicolon (⟨done, .output head before r.pattern t.span.start ·⟩)
      (fun v e => ⟨done, .rows head (before ++ [⟨r.pattern, e, ⟨t.span.start, v.span.stop⟩⟩])⟩)
      (fun _ _ => rfl) houtput).append ?_
    rintro _ ⟨e', v, he', rfl⟩
    refine (ih hrows _).mono ?_
    rintro _ ⟨rows', stop, hrows', rfl⟩
    refine ⟨⟨r.pattern, e', ⟨t.span.start, v.span.stop⟩⟩ :: rows', stop, .cons ?_ hrows', ?_⟩
    · rw [TableRow.Same, TableRow.eraseSpans, TableRow.eraseSpans, he']
    · rw [List.append_assoc, List.singleton_append]

/-! ## Arguments -/

/-- The last token ended an argument; `args` are the arguments up to this one. -/
def EndsArgument (done : List Statement) (f : Builtin) (start : Nat) (args : List Expr)
    (d : Draft) : Prop :=
  ∃ ph before e, args = before ++ [e] ∧ ph.Ends e ∧ d = ⟨done, .args f start before ph⟩

section Arguments

variable {f : Builtin} {start : Nat} {args before : List Expr} {t : Token}

theorem EndsArgument.step_comma (h : EndsArgument done f start args d)
    (ht : t.terminal = .comma) : d.step t = some ⟨done, .args f start args .empty⟩ := by
  obtain ⟨ph, before, e, rfl, hends, rfl⟩ := h
  simp only [step, argument, hends.step_eq_none (.inl ht), ht, hends.result?]

theorem EndsArgument.step_rparen (h : EndsArgument done f start args d)
    (ht : t.terminal = .rparen) : d.step t = some ⟨done, .called f start args⟩ := by
  obtain ⟨ph, before, e, rfl, hends, rfl⟩ := h
  simp only [step, argument, hends.step_eq_none (.inr ht), ht, hends.result?]

theorem step_args_of_step {ph ph' : Phrase} (h : ph.step t = some ph') :
    step ⟨done, .args f start before ph⟩ t = some ⟨done, .args f start before ph'⟩ := by
  simp only [step, argument, h]

theorem step_rparen_empty (ht : t.terminal = .rparen) :
    step ⟨done, .args f start args .empty⟩ t = some ⟨done, .called f start args⟩ := by
  have hnone : Phrase.empty.step t = none := by
    simp only [Phrase.step, Phrase.empty, Phrase.begin, ht]
  simp only [step, argument, hnone, ht]
  rfl

theorem reads_argument {a : Expr} (ha : a.isSource = true) :
    Reads step ⟨done, .args f start before .empty⟩ a.lexemes fun d =>
      ∃ a', a.Same a' ∧ EndsArgument done f start (before ++ [a']) d := by
  refine ((Phrase.reads_lexemes ha).lift (Draft.mk done <| .args f start before ·)
    fun _ _ _ => step_args_of_step).mono ?_
  rintro _ ⟨ph, rfl, a', ha', hends⟩
  exact ⟨a', ha', ph, before, a', rfl, hends, rfl⟩

theorem reads_args (hargs : ∀ a ∈ args, a.isSource = true) :
    Reads step ⟨done, .args f start [] .empty⟩
      (commas (args.map Expr.lexemes) ++ [.mark .rparen ')']) fun d =>
        ∃ args', List.Forall₂ Expr.Same args args' ∧ d = ⟨done, .called f start args'⟩ := by
  refine (Reads.commas (⟨done, .args f start · .empty⟩) (EndsArgument done f start)
    (fun _ _ _ => EndsArgument.step_comma) (fun a ha _ => reads_argument (hargs a ha)) []).append ?_
  rintro d ⟨args', hargs', hd⟩
  rw [List.nil_append] at hd
  refine .single fun t ht _ => ⟨⟨done, .called f start args'⟩, ?_, args', hargs', rfl⟩
  rcases hd with rfl | hd
  · exact step_rparen_empty ht
  · exact hd.step_rparen ht

end Arguments

/-! ## Statements -/

/-- Wherever a statement may begin, `s` is read. -/
def Takes (s : Statement) : Prop :=
  ∀ done d, Ready done d →
    Reads step d s.lexemes fun d' => ∃ s', s.Same s' ∧ Ready (done ++ [s']) d'

theorem takes_variable (n : String) (he : e.isSource = true) (span : Span) :
    Takes (.variable n e span) := by
  intro done d hd
  refine .cons fun t ht htext => ⟨_, hd.step_name ht htext, ?_⟩
  refine .cons fun u hu _ => ⟨⟨done, .value n t.span.start .empty⟩, ?_, ?_⟩
  · simp only [step, hu]
  refine (reads_untilSemicolon (⟨done, .value n t.span.start ·⟩)
    (fun v e => ⟨done ++ [.variable n e ⟨t.span.start, v.span.stop⟩], .fresh⟩)
    (fun _ _ => rfl) he).mono ?_
  rintro _ ⟨e', v, he', rfl⟩
  exact ⟨.variable n e' ⟨t.span.start, v.span.stop⟩, congrArg (Statement.variable n · .none) he',
    .inl rfl⟩

theorem takes_function {f : Function} (hbody : f.body.isSource = true) : Takes (.function f) := by
  intro done d hd
  refine (reads_head hd f.name f.params []).append ?_
  rintro _ ⟨start, rfl⟩
  let head := Head.written f.name start f.params []
  have hformula := reads_untilSemicolon (⟨done, .formula head ·⟩)
    (fun v e => ⟨done ++ [head.define e v.span.stop], .fresh⟩) (fun _ _ => rfl) hbody
  -- The equals sign leaves open whether a table follows, so the first token is read differently.
  refine (hformula.of_step (fun _ _ => step_body_of_formula) (by simp)).mono ?_
  rintro _ ⟨e', v, he', rfl⟩
  refine ⟨.function ⟨f.name, f.params, e', ⟨start, v.span.stop⟩⟩, ?_, .inl rfl⟩
  exact congrArg (fun body => Statement.function ⟨f.name, f.params, body, .none⟩) he'

theorem takes_table {table : FunctionTable} (hrows : ∀ r ∈ table.rows, r.isSource = true) :
    Takes (.table table) := by
  intro done d hd
  refine (reads_head hd table.name table.params table.subparams).append ?_
  rintro _ ⟨start, rfl⟩
  refine .cons fun t ht _ => ⟨_, step_table ht, ?_⟩
  refine .cons fun u hu _ => ⟨_, step_lbrace hu, ?_⟩
  refine (reads_rows hrows _ []).mono ?_
  rintro _ ⟨rows', stop, hrows', rfl⟩
  rw [Head.tabulate_written, List.nil_append]
  refine ⟨_, ?_, .inr ⟨done, _, rfl, rfl⟩⟩
  exact congrArg
    (fun rows => Statement.table ⟨table.name, table.params, table.subparams, rows, .none⟩)
    (map_eq_map_of_forall₂ hrows')

theorem takes_builtin (f : Builtin) {args : List Expr} (hargs : ∀ a ∈ args, a.isSource = true)
    (span : Span) : Takes (.builtin f args span) := by
  intro done d hd
  rw [Statement.lexemes, applied, List.cons_append, List.cons_append]
  refine .cons fun t ht _ => ⟨⟨done, .keyword f t.span.start⟩, ?_, ?_⟩
  · rw [hd.step (by simp [ht]), begin, ht]
  refine .cons fun u hu _ => ⟨⟨done, .args f t.span.start [] .empty⟩, ?_, ?_⟩
  · simp only [step, hu]
  refine (reads_args hargs).append ?_
  rintro _ ⟨args', hargs', rfl⟩
  refine .single fun v hv _ => ⟨⟨done ++ [.builtin f args' ⟨t.span.start, v.span.stop⟩], .fresh⟩,
    ?_, _, ?_, .inl rfl⟩
  · simp only [step, hv]
  · exact congrArg (Statement.builtin f · .none) (map_eq_map_of_forall₂ hargs')

theorem takes_of_isSource {s : Statement} (hs : s.isSource = true) : Takes s := by
  cases s with
  | «variable» n e span =>
    rw [Statement.isSource, Bool.and_eq_true] at hs
    exact takes_variable n hs.2 span
  | function f =>
    rw [Statement.isSource, Bool.and_eq_true] at hs
    exact takes_function hs.2
  | table table =>
    rw [Statement.isSource, Bool.and_eq_true, List.all_eq_true] at hs
    exact takes_table hs.2
  | builtin f args span =>
    rw [Statement.isSource, List.all_eq_true] at hs
    exact takes_builtin f hs span
  | error m span => cases hs

theorem reads_program {p : Program} (hp : ∀ s ∈ p, s.isSource = true) (hd : Ready done d) :
    Reads step d (p.flatMap Statement.lexemes) fun d' =>
      ∃ p', List.Forall₂ Statement.Same p p' ∧ Ready (done ++ p') d' := by
  induction p generalizing done d with
  | nil => exact .nil ⟨[], .nil, by rwa [List.append_nil]⟩
  | cons s p ih =>
    rw [List.forall_mem_cons] at hp
    rw [List.flatMap_cons]
    refine (takes_of_isSource hp.1 done d hd).append ?_
    rintro d' ⟨s', hs', hd'⟩
    refine (ih hp.2 hd').mono ?_
    rintro d'' ⟨p', hp', hd''⟩
    rw [List.append_assoc] at hd''
    exact ⟨s' :: p', .cons hs' hp', hd''⟩

end Draft

/-! ## Texts -/

theorem Expr.parse_text_of_isSource {e : Expr} (he : e.isSource = true) :
    ∃ e', Expr.parse e.text = .ok e' ∧ e.Same e' := by
  refine TokenReader.parse_of_lexes (Expr.spells_textAt he 0).lexes ?_
  exact (Phrase.reads_lexemes he).mono fun ph ⟨e', he', hends⟩ => ⟨e', hends.result?, he'⟩

theorem Program.parse_text_of_isSource {p : Program} (hp : ∀ s ∈ p, s.isSource = true) :
    ∃ p', Program.parse (Program.text p) = .ok p' ∧ List.Forall₂ Statement.Same p p' := by
  refine TokenReader.parse_of_lexes (Program.lexes_text hp) ?_
  exact (Draft.reads_program hp (.inl rfl)).mono fun d ⟨p', hp', hd⟩ => ⟨p', hd.result?, hp'⟩

/-- **Texts are read back.** An expression, and a program, that can stand in a source is parsed from
its text, and the result is the same up to places. -/
theorem parse_text :
    (∀ e : Expr, e.isSource = true →
      ∃ e', Expr.parse e.text = .ok e' ∧ e'.eraseSpans = e.eraseSpans) ∧
    ∀ p : Program, (∀ s ∈ p, s.isSource = true) →
      ∃ p', Program.parse (Program.text p) = .ok p' ∧
        p'.map Statement.eraseSpans = p.map Statement.eraseSpans := by
  refine ⟨fun e he => Expr.parse_text_of_isSource he, fun p hp => ?_⟩
  obtain ⟨p', hparse, hp'⟩ := Program.parse_text_of_isSource hp
  exact ⟨p', hparse, map_eq_map_of_forall₂ hp'⟩

/-- An implication whose right operand is one too, over a `nand` whose left operand binds less. -/
def nestedImply : Expr :=
  .binary
    (.binary (.binary (.var "A" false .none) .or (.var "B" true .none) .none) .nand
      (.call "F" [.lit false .none, .str "// no comment" .none] .none) .none)
    .imply
    (.binary (.not (.binary (.var "C" false .none) .and (.var "D" false .none) .none) .none)
      .nimply (.builtin .input [] .none) .none) .none

/-- A table with a subparameter before a function without parameters. -/
def tableAndFunction : Program :=
  [.table ⟨"F", ["A", "B"], ["C"], [⟨[true, false, true], nestedImply, .none⟩], .none⟩,
    .function ⟨"G", [], nestedImply, .none⟩]

theorem parse_text_nested :
    nestedImply.text =
      "(A or B*) nand F(0, \"// no comment\") imply (not (C and D) nimply INPUT())" ∧
    nestedImply.isSource = true ∧
    (∃ e', Expr.parse nestedImply.text = .ok e' ∧ e'.eraseSpans = nestedImply.eraseSpans) ∧
    (∀ s ∈ tableAndFunction, s.isSource = true) ∧
    ∃ p', Program.parse (Program.text tableAndFunction) = .ok p' ∧
      p'.map Statement.eraseSpans = tableAndFunction.map Statement.eraseSpans :=
  have he : nestedImply.isSource = true := by rfl
  have hp : ∀ s ∈ tableAndFunction, s.isSource = true := by
    rw [← List.all_eq_true]
    rfl
  ⟨by rfl, he, parse_text.1 nestedImply he, hp, parse_text.2 tableAndFunction hp⟩

end Switching
