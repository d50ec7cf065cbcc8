import Switching.Proofs.Grammar.Sound.Phrase

/-!
# What is read as a program is derived

* `Draft.step_named_eq_some_iff` and its siblings: what may follow in each stage.
* `Grammar.HeadBegun`, `Grammar.TableBegun`: the beginnings of functions and of tables.
* `Stage.Reached`, `Draft.Reached`: the tokens that have been read, by what they are.
* **`Draft.Reached.step`**: one more token; **`Grammar.program_of_runs`**: whole texts.
-/

namespace Switching

/-! ## Steps of a draft -/

namespace Draft

variable {done : List Statement} {d : Draft} {t : Token} {head : Switching.Head}

theorem begin_eq_some_iff : begin done t = some d ↔
    t.terminal = .identifier ∧ ⟨done, .named t.text t.span.start⟩ = d ∨
      ∃ f, t.terminal = .builtin f ∧ ⟨done, .keyword f t.span.start⟩ = d := by
  unfold begin
  cases t.terminal <;> simp

theorem step_named_eq_some_iff {n : String} {start : Nat} :
    step ⟨done, .named n start⟩ t = some d ↔
      t.terminal = .equals ∧ ⟨done, .value n start .empty⟩ = d ∨
        t.terminal = .lparen ∧ ⟨done, .params ⟨n, start, [], none⟩⟩ = d := by
  cases ht : t.terminal <;> simp [step, ht]

theorem step_params_eq_some_iff : step ⟨done, .params head⟩ t = some d ↔
    t.terminal = .identifier ∧ ⟨done, .separator (head.push t.text)⟩ = d ∨
      t.terminal = .colon ∧ head.subparams? = none ∧
        ⟨done, .params { head with subparams? := some [] }⟩ = d ∨
      t.terminal = .rparen ∧ ⟨done, .equals head⟩ = d := by
  cases ht : t.terminal <;> simp [step, ht]

theorem step_separator_eq_some_iff : step ⟨done, .separator head⟩ t = some d ↔
    t.terminal = .comma ∧ ⟨done, .params head⟩ = d ∨
      t.terminal = .colon ∧ head.subparams? = none ∧
        ⟨done, .params { head with subparams? := some [] }⟩ = d ∨
      t.terminal = .rparen ∧ ⟨done, .equals head⟩ = d := by
  cases ht : t.terminal <;> simp [step, ht]

theorem step_equals_eq_some_iff : step ⟨done, .equals head⟩ t = some d ↔
    t.terminal = .equals ∧ ⟨done, .body head⟩ = d := by
  cases ht : t.terminal <;> simp [step, ht]

theorem step_body_eq_some_iff : step ⟨done, .body head⟩ t = some d ↔
    t.terminal = .table ∧ ⟨done, .brace head⟩ = d ∨
      ∃ ph, Phrase.empty.step t = some ph ∧ ⟨done, .formula head ph⟩ = d := by
  cases ht : t.terminal with
  | table => simp [step, ht, Phrase.step, Phrase.empty, Phrase.begin]
  | _ => simp [step, ht]

theorem step_brace_eq_some_iff : step ⟨done, .brace head⟩ t = some d ↔
    t.terminal = .lbrace ∧ ⟨done, .rows head []⟩ = d := by
  cases ht : t.terminal <;> simp [step, ht]

theorem step_rows_eq_some_iff {rows : List TableRow} : step ⟨done, .rows head rows⟩ t = some d ↔
    t.terminal = .digits ∧ ⟨done, .pattern head rows (t.text.toList.filterMap Bits.ofDigit?)
      t.span.start⟩ = d ∨
    t.terminal = .rbrace ∧ ⟨done, .tabled (head.tabulate rows t.span.stop)⟩ = d := by
  cases ht : t.terminal <;> simp [step, ht]

theorem step_pattern_eq_some_iff {rows : List TableRow} {bits : List Bool} {start : Nat} :
    step ⟨done, .pattern head rows bits start⟩ t = some d ↔
      t.terminal = .colon ∧ ⟨done, .output head rows bits start .empty⟩ = d := by
  cases ht : t.terminal <;> simp [step, ht]

theorem step_tabled_eq_some_iff {table : FunctionTable} :
    step ⟨done, .tabled table⟩ t = some d ↔
      t.terminal = .semicolon ∧
        ⟨done ++ [.table { table with span := ⟨table.span.start, t.span.stop⟩ }], .fresh⟩ = d ∨
      begin (done ++ [.table table]) t = some d := by
  cases ht : t.terminal with
  | semicolon => simp [step, ht, begin]
  | _ => simp [step, ht]

theorem step_keyword_eq_some_iff {f : Builtin} {start : Nat} :
    step ⟨done, .keyword f start⟩ t = some d ↔
      t.terminal = .lparen ∧ ⟨done, .args f start [] .empty⟩ = d := by
  cases ht : t.terminal <;> simp [step, ht]

theorem step_called_eq_some_iff {f : Builtin} {start : Nat} {args : List Expr} :
    step ⟨done, .called f start args⟩ t = some d ↔
      t.terminal = .semicolon ∧
        ⟨done ++ [.builtin f args ⟨start, t.span.stop⟩], .fresh⟩ = d := by
  cases ht : t.terminal <;> simp [step, ht]

theorem untilSemicolon_eq_some_iff {ph : Phrase} {stay : Phrase → Draft} {finish : Expr → Draft} :
    untilSemicolon ph t stay finish = some d ↔
      (t.terminal = .semicolon ∧ ∃ e, ph.result? = some e ∧ finish e = d) ∨
        t.terminal ≠ .semicolon ∧ ∃ ph', ph.step t = some ph' ∧ stay ph' = d := by
  unfold untilSemicolon
  split <;> simp [*]

theorem argument_eq_some_iff {f : Builtin} {start : Nat} {args : List Expr} {ph : Phrase} :
    argument done f start args ph t = some d ↔
      (∃ ph', ph.step t = some ph' ∧ ⟨done, .args f start args ph'⟩ = d) ∨
        ph.step t = none ∧
          ((t.terminal = .comma ∧
              ∃ e, ph.result? = some e ∧ ⟨done, .args f start (args ++ [e]) .empty⟩ = d) ∨
            (t.terminal = .rparen ∧
              ∃ e, ph.result? = some e ∧ ⟨done, .called f start (args ++ [e])⟩ = d) ∨
            t.terminal = .rparen ∧ ph = .empty ∧ ⟨done, .called f start args⟩ = d) := by
  unfold argument
  cases hstep : ph.step t with
  | some ph' => simp
  | none =>
    cases hresult : ph.result? with
    | some e =>
      have hph : ph ≠ .empty := by
        rintro rfl
        cases hresult
      cases ht : t.terminal <;> simp [hph]
    | none =>
      obtain ⟨opened, focus⟩ := ph
      cases ht : t.terminal <;> cases opened <;> cases focus <;> simp [Phrase.empty]

end Draft

/-! ## What has been read of a program -/

namespace Grammar

variable {ts us : List Token} {t : Token} {head : Switching.Head} {rows : List TableRow}
  {Names Names' : List Token → List String → Prop}

/-- Names with commas between them, up to a name. -/
inductive UpToName : List Token → List String → Prop where
  | mk {ts : List Token} {t : Token} {ns : List String} (hns : Listed Ident ts ns)
    (ht : t.terminal = .identifier) : UpToName (ts ++ [t]) (ns ++ [t.text])

theorem UpToName.comma {ns : List String} (h : UpToName ts ns) : Comma Ident ts ns := by
  cases h with
  | mk hns ht => exact hns.last ⟨_, rfl, ht, rfl⟩

theorem UpToName.listed {ns : List String} (h : UpToName ts ns) (ht : t.terminal = .comma) :
    Listed Ident (ts ++ [t]) ns := by
  cases h with
  | mk hns hname => exact hns.snoc ⟨_, rfl, hname, rfl⟩ ht

/-- The beginning of a declared function. In the parameters, or the subparameters if there is a colon,
`Names` have been read. -/
inductive HeadBegun (Names : List Token → List String → Prop) : List Token → Switching.Head → Prop where
  | params {t l : Token} {ts : List Token} {ns : List String} (ht : t.terminal = .identifier)
    (hl : l.terminal = .lparen) (hns : Names ts ns) :
    HeadBegun Names (t :: l :: ts) ⟨t.text, t.span.start, ns, none⟩
  | subparams {t l colon : Token} {ts us : List Token} {ns ms : List String}
    (ht : t.terminal = .identifier) (hl : l.terminal = .lparen) (hns : Comma Ident ts ns)
    (hcolon : colon.terminal = .colon) (hms : Names us ms) :
    HeadBegun Names (t :: l :: (ts ++ colon :: us)) ⟨t.text, t.span.start, ns, some ms⟩

theorem HeadBegun.mono (h : HeadBegun Names ts head)
    (hNames : ∀ us ns, Names us ns → Names' us ns) : HeadBegun Names' ts head := by
  cases h with
  | params ht hl hns => exact .params ht hl (hNames _ _ hns)
  | subparams ht hl hns hcolon hms => exact .subparams ht hl hns hcolon (hNames _ _ hms)

theorem HeadBegun.name (h : HeadBegun (Listed Ident) ts head) (ht : t.terminal = .identifier) :
    HeadBegun UpToName (ts ++ [t]) (head.push t.text) := by
  cases h with
  | params hname hl hns => exact .params hname hl (.mk hns ht)
  | subparams hname hl hns hcolon hms =>
    have hbegun := HeadBegun.subparams hname hl hns hcolon (UpToName.mk hms ht)
    simpa only [List.append_assoc, List.cons_append, Head.push] using hbegun

theorem HeadBegun.comma (h : HeadBegun UpToName ts head) (ht : t.terminal = .comma) :
    HeadBegun (Listed Ident) (ts ++ [t]) head := by
  cases h with
  | params hname hl hns => exact .params hname hl (hns.listed ht)
  | subparams hname hl hns hcolon hms =>
    have hbegun := HeadBegun.subparams hname hl hns hcolon (hms.listed ht)
    simpa only [List.append_assoc, List.cons_append] using hbegun

theorem HeadBegun.colon (h : HeadBegun (Comma Ident) ts head) (hsub : head.subparams? = none)
    (ht : t.terminal = .colon) :
    HeadBegun (Listed Ident) (ts ++ [t]) { head with subparams? := some [] } := by
  cases h with
  | params hname hl hns => exact .subparams hname hl hns ht .nil
  | subparams => cases hsub

theorem HeadBegun.close {r eq : Token} (h : HeadBegun (Comma Ident) ts head)
    (hr : r.terminal = .rparen) (heq : eq.terminal = .equals) : Head (ts ++ [r, eq]) head := by
  cases h with
  | params ht hl hns =>
    have hhead := Head.mk ht hl hns .none hr heq
    simpa only [List.append_nil, List.cons_append] using hhead
  | subparams ht hl hns hcolon hms =>
    have hhead := Head.mk ht hl hns (.some hcolon hms) hr heq
    simpa only [List.append_assoc, List.cons_append] using hhead

/-- The beginning of a table, up to some rows. -/
inductive TableBegun : List Token → Switching.Head → List TableRow → Prop where
  | mk {ts us : List Token} {t l : Token} {head : Switching.Head} {rows : List TableRow}
    (hhead : Head ts head) (ht : t.terminal = .table) (hl : l.terminal = .lbrace)
    (hrows : Many Row us rows) : TableBegun (ts ++ t :: l :: us) head rows

theorem TableBegun.row {row : TableRow} (h : TableBegun ts head rows) (hrow : Row us row) :
    TableBegun (ts ++ us) head (rows ++ [row]) := by
  cases h with
  | mk hhead ht hl hrows =>
    have hbegun := TableBegun.mk hhead ht hl (hrows.snoc hrow)
    simpa only [List.append_assoc, List.cons_append] using hbegun

theorem TableBegun.close (h : TableBegun ts head rows) (ht : t.terminal = .rbrace) :
    Table (ts ++ [t]) (head.tabulate rows t.span.stop) := by
  cases h with
  | mk hhead htable hl hrows =>
    have hclosed := Table.mk hhead htable hl hrows ht
    simpa only [List.append_assoc, List.cons_append, Head.tabulate] using hclosed

theorem Stmt.defined {semi : Token} {e : Expr} (hhead : Head ts head)
    (he : Expression .implication us e) (hsemi : semi.terminal = .semicolon) :
    Stmt (ts ++ us ++ [semi]) (head.define e semi.span.stop) := by
  unfold Head.define
  split
  case h_1 hsub => exact .function hhead hsub he hsemi
  case h_2 hsub => exact .misplaced hhead hsub he hsemi

end Grammar

open Grammar

/-- The tokens that have been read of a statement. -/
inductive Stage.Reached : Stage → List Token → Prop where
  | fresh : Reached .fresh []
  | named {t : Token} (ht : t.terminal = .identifier) : Reached (.named t.text t.span.start) [t]
  | value {t eq : Token} {ts : List Token} {ph : Phrase} (ht : t.terminal = .identifier)
    (heq : eq.terminal = .equals) (hph : ph.Reached ts) :
    Reached (.value t.text t.span.start ph) (t :: eq :: ts)
  | params {ts : List Token} {head : Switching.Head} (h : HeadBegun (Listed Ident) ts head) :
    Reached (.params head) ts
  | separator {ts : List Token} {head : Switching.Head} (h : HeadBegun UpToName ts head) :
    Reached (.separator head) ts
  | equals {r : Token} {ts : List Token} {head : Switching.Head} (h : HeadBegun (Comma Ident) ts head)
    (hr : r.terminal = .rparen) : Reached (.equals head) (ts ++ [r])
  | body {ts : List Token} {head : Switching.Head} (h : Grammar.Head ts head) :
    Reached (.body head) ts
  | formula {ts us : List Token} {head : Switching.Head} {ph : Phrase} (h : Grammar.Head ts head)
    (hph : ph.Reached us) : Reached (.formula head ph) (ts ++ us)
  | brace {t : Token} {ts : List Token} {head : Switching.Head} (h : Grammar.Head ts head)
    (ht : t.terminal = .table) : Reached (.brace head) (ts ++ [t])
  | rows {ts : List Token} {head : Switching.Head} {rows : List TableRow}
    (h : TableBegun ts head rows) : Reached (.rows head rows) ts
  | pattern {t : Token} {ts : List Token} {head : Switching.Head} {rows : List TableRow}
    (h : TableBegun ts head rows) (ht : t.terminal = .digits) :
    Reached (.pattern head rows (t.text.toList.filterMap Bits.ofDigit?) t.span.start) (ts ++ [t])
  | output {t colon : Token} {ts us : List Token} {head : Switching.Head} {rows : List TableRow}
    {ph : Phrase} (h : TableBegun ts head rows) (ht : t.terminal = .digits)
    (hcolon : colon.terminal = .colon) (hph : ph.Reached us) :
    Reached (.output head rows (t.text.toList.filterMap Bits.ofDigit?) t.span.start ph)
      (ts ++ t :: colon :: us)
  | tabled {ts : List Token} {table : FunctionTable} (h : Table ts table) :
    Reached (.tabled table) ts
  | keyword {t : Token} {f : Builtin} (ht : t.terminal = .builtin f) :
    Reached (.keyword f t.span.start) [t]
  | args {t l : Token} {f : Builtin} {ts us : List Token} {done : List Expr} {ph : Phrase}
    (ht : t.terminal = .builtin f) (hl : l.terminal = .lparen)
    (hdone : Listed (Expression .implication) ts done) (hph : ph.Reached us) :
    Reached (.args f t.span.start done ph) (t :: l :: (ts ++ us))
  | called {t l r : Token} {f : Builtin} {ts : List Token} {args : List Expr}
    (ht : t.terminal = .builtin f) (hl : l.terminal = .lparen)
    (hargs : Comma (Expression .implication) ts args) (hr : r.terminal = .rparen) :
    Reached (.called f t.span.start args) (t :: l :: (ts ++ [r]))

namespace Draft

variable {done : List Statement} {d d' : Draft} {ph : Phrase} {t : Token} {ts us vs : List Token}
  {stage : Stage} {s : Statement}

/-- The tokens that have been read of a program. -/
inductive Reached : Draft → List Token → Prop where
  | mk {done : List Statement} {stage : Stage} {ts us : List Token} (hdone : Many Stmt ts done)
    (hstage : stage.Reached us) : Reached ⟨done, stage⟩ (ts ++ us)

theorem reached_empty : Draft.empty.Reached [] := .mk .nil .fresh

theorem Reached.go (hdone : Many Stmt ts done) (hstage : stage.Reached vs) (hvs : vs = us ++ [t]) :
    Reached ⟨done, stage⟩ (ts ++ us ++ [t]) := by
  rw [List.append_assoc, ← hvs]
  exact .mk hdone hstage

theorem Reached.finish (hdone : Many Stmt ts done) (hs : Stmt vs s) (hvs : vs = us ++ [t]) :
    Reached ⟨done ++ [s], .fresh⟩ (ts ++ us ++ [t]) := by
  have hreached := Reached.mk (hdone.snoc hs) .fresh
  rwa [List.append_nil, hvs, ← List.append_assoc] at hreached

theorem Reached.begin (hdone : Many Stmt ts done) (hstep : Draft.begin done t = some d) :
    d.Reached (ts ++ [t]) := by
  rcases begin_eq_some_iff.1 hstep with ⟨ht, rfl⟩ | ⟨f, ht, rfl⟩
  · exact .mk hdone (.named ht)
  · exact .mk hdone (.keyword ht)

theorem Reached.untilSemicolon {stay : Phrase → Draft} {finish : Expr → Draft}
    (hstep : Draft.untilSemicolon ph t stay finish = some d) (hph : ph.Reached us)
    (hstay : ∀ ph', ph'.Reached (us ++ [t]) → (stay ph').Reached ts)
    (hfinish : ∀ e, t.terminal = .semicolon → Expression .implication us e → (finish e).Reached ts) :
    d.Reached ts := by
  rcases untilSemicolon_eq_some_iff.1 hstep with ⟨ht, e, hresult, rfl⟩ | ⟨-, ph', hnext, rfl⟩
  · exact hfinish e ht (hph.expression hresult)
  · exact hstay ph' (hph.step hnext)

theorem Reached.argument {f : Builtin} {u l : Token} {vs : List Token} {args : List Expr}
    (hdone : Many Stmt ts done) (hu : u.terminal = .builtin f) (hl : l.terminal = .lparen)
    (hargs : Listed (Expression .implication) us args) (hph : ph.Reached vs)
    (hstep : Draft.argument done f u.span.start args ph t = some d) :
    d.Reached (ts ++ u :: l :: (us ++ vs) ++ [t]) := by
  rcases argument_eq_some_iff.1 hstep with ⟨ph', hnext, rfl⟩ |
    ⟨-, ⟨ht, e, hresult, rfl⟩ | ⟨ht, e, hresult, rfl⟩ | ⟨ht, rfl, rfl⟩⟩
  · exact .go hdone (.args hu hl hargs (hph.step hnext)) (by simp)
  · exact .go hdone (.args hu hl (hargs.snoc (hph.expression hresult) ht) Phrase.reached_empty)
      (by simp)
  · exact .go hdone (.called hu hl (hargs.last (hph.expression hresult)) ht) (by simp)
  · exact .go hdone (.called hu hl hargs.comma ht) (by simp [hph.eq_nil])

/-- **One more token** of a program. -/
theorem Reached.step (h : d.Reached ts) (hstep : d.step t = some d') : d'.Reached (ts ++ [t]) := by
  obtain ⟨hdone, hstage⟩ := h
  cases hstage with
  | fresh =>
    rw [List.append_nil]
    exact .begin hdone hstep
  | named hname =>
    rcases step_named_eq_some_iff.1 hstep with ⟨ht, rfl⟩ | ⟨ht, rfl⟩
    · exact .go hdone (.value hname ht Phrase.reached_empty) rfl
    · exact .go hdone (.params (.params hname ht .nil)) rfl
  | value hname heq hph =>
    refine .untilSemicolon hstep hph (fun ph' hph' => ?_) fun e ht he => ?_
    · exact .go hdone (.value hname heq hph') rfl
    · exact .finish hdone (.assignment hname heq he ht) rfl
  | params hhead =>
    rcases step_params_eq_some_iff.1 hstep with ⟨ht, rfl⟩ | ⟨ht, hsub, rfl⟩ | ⟨ht, rfl⟩
    · exact .go hdone (.separator (hhead.name ht)) rfl
    · exact .go hdone (.params ((hhead.mono fun _ _ => Listed.comma).colon hsub ht)) rfl
    · exact .go hdone (.equals (hhead.mono fun _ _ => Listed.comma) ht) rfl
  | separator hhead =>
    rcases step_separator_eq_some_iff.1 hstep with ⟨ht, rfl⟩ | ⟨ht, hsub, rfl⟩ | ⟨ht, rfl⟩
    · exact .go hdone (.params (hhead.comma ht)) rfl
    · exact .go hdone (.params ((hhead.mono fun _ _ => UpToName.comma).colon hsub ht)) rfl
    · exact .go hdone (.equals (hhead.mono fun _ _ => UpToName.comma) ht) rfl
  | equals hhead hr =>
    -- Up to here the beginning is the same for formulas and tables.
    obtain ⟨ht, rfl⟩ := step_equals_eq_some_iff.1 hstep
    exact .go hdone (.body (hhead.close hr ht)) (by simp)
  | body hhead =>
    rcases step_body_eq_some_iff.1 hstep with ⟨ht, rfl⟩ | ⟨ph, hph, rfl⟩
    · exact .go hdone (.brace hhead ht) rfl
    · exact .go hdone (.formula hhead (Phrase.reached_empty.step hph)) rfl
  | formula hhead hph =>
    refine .untilSemicolon hstep hph (fun ph' hph' => ?_) fun e ht he => ?_
    · exact .go hdone (.formula hhead hph') (by simp)
    · exact .finish hdone (.defined hhead he ht) rfl
  | brace hhead htable =>
    obtain ⟨ht, rfl⟩ := step_brace_eq_some_iff.1 hstep
    exact .go hdone (.rows (.mk hhead htable ht .nil)) (by simp)
  | rows htable =>
    rcases step_rows_eq_some_iff.1 hstep with ⟨ht, rfl⟩ | ⟨ht, rfl⟩
    · exact .go hdone (.pattern htable ht) rfl
    · exact .go hdone (.tabled (htable.close ht)) rfl
  | pattern htable hdigits =>
    obtain ⟨ht, rfl⟩ := step_pattern_eq_some_iff.1 hstep
    exact .go hdone (.output htable hdigits ht Phrase.reached_empty) (by simp)
  | output htable hdigits hcolon hph =>
    refine .untilSemicolon hstep hph (fun ph' hph' => ?_) fun e ht he => ?_
    · exact .go hdone (.output htable hdigits hcolon hph') (by simp)
    · exact .go hdone (.rows (htable.row (.mk hdigits hcolon he ht))) (by simp)
  | tabled htable =>
    -- The table is a statement already, and its semicolon is part of it if it comes.
    rcases step_tabled_eq_some_iff.1 hstep with ⟨ht, rfl⟩ | hbegin
    · exact .finish hdone (.tableEnded htable ht) rfl
    · exact .begin (hdone.snoc (.table htable)) hbegin
  | keyword hkeyword =>
    obtain ⟨ht, rfl⟩ := step_keyword_eq_some_iff.1 hstep
    exact .go hdone (.args hkeyword ht .nil Phrase.reached_empty) rfl
  | args hkeyword hl hargs hph => exact .argument hdone hkeyword hl hargs hph hstep
  | called hkeyword hl hargs hr =>
    obtain ⟨ht, rfl⟩ := step_called_eq_some_iff.1 hstep
    exact .finish hdone (.builtin hkeyword hl hargs hr ht) (by simp)

theorem Reached.program {p : Program} (h : d.Reached ts) (hresult : d.result? = some p) :
    Many Stmt ts p := by
  obtain ⟨hdone, hstage⟩ := h
  cases hstage with
  | fresh =>
    cases hresult
    rwa [List.append_nil]
  | tabled htable =>
    cases hresult
    exact hdone.snoc (.table htable)
  | _ => cases hresult

end Draft

/-! ## Whole texts -/

namespace Grammar

variable {ts : List Token}

/-- **The tokens read to a program** derive it. -/
theorem program_of_runs {d : Draft} {p : Program} (h : Runs Draft.step .empty ts d)
    (hresult : d.result? = some p) : Many Stmt ts p :=
  (h.reached (fun _ _ _ _ => Draft.Reached.step) Draft.reached_empty).program hresult

end Grammar

end Switching
