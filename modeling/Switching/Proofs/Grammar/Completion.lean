import Switching.Proofs.Grammar.Complete
import Switching.Proofs.Token.Kinds

/-!
# No state of a reader is a dead end

A reader refuses a token only if no text goes on with it. So whatever it has taken can be completed.

* `Token.IsGenuine`: a token with a text of its kind.
* `TokenReader.Completable r s`: genuine tokens lead from the state `s` to a state where a text may
  end. `TokenReader.Completable.of_runs`: they may be found step by step.
* `Phrase.ends_or_closes`: after an operand, a closing parenthesis closes something as long as
  anything is left to close.
* **`exprReader_completable`**, **`programReader_completable`**: every state can be completed.
-/

namespace Switching

/-! ## Genuine tokens -/

/-- The text of the token is one of its kind. -/
def Token.IsGenuine (t : Token) : Prop := t.terminal.IsText t.text

/-- A mark, wherever it stands. -/
def Token.mark (k : Terminal) (c : Char) : Token := ⟨k, String.singleton c, .none⟩

theorem Token.isGenuine_mark {k : Terminal} {c : Char} (h : Terminal.ofMark? c = some k) :
    (mark k c).IsGenuine := Terminal.isText_of_ofMark? h

/-- The digit `0`, wherever it stands. -/
def Token.zero : Token := ⟨.digits, "0", .none⟩

theorem Token.isGenuine_zero : zero.IsGenuine := by
  refine ⟨by decide, ?_⟩
  simp [zero, isBinaryDigit]

/-- The word `table`, wherever it stands. -/
def Token.table : Token := ⟨.table, "table", .none⟩

theorem Token.isGenuine_table : table.IsGenuine := rfl

/-! ## Completing -/

namespace TokenReader

variable {σ α : Type} {r : TokenReader σ α} {s s' : σ} {t : Token} {ts : List Token}

/-- Genuine tokens lead from the state to a state where a text may end. -/
def Completable (r : TokenReader σ α) (s : σ) : Prop :=
  ∃ ts s' a, (∀ t ∈ ts, t.IsGenuine) ∧ Runs r.step s ts s' ∧ r.result? s' = some a

theorem Completable.of_result {a : α} (h : r.result? s = some a) : r.Completable s :=
  ⟨[], s, a, List.forall_mem_nil _, .nil, h⟩

theorem Completable.of_runs (h : r.Completable s') (hts : ∀ t ∈ ts, t.IsGenuine)
    (hrun : Runs r.step s ts s') : r.Completable s := by
  obtain ⟨us, s'', a, hus, hrest, hresult⟩ := h
  refine ⟨ts ++ us, s'', a, fun t ht => ?_, hrun.append hrest, hresult⟩
  rcases List.mem_append.1 ht with ht | ht
  · exact hts t ht
  · exact hus t ht

theorem Completable.of_step (h : r.Completable s') (ht : t.IsGenuine) (hstep : r.step s t = some s') :
    r.Completable s :=
  h.of_runs (List.forall_mem_singleton.2 ht) (.single hstep)

end TokenReader

open TokenReader

/-! ## Expressions -/

namespace Phrase

variable {opened : List Opened} {e : Expr} {ph : Phrase}

/-- Nothing is open, or a parenthesis before all. -/
inductive Parenthesized : List Opened → Prop where
  | nil : Parenthesized []
  | group {rest : List Opened} : Parenthesized (.group :: rest)
  | args {callee : Callee} {start : Nat} {done : List Expr} {rest : List Opened} :
    Parenthesized (.args callee start done :: rest)

/-- Closing all it can, an operand stops at a parenthesis. -/
theorem parenthesized_reduce (e : Expr) (opened : List Opened) :
    Parenthesized (reduce 0 e opened).2 ∧ (reduce 0 e opened).2.length ≤ opened.length := by
  induction opened generalizing e with
  | nil => exact ⟨.nil, le_rfl⟩
  | cons o opened ih =>
    cases o with
    | operator left op =>
      rw [reduce, if_pos (Nat.zero_le _)]
      exact (ih _).imp_right Nat.le_succ_of_le
    | not start =>
      rw [reduce]
      exact (ih _).imp_right Nat.le_succ_of_le
    | group => exact ⟨.group, le_rfl⟩
    | args callee start done => exact ⟨.args, le_rfl⟩

/-- A closing parenthesis after an operand closes the last one that is open, if there is one. -/
theorem ends_or_closes {t : Token} (ht : t.terminal = .rparen) (opened : List Opened) (e : Expr) :
    (∃ e', Ends ⟨opened, .complete e⟩ e') ∨ ∃ rest e', rest.length < opened.length ∧
      step ⟨opened, .complete e⟩ t = some ⟨rest, .complete e'⟩ := by
  obtain ⟨hrest, hle⟩ := parenthesized_reduce e opened
  rcases hreduce : reduce 0 e opened with ⟨e', rest⟩
  rw [hreduce] at hrest hle
  cases hrest with
  | nil => exact .inl ⟨e', e, rfl, hreduce⟩
  | group => exact .inr ⟨_, e', hle, by simp only [step, follow, ht, hreduce]⟩
  | @args callee start done rest =>
    refine .inr ⟨rest, callee.apply (done ++ [e']) ⟨start, t.span.stop⟩, hle, ?_⟩
    simp only [step, follow, ht, hreduce]

theorem completable_complete (opened : List Opened) (e : Expr) :
    exprReader.Completable ⟨opened, .complete e⟩ := by
  have hrparen : (Token.mark .rparen ')').IsGenuine := Token.isGenuine_mark rfl
  rcases ends_or_closes (t := .mark .rparen ')') rfl opened e with
    ⟨e', hends⟩ | ⟨rest, e', hlt, hstep⟩
  · exact .of_result hends.result?
  · exact (completable_complete rest e').of_step hrparen hstep
termination_by opened.length

end Phrase

open Phrase in
/-- **Every state** of the reader of expressions can be completed. -/
theorem exprReader_completable (ph : Phrase) : exprReader.Completable ph := by
  obtain ⟨opened, focus⟩ := ph
  cases focus with
  | operand => exact (completable_complete opened _).of_step Token.isGenuine_zero rfl
  | name n span =>
    exact (completable_complete opened _).of_step (t := .mark .star '*') (Token.isGenuine_mark rfl) rfl
  | keyword f start =>
    have hargs : exprReader.Completable ⟨.args (.builtin f) start [] :: opened, .operand⟩ :=
      (completable_complete opened _).of_step (t := .mark .rparen ')') (Token.isGenuine_mark rfl) rfl
    exact hargs.of_step (t := .mark .lparen '(') (Token.isGenuine_mark rfl) rfl
  | complete e => exact completable_complete opened e

/-! ## Programs -/

namespace Draft

variable {done : List Statement} {head : Switching.Head} {ph : Phrase}

theorem completable_fresh : programReader.Completable ⟨done, .fresh⟩ := .of_result rfl

theorem completable_tabled {table : FunctionTable} :
    programReader.Completable ⟨done, .tabled table⟩ := .of_result rfl

theorem completable_rows {rows : List TableRow} :
    programReader.Completable ⟨done, .rows head rows⟩ :=
  completable_tabled.of_step (t := .mark .rbrace '\x7d') (Token.isGenuine_mark rfl) rfl

theorem completable_brace : programReader.Completable ⟨done, .brace head⟩ :=
  completable_rows.of_step (t := .mark .lbrace '\x7b') (Token.isGenuine_mark rfl) rfl

theorem completable_body : programReader.Completable ⟨done, .body head⟩ :=
  completable_brace.of_step Token.isGenuine_table rfl

theorem completable_equals : programReader.Completable ⟨done, .equals head⟩ :=
  completable_body.of_step (t := .mark .equals '=') (Token.isGenuine_mark rfl) rfl

theorem completable_untilSemicolon (stay : Phrase → Draft) (finish : Token → Expr → Draft)
    (hstep : ∀ ph t, step (stay ph) t = untilSemicolon ph t stay (finish t))
    (hfinish : ∀ t e, programReader.Completable (finish t e)) (ph : Phrase) :
    programReader.Completable (stay ph) := by
  obtain ⟨ts, ph', e, hts, hrun, hresult⟩ := exprReader_completable ph
  have hends := Phrase.ends_of_result? hresult
  have hsemi : programReader.step (stay ph') (.mark .semicolon ';') = some (finish _ e) :=
    (hstep ph' _).trans (untilSemicolon_semicolon hends rfl stay (finish _))
  refine ((hfinish _ e).of_step (Token.isGenuine_mark rfl) hsemi).of_runs hts ?_
  exact hrun.lift stay fun ph t ph' h => (hstep ph t).trans (untilSemicolon_of_step h stay _)

theorem completable_called {f : Builtin} {start : Nat} {args : List Expr} :
    programReader.Completable ⟨done, .called f start args⟩ :=
  completable_fresh.of_step (t := .mark .semicolon ';') (Token.isGenuine_mark rfl) rfl

theorem completable_args {f : Builtin} {start : Nat} {args : List Expr} (ph : Phrase) :
    programReader.Completable ⟨done, .args f start args ph⟩ := by
  obtain ⟨ts, ph', e, hts, hrun, hresult⟩ := exprReader_completable ph
  have hends := Phrase.ends_of_result? hresult
  have hcalled : programReader.step ⟨done, .args f start args ph'⟩ (.mark .rparen ')') =
      some ⟨done, .called f start (args ++ [e])⟩ :=
    EndsArgument.step_rparen ⟨ph', args, e, rfl, hends, rfl⟩ rfl
  refine (completable_called.of_step (Token.isGenuine_mark rfl) hcalled).of_runs hts ?_
  exact hrun.lift (Draft.mk done <| .args f start args ·) fun _ _ _ => step_args_of_step

theorem completable_value {n : String} {start : Nat} :
    ∀ ph, programReader.Completable ⟨done, .value n start ph⟩ :=
  completable_untilSemicolon (⟨done, .value n start ·⟩)
    (fun t e => ⟨done ++ [.variable n e ⟨start, t.span.stop⟩], .fresh⟩) (fun _ _ => rfl)
    fun _ _ => completable_fresh

theorem completable_formula : ∀ ph, programReader.Completable ⟨done, .formula head ph⟩ :=
  completable_untilSemicolon (⟨done, .formula head ·⟩)
    (fun t e => ⟨done ++ [head.define e t.span.stop], .fresh⟩) (fun _ _ => rfl)
    fun _ _ => completable_fresh

theorem completable_output {rows : List TableRow} {bits : List Bool} {start : Nat} :
    ∀ ph, programReader.Completable ⟨done, .output head rows bits start ph⟩ :=
  completable_untilSemicolon (⟨done, .output head rows bits start ·⟩)
    (fun t e => ⟨done, .rows head (rows ++ [⟨bits, e, ⟨start, t.span.stop⟩⟩])⟩) (fun _ _ => rfl)
    fun _ _ => completable_rows

end Draft

open Draft in
/-- **Every state** of the reader of programs can be completed. -/
theorem programReader_completable (d : Draft) : programReader.Completable d := by
  obtain ⟨done, stage⟩ := d
  cases stage with
  | fresh => exact completable_fresh
  | named n start =>
    exact (completable_value .empty).of_step (t := .mark .equals '=') (Token.isGenuine_mark rfl) rfl
  | value n start ph => exact completable_value ph
  | params head =>
    exact completable_equals.of_step (t := .mark .rparen ')') (Token.isGenuine_mark rfl) rfl
  | separator head =>
    exact completable_equals.of_step (t := .mark .rparen ')') (Token.isGenuine_mark rfl) rfl
  | equals head => exact completable_equals
  | body head => exact completable_body
  | formula head ph => exact completable_formula ph
  | brace head => exact completable_brace
  | rows head rows => exact completable_rows
  | pattern head rows bits start =>
    exact (completable_output .empty).of_step (t := .mark .colon ':') (Token.isGenuine_mark rfl) rfl
  | output head rows bits start ph => exact completable_output ph
  | tabled table => exact completable_tabled
  | keyword f start =>
    exact (completable_args .empty).of_step (t := .mark .lparen '(') (Token.isGenuine_mark rfl) rfl
  | args f start args ph => exact completable_args ph
  | called f start args => exact completable_called

end Switching
