import Mathlib
import Switching.Proofs.Grammar.Completion
import Switching.Proofs.Grammar.Parse
import Switching.Proofs.Token.Layout
import Switching.Proofs.Token.Offsets

/-!
# Errors at the first impossible place

An error is found where no text of the language goes on as this one does, and not later.

* `Grammar.Valid`, `Grammar.Viable`: sequences of tokens that are derived, and their beginnings.
  `Grammar.Realises.valid_iff`: the valid ones are those of the texts that are parsed.
* `lexemesBefore source offset`: the tokens of the source that begin before the offset.
* `SyntaxError.IsEarliest`: what stands before the place of an error is viable, and with what stands
  there it is not.
* `Grammar.Realises.isEarliest`: a reader whose states can all be completed finds errors so.
* **`parse_error_isEarliest`**: so do the parsers of programs and of expressions.
-/

namespace Switching

/-! ## Beginnings of what is derived -/

namespace Grammar

variable {α : Type}

/-- A sequence of tokens, taken without their places, from which something is derived. -/
def Valid (Derives : List Token → α → Prop) (ls : List Lexeme) : Prop :=
  (∀ l ∈ ls, l.terminal.IsText l.text) ∧ ∃ ts a, ts.map Token.lexeme = ls ∧ Derives ts a

/-- The beginning of a valid sequence. -/
def Viable (Derives : List Token → α → Prop) (ls : List Lexeme) : Prop :=
  ∃ ms, Valid Derives (ls ++ ms)

variable {σ : Type} {r : TokenReader σ α} {Derives : List Token → α → Prop} {erase : α → α}
  {ts : List Token} {t : Token} {s : σ}

theorem Realises.viable (h : Realises r Derives erase) (hts : ∀ t ∈ ts, t.IsGenuine)
    (hrun : Runs r.step r.start ts s) (hs : r.Completable s) :
    Viable Derives (ts.map Token.lexeme) := by
  obtain ⟨us, s', a, hus, hrest, hresult⟩ := hs
  refine ⟨us.map Token.lexeme, fun l hl => ?_, ts ++ us, a, List.map_append,
    h.sound _ s' a (hrun.append hrest) hresult⟩
  rw [← List.map_append] at hl
  obtain ⟨t, ht, rfl⟩ := List.mem_map.1 hl
  exact (List.mem_append.1 ht).elim (hts t) (hus t)

/-- A valid sequence is taken by the reader, wherever its first tokens stand. -/
theorem Realises.runs_of_valid (h : Realises r Derives erase) {ms : List Lexeme}
    (hvalid : Valid Derives (ts.map Token.lexeme ++ ms)) :
    ∃ us s a, us.map Token.lexeme = ms ∧ Runs r.step r.start (ts ++ us) s ∧
      r.result? s = some a := by
  obtain ⟨-, ws, a, hws, hderives⟩ := hvalid
  obtain ⟨vs, us, rfl, hvs, hus⟩ := List.map_eq_append_iff.1 hws
  have hsame : (ts ++ us).map Token.lexeme = (vs ++ us).map Token.lexeme := by
    rw [List.map_append, List.map_append, hvs]
  obtain ⟨a', ha', -⟩ := h.moved _ a hderives _ hsame
  obtain ⟨s, hrun, hresult⟩ := h.complete _ a' ha'
  exact ⟨us, s, a', hus, hrun, hresult⟩

theorem Realises.not_viable (h : Realises r Derives erase) (hrun : Runs r.step r.start ts s)
    (hstep : r.step s t = none) : ¬ Viable Derives (ts.map Token.lexeme ++ [t.lexeme]) := by
  rintro ⟨ms, hvalid⟩
  have htokens : ts.map Token.lexeme ++ [t.lexeme] = (ts ++ [t]).map Token.lexeme := by
    rw [List.map_append, List.map_singleton]
  rw [htokens] at hvalid
  obtain ⟨us, s', a, -, hrun', -⟩ := h.runs_of_valid hvalid
  rw [List.append_assoc, runs_append_iff] at hrun'
  obtain ⟨s₁, hfirst, hrest⟩ := hrun'
  obtain ⟨s₂, hnext, -⟩ := runs_cons_iff.1 hrest
  rw [hfirst.unique hrun, hstep] at hnext
  cases hnext

theorem Realises.not_valid (h : Realises r Derives erase) (hrun : Runs r.step r.start ts s)
    (hresult : r.result? s = none) : ¬ Valid Derives (ts.map Token.lexeme) := by
  intro hvalid
  rw [← List.append_nil (ts.map Token.lexeme)] at hvalid
  obtain ⟨us, s', a, hus, hrun', hresult'⟩ := h.runs_of_valid hvalid
  rw [List.map_eq_nil_iff.1 hus, List.append_nil] at hrun'
  rw [hrun'.unique hrun, hresult] at hresult'
  cases hresult'

theorem spaced_spaces (words : List String) :
    Spaced words (words.flatMap fun w => w.toList ++ [' ']) := by
  induction words with
  | nil => exact .nil
  | cons w words ih =>
    have hspaced := Spaced.cons (w := w) (.blank (rfl : isBlank ' ' = true) .nil) (fun _ => by simp) ih
    rwa [List.flatMap_cons, List.append_assoc]

/-- **The valid sequences** are the tokens of the texts that are parsed. -/
theorem Realises.valid_iff (h : Realises r Derives erase) {ls : List Lexeme} : Valid Derives ls ↔
    ∃ source a, r.parse source = .ok a ∧ (scan source).tokens.map Token.lexeme = ls := by
  constructor
  · rintro ⟨hls, ts, a, hts, hderives⟩
    let source := String.ofList ((ls.map Lexeme.text).flatMap fun w => w.toList ++ [' '])
    have hlexes : Lexes source.toList ls := by
      refine lexes_of_laidOut hls ⟨[], _, ?_, .nil, spaced_spaces _⟩
      exact String.toList_ofList
    obtain ⟨htokens, hvalid⟩ := hlexes 0
    obtain ⟨a', ha', -⟩ := h.moved ts a hderives (scan source).tokens (htokens.trans hts.symm)
    exact ⟨source, a', (h.recognises.ok_iff source a').2 ⟨hvalid, ha'⟩, htokens⟩
  · rintro ⟨source, a, hparse, rfl⟩
    exact ⟨fun _ => isText_of_mem_lexemes, _, a, rfl, ((h.recognises.ok_iff source a).1 hparse).2⟩

end Grammar

open Grammar

/-! ## The place of an error -/

section Places

variable {α : Type}

/-- The tokens of the source that begin before the offset, without their places. -/
def lexemesBefore (source : String) (offset : Nat) : List Lexeme :=
  ((scan source).tokens.filter (·.span.start < offset)).map Token.lexeme

/-- The error is at the first place where no text goes on as the source does. What stands before it
is the beginning of a valid sequence. A token that is refused is there in its place, and is not the
next one of any valid sequence. A source that ends too early is not valid itself. Where there is no
token, there is none of any kind, and no trivia. -/
def SyntaxError.IsEarliest (Derives : List Token → α → Prop) (source : String) : SyntaxError → Prop
  | .unrecognized t _ => t ∈ (scan source).tokens ∧
    Viable Derives (lexemesBefore source t.span.start) ∧
    ¬ Viable Derives (lexemesBefore source t.span.start ++ [t.lexeme])
  | .unfinished _ _ => (scan source).invalid? = none ∧
    (∃ ms, ms ≠ [] ∧ Valid Derives ((scan source).tokens.map Token.lexeme ++ ms)) ∧
    ¬ Valid Derives ((scan source).tokens.map Token.lexeme)
  | .invalid o => Viable Derives (lexemesBefore source o) ∧
    ∃ before after, source.toList = before ++ after ∧ byteLength before = o ∧ after ≠ [] ∧
      Blocked after

variable {source : String} {t : Token} {us vs : List Token}

theorem lexemesBefore_start (h : (scan source).tokens = us ++ t :: vs) :
    lexemesBefore source t.span.start = us.map Token.lexeme := by
  have horder : (us ++ t :: vs).Pairwise fun t u => t.span.stop ≤ u.span.start :=
    h ▸ pairwise_scanFrom 0 source.toList
  have hlt : ∀ u ∈ (scan source).tokens, u.span.start < u.span.stop := fun _ =>
    start_lt_stop_of_mem
  rw [List.pairwise_append, List.pairwise_cons] at horder
  obtain ⟨-, ⟨hafter, -⟩, hbefore⟩ := horder
  rw [h, List.forall_mem_append, List.forall_mem_cons] at hlt
  obtain ⟨hus, ht, -⟩ := hlt
  have hfront : us.filter (·.span.start < t.span.start) = us := by
    refine List.filter_eq_self.2 fun u hu => decide_eq_true ?_
    exact (hus u hu).trans_le (hbefore u hu t List.mem_cons_self)
  have hback : (t :: vs).filter (·.span.start < t.span.start) = [] := by
    refine List.filter_eq_nil_iff.2 fun v hv => ?_
    rw [decide_eq_true_eq]
    rcases List.mem_cons.1 hv with rfl | hv
    · exact Nat.lt_irrefl _
    · exact Nat.not_lt.2 (ht.le.trans (hafter v hv))
  rw [lexemesBefore, h, List.filter_append, hfront, hback, List.append_nil]

theorem lexemesBefore_invalid {o : Nat} (h : (scan source).invalid? = some o) :
    lexemesBefore source o = (scan source).tokens.map Token.lexeme := by
  have hall : (scan source).tokens.filter (·.span.start < o) = (scan source).tokens :=
    List.filter_eq_self.2 fun u hu => decide_eq_true
      ((start_lt_stop_of_mem hu).trans_le (stop_le_invalid h hu))
  rw [lexemesBefore, hall]

end Places

/-! ## Readers -/

namespace Grammar

variable {σ α : Type} {r : TokenReader σ α} {Derives : List Token → α → Prop} {erase : α → α}

/-- **A reader without dead ends** finds every error at the first impossible place. -/
theorem Realises.isEarliest (h : Realises r Derives erase) (hr : ∀ s, r.Completable s)
    {source : String} {err : SyntaxError} (herr : r.parse source = .error err) :
    (⟨err.offset⟩ : String.Pos.Raw).IsValid source ∧ err.IsEarliest Derives source := by
  have hgenuine : ∀ t ∈ (scan source).tokens, t.IsGenuine := fun t ht => isText_of_mem_scanFrom 0 ht
  have hrefused := TokenReader.refuses_of_readFrom herr
  generalize htokens : (scan source).tokens = ts at hrefused
  cases hrefused with
  | @unrecognized us vs t s hrun hstep =>
    have hmem : t ∈ (scan source).tokens := by simp [htokens]
    have hus : ∀ u ∈ us, u.IsGenuine := fun u hu => hgenuine u (by simp [htokens, hu])
    refine ⟨isValid_start hmem, hmem, ?_⟩
    rw [lexemesBefore_start htokens]
    exact ⟨h.viable hus hrun (hr s), h.not_viable hrun hstep⟩
  | @invalid _ s o hrun hinvalid =>
    subst htokens
    obtain ⟨before, after, hsource, ho, hne, hblocked⟩ := blocked_of_invalid hinvalid
    rw [Nat.zero_add] at ho
    refine ⟨ho ▸ isValid_byteLength hsource, ?_, before, after, hsource, ho.symm, hne, hblocked⟩
    rw [lexemesBefore_invalid hinvalid]
    exact h.viable hgenuine hrun (hr s)
  | @unfinished _ s hrun hvalid hresult =>
    subst htokens
    have hrefused := h.not_valid hrun hresult
    refine ⟨?_, hvalid, ?_, hrefused⟩
    · cases hlast : (scan source).tokens.getLast? with
      | none =>
        have hwhole : source.toList = [] ++ source.toList := rfl
        exact isValid_byteLength hwhole
      | some t => exact isValid_stop (List.mem_of_getLast? hlast)
    · obtain ⟨ms, hms⟩ := h.viable hgenuine hrun (hr s)
      refine ⟨ms, ?_, hms⟩
      rintro rfl
      rw [List.append_nil] at hms
      exact hrefused hms

end Grammar

/-- **Errors are reported at the first impossible place**: at a boundary of characters in the source,
where no program, or no expression, goes on as the source does. -/
theorem parse_error_isEarliest (source : String) (err : SyntaxError) :
    (Program.parse source = .error err →
      (⟨err.offset⟩ : String.Pos.Raw).IsValid source ∧ err.IsEarliest (Many Stmt) source) ∧
    (Expr.parse source = .error err →
      (⟨err.offset⟩ : String.Pos.Raw).IsValid source ∧
        err.IsEarliest (Expression .implication) source) :=
  ⟨program_realised.isEarliest programReader_completable,
    expr_realised.isEarliest exprReader_completable⟩

theorem parse_error_isEarliest_kinds :
    (∃ err, Program.parse "A = 1 B" = .error err ∧ err.offset = 6 ∧
      (⟨err.offset⟩ : String.Pos.Raw).IsValid "A = 1 B" ∧ err.IsEarliest (Many Stmt) "A = 1 B") ∧
    (∃ err, Program.parse "A = 1; // é\n#" = .error err ∧ err.offset = 13 ∧
      (⟨err.offset⟩ : String.Pos.Raw).IsValid "A = 1; // é\n#" ∧
      err.IsEarliest (Many Stmt) "A = 1; // é\n#") ∧
    ∃ err, Expr.parse "A and" = .error err ∧ err.offset = 5 ∧
      (⟨err.offset⟩ : String.Pos.Raw).IsValid "A and" ∧
      err.IsEarliest (Expression .implication) "A and" := by
  obtain ⟨expected, hunrecognized⟩ : ∃ expected, Program.parse "A = 1 B" =
      .error (.unrecognized ⟨.identifier, "B", ⟨6, 7⟩⟩ expected) := ⟨_, by cbv⟩
  have hinvalid : Program.parse "A = 1; // é\n#" = .error (.invalid 13) := by cbv
  obtain ⟨expected', hunfinished⟩ : ∃ expected, Expr.parse "A and" =
      .error (.unfinished 5 expected) := ⟨_, by cbv⟩
  exact ⟨⟨_, hunrecognized, rfl, (parse_error_isEarliest _ _).1 hunrecognized⟩,
    ⟨_, hinvalid, rfl, (parse_error_isEarliest _ _).1 hinvalid⟩,
    ⟨_, hunfinished, rfl, (parse_error_isEarliest _ _).2 hunfinished⟩⟩

end Switching
