import Switching.Proofs.Grammar.Complete
import Switching.Proofs.Places.Expr

/-!
# Derivations without places

The rules ask for the kinds of tokens and take over their texts. The same tokens elsewhere therefore
derive the same, up to places.

* `Grammar.Moved`: what is derived from these tokens is derived from the same tokens elsewhere.
* `Grammar.Comma.moved`, `Grammar.Many.moved`: lists of what is.
* `Grammar.Expression.moved`, `Grammar.Stmt.moved`: expressions and statements, by rules.
-/

namespace Switching

theorem Expr.eraseSpans_ofDigits (text : String) (s s' : Span) :
    (ofDigits text s).eraseSpans = (ofDigits text s').eraseSpans := by
  unfold ofDigits
  split <;> rfl

namespace Grammar

/-- The same tokens elsewhere derive the same up to places, which `erase` takes out. -/
def Moved {α β : Type} (erase : α → β) (Item : List Token → α → Prop) (ts : List Token) (a : α) :
    Prop :=
  ∀ ts', ts'.map Token.lexeme = ts.map Token.lexeme → ∃ a', Item ts' a' ∧ erase a' = erase a

section Tokens

variable {t : Token} {ts us ts' : List Token}

theorem same_nil (h : ts'.map Token.lexeme = [].map Token.lexeme) : ts' = [] :=
  List.map_eq_nil_iff.1 h

theorem same_cons (h : ts'.map Token.lexeme = (t :: ts).map Token.lexeme) :
    ∃ t' us', ts' = t' :: us' ∧ t'.terminal = t.terminal ∧ t'.text = t.text ∧
      us'.map Token.lexeme = ts.map Token.lexeme := by
  obtain ⟨t', us', rfl, ht', hus'⟩ := List.map_eq_cons_iff.1 h
  exact ⟨t', us', rfl, congrArg Lexeme.terminal ht', congrArg Lexeme.text ht', hus'⟩

theorem same_single (h : ts'.map Token.lexeme = [t].map Token.lexeme) :
    ∃ t', ts' = [t'] ∧ t'.terminal = t.terminal ∧ t'.text = t.text := by
  obtain ⟨t', us', rfl, hkind, htext, hus'⟩ := same_cons h
  exact ⟨t', by rw [same_nil hus'], hkind, htext⟩

theorem same_append (h : ts'.map Token.lexeme = (ts ++ us).map Token.lexeme) :
    ∃ vs ws, ts' = vs ++ ws ∧ vs.map Token.lexeme = ts.map Token.lexeme ∧
      ws.map Token.lexeme = us.map Token.lexeme := by
  rw [List.map_append] at h
  exact List.map_eq_append_iff.1 h

theorem same_snoc (h : ts'.map Token.lexeme = (ts ++ [t]).map Token.lexeme) :
    ∃ us' t', ts' = us' ++ [t'] ∧ us'.map Token.lexeme = ts.map Token.lexeme ∧
      t'.terminal = t.terminal := by
  obtain ⟨us', vs', rfl, hus, hvs⟩ := same_append h
  obtain ⟨t', rfl, hkind, -⟩ := same_single hvs
  exact ⟨us', t', rfl, hus, hkind⟩

end Tokens

/-! ## Lists -/

section Lists

variable {α β : Type} {erase : α → β} {Item : List Token → α → Prop} {ts : List Token} {as : List α}

theorem Comma.moved (h : Comma (Moved erase Item) ts as) :
    Moved (List.map erase) (Comma Item) ts as := by
  induction h with
  | nil =>
    intro ts' hts
    rw [same_nil hts]
    exact ⟨[], .nil, rfl⟩
  | last ha =>
    intro ts' hts
    obtain ⟨a', ha', herase⟩ := ha ts' hts
    exact ⟨[a'], .last ha', by rw [List.map_singleton, herase, List.map_singleton]⟩
  | cons ha ht _ ih =>
    intro ts' hts
    obtain ⟨us', vs', rfl, hus, hvs⟩ := same_append hts
    obtain ⟨t', ws', rfl, hkind, -, hws⟩ := same_cons hvs
    obtain ⟨a', ha', herase⟩ := ha us' hus
    obtain ⟨as', has', heraseAll⟩ := ih ws' hws
    exact ⟨a' :: as', .cons ha' (hkind.trans ht) has', by
      rw [List.map_cons, herase, heraseAll, List.map_cons]⟩

theorem Many.moved (hItem : ∀ us a, Item us a → Moved erase Item us a) (h : Many Item ts as) :
    Moved (List.map erase) (Many Item) ts as := by
  induction h with
  | nil =>
    intro ts' hts
    rw [same_nil hts]
    exact ⟨[], .nil, rfl⟩
  | cons ha _ ih =>
    intro ts' hts
    obtain ⟨us', vs', rfl, hus, hvs⟩ := same_append hts
    obtain ⟨a', ha', herase⟩ := hItem _ _ ha us' hus
    obtain ⟨as', has', heraseAll⟩ := ih vs' hvs
    exact ⟨a' :: as', .cons ha' has', by rw [List.map_cons, herase, heraseAll, List.map_cons]⟩

end Lists

/-! ## Expressions -/

variable {ts : List Token}

theorem Expression.moved {tier : Tier} {e : Expr} (h : Expression tier ts e) :
    Moved Expr.eraseSpans (Expression tier) ts e := by
  induction h using Expression.induction with
  | join _ ht hop _ iha ihb =>
    intro ts' hts
    obtain ⟨us', vs', rfl, hus, hvs⟩ := same_append hts
    obtain ⟨t', ws', rfl, hkind, -, hws⟩ := same_cons hvs
    obtain ⟨a', ha', hea⟩ := iha us' hus
    obtain ⟨b', hb', heb⟩ := ihb ws' hws
    refine ⟨_, .join ha' (hkind.trans ht) hop hb', ?_⟩
    rw [Expr.eraseSpans_join, hea, heb, Expr.eraseSpans_join]
  | tighter htier _ ih =>
    intro ts' hts
    obtain ⟨e', he', herase⟩ := ih ts' hts
    exact ⟨e', .tighter htier he', herase⟩
  | not ht _ ih =>
    intro ts' hts
    obtain ⟨t', us', rfl, hkind, -, hus⟩ := same_cons hts
    obtain ⟨a', ha', herase⟩ := ih us' hus
    refine ⟨_, .not (hkind.trans ht) ha', ?_⟩
    rw [Expr.eraseSpans_negation, herase, Expr.eraseSpans_negation]
  | digits ht =>
    intro ts' hts
    obtain ⟨t', rfl, hkind, htext⟩ := same_single hts
    exact ⟨_, .digits (hkind.trans ht), htext ▸ Expr.eraseSpans_ofDigits _ _ _⟩
  | string ht =>
    intro ts' hts
    obtain ⟨t', rfl, hkind, htext⟩ := same_single hts
    exact ⟨_, .string (hkind.trans ht), by rw [htext, Expr.eraseSpans, Expr.eraseSpans]⟩
  | name ht =>
    intro ts' hts
    obtain ⟨t', rfl, hkind, htext⟩ := same_single hts
    exact ⟨_, .name (hkind.trans ht), by rw [htext, Expr.eraseSpans, Expr.eraseSpans]⟩
  | reference ht hstar =>
    intro ts' hts
    obtain ⟨t', us', rfl, hkind, htext, hus⟩ := same_cons hts
    obtain ⟨star', rfl, hkind', -⟩ := same_single hus
    exact ⟨_, .reference (hkind.trans ht) (hkind'.trans hstar), by
      rw [htext, Expr.eraseSpans, Expr.eraseSpans]⟩
  | call ht hl _ hr ih =>
    intro ts' hts
    obtain ⟨t', us', rfl, hkind, htext, hus⟩ := same_cons hts
    obtain ⟨l', vs', rfl, hkindl, -, hvs⟩ := same_cons hus
    obtain ⟨ws', r', rfl, hws, hkindr⟩ := same_snoc hvs
    replace ih := ih.mono fun _ _ ha => ha.elim fun _ h => h
    obtain ⟨args', hargs', herase⟩ := ih.moved ws' hws
    refine ⟨_, .call (hkind.trans ht) (hkindl.trans hl) hargs' (hkindr.trans hr), ?_⟩
    rw [Expr.eraseSpans, Expr.eraseSpans, Expr.eraseSpansAll_eq, Expr.eraseSpansAll_eq, herase, htext]
  | builtin ht hl _ hr ih =>
    intro ts' hts
    obtain ⟨t', us', rfl, hkind, -, hus⟩ := same_cons hts
    obtain ⟨l', vs', rfl, hkindl, -, hvs⟩ := same_cons hus
    obtain ⟨ws', r', rfl, hws, hkindr⟩ := same_snoc hvs
    replace ih := ih.mono fun _ _ ha => ha.elim fun _ h => h
    obtain ⟨args', hargs', herase⟩ := ih.moved ws' hws
    refine ⟨_, .builtin (hkind.trans ht) (hkindl.trans hl) hargs' (hkindr.trans hr), ?_⟩
    rw [Expr.eraseSpans, Expr.eraseSpans, Expr.eraseSpansAll_eq, Expr.eraseSpansAll_eq, herase]
  | group hl _ hr ih =>
    intro ts' hts
    obtain ⟨l', us', rfl, hkindl, -, hus⟩ := same_cons hts
    obtain ⟨vs', r', rfl, hvs, hkindr⟩ := same_snoc hus
    obtain ⟨e', he', herase⟩ := ih vs' hvs
    exact ⟨e', .group (hkindl.trans hl) he' (hkindr.trans hr), herase⟩

theorem moved_args {args : List Expr} (h : Comma (Expression .implication) ts args) :
    Moved (List.map Expr.eraseSpans) (Comma (Expression .implication)) ts args :=
  (h.mono fun _ _ => Expression.moved).moved

/-! ## Statements -/

theorem Ident.moved {n : String} (h : Ident ts n) : Moved id Ident ts n := by
  obtain ⟨t, rfl, ht, rfl⟩ := h
  intro ts' hts
  obtain ⟨t', rfl, hkind, htext⟩ := same_single hts
  exact ⟨t'.text, ⟨t', rfl, hkind.trans ht, rfl⟩, htext⟩

theorem moved_names {ns : List String} (h : Comma Ident ts ns) : Moved id (Comma Ident) ts ns := by
  have hmoved := (h.mono fun _ _ => Ident.moved).moved
  rwa [List.map_id_fun] at hmoved

theorem Row.moved {row : TableRow} (h : Row ts row) : Moved TableRow.eraseSpans Row ts row := by
  obtain ⟨ht, hcolon, he, hsemi⟩ := h
  intro ts' hts
  obtain ⟨t', us', rfl, hkind, htext, hus⟩ := same_cons hts
  obtain ⟨colon', vs', rfl, hkindc, -, hvs⟩ := same_cons hus
  obtain ⟨ws', semi', rfl, hws, hkinds⟩ := same_snoc hvs
  obtain ⟨e', he', herase⟩ := he.moved ws' hws
  refine ⟨_, .mk (hkind.trans ht) (hkindc.trans hcolon) he' (hkinds.trans hsemi), ?_⟩
  rw [TableRow.eraseSpans, TableRow.eraseSpans, herase, htext]

theorem Subparams.moved {subparams? : Option (List String)} (h : Subparams ts subparams?) :
    Moved id Subparams ts subparams? := by
  intro ts' hts
  cases h with
  | none =>
    rw [same_nil hts]
    exact ⟨.none, .none, rfl⟩
  | some hcolon hns =>
    obtain ⟨colon', us', rfl, hkind, -, hus⟩ := same_cons hts
    obtain ⟨ns', hns', hids⟩ := moved_names hns us' hus
    exact ⟨_, .some (hkind.trans hcolon) hns', congrArg Option.some hids⟩

theorem Head.moved {head : Switching.Head} (h : Head ts head) :
    Moved (fun h : Switching.Head => (h.name, h.params, h.subparams?)) Head ts head := by
  obtain ⟨ht, hl, hns, hsub, hr, heq⟩ := h
  intro ts' hts
  obtain ⟨t', us', rfl, hkind, htext, hus⟩ := same_cons hts
  obtain ⟨l', vs', rfl, hkindl, -, hvs⟩ := same_cons hus
  obtain ⟨ws', end', rfl, hws, hend⟩ := same_append hvs
  obtain ⟨names', subs', rfl, hnames, hsubs⟩ := same_append hws
  obtain ⟨r', eqs', rfl, hkindr, -, heqs⟩ := same_cons hend
  obtain ⟨eq', rfl, hkinde, -⟩ := same_single heqs
  obtain ⟨ns', hns', hparams⟩ := moved_names hns names' hnames
  obtain ⟨subparams', hsub', hsubparams⟩ := hsub.moved subs' hsubs
  refine ⟨_, .mk (hkind.trans ht) (hkindl.trans hl) hns' hsub' (hkindr.trans hr) (hkinde.trans heq), ?_⟩
  rw [id, id] at hparams hsubparams
  rw [htext, hparams, hsubparams]

theorem Table.moved {table : FunctionTable} (h : Table ts table) :
    Moved FunctionTable.eraseSpans Table ts table := by
  obtain ⟨hhead, ht, hl, hrows, hr⟩ := h
  intro ts' hts
  obtain ⟨us', vs', rfl, hus, hvs⟩ := same_append hts
  obtain ⟨t', ws', rfl, hkind, -, hws⟩ := same_cons hvs
  obtain ⟨l', xs', rfl, hkindl, -, hxs⟩ := same_cons hws
  obtain ⟨ys', r', rfl, hys, hkindr⟩ := same_snoc hxs
  obtain ⟨head', hhead', herase⟩ := hhead.moved us' hus
  obtain ⟨rows', hrows', heraseRows⟩ := hrows.moved (fun _ _ => Row.moved) ys' hys
  refine ⟨_, .mk hhead' (hkind.trans ht) (hkindl.trans hl) hrows' (hkindr.trans hr), ?_⟩
  simp only [Prod.mk.injEq] at herase
  obtain ⟨hname, hparams, hsubparams⟩ := herase
  rw [FunctionTable.eraseSpans, FunctionTable.eraseSpans, hname, hparams, hsubparams, heraseRows]

theorem Stmt.moved {s : Statement} (h : Stmt ts s) : Moved Statement.eraseSpans Stmt ts s := by
  intro ts' hts
  cases h with
  | assignment ht heq he hsemi =>
    obtain ⟨t', us', rfl, hkind, htext, hus⟩ := same_cons hts
    obtain ⟨eq', vs', rfl, hkinde, -, hvs⟩ := same_cons hus
    obtain ⟨ws', semi', rfl, hws, hkinds⟩ := same_snoc hvs
    obtain ⟨e', he', herase⟩ := he.moved ws' hws
    refine ⟨_, .assignment (hkind.trans ht) (hkinde.trans heq) he' (hkinds.trans hsemi), ?_⟩
    rw [Statement.eraseSpans, Statement.eraseSpans, herase, htext]
  | function hhead hsub he hsemi =>
    obtain ⟨us', semi', rfl, hus, hkind⟩ := same_snoc hts
    obtain ⟨vs', ws', rfl, hvs, hws⟩ := same_append hus
    obtain ⟨head', hhead', heraseHead⟩ := hhead.moved vs' hvs
    obtain ⟨e', he', herase⟩ := he.moved ws' hws
    simp only [Prod.mk.injEq] at heraseHead
    obtain ⟨hname, hparams, hsubparams⟩ := heraseHead
    refine ⟨_, .function hhead' (hsubparams.trans hsub) he' (hkind.trans hsemi), ?_⟩
    rw [Statement.eraseSpans, Statement.eraseSpans, Function.eraseSpans, Function.eraseSpans, herase,
      hname, hparams]
  | misplaced hhead hsub he hsemi =>
    obtain ⟨us', semi', rfl, hus, hkind⟩ := same_snoc hts
    obtain ⟨vs', ws', rfl, hvs, hws⟩ := same_append hus
    obtain ⟨head', hhead', heraseHead⟩ := hhead.moved vs' hvs
    obtain ⟨e', he', -⟩ := he.moved ws' hws
    simp only [Prod.mk.injEq] at heraseHead
    obtain ⟨hname, -, hsubparams⟩ := heraseHead
    refine ⟨_, .misplaced hhead' (hsubparams.trans hsub) he' (hkind.trans hsemi), ?_⟩
    rw [Statement.eraseSpans, Statement.eraseSpans, hname]
  | table htable =>
    obtain ⟨table', htable', herase⟩ := htable.moved ts' hts
    exact ⟨_, .table htable', congrArg Statement.table herase⟩
  | tableEnded htable hsemi =>
    obtain ⟨us', semi', rfl, hus, hkind⟩ := same_snoc hts
    obtain ⟨table', htable', herase⟩ := htable.moved us' hus
    exact ⟨_, .tableEnded htable' (hkind.trans hsemi), congrArg Statement.table herase⟩
  | builtin ht hl hargs hr hsemi =>
    obtain ⟨t', us', rfl, hkind, -, hus⟩ := same_cons hts
    obtain ⟨l', vs', rfl, hkindl, -, hvs⟩ := same_cons hus
    obtain ⟨ws', end', rfl, hws, hend⟩ := same_append hvs
    obtain ⟨r', semis', rfl, hkindr, -, hsemis⟩ := same_cons hend
    obtain ⟨semi', rfl, hkinds, -⟩ := same_single hsemis
    obtain ⟨args', hargs', herase⟩ := moved_args hargs ws' hws
    refine ⟨_, .builtin (hkind.trans ht) (hkindl.trans hl) hargs' (hkindr.trans hr)
      (hkinds.trans hsemi), ?_⟩
    rw [Statement.eraseSpans, Statement.eraseSpans, herase]

end Grammar

end Switching
