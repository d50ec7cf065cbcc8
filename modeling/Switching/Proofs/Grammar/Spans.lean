import Mathlib
import Switching.Proofs.Grammar.Parse
import Switching.Proofs.Program.Nodes
import Switching.Proofs.Token.Offsets

/-!
# Places of what is parsed

Some places begin and end with tokens, and others with the operands, whose parentheses they leave
out. Both are inside of the tokens that derive the node.

* `Laid source lo ts hi`: tokens of the source, one after the other between two offsets.
* `Delimits ts s`: a place from the first token to the last one.
* `Grammar.PlacedBy`: wherever the tokens are laid, the nodes are placed.
  `Grammar.PlacedBy.enclose`: a node that its tokens delimit is placed around its children.
* `Grammar.Expression.placedBy`, `Grammar.Stmt.placedBy`: expressions and statements, by rules.
* **`Grammar.parse_wellPlaced`**: the places of all nodes of a program that is parsed.
-/

namespace Switching

variable {source : String} {lo hi : Nat} {t : Token} {ts us : List Token} {s : Span}

/-! ## Laid tokens -/

theorem fitsIn_of_mem (ht : t ∈ (scan source).tokens) : t.span.FitsIn source where
  start_lt_stop := start_lt_stop_of_mem ht
  stop_le := (isValid_stop ht).le_utf8ByteSize
  isValid_start := isValid_start ht
  isValid_stop := isValid_stop ht

/-- Tokens of the source one after the other between two offsets. -/
structure Laid (source : String) (lo : Nat) (ts : List Token) (hi : Nat) : Prop where
  mem : ∀ t ∈ ts, t ∈ (scan source).tokens
  inOrder : InOrder lo (ts.map Token.span) hi

theorem laid_scan (source : String) : Laid source 0 (scan source).tokens source.utf8ByteSize where
  mem _ ht := ht
  inOrder := by
    refine inOrder_iff.2 ⟨Nat.zero_le _, List.pairwise_map.2 (pairwise_scanFrom 0 _), ?_⟩
    rw [List.forall_mem_map]
    intro t ht
    have hfits := fitsIn_of_mem ht
    exact ⟨Nat.zero_le _, hfits.start_lt_stop.le, hfits.stop_le⟩

namespace Laid

theorem append (h : Laid source lo (ts ++ us) hi) :
    ∃ mid, Laid source lo ts mid ∧ Laid source mid us hi := by
  obtain ⟨hts, hus⟩ := List.forall_mem_append.1 h.mem
  have horder := h.inOrder
  rw [List.map_append, inOrder_append_iff] at horder
  obtain ⟨mid, hfront, hback⟩ := horder
  exact ⟨mid, ⟨hts, hfront⟩, ⟨hus, hback⟩⟩

theorem sublist (h : Laid source lo us hi) (hts : ts.Sublist us) : Laid source lo ts hi where
  mem t ht := h.mem t (hts.subset ht)
  inOrder := by
    obtain ⟨hle, hpairwise, hall⟩ := inOrder_iff.1 h.inOrder
    exact inOrder_iff.2 ⟨hle, hpairwise.sublist (hts.map _),
      fun s hs => hall s ((hts.map _).subset hs)⟩

theorem from_first (h : Laid source lo (t :: ts) hi) : Laid source t.span.start (t :: ts) hi :=
  ⟨h.mem, le_rfl, h.inOrder.2⟩

theorem to_last (h : Laid source lo (ts ++ [t]) hi) :
    Laid source lo (ts ++ [t]) t.span.stop where
  mem := h.mem
  inOrder := by
    have horder := h.inOrder
    rw [List.map_append, inOrder_append_iff] at horder ⊢
    obtain ⟨mid, hfront, hstart, hle, -⟩ := horder
    exact ⟨mid, hfront, hstart, hle, le_rfl⟩

end Laid

/-- The place begins with the first token and ends with the last one. -/
structure Delimits (ts : List Token) (s : Span) : Prop where
  first : ts.head?.map (·.span.start) = some s.start
  last : ts.getLast?.map (·.span.stop) = some s.stop

theorem delimits_concat (ts : List Token) {start : Nat}
    (h : ts.head?.map (·.span.start) = some start) (r : Token) :
    Delimits (ts ++ [r]) ⟨start, r.span.stop⟩ where
  first := by
    obtain ⟨t, ht, rfl⟩ := Option.map_eq_some_iff.1 h
    rw [List.head?_append, ht, Option.some_or, Option.map_some]
  last := by rw [List.getLast?_concat, Option.map_some]

theorem Laid.delimited (h : Laid source lo ts hi) (hs : Delimits ts s) :
    s.FitsIn source ∧ s.Within ⟨lo, hi⟩ ∧ Laid source s.start ts s.stop := by
  obtain ⟨start, stop⟩ := s
  obtain ⟨t, ht, rfl⟩ := Option.map_eq_some_iff.1 hs.first
  obtain ⟨r, hr, rfl⟩ := Option.map_eq_some_iff.1 hs.last
  have htmem := List.mem_of_head? ht
  have hrmem := List.mem_of_getLast? hr
  have hinside : Laid source t.span.start ts r.span.stop := by
    obtain ⟨front, hfront⟩ := List.getLast?_eq_some_iff.1 hr
    obtain ⟨rest, hrest⟩ := List.head?_eq_some_iff.1 ht
    rw [hfront] at h
    have hlaid := h.to_last
    rw [← hfront, hrest] at hlaid
    rw [hrest]
    exact hlaid.from_first
  have hfirst := fitsIn_of_mem (h.mem t htmem)
  have hlast := fitsIn_of_mem (h.mem r hrmem)
  have hstop : t.span.stop ≤ r.span.stop := (hinside.inOrder.within (List.mem_map_of_mem htmem)).2
  exact ⟨hfirst.upTo hlast hstop, ⟨(h.inOrder.within (List.mem_map_of_mem htmem)).1,
    (h.inOrder.within (List.mem_map_of_mem hrmem)).2⟩, hinside⟩

namespace Grammar

/-- Wherever the tokens are laid, the nodes are placed. -/
def PlacedBy (source : String) (ts : List Token) (ns : List Node) : Prop :=
  ∀ lo hi, Laid source lo ts hi → Node.Placed source lo ns hi

namespace PlacedBy

variable {n : Node} {ns ms : List Node}

theorem nil : PlacedBy source [] [] := fun _ _ h => ⟨by simp, h.inOrder⟩

theorem append (hns : PlacedBy source ts ns) (hms : PlacedBy source us ms) :
    PlacedBy source (ts ++ us) (ns ++ ms) := by
  intro lo hi h
  obtain ⟨mid, hfront, hback⟩ := h.append
  exact (hns _ _ hfront).append (hms _ _ hback)

/-- Further tokens around and between do not matter. -/
theorem sublist (h : PlacedBy source ts ns) (hts : ts.Sublist us) : PlacedBy source us ns :=
  fun lo hi hus => h lo hi (hus.sublist hts)

/-- A node that its tokens delimit is placed around its children. -/
theorem enclose (h : PlacedBy source us n.children) (hus : us.Sublist ts)
    (hts : Delimits ts n.span) : PlacedBy source ts [n] := by
  intro lo hi hlaid
  obtain ⟨hfits, hwithin, hinside⟩ := hlaid.delimited hts
  exact .parent rfl (h.sublist hus _ _ hinside) hfits hwithin.1 hwithin.2

theorem leaf (hn : n.children = []) (hts : Delimits ts n.span) : PlacedBy source ts [n] := by
  have hnone : PlacedBy source [] n.children := hn ▸ nil
  exact hnone.enclose (List.nil_sublist ts) hts

end PlacedBy

/-! ## Lists -/

section Lists

variable {α : Type} {node : α → Node} {as : List α}

theorem Comma.placedBy (h : Comma (fun us a => PlacedBy source us [node a]) ts as) :
    PlacedBy source ts (as.map node) := by
  induction h with
  | nil => exact .nil
  | last ha => exact ha
  | cons ha _ _ ih => exact (ha.append ih).sublist ((List.sublist_cons_self _ _).append_left _)

theorem Many.placedBy {Item : List Token → α → Prop}
    (hItem : ∀ us a, Item us a → PlacedBy source us [node a]) (h : Many Item ts as) :
    PlacedBy source ts (as.map node) := by
  induction h with
  | nil => exact .nil
  | cons ha _ ih => exact (hItem _ _ ha).append ih

end Lists

/-! ## Expressions -/

theorem placed_join {a b : Expr} (op : Operator)
    (h : Node.Placed source lo [.expr a, .expr b] hi) :
    Node.Placed source lo [.expr (a.join op b)] hi := by
  obtain ⟨hlo, ha, hab, hb, hhi⟩ := h.inOrder
  have hfitsa : a.span.FitsIn source := (h.wellPlaced (.expr a) (by simp)).fitsIn
  have hfitsb : b.span.FitsIn source := (h.wellPlaced (.expr b) (by simp)).fitsIn
  have hspan : a.span.merge b.span = ⟨a.span.start, b.span.stop⟩ :=
    Span.merge_eq (ha.trans hab) (hab.trans hb)
  exact .parent hspan ⟨h.wellPlaced, le_rfl, ha, hab, hb, le_rfl⟩ (hfitsa.upTo hfitsb (hab.trans hb))
    hlo hhi

theorem span_of_not (ht : t ∈ (scan source).tokens) (hnot : t.terminal = .not) :
    t.span = ⟨t.span.start, t.span.start + 3⟩ := by
  obtain ⟨before, after, -, hstart, hstop⟩ := standsIn_of_mem_scanFrom ht
  have htext : t.text = "not" := by
    have htext := isText_of_mem_scanFrom 0 ht
    rwa [hnot] at htext
  rw [byteLength_append, ← Nat.add_assoc, ← hstart, htext] at hstop
  exact congrArg (Span.mk t.span.start) hstop

theorem placedBy_negation {a : Expr} (ht : t.terminal = .not) (ha : PlacedBy source ts [.expr a]) :
    PlacedBy source (t :: ts) [.expr (a.negation ⟨t.span.start, t.span.start + 3⟩)] := by
  intro lo hi hlaid
  obtain ⟨hmem, hmems⟩ := List.forall_mem_cons.1 hlaid.mem
  obtain ⟨hlo, ht₁, horder⟩ := hlaid.inOrder
  have hoperand := ha _ _ ⟨hmems, horder⟩
  obtain ⟨hta, ha₁, hhi⟩ := hoperand.inOrder
  have hfits : a.span.FitsIn source := (hoperand.wellPlaced (.expr a) (by simp)).fitsIn
  have hspan : t.span.merge a.span = ⟨t.span.start, a.span.stop⟩ :=
    Span.merge_eq (ht₁.trans hta) (hta.trans ha₁)
  rw [← span_of_not hmem ht]
  exact .parent hspan ⟨hoperand.wellPlaced, ht₁.trans hta, ha₁, le_rfl⟩
    ((fitsIn_of_mem hmem).upTo hfits (hta.trans ha₁)) hlo hhi

/-- What stands between tokens, the first two and the last one, is inside of the node. -/
theorem PlacedBy.between {n : Node} {l r : Token} (h : PlacedBy source ts n.children)
    (hn : n.span = ⟨t.span.start, r.span.stop⟩) : PlacedBy source (t :: l :: (ts ++ [r])) [n] := by
  refine h.enclose (((List.sublist_append_left ts [r]).cons l).cons t) ?_
  rw [hn]
  exact delimits_concat (t :: l :: ts) rfl r

theorem Expression.placedBy {tier : Tier} {e : Expr} (h : Expression tier ts e) :
    PlacedBy source ts [.expr e] := by
  have hargs : ∀ {us args}, Comma (fun us e => ∃ _ : Expression .implication us e,
      PlacedBy source us [.expr e]) us args → PlacedBy source us (args.map .expr) := fun h =>
    (h.mono fun _ _ ha => ha.elim fun _ h => h).placedBy
  induction h using Expression.induction with
  | @join _ ts us t op a b _ _ _ _ iha ihb =>
    have hus : us.Sublist (t :: us) := List.sublist_cons_self t us
    have hoperands : PlacedBy source (ts ++ t :: us) [.expr a, .expr b] :=
      (iha.append ihb).sublist (hus.append_left ts)
    exact fun lo hi hlaid => placed_join op (hoperands lo hi hlaid)
  | tighter _ _ ih => exact ih
  | not ht _ ih => exact placedBy_negation ht ih
  | @digits t _ =>
    have hleaf : (Node.expr (.ofDigits t.text t.span)).children = [] ∧
        (Expr.ofDigits t.text t.span).span = t.span := by
      unfold Expr.ofDigits
      split <;> exact ⟨rfl, rfl⟩
    refine .leaf hleaf.1 ?_
    rw [Node.span, hleaf.2]
    exact ⟨rfl, rfl⟩
  | string _ => exact .leaf rfl ⟨rfl, rfl⟩
  | name _ => exact .leaf rfl ⟨rfl, rfl⟩
  | @reference t star _ _ => exact .leaf rfl (delimits_concat [t] rfl star)
  | call _ _ _ _ ih => exact .between (hargs ih) rfl
  | builtin _ _ _ _ ih => exact .between (hargs ih) rfl
  | @group l r ts e _ _ _ ih => exact ih.sublist ((List.sublist_append_left ts [r]).cons l)

theorem placedBy_args {args : List Expr} (h : Comma (Expression .implication) ts args) :
    PlacedBy source ts (args.map .expr) :=
  Comma.placedBy (h.mono fun _ _ => Expression.placedBy)

/-! ## Statements -/

theorem Row.placedBy {row : TableRow} (h : Row ts row) : PlacedBy source ts [.row row] := by
  obtain ⟨_, _, he, _⟩ := h
  exact .between he.placedBy rfl

section Head

variable {head : Switching.Head} {table : FunctionTable}

theorem Head.starts (h : Head ts head) (us : List Token) :
    (ts ++ us).head?.map (·.span.start) = some head.start := by
  obtain ⟨_, _, _, _, _, _⟩ := h
  rfl

theorem Head.head?_terminal (h : Head ts head) (us : List Token) :
    (ts ++ us).head?.map Token.terminal = some .identifier := by
  obtain ⟨ht, _, _, _, _, _⟩ := h
  exact congrArg some ht

theorem Table.head?_terminal (h : Table ts table) (us : List Token) :
    (ts ++ us).head?.map Token.terminal = some .identifier := by
  obtain ⟨hhead, _, _, _, _⟩ := h
  rw [List.append_assoc]
  exact hhead.head?_terminal _

theorem Table.delimits (h : Table ts table) : Delimits ts table.span := by
  obtain @⟨t, l, r, ts, us, head, rows, hhead, _, _, _, _⟩ := h
  have hts : ts ++ t :: l :: (us ++ [r]) = ts ++ t :: l :: us ++ [r] := by simp
  rw [hts]
  exact delimits_concat _ (hhead.starts _) r

theorem Table.rows (h : Table ts table) :
    ∃ us, us.Sublist ts ∧ PlacedBy source us (table.rows.map .row) := by
  obtain @⟨t, l, r, ts, us, head, rows, _, _, _, hrows, _⟩ := h
  refine ⟨us, ?_, hrows.placedBy fun _ _ => Row.placedBy⟩
  exact (((List.sublist_append_left us [r]).cons l).cons t).trans (List.sublist_append_right ts _)

end Head

/-- **The place of a statement** is from its first token to the last one. -/
theorem Stmt.delimits {s : Statement} (h : Stmt ts s) : Delimits ts s.span := by
  cases h with
  | @assignment t eq semi ts e _ _ _ _ => exact delimits_concat (t :: eq :: ts) rfl semi
  | function hhead _ _ _ => exact delimits_concat _ (hhead.starts _) _
  | misplaced hhead _ _ _ => exact delimits_concat _ (hhead.starts _) _
  | table htable => exact htable.delimits
  | tableEnded htable _ => exact delimits_concat _ htable.delimits.first _
  | @builtin t l r semi f ts args _ _ _ _ _ =>
    have hts : t :: l :: (ts ++ [r, semi]) = t :: l :: (ts ++ [r]) ++ [semi] := by simp
    rw [hts]
    exact delimits_concat _ rfl semi

theorem Stmt.placedBy {s : Statement} (h : Stmt ts s) : PlacedBy source ts [.statement s] := by
  have hdelimits := h.delimits
  cases h with
  | assignment _ _ he _ => exact .between he.placedBy rfl
  | @function semi ts us head e _ _ he _ =>
    have hus : us.Sublist (ts ++ us ++ [semi]) :=
      (List.sublist_append_right ts us).trans (List.sublist_append_left _ _)
    exact he.placedBy.enclose hus hdelimits
  | misplaced _ _ _ _ => exact .leaf rfl hdelimits
  | table htable =>
    obtain ⟨us, hus, hrows⟩ := htable.rows
    exact hrows.enclose hus hdelimits
  | tableEnded htable _ =>
    obtain ⟨us, hus, hrows⟩ := htable.rows
    exact hrows.enclose (hus.trans (List.sublist_append_left _ _)) hdelimits
  | @builtin t l r semi f ts args _ _ hargs _ _ =>
    have hts : ts.Sublist (t :: l :: (ts ++ [r, semi])) :=
      ((List.sublist_append_left ts [r, semi]).cons l).cons t
    exact (placedBy_args hargs).enclose hts hdelimits

theorem Stmt.head?_ne_semicolon {s : Statement} (h : Stmt ts s) :
    ts.head?.map Token.terminal ≠ some .semicolon := by
  cases h with
  | assignment ht _ _ _ => simp [ht]
  | function hhead _ _ _ =>
    rw [List.append_assoc, hhead.head?_terminal]
    decide
  | misplaced hhead _ _ _ =>
    rw [List.append_assoc, hhead.head?_terminal]
    decide
  | table htable =>
    rw [← List.append_nil ts, htable.head?_terminal]
    decide
  | tableEnded htable _ =>
    rw [htable.head?_terminal]
    decide
  | builtin ht _ _ _ _ => simp [ht]

theorem Many.exists_blocks {α : Type} {Item : List Token → α → Prop} {as : List α}
    (h : Many Item ts as) : ∃ blocks, blocks.flatten = ts ∧ List.Forall₂ Item blocks as := by
  induction h with
  | nil => exact ⟨[], rfl, .nil⟩
  | @cons ts us a as ha _ ih =>
    obtain ⟨blocks, rfl, hblocks⟩ := ih
    exact ⟨ts :: blocks, rfl, .cons ha hblocks⟩

/-- **Places of what is parsed.** Every node has a place in the source that is not empty and has whole
characters, and around those of its children, which come one after the other. So do statements. The
place of a statement is from its first token to the last one, and each token is in a statement. None
begins with a semicolon, so one behind a table is the last token of that table. -/
theorem parse_wellPlaced {p : Program} (h : Program.parse source = .ok p) :
    (∀ n : Node, n.OccursIn p → n.span.FitsIn source ∧ (∀ m ∈ n.children, m.span.Within n.span) ∧
      (n.children.map Node.span).Pairwise Span.Precedes) ∧
    (p.map Statement.span).Pairwise Span.Precedes ∧
    ∃ blocks, blocks.flatten = (scan source).tokens ∧ List.Forall₂ (fun us s => Stmt us s ∧
      Delimits us s.span ∧ us.head?.map Token.terminal ≠ some .semicolon) blocks p := by
  have hprogram : Many Stmt (scan source).tokens p := ((program_recognises.ok_iff source p).1 h).2
  have hstatements : PlacedBy source (scan source).tokens (p.map .statement) :=
    hprogram.placedBy fun _ _ => Stmt.placedBy
  have hplaced := hstatements _ _ (laid_scan source)
  refine ⟨fun n hn => ?_, ?_, ?_⟩
  · obtain ⟨hfits, horder, -⟩ := hn.wellPlaced (List.forall_mem_map.1 hplaced.wellPlaced)
    exact ⟨hfits, fun m hm => horder.within (List.mem_map_of_mem hm), horder.pairwise⟩
  · have hpairwise := hplaced.inOrder.pairwise
    rwa [List.map_map] at hpairwise
  · obtain ⟨blocks, hflatten, hblocks⟩ := hprogram.exists_blocks
    exact ⟨blocks, hflatten,
      hblocks.imp fun _ _ hs => ⟨hs, hs.delimits, hs.head?_ne_semicolon⟩⟩

/-- A table with a semicolon behind it, after a comment with a character of two bytes. -/
def semicolonSource : String :=
  "// é\nF(A: B) = table \x7b1: not (A) and 0; \x7d;\nX = (F(1, 0));"

theorem parse_wellPlaced_semicolon : ∃ p negation, Program.parse semicolonSource = .ok p ∧
    Node.OccursIn p (.expr negation) ∧ negation.span = ⟨26, 32⟩ ∧
    negation.span.FitsIn semicolonSource ∧
    ∃ us vs, us ++ vs = (scan semicolonSource).tokens ∧ Delimits us ⟨6, 43⟩ ∧
      Delimits vs ⟨44, 58⟩ := by
  let negation : Expr := .not (.var "A" false ⟨31, 32⟩) ⟨26, 32⟩
  let row : TableRow := ⟨[true], .binary negation .and (.lit false ⟨38, 39⟩) ⟨26, 39⟩, ⟨23, 40⟩⟩
  let table : Statement := .table ⟨"F", ["A"], ["B"], [row], ⟨6, 43⟩⟩
  have hparse : Program.parse semicolonSource = .ok [table,
      .variable "X" (.call "F" [.lit true ⟨51, 52⟩, .lit false ⟨54, 55⟩] ⟨49, 56⟩) ⟨44, 58⟩] := by
    cbv
  have hnegation : ∀ {p : Program}, table ∈ p → Node.OccursIn p (.expr negation) := fun h =>
    have hrow := (Node.OccursIn.statement h).child (m := .row row) (.head _)
    have hoperator := hrow.child (m := .expr row.output) (.head _)
    hoperator.child (.head _)
  obtain ⟨hnodes, -, blocks, hflatten, hblocks⟩ := parse_wellPlaced hparse
  obtain ⟨us, rest, ⟨-, hus, -⟩, hrest, rfl⟩ := List.forall₂_cons_right_iff.1 hblocks
  obtain ⟨vs, none, ⟨-, hvs, -⟩, hnone, rfl⟩ := List.forall₂_cons_right_iff.1 hrest
  obtain rfl := List.forall₂_nil_right_iff.1 hnone
  refine ⟨_, negation, hparse, hnegation (.head _), rfl, (hnodes _ (hnegation (.head _))).1, us, vs, ?_,
    hus, hvs⟩
  simpa using hflatten

end Grammar

end Switching
