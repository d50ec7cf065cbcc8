import Switching.Parse.Reader
import Switching.Proofs.Token.Lexeme

/-!
# What a reader does with tokens

* `Runs step s ts s'`: the reader comes from `s` to `s'` by the tokens `ts`.
* `Reads step s ls P`: from the state `s` the reader takes any tokens `ls`, wherever they stand, and
  is then in a state with `P`. Statements about parts of a text are put together by `Reads.append`
  and `Reads.cons`, and `Reads.lift` carries them to a reader that holds another one in its state.
* **`Reads.commas`**: a list with commas, from what holds of each item.
* `TokenReader.Refuses`: the ways in which tokens are refused; `TokenReader.refuses_of_readFrom`: an
  error says in which.
* **`TokenReader.parse_of_lexes`**: a text is parsed if the reader takes its tokens to a result.
-/

namespace Switching

variable {σ : Type}

/-! ## Runs of a reader -/

section Runs

variable {τ : Type} {step : σ → Token → Option σ} {s s' s'' : σ} {t : Token} {ts us : List Token}

/-- The reader comes from `s` to `s'` by the tokens `ts`. -/
def Runs (step : σ → Token → Option σ) (s : σ) (ts : List Token) (s' : σ) : Prop :=
  ts.foldlM step s = some s'

theorem Runs.nil : Runs step s [] s := rfl

theorem Runs.cons (h : step s t = some s') (hs : Runs step s' ts s'') : Runs step s (t :: ts) s'' := by
  rw [Runs, List.foldlM_cons, h]
  exact hs

theorem Runs.single (h : step s t = some s') : Runs step s [t] s' := Runs.nil.cons h

theorem Runs.append (h : Runs step s ts s') (hs : Runs step s' us s'') :
    Runs step s (ts ++ us) s'' := by
  rw [Runs, List.foldlM_append, h]
  exact hs

theorem Runs.unique (h : Runs step s ts s') (hs : Runs step s ts s'') : s' = s'' :=
  Option.some.inj (h.symm.trans hs)

theorem runs_cons_iff : Runs step s (t :: ts) s'' ↔ ∃ s', step s t = some s' ∧ Runs step s' ts s'' := by
  rw [Runs, List.foldlM_cons]
  exact Option.bind_eq_some_iff

theorem runs_append_iff :
    Runs step s (ts ++ us) s'' ↔ ∃ s', Runs step s ts s' ∧ Runs step s' us s'' := by
  rw [Runs, List.foldlM_append]
  exact Option.bind_eq_some_iff

/-- A reader that keeps up with another one through `f` runs as that one does. -/
theorem Runs.lift {step' : τ → Token → Option τ} (f : σ → τ)
    (hstep : ∀ s t s', step s t = some s' → step' (f s) t = some (f s')) (h : Runs step s ts s') :
    Runs step' (f s) ts (f s') := by
  induction ts generalizing s with
  | nil =>
    cases h
    rfl
  | cons t ts ih =>
    obtain ⟨s₁, hfirst, hrest⟩ := runs_cons_iff.1 h
    exact .cons (hstep s t s₁ hfirst) (ih hrest)

/-- What runs from `s` runs from every state that takes the same first tokens to the same states. -/
theorem Runs.of_step {s₀ : σ} (hstep : ∀ t s', step s t = some s' → step s₀ t = some s')
    (h : Runs step s (t :: ts) s') : Runs step s₀ (t :: ts) s' := by
  obtain ⟨s₁, hfirst, hrest⟩ := runs_cons_iff.1 h
  exact .cons (hstep t s₁ hfirst) hrest

/-- What one more token keeps, a run keeps. -/
theorem Runs.reached {Reached : σ → List Token → Prop}
    (hstep : ∀ s t s' ts, Reached s ts → step s t = some s' → Reached s' (ts ++ [t]))
    (h : Runs step s us s') (hs : Reached s ts) : Reached s' (ts ++ us) := by
  induction us generalizing s ts with
  | nil =>
    cases h
    rwa [List.append_nil]
  | cons t us ih =>
    obtain ⟨s₁, hfirst, hrest⟩ := runs_cons_iff.1 h
    have hreached := ih hrest (hstep s t s₁ ts hs hfirst)
    rwa [List.append_assoc, List.singleton_append] at hreached

end Runs

/-! ## Tokens wherever they stand -/

/-- From the state `s`, tokens with these kinds and texts lead to a state with `P`. -/
def Reads (step : σ → Token → Option σ) (s : σ) (ls : List Lexeme) (P : σ → Prop) : Prop :=
  ∀ ts : List Token, ts.map Token.lexeme = ls → ∃ s', ts.foldlM step s = some s' ∧ P s'

namespace Reads

variable {τ : Type} {step : σ → Token → Option σ} {s : σ} {kind : Terminal} {text : String}
  {ls ls' : List Lexeme} {P Q : σ → Prop}

theorem nil (h : P s) : Reads step s [] P := by
  intro ts hts
  obtain rfl := List.map_eq_nil_iff.1 hts
  exact ⟨s, rfl, h⟩

theorem mono (h : Reads step s ls P) (hPQ : ∀ s', P s' → Q s') : Reads step s ls Q := by
  intro ts hts
  obtain ⟨s', hrun, hs'⟩ := h ts hts
  exact ⟨s', hrun, hPQ s' hs'⟩

theorem cons (h : ∀ t : Token, t.terminal = kind → t.text = text →
    ∃ s', step s t = some s' ∧ Reads step s' ls P) : Reads step s (⟨kind, text⟩ :: ls) P := by
  intro ts hts
  obtain ⟨t, ts, rfl, ht, hts⟩ := List.map_eq_cons_iff.1 hts
  obtain ⟨s', hstep, hreads⟩ := h t (congrArg Lexeme.terminal ht) (congrArg Lexeme.text ht)
  obtain ⟨s'', hrun, hs''⟩ := hreads ts hts
  exact ⟨s'', Runs.cons hstep hrun, hs''⟩

theorem single (h : ∀ t : Token, t.terminal = kind → t.text = text →
    ∃ s', step s t = some s' ∧ P s') : Reads step s [⟨kind, text⟩] P :=
  cons fun t hkind htext =>
    let ⟨s', hstep, hs'⟩ := h t hkind htext
    ⟨s', hstep, nil hs'⟩

theorem append (h : Reads step s ls P) (h' : ∀ s', P s' → Reads step s' ls' Q) :
    Reads step s (ls ++ ls') Q := by
  intro ts hts
  obtain ⟨us, vs, rfl, hus, hvs⟩ := List.map_eq_append_iff.1 hts
  obtain ⟨s', hrun, hs'⟩ := h us hus
  obtain ⟨s'', hrun', hs''⟩ := h' s' hs' vs hvs
  exact ⟨s'', Runs.append hrun hrun', hs''⟩

theorem lift {step' : τ → Token → Option τ} (f : σ → τ)
    (hstep : ∀ s t s', step s t = some s' → step' (f s) t = some (f s'))
    (h : Reads step s ls P) : Reads step' (f s) ls fun d => ∃ s', d = f s' ∧ P s' := by
  intro ts hts
  obtain ⟨s', hrun, hs'⟩ := h ts hts
  exact ⟨f s', Runs.lift f hstep hrun, s', rfl, hs'⟩

theorem of_step {s₀ : σ} (hstep : ∀ t s', step s t = some s' → step s₀ t = some s')
    (hls : ls ≠ []) (h : Reads step s ls P) : Reads step s₀ ls P := by
  intro ts hts
  obtain ⟨s', hrun, hs'⟩ := h ts hts
  cases ts with
  | nil => exact absurd hts.symm hls
  | cons t ts => exact ⟨s', Runs.of_step hstep hrun, hs'⟩

/-- A list with commas. `before bs` is the state where the items before have given `bs`, and
`After bs` holds once the next one has given the last of `bs`; a comma leads back. -/
theorem commas {α β : Type} {lexemes : α → List Lexeme} {R : α → β → Prop}
    (before : List β → σ) (After : List β → σ → Prop)
    (hcomma : ∀ bs s t, After bs s → t.terminal = .comma → step s t = some (before bs))
    {items : List α} (hitems : ∀ a ∈ items, ∀ bs, Reads step (before bs) (lexemes a) fun s =>
      ∃ b, R a b ∧ After (bs ++ [b]) s) (bs : List β) :
    Reads step (before bs) (Switching.commas (items.map lexemes)) fun s =>
      ∃ bs', List.Forall₂ R items bs' ∧ (s = before (bs ++ bs') ∨ After (bs ++ bs') s) := by
  induction items generalizing bs with
  | nil => exact nil ⟨[], .nil, .inl (by rw [List.append_nil])⟩
  | cons a items ih =>
    have hfirst := hitems a List.mem_cons_self bs
    cases items with
    | nil =>
      rw [List.map_singleton, Switching.commas, List.intercalate_singleton]
      refine hfirst.mono ?_
      rintro s ⟨b, hb, hs⟩
      exact ⟨[b], .cons hb .nil, .inr hs⟩
    | cons a' items =>
      rw [Switching.commas, List.map_cons, List.map_cons, List.intercalate_cons_cons,
        List.append_assoc]
      refine hfirst.append ?_
      rintro s ⟨b, hb, hs⟩
      refine .cons fun t ht _ => ⟨_, hcomma _ s t hs ht, ?_⟩
      refine (ih (fun x hx => hitems x (List.mem_cons_of_mem _ hx)) (bs ++ [b])).mono ?_
      rintro s' ⟨bs', hbs', hs'⟩
      rw [List.append_assoc] at hs'
      exact ⟨b :: bs', .cons hb hbs', hs'⟩

end Reads

/-! ## Whole texts -/

namespace TokenReader

variable {α : Type} {r : TokenReader σ α}

theorem readFrom_eq_ok_iff {s : σ} {offset : Nat} {invalid? : Option Nat} {ts : List Token} {a : α} :
    r.readFrom s offset invalid? ts = .ok a ↔
      invalid? = none ∧ ∃ s', Runs r.step s ts s' ∧ r.result? s' = some a := by
  induction ts generalizing s offset with
  | nil =>
    constructor
    · intro h
      cases invalid? with
      | some o => cases h
      | none =>
        refine ⟨rfl, s, .nil, ?_⟩
        rw [readFrom] at h
        cases hresult : r.result? s <;> rw [hresult] at h <;> cases h
        rfl
    · rintro ⟨rfl, s', hrun, hresult⟩
      cases hrun
      rw [readFrom, hresult]
      rfl
  | cons t ts ih =>
    rw [readFrom]
    cases hstep : r.step s t with
    | none => simp [runs_cons_iff, hstep]
    | some s₁ => simp [runs_cons_iff, hstep, ih]

/-- The ways in which a reader refuses the tokens `ts` from the state `s`. -/
inductive Refuses (r : TokenReader σ α) (s : σ) (offset : Nat) (invalid? : Option Nat) :
    List Token → SyntaxError → Prop where
  | unrecognized {us vs : List Token} {t : Token} {s' : σ} (hrun : Runs r.step s us s')
    (hstep : r.step s' t = none) : Refuses r s offset invalid? (us ++ t :: vs)
      (.unrecognized t (r.expected s' (some t.terminal)))
  | invalid {ts : List Token} {s' : σ} {o : Nat} (hrun : Runs r.step s ts s')
    (hinvalid : invalid? = some o) : Refuses r s offset invalid? ts (.invalid o)
  | unfinished {ts : List Token} {s' : σ} (hrun : Runs r.step s ts s') (hvalid : invalid? = none)
    (hresult : r.result? s' = none) : Refuses r s offset invalid? ts
      (.unfinished (ts.getLast?.elim offset (·.span.stop)) (r.expected s' none))

theorem refuses_of_readFrom {s : σ} {offset : Nat} {invalid? : Option Nat} {ts : List Token}
    {err : SyntaxError} (h : r.readFrom s offset invalid? ts = .error err) :
    Refuses r s offset invalid? ts err := by
  induction ts generalizing s offset with
  | nil =>
    cases invalid? with
    | some o =>
      cases h
      exact .invalid .nil rfl
    | none =>
      rw [readFrom] at h
      cases hresult : r.result? s with
      | some a =>
        rw [hresult] at h
        cases h
      | none =>
        rw [hresult] at h
        cases h
        exact .unfinished .nil rfl hresult
  | cons t ts ih =>
    rw [readFrom] at h
    cases hstep : r.step s t with
    | none =>
      rw [hstep] at h
      cases h
      have hrun : Runs r.step s [] s := .nil
      exact .unrecognized hrun hstep
    | some s₁ =>
      rw [hstep] at h
      have hend : (t :: ts).getLast?.elim offset (·.span.stop) =
          ts.getLast?.elim t.span.stop (·.span.stop) := by
        rw [List.getLast?_cons]
        cases ts.getLast? <;> rfl
      cases ih h with
      | @unrecognized us _ _ s' hrun hnone =>
        have hrun' : Runs r.step s (t :: us) s' := .cons hstep hrun
        exact .unrecognized hrun' hnone
      | invalid hrun hinvalid => exact .invalid (.cons hstep hrun) hinvalid
      | unfinished hrun hvalid hresult =>
        rw [← hend]
        exact .unfinished (.cons hstep hrun) hvalid hresult

theorem parse_of_lexes {source : String} {ls : List Lexeme} {Q : α → Prop}
    (h : Lexes source.toList ls)
    (hr : Reads r.step r.start ls fun s => ∃ a, r.result? s = some a ∧ Q a) :
    ∃ a, r.parse source = .ok a ∧ Q a := by
  obtain ⟨htokens, hinvalid⟩ := h 0
  obtain ⟨s', hrun, a, ha, hQ⟩ := hr _ htokens
  refine ⟨a, ?_, hQ⟩
  rw [parse, readFrom_eq_ok_iff]
  exact ⟨hinvalid, s', hrun, ha⟩

end TokenReader

end Switching
