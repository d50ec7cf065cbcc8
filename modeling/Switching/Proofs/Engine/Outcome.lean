import Switching.Engine.Eval

/-!
# Outcomes

A computation that asks for nothing is a bit or an error, whoever replies.

* `EvalM.bind_eq_pure_iff`: a sequence succeeds exactly if both of its parts do.
* `EvalM.Settled`: the outcome is there without asking.
* `EvalM.run_bind_eq_ok_iff`, `EvalM.run_bind_eq_error_iff`: the same for one replier.
* **`EvalM.Settled.eq_pure`**: a settled computation that succeeds for one replier is a value.
* `EvalM.Ensures`: what all results have in common; `EvalM.Ensures.bind` for a sequence.
-/

namespace Switching.EvalM

variable {α β : Type}

/-! ## Values -/

@[simp] theorem pure_inj {a b : α} : (pure a : EvalM α) = pure b ↔ a = b := by
  refine ⟨fun h => ?_, fun h => h ▸ rfl⟩
  injection h with h
  injection h

@[simp] theorem throw_ne_pure {e : RuntimeError} {a : α} : (throw e : EvalM α) ≠ pure a := by
  intro h
  injection h with h
  nomatch h

@[simp] theorem ofExcept_eq_pure_iff {r : Except RuntimeError α} {a : α} :
    ofExcept r = pure a ↔ r = .ok a := by
  cases r with
  | ok b => rw [ofExcept, pure_inj, Except.ok.injEq]
  | error e => simp [ofExcept]

@[simp] theorem bind_eq_pure_iff {m : EvalM α} {f : α → EvalM β} {b : β} :
    m >>= f = pure b ↔ ∃ a, m = pure a ∧ f a = pure b := by
  constructor
  · intro h
    match m with
    | .done (.ok a) => exact ⟨a, rfl, h⟩
    | .done (.error e) => exact absurd h throw_ne_pure
    | .ask p next => nomatch h
  · rintro ⟨a, rfl, h⟩
    exact h

theorem requestBit_ne_pure {prompt : String} {s : Span} {b : Bool} :
    requestBit prompt s ≠ pure b := by
  intro h
  nomatch h

/-! ## Settled computations -/

/-- The outcome is there without asking. -/
def Settled (m : EvalM α) : Prop := ∃ r, m = ofExcept r

theorem settled_ofExcept (r : Except RuntimeError α) : (ofExcept r).Settled := ⟨r, rfl⟩

theorem settled_pure (a : α) : (pure a : EvalM α).Settled := ⟨.ok a, rfl⟩

theorem settled_throw (e : RuntimeError) : (throw e : EvalM α).Settled := ⟨.error e, rfl⟩

theorem Settled.bind {m : EvalM α} {f : α → EvalM β} (hm : m.Settled)
    (hf : ∀ a, m = pure a → (f a).Settled) : (m >>= f).Settled := by
  obtain ⟨r, rfl⟩ := hm
  cases r with
  | ok a => exact hf a rfl
  | error e => exact settled_throw e

/-! ## Replies -/

section Run

variable {σ : Type} [Replier σ]

@[simp] theorem run_pure (s : σ) (a : α) : (pure a : EvalM α).run.run s = (.ok a, s) := rfl

@[simp] theorem run_ofExcept (s : σ) (r : Except RuntimeError α) :
    (ofExcept r).run.run s = (r, s) := by
  cases r <;> rfl

theorem run_bind_eq_ok_iff {s : σ} {m : EvalM α} {f : α → EvalM β} {b : β} :
    ((m >>= f).run.run s).1 = .ok b ↔
      ∃ a, (m.run.run s).1 = .ok a ∧ ((f a).run.run (m.run.run s).2).1 = .ok b := by
  rw [ExceptT.run_bind, Dialogue.run_bind]
  cases (m.run.run s).1 with
  | ok a => simp
  | error e =>
    refine ⟨fun h => ?_, fun ⟨a, ha, _⟩ => nomatch ha⟩
    nomatch h

theorem run_bind_eq_value_iff {s s' : σ} {m : EvalM α} {f : α → EvalM β} {b : β} :
    (m >>= f).run.run s = (.ok b, s') ↔
      ∃ a t, m.run.run s = (.ok a, t) ∧ (f a).run.run t = (.ok b, s') := by
  rw [ExceptT.run_bind, Dialogue.run_bind]
  rcases m.run.run s with ⟨e | a, t⟩
  · refine ⟨fun h => ?_, fun h => ?_⟩
    · cases h
    · obtain ⟨a, t, h, -⟩ := h
      cases h
  · refine ⟨fun h => ⟨a, t, rfl, h⟩, fun h => ?_⟩
    obtain ⟨a, t, h, hf⟩ := h
    cases h
    exact hf

theorem run_bind_eq_error_iff {s s' : σ} {m : EvalM α} {f : α → EvalM β} {e : RuntimeError} :
    (m >>= f).run.run s = (.error e, s') ↔ m.run.run s = (.error e, s') ∨
      ∃ a t, m.run.run s = (.ok a, t) ∧ (f a).run.run t = (.error e, s') := by
  rw [ExceptT.run_bind, Dialogue.run_bind]
  rcases m.run.run s with ⟨e₁ | a, t⟩
  · refine ⟨fun h => .inl ?_, fun h => ?_⟩
    · cases h
      rfl
    · obtain h | ⟨a, t, h, -⟩ := h <;> cases h
      rfl
  · refine ⟨fun h => .inr ⟨a, t, rfl, h⟩, fun h => ?_⟩
    obtain h | ⟨a, t, h, hf⟩ := h <;> cases h
    exact hf

theorem Settled.run_snd {m : EvalM α} (hm : m.Settled) (s : σ) : (m.run.run s).2 = s := by
  obtain ⟨r, rfl⟩ := hm
  rw [run_ofExcept]

theorem Settled.eq_pure {m : EvalM α} (hm : m.Settled) {s : σ} {a : α}
    (h : (m.run.run s).1 = .ok a) : m = pure a := by
  obtain ⟨r, rfl⟩ := hm
  cases r with
  | ok b => exact congrArg pure (Except.ok.inj h)
  | error e => nomatch h

end Run

/-! ## What all results have in common -/

/-- Whoever replies, a result has the property. -/
def Ensures (P : α → Prop) (m : EvalM α) : Prop :=
  ∀ (σ : Type) [Replier σ] (s : σ) (a : α), (m.run.run s).1 = .ok a → P a

section Ensures

variable {P : α → Prop} {Q : β → Prop}

theorem ensures_pure {a : α} (h : P a) : (pure a : EvalM α).Ensures P := by
  rintro σ _ s b ⟨⟩
  exact h

theorem ensures_throw (e : RuntimeError) : (throw e : EvalM α).Ensures P := by
  rintro σ _ s b ⟨⟩

theorem ensures_ofExcept {r : Except RuntimeError α} (h : ∀ a, r = .ok a → P a) :
    (ofExcept r).Ensures P := by
  cases r with
  | ok a => exact ensures_pure (h a rfl)
  | error e => exact ensures_throw e

theorem ensures_true (m : EvalM α) : m.Ensures fun _ => True := fun _ _ _ _ _ => trivial

theorem Ensures.mono {P' : α → Prop} {m : EvalM α} (h : m.Ensures P) (hP : ∀ a, P a → P' a) :
    m.Ensures P' := fun σ _ s a ha => hP a (h σ s a ha)

theorem Ensures.bind {m : EvalM α} {f : α → EvalM β} (hm : m.Ensures P)
    (hf : ∀ a, P a → (f a).Ensures Q) : (m >>= f).Ensures Q := by
  intro σ _ s b h
  obtain ⟨a, ha, hb⟩ := run_bind_eq_ok_iff.1 h
  exact hf a (hm σ s a ha) σ _ b hb

end Ensures

end Switching.EvalM
