import Switching.Input.Basic

/-!
# Two dialogues side by side

Two dialogues are coupled if they ask for the same things as long as their replies correspond, and
come to results that do.

* `Dialogue.Coupled`: coupled dialogues, for a correspondence of replies and one of results.
* `Dialogue.Coupled.bind`: coupled dialogues, one after the other.
* `Dialogue.Coupled.run_eq`, `Dialogue.Coupled.map_eq`: what it means to correspond for the same
  replies.
* `Dialogue.Answered`: every prompt gets a bit.
* **`Dialogue.Coupled.run`**: coupled dialogues that are answered see the same prompts, whatever the
  bits are.
-/

namespace Switching

namespace Dialogue

variable {α α' β β' : Type} {Q : Reply → Reply → Prop} {R : α → α' → Prop} {S : β → β' → Prop}

/-- The same prompts, as long as the replies correspond by `Q`, and results that correspond
by `R`. -/
inductive Coupled (Q : Reply → Reply → Prop) (R : α → α' → Prop) :
    Dialogue α → Dialogue α' → Prop where
  | done {a : α} {a' : α'} (h : R a a') : Coupled Q R (.done a) (.done a')
  | ask {prompt : String} {next : Reply → Dialogue α} {next' : Reply → Dialogue α'}
    (h : ∀ r r', Q r r' → Coupled Q R (next r) (next' r')) :
    Coupled Q R (.ask prompt next) (.ask prompt next')

theorem Coupled.mono {R' : α → α' → Prop} {d : Dialogue α} {d' : Dialogue α'}
    (h : Coupled Q R d d') (hR : ∀ a a', R a a' → R' a a') : Coupled Q R' d d' := by
  induction h with
  | done h => exact .done (hR _ _ h)
  | ask _ ih => exact .ask ih

theorem Coupled.bind {d : Dialogue α} {d' : Dialogue α'} {f : α → Dialogue β}
    {f' : α' → Dialogue β'} (h : Coupled Q R d d')
    (hf : ∀ a a', R a a' → Coupled Q S (f a) (f' a')) : Coupled Q S (d >>= f) (d' >>= f') := by
  induction h with
  | done h => exact hf _ _ h
  | ask _ ih => exact .ask ih

/-! ## The same replies -/

/-- Dialogues that correspond for the same replies see the same prompts, and whoever replies is left
in the same state. -/
theorem Coupled.run_eq {σ : Type} [Replier σ] {d : Dialogue α} {d' : Dialogue α'}
    (h : Coupled Eq R d d') (s : σ) : R (d.run s).1 (d'.run s).1 ∧ (d.run s).2 = (d'.run s).2 := by
  induction h generalizing s with
  | done h => exact ⟨h, rfl⟩
  | @ask prompt _ _ _ ih => exact ih _ _ rfl (Replier.reply s prompt).2

theorem Coupled.map_eq {f : α → α'} {d : Dialogue α} {d' : Dialogue α'}
    (h : Coupled Eq (fun a a' => f a = a') d d') : (do return f (← d)) = d' := by
  induction h with
  | done h => exact congrArg Dialogue.done h
  | ask _ ih => exact congrArg (Dialogue.ask _) (funext fun r => ih r r rfl)

/-! ## Answers -/

/-- Any two bits. -/
def AnyBits (r r' : Reply) : Prop := ∃ b b', r = .ok b ∧ r' = .ok b'

variable {σ τ : Type} [Replier σ] [Replier τ]

/-- Every prompt of the dialogue gets a bit. -/
def Answered (s : σ) : Dialogue α → Prop
  | .done _ => True
  | .ask prompt next =>
    ∃ b, (Replier.reply s prompt).1 = .ok b ∧ (next (.ok b)).Answered (Replier.reply s prompt).2

/-- **Coupled dialogues that are answered see the same prompts** and come to corresponding
results. -/
theorem Coupled.run {d : Dialogue α} {d' : Dialogue α'} (h : Coupled AnyBits R d d') {s : σ} {t : τ}
    (hs : d.Answered s) (ht : d'.Answered t) (prompts : List String) :
    (d.run (Recorded.mk s prompts)).2.prompts = (d'.run (Recorded.mk t prompts)).2.prompts ∧
      R (d.run (Recorded.mk s prompts)).1 (d'.run (Recorded.mk t prompts)).1 := by
  induction h generalizing s t prompts with
  | done h => exact ⟨rfl, h⟩
  | @ask prompt next next' _ ih =>
    obtain ⟨b, hb, hs⟩ := hs
    obtain ⟨c, hc, ht⟩ := ht
    have := ih (.ok b) (.ok c) ⟨b, c, rfl, rfl⟩ hs ht (prompts ++ [prompt])
    rwa [← hb, ← hc] at this

end Dialogue

end Switching
