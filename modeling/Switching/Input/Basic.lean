import Switching.Input.Dialogue

/-!
# Simple repliers

* `Silent`: refuses every prompt for one reason.
* `Script`: gives the replies of a list, one a prompt.
* `Recorded`: notes the prompts that another replier sees.
-/

namespace Switching

/-- Nobody to ask, or nobody who answers. -/
structure Silent where
  reason : Refusal

instance : Replier Silent where
  reply s _ := (.error s.reason, s)

/-- Replies given in advance, one for each prompt; `none` cancels. After the last, every prompt is
cancelled. -/
structure Script where
  replies : List (Option Bool)

instance : Replier Script where
  reply
    | ⟨[]⟩, _ => (.error .cancelled, ⟨[]⟩)
    | ⟨some b :: rest⟩, _ => (.ok b, ⟨rest⟩)
    | ⟨none :: rest⟩, _ => (.error .cancelled, ⟨rest⟩)

/-- A replier with the prompts that it has seen. -/
structure Recorded (σ : Type) where
  source : σ
  prompts : List String

instance {σ : Type} [Replier σ] : Replier (Recorded σ) where
  reply s p :=
    let (r, source) := Replier.reply s.source p
    (r, ⟨source, s.prompts ++ [p]⟩)

/-- Recording changes no result. -/
theorem Recorded.run_source {σ α : Type} [Replier σ] (s : Recorded σ) (d : Dialogue α) :
    (d.run s).1 = (d.run s.source).1 ∧ (d.run s).2.source = (d.run s.source).2 := by
  induction d generalizing s with
  | done a => exact ⟨rfl, rfl⟩
  | ask p next ih => exact ih (Replier.reply s.source p).1 _

end Switching
