/-!
# Dialogues

A computation that may ask for bits is a `Dialogue`: its result, or a prompt with what follows
each reply. Who replies, and how, is no part of it.

* `Refusal` and `Reply`: the bit, or why there is none.
* `Dialogue`: computations that ask; they form a monad (`LawfulMonad Dialogue`).
* `Replier`: a state that replies to prompts; `Dialogue.run` lets it take part in a dialogue.
* **`Dialogue.run_bind`**: one dialogue after another runs on the state that the first one left.
-/

namespace Switching

/-- Why a prompt gets no bit. -/
inductive Refusal where
  /-- There is nobody to ask. -/
  | unavailable
  /-- The request was not answered. -/
  | cancelled
  deriving DecidableEq

def Refusal.message : Refusal → String
  | unavailable => "no input source"
  | cancelled => "input cancelled"

/-- What a prompt gets. -/
abbrev Reply := Except Refusal Bool

/-- A computation that may ask for bits. -/
inductive Dialogue (α : Type) where
  /-- The result. -/
  | done (a : α)
  /-- A prompt, and what follows each reply. -/
  | ask (prompt : String) (next : Reply → Dialogue α)

namespace Dialogue

variable {α β γ : Type}

/-- One dialogue after another. -/
def bind : Dialogue α → (α → Dialogue β) → Dialogue β
  | done a, f => f a
  | ask p next, f => ask p fun r => (next r).bind f

instance : Monad Dialogue where
  pure := done
  bind := bind

@[simp] theorem done_bind (a : α) (f : α → Dialogue β) : done a >>= f = f a := rfl

@[simp] theorem ask_bind (p : String) (next : Reply → Dialogue α) (f : α → Dialogue β) :
    ask p next >>= f = ask p fun r => next r >>= f := rfl

theorem bind_done (d : Dialogue α) : d >>= done = d := by
  induction d with
  | done a => rfl
  | ask p next ih => simp only [ask_bind, ih]

theorem bind_assoc (d : Dialogue α) (f : α → Dialogue β) (g : β → Dialogue γ) :
    d >>= f >>= g = d >>= fun a => f a >>= g := by
  induction d with
  | done a => rfl
  | ask p next ih => simp only [ask_bind, ih]

instance : LawfulMonad Dialogue :=
  LawfulMonad.mk' Dialogue bind_done (fun _ _ => rfl) bind_assoc

def request (prompt : String) : Dialogue Reply := ask prompt done

end Dialogue

/-! ## Replying -/

/-- States that reply to prompts. -/
class Replier (σ : Type) where
  /-- The reply to a prompt, and the state after it. -/
  reply : σ → String → Reply × σ

namespace Dialogue

variable {α β σ : Type} [Replier σ]

/-- The result of a dialogue with the state `s`, and the state after it. -/
def run (s : σ) : Dialogue α → α × σ
  | done a => (a, s)
  | ask p next =>
    let (r, s') := Replier.reply s p
    (next r).run s'

@[simp] theorem run_done (s : σ) (a : α) : (done a).run s = (a, s) := rfl

theorem run_ask (s : σ) (p : String) (next : Reply → Dialogue α) :
    (ask p next).run s = (next (Replier.reply s p).1).run (Replier.reply s p).2 := rfl

/-- A dialogue that follows another runs on the state that the first one left. -/
theorem run_bind (s : σ) (d : Dialogue α) (f : α → Dialogue β) :
    (d >>= f).run s = (f (d.run s).1).run (d.run s).2 := by
  induction d generalizing s with
  | done a => rfl
  | ask p next ih => rw [ask_bind, run_ask, run_ask, ih]

end Dialogue

end Switching
