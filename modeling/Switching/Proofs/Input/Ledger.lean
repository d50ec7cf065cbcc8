import Mathlib.Data.Multiset.ZeroCons
import Switching.Input.Network
import Switching.Proofs.Input.Queue

/-!
# The life of a request

A request is made by one call, ends by one fate, and then its call returns. Its standing says how
far it has come, and the ledger has the standings of all requests.

* `Event.isAbout`: events of a request; `life`: all of them.
* `Standing`: how far a request has come.
* `Standing.past`, `Standing.call`, `Standing.reply`: what has happened to it by then, where its
  engine stands, and what the channel of its reply contains.
* `Ledger.Has`, `Ledger.record`: what stands in a ledger.
* **`Ledger.has_record_iff`**: a new entry changes the standing of one request.
-/

namespace Switching

/-! ## Events of a request -/

/-- Is this an event of the request with the reply channel `c`? -/
def Event.isAbout (c : Nat) : Event → Bool
  | called _ _ r | settled r _ | undelivered r _ | returned _ r _ => r.reply = c
  | hungUp => false

theorem Event.isAbout_unique {c c' : Nat} {v : Event} (h : v.isAbout c = true)
    (h' : v.isAbout c' = true) : c = c' := by
  cases v with
  | hungUp => cases h
  | called _ _ r | settled r _ | undelivered r _ | returned _ r _ =>
    exact (of_decide_eq_true h).symm.trans (of_decide_eq_true h')

/-- All that happens to a request of the engine `e` that ends by the fate `f`. -/
def life (e : Nat) (r : InputRequest) (f : Fate) : List Event :=
  [.called e r.prompt r, .settled r f, .returned e r f.reply]

/-! ## Standings -/

/-- How far a request has come. -/
inductive Standing where
  | prepared
  /-- It is in the channel of the requests, or was left there. -/
  | queued
  /-- The answering side has it. -/
  | held (slot : Nat)
  | settled (fate : Fate)
  /-- Its call has returned. -/
  | returned (fate : Fate)

namespace Standing

/-- What has happened to the request. -/
def past (e : Nat) (r : InputRequest) : Standing → List Event
  | prepared | queued | held _ => [.called e r.prompt r]
  | settled f => [.called e r.prompt r, .settled r f]
  | returned f => life e r f

/-- Where its engine stands. -/
def call (r : InputRequest) : Standing → Call
  | prepared => .prepared r
  | queued | held _ | settled _ => .waiting r
  | returned _ => .idle

/-- What the channel of its reply contains. -/
def reply : Standing → Contents Bool
  | prepared | queued | held _ => ⟨0, some 1, true, true⟩
  | settled (.answered b) => ⟨{b}, some 1, false, true⟩
  | settled .refused | settled .discarded => ⟨0, some 1, false, true⟩
  | returned _ => ⟨0, some 1, false, false⟩

/-- What has happened to a request is how its life begins. -/
theorem past_prefix (st : Standing) (e : Nat) (r : InputRequest) :
    ∃ f, st.past e r <+: life e r f := by
  cases st with
  | prepared | queued | held _ => exact ⟨.refused, by simp [past, life]⟩
  | settled f => exact ⟨f, by simp [past, life]⟩
  | returned f => exact ⟨f, List.prefix_refl _⟩

theorem eq_of_mem_past {st : Standing} {e : Nat} {r : InputRequest} {v : Event}
    (h : v ∈ st.past e r) :
    v = .called e r.prompt r ∨ (∃ f, v = .settled r f) ∨ ∃ x, v = .returned e r x := by
  obtain ⟨f, hprefix⟩ := st.past_prefix e r
  have hlife : v = .called e r.prompt r ∨ v = .settled r f ∨ v = .returned e r f.reply := by
    simpa [life] using hprefix.subset h
  exact hlife.imp_right fun hv => hv.imp (⟨f, ·⟩) (⟨f.reply, ·⟩)

theorem isAbout_of_mem_past {st : Standing} {e : Nat} {r : InputRequest} {v : Event}
    (h : v ∈ st.past e r) : v.isAbout r.reply = true := by
  rcases eq_of_mem_past h with rfl | ⟨f, rfl⟩ | ⟨x, rfl⟩ <;> exact decide_eq_true rfl

theorem exists_returned_mem_past {st : Standing} {r : InputRequest} (h : st.call r = .idle)
    (e : Nat) : ∃ x, .returned e r x ∈ st.past e r := by
  cases st with
  | prepared | queued | held _ | settled _ => cases h
  | returned f => exact ⟨f.reply, by simp [past, life]⟩

theorem call_eq_prepared_iff {st : Standing} {r r' : InputRequest} :
    st.call r = .prepared r' ↔ st = .prepared ∧ r = r' := by
  cases st <;> simp [call]

theorem eq_of_call_eq_waiting {st : Standing} {r r' : InputRequest} (h : st.call r = .waiting r') :
    r = r' := by
  cases st with
  | prepared | returned _ => cases h
  | queued | held _ | settled _ => exact Call.waiting.inj h

theorem call_inj {st st' : Standing} {r r' : InputRequest} (h : st.call r = st'.call r')
    (hopen : st.call r ≠ .idle) : r = r' := by
  cases st <;> cases st' <;> simp_all [call]

theorem eq_of_pending_eq_cons {st : Standing} {b : Bool} {m : Multiset Bool}
    (h : st.reply.pending = b ::ₘ m) : st = .settled (.answered b) ∧ m = 0 := by
  cases st with
  | prepared | queued | held _ | returned _ => exact absurd h (Multiset.zero_ne_cons)
  | settled f =>
    cases f with
    | answered b' =>
      obtain ⟨rfl, rfl⟩ := Multiset.singleton_eq_cons_iff _ |>.1 h
      exact ⟨rfl, rfl⟩
    | refused | discarded => exact absurd h (Multiset.zero_ne_cons)

theorem exists_of_hasSender_eq_false {st : Standing} {r : InputRequest} (hopen : st.call r ≠ .idle)
    (hpending : st.reply.pending = 0) (hsender : st.reply.hasSender = false) :
    ∃ f, st = .settled f ∧ f.reply = .error .cancelled ∧
      st.reply = ⟨0, some 1, false, true⟩ := by
  cases st with
  | prepared | queued | held _ => cases hsender
  | settled f =>
    cases f with
    | answered b => exact absurd hpending (Multiset.singleton_ne_zero b)
    | refused | discarded => exact ⟨_, rfl, rfl, rfl⟩
  | returned f => exact absurd rfl hopen

theorem past_of_hasSender {st : Standing} (h : st.reply.hasSender = true) (e : Nat)
    (r : InputRequest) : st.past e r = [.called e r.prompt r] := by
  cases st with
  | prepared | queued | held _ => rfl
  | settled f => cases f <;> cases h
  | returned f => cases h

end Standing

/-! ## Ledgers -/

/-- A request in a ledger. -/
structure Entry where
  engine : Nat
  prompt : String
  standing : Standing

/-- All requests by their reply channels. -/
def Ledger : Type := Nat → Option Entry

namespace Ledger

variable {l : Ledger} {e e' : Nat} {r r' : InputRequest} {st st' : Standing}

def empty : Ledger := fun _ => none

/-- The request stands in the ledger. -/
def Has (l : Ledger) (e : Nat) (r : InputRequest) (st : Standing) : Prop :=
  l r.reply = some ⟨e, r.prompt, st⟩

/-- Notes how far a request has come. -/
def record (l : Ledger) (e : Nat) (r : InputRequest) (st : Standing) : Ledger :=
  Function.update l r.reply (some ⟨e, r.prompt, st⟩)

theorem Has.unique (h : l.Has e r st) (h' : l.Has e' r' st') (heq : r'.reply = r.reply) :
    e' = e ∧ r' = r ∧ st' = st := by
  obtain ⟨prompt, c⟩ := r
  obtain ⟨prompt', c'⟩ := r'
  obtain rfl : c' = c := heq
  cases h.symm.trans h'
  exact ⟨rfl, rfl, rfl⟩

theorem Has.reply_ne {c : Nat} (h : l.Has e r st) (hc : l c = none) : r.reply ≠ c := by
  rintro rfl
  cases h.symm.trans hc

theorem record_of_ne {c : Nat} (h : c ≠ r.reply) : l.record e r st c = l c :=
  Function.update_of_ne h ..

theorem has_record : (l.record e r st).Has e r st := Function.update_self ..

/-- **A new entry changes the standing of one request.** -/
theorem has_record_iff : (l.record e r st).Has e' r' st' ↔
    (e' = e ∧ r' = r ∧ st' = st) ∨ (r'.reply ≠ r.reply ∧ l.Has e' r' st') := by
  by_cases heq : r'.reply = r.reply
  · constructor
    · exact fun h => .inl (has_record.unique h heq)
    · rintro (⟨rfl, rfl, rfl⟩ | ⟨hne, -⟩)
      · exact has_record
      · exact absurd heq hne
  · rw [Has, record_of_ne heq]
    constructor
    · exact fun h => .inr ⟨heq, h⟩
    · rintro (⟨-, rfl, -⟩ | ⟨-, h⟩)
      · exact absurd rfl heq
      · exact h

theorem exists_has_of_ne_none {c : Nat} (h : l c ≠ none) : ∃ e p st, l.Has e ⟨p, c⟩ st := by
  obtain ⟨⟨e, p, st⟩, hx⟩ := Option.ne_none_iff_exists'.1 h
  exact ⟨e, p, st, hx⟩

end Ledger

end Switching
