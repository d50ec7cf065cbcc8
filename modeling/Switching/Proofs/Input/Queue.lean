import Mathlib.Data.Multiset.Basic
import Switching.Input.Queue

/-!
# What channels can be relied on for

A message is received at most once, and over the channel that it was sent over. Without a receiver
nothing can be sent, and what was not received is dropped. Without a sender receiving ends when
there are no more messages. In which order messages arrive is left open.

* `Contents`: what there is to tell about a channel.
* `LawfulChannels`: what each operation does to the contents.
* **`LawfulChannels Queue`**.
-/

namespace Switching

/-- What there is to tell about a channel. -/
structure Contents (α : Type) where
  /-- The messages that are sent and not yet received. -/
  pending : Multiset α
  capacity : Option Nat
  hasSender : Bool
  hasReceiver : Bool

/-- Channels that keep their messages, and tell each side when the other one is gone. -/
class LawfulChannels (C : Type → Type) [Channels C] where
  contents {α : Type} (c : C α) : Contents α
  contents_unbounded {α : Type} : contents (Channels.unbounded : C α) = ⟨0, none, true, true⟩
  contents_bounded {α : Type} (k : Nat) :
    contents (Channels.bounded k : C α) = ⟨0, some k, true, true⟩
  contents_of_sent {α : Type} {c c' : C α} {m : α} (h : Channels.send c m = .sent c') :
    contents c' = { contents c with pending := m ::ₘ (contents c).pending }
  hasReceiver_of_sent {α : Type} {c c' : C α} {m : α} (h : Channels.send c m = .sent c') :
    (contents c).hasReceiver = true
  hasReceiver_of_disconnected {α : Type} {c : C α} {m : α}
    (h : Channels.send c m = .disconnected) : (contents c).hasReceiver = false
  le_card_of_full {α : Type} {c : C α} {m : α} (h : Channels.send c m = .full) :
    ∃ k, (contents c).capacity = some k ∧ k ≤ (contents c).pending.card
  contents_of_received {α : Type} {c c' : C α} {m : α}
    (h : Channels.receive c = .received m c') :
    contents c = { contents c' with pending := m ::ₘ (contents c').pending }
  pending_of_disconnected {α : Type} {c : C α} (h : Channels.receive c = .disconnected) :
    (contents c).pending = 0 ∧ (contents c).hasSender = false
  pending_of_empty {α : Type} {c : C α} (h : Channels.receive c = .empty) :
    (contents c).pending = 0 ∧ (contents c).hasSender = true
  contents_dropSender {α : Type} (c : C α) :
    contents (Channels.dropSender c) = { contents c with hasSender := false }
  contents_dropReceiver {α : Type} (c : C α) :
    contents (Channels.dropReceiver c).2 = { contents c with pending := 0, hasReceiver := false }
  pending_dropReceiver {α : Type} (c : C α) :
    (Channels.dropReceiver c).1 = (contents c).pending

namespace Queue

variable {α : Type} {q q' : Queue α} {m : α}

theorem send_eq_sent_iff : q.send m = .sent q' ↔
    q.hasReceiver = true ∧ q.isFull = false ∧ { q with messages := q.messages ++ [m] } = q' := by
  rw [send]
  split_ifs with hreceiver hfull <;> simp [*]

theorem send_eq_disconnected_iff : q.send m = .disconnected ↔ q.hasReceiver = false := by
  rw [send]
  split_ifs with hreceiver hfull <;> simp [*]

theorem send_eq_full_iff : q.send m = .full ↔ q.hasReceiver = true ∧ q.isFull = true := by
  rw [send]
  split_ifs with hreceiver hfull <;> simp [*]

theorem eq_of_receive_eq_received (h : q.receive = .received m q') :
    q = { q' with messages := m :: q'.messages } := by
  obtain ⟨messages, capacity, hasSender, hasReceiver⟩ := q
  cases messages with
  | nil => cases hasSender <;> cases h
  | cons m rest =>
    cases h
    rfl

theorem receive_eq_disconnected_iff :
    q.receive = .disconnected ↔ q.messages = [] ∧ q.hasSender = false := by
  obtain ⟨messages, capacity, hasSender, hasReceiver⟩ := q
  cases messages <;> cases hasSender <;> simp [receive]

theorem receive_eq_empty_iff : q.receive = .empty ↔ q.messages = [] ∧ q.hasSender = true := by
  obtain ⟨messages, capacity, hasSender, hasReceiver⟩ := q
  cases messages <;> cases hasSender <;> simp [receive]

/-! ## Queues are lawful -/

def contents (q : Queue α) : Contents α := ⟨q.messages, q.capacity, q.hasSender, q.hasReceiver⟩

theorem contents_of_sent (h : q.send m = .sent q') :
    q'.contents = { q.contents with pending := m ::ₘ q.contents.pending } := by
  obtain ⟨-, -, rfl⟩ := send_eq_sent_iff.1 h
  simp only [contents, Multiset.cons_coe, Contents.mk.injEq, and_true]
  exact Multiset.coe_eq_coe.2 (List.perm_append_singleton m q.messages)

theorem le_card_of_full (h : q.send m = .full) :
    ∃ k, q.contents.capacity = some k ∧ k ≤ q.contents.pending.card := by
  obtain ⟨k, hk, hle⟩ := Option.any_eq_true _ _ |>.1 (send_eq_full_iff.1 h).2
  exact ⟨k, hk, of_decide_eq_true hle⟩

theorem contents_of_received (h : q.receive = .received m q') :
    q.contents = { q'.contents with pending := m ::ₘ q'.contents.pending } :=
  congrArg contents (eq_of_receive_eq_received h)

theorem pending_of_disconnected (h : q.receive = .disconnected) :
    q.contents.pending = 0 ∧ q.contents.hasSender = false :=
  (receive_eq_disconnected_iff.1 h).imp_left (congrArg _)

theorem pending_of_empty (h : q.receive = .empty) :
    q.contents.pending = 0 ∧ q.contents.hasSender = true :=
  (receive_eq_empty_iff.1 h).imp_left (congrArg _)

/-- **Queues are lawful channels.** -/
instance : LawfulChannels Queue where
  contents := contents
  contents_unbounded := rfl
  contents_bounded _ := rfl
  contents_of_sent := contents_of_sent
  hasReceiver_of_sent h := (send_eq_sent_iff.1 h).1
  hasReceiver_of_disconnected := send_eq_disconnected_iff.1
  le_card_of_full := le_card_of_full
  contents_of_received := contents_of_received
  pending_of_disconnected := pending_of_disconnected
  pending_of_empty := pending_of_empty
  contents_dropSender _ := rfl
  contents_dropReceiver _ := rfl
  pending_dropReceiver _ := rfl

end Queue

end Switching
