/-!
# Channels

A channel has a side that sends and a side that receives. Sending to a full channel and receiving
from an empty one wait; here such an attempt says so, and leaves the channel as it is.

* `Channels`: kinds of channels, with what each side can do.
* `Queue`: channels that deliver messages in the order in which they were sent.
-/

namespace Switching

/-- What an attempt to send a message over a channel comes to. -/
inductive Sending (γ : Type) where
  | sent (channel : γ)
  /-- The receiving side is gone. -/
  | disconnected
  /-- There is no room, and sending waits for some. -/
  | full

/-- What an attempt to receive a message comes to. -/
inductive Receiving (γ α : Type) where
  | received (message : α) (channel : γ)
  /-- The sending side is gone, and all messages have been received. -/
  | disconnected
  /-- There is no message, and receiving waits for one. -/
  | empty

/-- Kinds of channels. -/
class Channels (C : Type → Type) where
  /-- A new channel with room for all messages. -/
  unbounded {α : Type} : C α
  /-- A new channel with room for some messages. -/
  bounded {α : Type} (capacity : Nat) : C α
  send {α : Type} (c : C α) (message : α) : Sending (C α)
  receive {α : Type} (c : C α) : Receiving (C α) α
  /-- The channel without its sending side. -/
  dropSender {α : Type} (c : C α) : C α
  /-- The channel without its receiving side, and the messages that nobody will receive. -/
  dropReceiver {α : Type} (c : C α) : List α × C α

/-- Channels that deliver messages in the order in which they were sent. -/
structure Queue (α : Type) where
  messages : List α
  capacity : Option Nat
  hasSender : Bool
  hasReceiver : Bool

namespace Queue

variable {α : Type}

def isFull (q : Queue α) : Bool := q.capacity.any (· ≤ q.messages.length)

def send (q : Queue α) (message : α) : Sending (Queue α) :=
  if q.hasReceiver then
    if q.isFull then .full else .sent { q with messages := q.messages ++ [message] }
  else .disconnected

def receive (q : Queue α) : Receiving (Queue α) α :=
  match q.messages with
  | m :: rest => .received m { q with messages := rest }
  | [] => if q.hasSender then .empty else .disconnected

instance : Channels Queue where
  unbounded := ⟨[], none, true, true⟩
  bounded capacity := ⟨[], some capacity, true, true⟩
  send := send
  receive := receive
  dropSender q := { q with hasSender := false }
  dropReceiver q := (q.messages, { q with messages := [], hasReceiver := false })

end Queue

end Switching
