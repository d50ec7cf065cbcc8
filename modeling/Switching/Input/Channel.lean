import Switching.Input.Network

/-!
# Scripts over a channel

* `Responder`: one engine and an answering side that follows a script.
-/

namespace Switching

/-- What an answering side does when a request comes. -/
inductive Handling where
  | respond (bit : Bool)
  | drop
  | hangUp

/-- An answering side that handles one request after another as its script says, and hangs up at
the end. -/
structure Responder where
  network : Network Queue
  script : List Handling
  /-- The prompts of the requests that it has taken. -/
  taken : List String

/-- What a call has returned. -/
def Event.reply? : Event → Option Reply
  | returned _ _ reply => some reply
  | called _ _ _ | settled _ _ | undelivered _ _ | hungUp => none

namespace Responder

def ofScript (script : List Handling) : Responder := ⟨.new, script, []⟩

def handle (slot : Nat) : Option Handling → List Move
  | some (.respond bit) => [.take, .respond slot bit]
  | some .drop => [.take, .refuse slot]
  | some .hangUp | none => [.hangUp, .discard]

def call (s : Responder) (prompt : String) : Reply × Responder :=
  let handling := handle s.network.held.length s.script.head?
  let (network, events) := s.network.run ([.call 0 prompt, .send 0] ++ handling ++ [.receive 0])
  let reply := (events.findSome? Event.reply?).getD (.error .cancelled)
  match s.script with
  | .respond _ :: rest | .drop :: rest => (reply, ⟨network, rest, s.taken ++ [prompt]⟩)
  | .hangUp :: _ | [] => (reply, ⟨network, [], s.taken⟩)

instance : Replier Responder where
  reply := call

end Responder

end Switching
