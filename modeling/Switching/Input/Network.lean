import Switching.Input.Dialogue
import Switching.Input.Queue

/-!
# Requests over channels

Engines share one channel for their requests. A request takes along the sender of a channel that is
made for its reply. The answering side takes requests, keeps them as long as it likes, and answers
or drops each on its own; or it hangs up.

* `InputRequest`: a request on its way, and `Call`: an engine that makes one.
* `Network`: the channels, the engines and the answering side.
* `Event`: what happens to requests.
* `Move` and `Network.move`: what each of them can do next. A move that is not possible, or that has
  to wait, changes nothing.
* `Network.run`: moves in any order.
-/

namespace Switching

/-! ## Requests and calls -/

/-- A request, with the channel of the reply by its number. -/
structure InputRequest where
  prompt : String
  reply : Nat
  deriving DecidableEq

/-- Where an engine stands in a call for a bit. -/
inductive Call where
  | idle
  /-- The request and the channel of the reply exist. -/
  | prepared (request : InputRequest)
  /-- The request is sent. -/
  | waiting (request : InputRequest)
  deriving DecidableEq

/-- How a request ends. -/
inductive Fate where
  /-- A bit was sent to the channel of the reply. -/
  | answered (bit : Bool)
  /-- The answering side dropped it. -/
  | refused
  /-- It was dropped because nobody can take it any more. -/
  | discarded
  deriving DecidableEq

/-- What the call returns. -/
def Fate.reply : Fate → Reply
  | answered b => .ok b
  | refused | discarded => .error .cancelled

/-- What happens to requests. -/
inductive Event where
  /-- An engine calls for a bit, and the request is made. -/
  | called (engine : Nat) (prompt : String) (request : InputRequest)
  | settled (request : InputRequest) (fate : Fate)
  /-- An answer was given, but there was nobody to get it. -/
  | undelivered (request : InputRequest) (bit : Bool)
  /-- The call that made the request returns. -/
  | returned (engine : Nat) (request : InputRequest) (reply : Reply)
  /-- The answering side hangs up. -/
  | hungUp

/-! ## Networks -/

/-- Engines and an answering side, with channels of the kind `C` between them. -/
structure Network (C : Type → Type) where
  /-- The channel of the requests, which all engines send to. -/
  requests : C InputRequest
  /-- The channels of the replies. -/
  replies : List (C Bool)
  calls : Nat → Call
  /-- Has the answering side not hung up? -/
  isListening : Bool
  /-- The requests that the answering side has taken, less those that it answered or dropped. -/
  held : List (Option InputRequest)
  /-- The requests that were in the channel when the answering side hung up, and are being
  dropped. -/
  left : List InputRequest

namespace Network

variable {C : Type → Type} [Channels C]

def new : Network C := ⟨Channels.unbounded, [], fun _ => .idle, true, [], []⟩

def setCall (n : Network C) (engine : Nat) (call : Call) : Network C :=
  { n with calls := fun e => if e = engine then call else n.calls e }

/-- Drops a request, and with it the sender for its reply. -/
def dropRequest (n : Network C) (r : InputRequest) : Network C :=
  { n with replies := n.replies.modify r.reply Channels.dropSender }

/-- Ends the call that waits for the reply to a request, and drops the receiver of that reply. -/
def leave (n : Network C) (engine : Nat) (r : InputRequest) : Network C :=
  { n with replies := n.replies.modify r.reply (Channels.dropReceiver · |>.2) }.setCall engine .idle

/-! ## Engines -/

def call? (n : Network C) (engine : Nat) (prompt : String) : Option (Network C × List Event) :=
  match n.calls engine with
  | .idle =>
    let r := ⟨prompt, n.replies.length⟩
    some ({ n with replies := n.replies ++ [Channels.bounded 1] }.setCall engine (.prepared r),
      [.called engine prompt r])
  | .prepared _ | .waiting _ => none

/-- Sends the request. If there is no receiver, the request is dropped and the call returns. -/
def send? (n : Network C) (engine : Nat) : Option (Network C × List Event) :=
  match n.calls engine with
  | .prepared r =>
    match Channels.send n.requests r with
    | .sent requests => some ({ n with requests }.setCall engine (.waiting r), [])
    | .disconnected =>
      some ((n.dropRequest r).leave engine r,
        [.settled r .discarded, .returned engine r (.error .cancelled)])
    | .full => none
  | .idle | .waiting _ => none

/-- Receives the reply, and the call returns. -/
def receive? (n : Network C) (engine : Nat) : Option (Network C × List Event) :=
  match n.calls engine with
  | .waiting r =>
    match n.replies[r.reply]?.map Channels.receive with
    | some (.received bit reply) =>
      some ({ n with replies := n.replies.set r.reply reply }.leave engine r,
        [.returned engine r (.ok bit)])
    | some .disconnected => some (n.leave engine r, [.returned engine r (.error .cancelled)])
    | some .empty | none => none
  | .idle | .prepared _ => none

/-! ## The answering side -/

def take? (n : Network C) : Option (Network C × List Event) :=
  if n.isListening then
    match Channels.receive n.requests with
    | .received r requests => some ({ n with requests, held := n.held ++ [some r] }, [])
    | .disconnected | .empty => none
  else none

/-- Sends a bit to the channel of the reply, and drops the sender. -/
def respond? (n : Network C) (slot : Nat) (bit : Bool) : Option (Network C × List Event) :=
  match n.held[slot]?.join with
  | some r =>
    match n.replies[r.reply]?.map (Channels.send · bit) with
    | some (.sent reply) =>
      some ({ n with replies := n.replies.set r.reply (Channels.dropSender reply),
                     held := n.held.set slot none }, [.settled r (.answered bit)])
    | some .disconnected =>
      some ({ n.dropRequest r with held := n.held.set slot none }, [.undelivered r bit])
    | some .full | none => none
  | none => none

def refuse? (n : Network C) (slot : Nat) : Option (Network C × List Event) :=
  match n.held[slot]?.join with
  | some r => some ({ n.dropRequest r with held := n.held.set slot none }, [.settled r .refused])
  | none => none

/-- Drops the receiver of the requests. -/
def hangUp? (n : Network C) : Option (Network C × List Event) :=
  if n.isListening then
    let (left, requests) := Channels.dropReceiver n.requests
    some ({ n with requests, isListening := false, left }, [.hungUp])
  else none

/-- Drops the next request that nobody can take any more. -/
def discard? (n : Network C) : Option (Network C × List Event) :=
  match n.left with
  | r :: left => some ({ n.dropRequest r with left }, [.settled r .discarded])
  | [] => none

end Network

/-! ## Runs -/

/-- What engines and the answering side can do. -/
inductive Move where
  | call (engine : Nat) (prompt : String)
  | send (engine : Nat)
  | receive (engine : Nat)
  | take
  | respond (slot : Nat) (bit : Bool)
  | refuse (slot : Nat)
  | hangUp
  | discard

namespace Network

variable {C : Type → Type} [Channels C]

/-- A move, if it is possible and need not wait. -/
def move? (n : Network C) : Move → Option (Network C × List Event)
  | .call engine prompt => n.call? engine prompt
  | .send engine => n.send? engine
  | .receive engine => n.receive? engine
  | .take => n.take?
  | .respond slot bit => n.respond? slot bit
  | .refuse slot => n.refuse? slot
  | .hangUp => n.hangUp?
  | .discard => n.discard?

def move (n : Network C) (m : Move) : Network C × List Event := (n.move? m).getD (n, [])

/-- Several moves, with all events in their order. -/
def run (n : Network C) : List Move → Network C × List Event
  | [] => (n, [])
  | m :: ms =>
    let (n', events) := n.move m
    let (n'', rest) := n'.run ms
    (n'', events ++ rest)

end Network

end Switching
