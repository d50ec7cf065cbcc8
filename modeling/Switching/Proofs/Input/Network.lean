import Switching.Input.Network

/-!
# What happens in a network

* `Network.Happens`: all that a move can do.
* `Network.happens_of_move?`: moves do nothing else.
* **`Network.run_induction`**: what everything that happens preserves, every run preserves.
-/

namespace Switching

namespace Network

variable {C : Type → Type} [Channels C] {n n' : Network C}

/-! ## Moves -/

/-- All that a move can do to a network, with the events. -/
inductive Happens : Network C → List Event → Network C → Prop
  | call {n : Network C} {e : Nat} (hidle : n.calls e = .idle) (p : String) :
    Happens n [.called e p ⟨p, n.replies.length⟩]
      ({ n with replies := n.replies ++ [Channels.bounded 1] }.setCall e
        (.prepared ⟨p, n.replies.length⟩))
  | send {n : Network C} {e : Nat} {r : InputRequest} {requests : C InputRequest}
    (hcall : n.calls e = .prepared r) (hsent : Channels.send n.requests r = .sent requests) :
    Happens n [] ({ n with requests }.setCall e (.waiting r))
  | sendFails {n : Network C} {e : Nat} {r : InputRequest} (hcall : n.calls e = .prepared r)
    (hgone : Channels.send n.requests r = .disconnected) :
    Happens n [.settled r .discarded, .returned e r (.error .cancelled)]
      ((n.dropRequest r).leave e r)
  | receive {n : Network C} {e : Nat} {r : InputRequest} {c c' : C Bool} {b : Bool}
    (hcall : n.calls e = .waiting r) (hreply : n.replies[r.reply]? = some c)
    (hreceived : Channels.receive c = .received b c') :
    Happens n [.returned e r (.ok b)] ({ n with replies := n.replies.set r.reply c' }.leave e r)
  | receiveFails {n : Network C} {e : Nat} {r : InputRequest} {c : C Bool}
    (hcall : n.calls e = .waiting r) (hreply : n.replies[r.reply]? = some c)
    (hgone : Channels.receive c = .disconnected) :
    Happens n [.returned e r (.error .cancelled)] (n.leave e r)
  | take {n : Network C} {r : InputRequest} {requests : C InputRequest}
    (hlistening : n.isListening = true)
    (hreceived : Channels.receive n.requests = .received r requests) :
    Happens n [] { n with requests, held := n.held ++ [some r] }
  | respond {n : Network C} {slot : Nat} {r : InputRequest} {c c' : C Bool} {b : Bool}
    (hheld : n.held[slot]?.join = some r) (hreply : n.replies[r.reply]? = some c)
    (hsent : Channels.send c b = .sent c') :
    Happens n [.settled r (.answered b)]
      { n with replies := n.replies.set r.reply (Channels.dropSender c'),
               held := n.held.set slot none }
  | respondFails {n : Network C} {slot : Nat} {r : InputRequest} {c : C Bool} {b : Bool}
    (hheld : n.held[slot]?.join = some r) (hreply : n.replies[r.reply]? = some c)
    (hgone : Channels.send c b = .disconnected) :
    Happens n [.undelivered r b] { n.dropRequest r with held := n.held.set slot none }
  | refuse {n : Network C} {slot : Nat} {r : InputRequest} (hheld : n.held[slot]?.join = some r) :
    Happens n [.settled r .refused] { n.dropRequest r with held := n.held.set slot none }
  | hangUp {n : Network C} (hlistening : n.isListening = true) :
    Happens n [.hungUp]
      { n with requests := (Channels.dropReceiver n.requests).2, isListening := false,
               left := (Channels.dropReceiver n.requests).1 }
  | discard {n : Network C} {r : InputRequest} {left : List InputRequest}
    (hleft : n.left = r :: left) :
    Happens n [.settled r .discarded] { n.dropRequest r with left }

theorem happens_of_move? {m : Move} {events : List Event} (h : n.move? m = some (n', events)) :
    Happens n events n' := by
  cases m with
  | call e p =>
    simp only [move?, call?] at h
    split at h <;> cases h
    exact .call ‹_› p
  | send e =>
    simp only [move?, send?] at h
    split at h <;> try cases h
    split at h <;> cases h
    · exact .send ‹_› ‹_›
    · exact .sendFails ‹_› ‹_›
  | receive e =>
    simp only [move?, receive?] at h
    split at h <;> try cases h
    split at h <;> cases h
    all_goals obtain ⟨c, hreply, hreceived⟩ := Option.map_eq_some_iff.1 ‹_›
    · exact .receive ‹_› hreply hreceived
    · exact .receiveFails ‹_› hreply hreceived
  | take =>
    simp only [move?, take?] at h
    split at h <;> try cases h
    split at h <;> cases h
    exact .take ‹_› ‹_›
  | respond s b =>
    simp only [move?, respond?] at h
    split at h <;> try cases h
    split at h <;> cases h
    all_goals obtain ⟨c, hreply, hsent⟩ := Option.map_eq_some_iff.1 ‹_›
    · exact .respond ‹_› hreply hsent
    · exact .respondFails ‹_› hreply hsent
  | refuse s =>
    simp only [move?, refuse?] at h
    split at h <;> cases h
    exact .refuse ‹_›
  | hangUp =>
    simp only [move?, hangUp?] at h
    split at h <;> cases h
    exact .hangUp ‹_›
  | discard =>
    simp only [move?, discard?] at h
    split at h <;> cases h
    exact .discard ‹_›

/-! ## Runs -/

/-- **What everything that happens preserves, every run preserves.** -/
theorem run_induction {P : List Event → Network C → Prop}
    (hstep : ∀ {h n events n'}, P h n → Happens n events n' → P (h ++ events) n')
    {h : List Event} (hn : P h n) (ms : List Move) : P (h ++ (n.run ms).2) (n.run ms).1 := by
  induction ms generalizing h n with
  | nil => rwa [run, List.append_nil]
  | cons m ms ih =>
    have hmove : P (h ++ (n.move m).2) (n.move m).1 := by
      rw [move]
      cases hm : n.move? m with
      | none => rwa [Option.getD_none, List.append_nil]
      | some x => exact hstep hn (happens_of_move? hm)
    rw [run, ← List.append_assoc]
    exact ih hmove

end Network

end Switching
