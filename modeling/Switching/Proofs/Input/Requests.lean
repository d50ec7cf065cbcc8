import Switching.Proofs.Input.Tracking

/-!
# Answers are not mixed up

Engines share one channel for their requests, and the answering side deals with requests in any
order. Whatever they do, a call returns what became of its own request.

* `Outstanding`: calls that have not returned.
* `Network.Listens`: requests are discarded only after the answering side hung up.
* `Network.isSome_move?_send`, `Network.exists_move?_respond`: sending a request never waits, and an
  answer is always delivered.
* **`Network.run_requests`**: the lives of all requests.
-/

namespace Switching

open LawfulChannels

variable {C : Type → Type} [Channels C] [LawfulChannels C] {n n' : Network C} {l : Ledger}
  {h events : List Event} {e : Nat} {r : InputRequest}

/-- The engine has made the request, and its call has not returned. -/
def Outstanding (h : List Event) (e : Nat) (r : InputRequest) : Prop :=
  (∃ p, .called e p r ∈ h) ∧ ∀ x, .returned e r x ∉ h

/-- How a request ended, if this event is its end. -/
def Event.fate? : Event → Option Fate
  | settled _ f => some f
  | called _ _ _ | undelivered _ _ | returned _ _ _ | hungUp => none

namespace Network

/-! ## Hanging up -/

/-- Requests are discarded only after the answering side hung up. -/
structure Listens (h : List Event) (n : Network C) : Prop where
  capacity : (contents n.requests).capacity = none
  receiver : (contents n.requests).hasReceiver = n.isListening
  left : n.left ≠ [] → n.isListening = false
  hungUp : n.isListening = false → .hungUp ∈ h
  discarded : ∀ r, .settled r .discarded ∈ h → .hungUp ∈ h

theorem listens_new : Listens [] (new : Network C) where
  capacity := congrArg Contents.capacity contents_unbounded
  receiver := congrArg Contents.hasReceiver contents_unbounded
  left h := absurd rfl h
  hungUp h := nomatch h
  discarded _ h := nomatch h

namespace Listens

theorem keep (hl : Listens h n) (hevents : ∀ r, Event.settled r .discarded ∉ events)
    (hcapacity : (contents n'.requests).capacity = (contents n.requests).capacity)
    (hreceiver : (contents n'.requests).hasReceiver = (contents n.requests).hasReceiver)
    (hleft : n'.left = n.left) (hlistening : n'.isListening = n.isListening) :
    Listens (h ++ events) n' where
  capacity := hcapacity.trans hl.capacity
  receiver := (hreceiver.trans hl.receiver).trans hlistening.symm
  left hne := hlistening.trans (hl.left (hleft ▸ hne))
  hungUp hgone := List.mem_append_left _ (hl.hungUp (hlistening.symm.trans hgone))
  discarded r hr :=
    List.mem_append_left _ (hl.discarded r ((List.mem_append.1 hr).resolve_right (hevents r)))

theorem discards (hl : Listens h n) (hgone : n.isListening = false)
    (hrequests : n'.requests = n.requests) (hlistening : n'.isListening = n.isListening) :
    Listens (h ++ events) n' where
  capacity := hrequests ▸ hl.capacity
  receiver := hrequests ▸ hl.receiver.trans hlistening.symm
  left _ := hlistening.trans hgone
  hungUp _ := List.mem_append_left _ (hl.hungUp hgone)
  discarded _ _ := List.mem_append_left _ (hl.hungUp hgone)

theorem happens (hl : Listens h n) (hn : Happens n events n') : Listens (h ++ events) n' := by
  cases hn with
  | call hidle p | receive hcall hreply hreceived | receiveFails hcall hreply hgone
  | respond hheld hreply hsent | respondFails hheld hreply hgone | refuse hheld =>
    exact hl.keep (by simp) rfl rfl rfl rfl
  | send hcall hsent =>
    have hcontents := contents_of_sent hsent
    exact hl.keep (by simp) (congrArg Contents.capacity hcontents :)
      (congrArg Contents.hasReceiver hcontents :) rfl rfl
  | take hlistening hreceived =>
    have hcontents := (contents_of_received hreceived).symm
    exact hl.keep (by simp) (congrArg Contents.capacity hcontents :)
      (congrArg Contents.hasReceiver hcontents :) rfl rfl
  | sendFails hcall hgone =>
    exact hl.discards (hl.receiver.symm.trans (hasReceiver_of_disconnected hgone)) rfl rfl
  | discard hleft => exact hl.discards (hl.left (by simp [hleft])) rfl rfl
  | hangUp hlistening =>
    have hcontents := contents_dropReceiver n.requests
    exact {
      capacity := (congrArg Contents.capacity hcontents).trans hl.capacity
      receiver := congrArg Contents.hasReceiver hcontents
      left := fun _ => rfl
      hungUp := fun _ => by simp
      discarded := fun _ _ => by simp }

end Listens

theorem listens_run (ms : List Move) :
    Listens ((new : Network C).run ms).2 ((new : Network C).run ms).1 :=
  run_induction (P := Listens) (fun hl hn => hl.happens hn) (h := []) listens_new ms

/-! ## Outstanding calls -/

namespace Tracks

theorem exists_prefix_life (ht : Tracks l h n) (c : Nat) :
    ∃ e p f, h.filter (Event.isAbout c) <+: life e ⟨p, c⟩ f := by
  by_cases hc : l c = none
  · exact ⟨0, "", .refused, ht.unheard hc ▸ List.nil_prefix⟩
  · obtain ⟨e, p, st, hhas⟩ := Ledger.exists_has_of_ne_none hc
    obtain ⟨f, hprefix⟩ := st.past_prefix e ⟨p, c⟩
    exact ⟨e, p, f, ht.past hhas ▸ hprefix⟩

theorem has_of_outstanding (ht : Tracks l h n) (hout : Outstanding h e r) :
    ∃ st, l.Has e r st ∧ st.call r ≠ .idle := by
  obtain ⟨⟨p, hcalled⟩, hreturned⟩ := hout
  have hmem : .called e p r ∈ h.filter (Event.isAbout r.reply) :=
    List.mem_filter.2 ⟨hcalled, decide_eq_true rfl⟩
  have hc : l r.reply ≠ none := fun hc => by
    rw [ht.unheard hc] at hmem
    cases hmem
  obtain ⟨e', p', st, hhas⟩ := Ledger.exists_has_of_ne_none hc
  have hpast : h.filter (Event.isAbout r.reply) = st.past e' ⟨p', r.reply⟩ := ht.past hhas
  obtain ⟨rfl, hr⟩ : e = e' ∧ r = ⟨p', r.reply⟩ := by
    rcases Standing.eq_of_mem_past (hpast ▸ hmem) with hv | ⟨f, hv⟩ | ⟨x, hv⟩
    · exact ⟨(Event.called.inj hv).1, (Event.called.inj hv).2.2⟩
    · cases hv
    · cases hv
  rw [← hr] at hhas hpast
  refine ⟨st, hhas, fun hidle => ?_⟩
  obtain ⟨x, hx⟩ := Standing.exists_returned_mem_past hidle e
  exact hreturned x (List.mem_of_mem_filter (hpast ▸ hx))

/-- What an outstanding call gets is what has become of its request. -/
theorem move_receive (ht : Tracks l h n) (hout : Outstanding h e r) :
    (n.move (.receive e)).2 =
      ((h.filter (Event.isAbout r.reply)).filterMap Event.fate?).map
        fun f => .returned e r f.reply := by
  obtain ⟨st, hhas, hopen⟩ := ht.has_of_outstanding hout
  have hcalls := ht.calls_eq hhas hopen
  rw [ht.past hhas, move, move?, receive?]
  cases hcall : n.calls e with
  | idle => exact absurd (hcalls.symm.trans hcall) hopen
  | prepared r' =>
    obtain ⟨rfl, -⟩ := Standing.call_eq_prepared_iff.1 (hcalls.symm.trans hcall)
    rfl
  | waiting r' =>
    obtain rfl := Standing.eq_of_call_eq_waiting (hcalls.symm.trans hcall)
    obtain ⟨c, hc, hcontents⟩ := ht.reply hhas
    simp only [hc, Option.map_some]
    cases hreceive : Channels.receive c with
    | received b c' =>
      have hpending := congrArg Contents.pending (contents_of_received hreceive)
      obtain ⟨rfl, -⟩ := Standing.eq_of_pending_eq_cons (hcontents ▸ hpending)
      rfl
    | disconnected =>
      obtain ⟨hpending, hsender⟩ := pending_of_disconnected hreceive
      rw [hcontents] at hpending hsender
      obtain ⟨f, rfl, hf, -⟩ := Standing.exists_of_hasSender_eq_false hopen hpending hsender
      simp only [Standing.past, Option.getD_some, List.filterMap_cons, Event.fate?,
        List.filterMap_nil, List.map_cons, List.map_nil, hf]
    | empty =>
      have hsender := (pending_of_empty hreceive).2
      rw [hcontents] at hsender
      rw [Standing.past_of_hasSender hsender]
      rfl

end Tracks

/-! ## What never waits -/

theorem isSome_move?_send (ms : List Move)
    (hcall : ((new : Network C).run ms).1.calls e = .prepared r) :
    (((new : Network C).run ms).1.move? (.send e)).isSome := by
  rw [move?, send?, hcall]
  dsimp only
  cases hsend : Channels.send ((new : Network C).run ms).1.requests r with
  | sent c | disconnected => rfl
  | full =>
    obtain ⟨k, hk, -⟩ := le_card_of_full hsend
    cases (listens_run ms).capacity.symm.trans hk

theorem exists_move?_respond (ms : List Move) {slot : Nat}
    (hheld : ((new : Network C).run ms).1.held[slot]?.join = some r) (b : Bool) :
    ∃ n', ((new : Network C).run ms).1.move? (.respond slot b) =
      some (n', [.settled r (.answered b)]) := by
  obtain ⟨l, ht⟩ := exists_tracks (C := C) ms
  obtain ⟨e, hhas⟩ := ht.held hheld
  obtain ⟨c, hc, hcontents⟩ := ht.reply hhas
  simp only [move?, respond?, hheld, hc, Option.map_some]
  cases hsend : Channels.send c b with
  | sent c' => exact ⟨_, rfl⟩
  | disconnected =>
    have hreceiver := hasReceiver_of_disconnected hsend
    rw [hcontents] at hreceiver
    cases hreceiver
  | full =>
    obtain ⟨k, hk, hle⟩ := le_card_of_full hsend
    rw [hcontents] at hk hle
    cases hk
    simp [Standing.reply] at hle

/-! ## All runs -/

/-- **Answers are not mixed up.** Whatever engines and the answering side do, in any order, the
events of a request are the beginning of a life: one call makes it, with its prompt; it is answered
or dropped, once; and that call returns the bit of that answer, or is cancelled. Only after the
answering side hung up is a request dropped by anybody else. An engine has at most one call that
has not returned, and what such a call gets depends on what happened to its own request only. -/
theorem run_requests (ms : List Move) :
    let n := ((new : Network C).run ms).1
    let h := ((new : Network C).run ms).2
    (∀ c, ∃ e p f, h.filter (Event.isAbout c) <+: life e ⟨p, c⟩ f) ∧
      (∀ r, .settled r .discarded ∈ h → .hungUp ∈ h) ∧
      (∀ e r r', Outstanding h e r → Outstanding h e r' → r = r') ∧
      ∀ e r, Outstanding h e r → (n.move (.receive e)).2 =
        ((h.filter (Event.isAbout r.reply)).filterMap Event.fate?).map
          fun f => .returned e r f.reply := by
  intro n h
  obtain ⟨l, ht⟩ := exists_tracks (C := C) ms
  refine ⟨ht.exists_prefix_life, (listens_run ms).discarded, fun e r r' hr hr' => ?_,
    fun e r => ht.move_receive⟩
  obtain ⟨st, hhas, hopen⟩ := ht.has_of_outstanding hr
  obtain ⟨st', hhas', hopen'⟩ := ht.has_of_outstanding hr'
  exact Standing.call_inj ((ht.calls_eq hhas hopen).symm.trans (ht.calls_eq hhas' hopen')) hopen

/-- Three engines. The second request is taken first, and refused after the first is answered; the
third is in the queue when the answering side hangs up. -/
def interleaved : List Move :=
  [.call 0 "a", .call 1 "b", .send 1, .send 0, .take, .take, .call 2 "c", .send 2, .respond 1 true,
    .refuse 0, .hangUp, .receive 1, .discard]

/-- The first and the third call have not returned. Both can, with what became of their own
requests. -/
theorem run_requests_interleaved :
    let n := ((new : Network Queue).run interleaved).1
    let h := ((new : Network Queue).run interleaved).2
    (Outstanding h 0 ⟨"a", 0⟩ ∧ (n.move (.receive 0)).2 = [.returned 0 ⟨"a", 0⟩ (.ok true)]) ∧
      .returned 1 ⟨"b", 1⟩ (.error .cancelled) ∈ h ∧
      Outstanding h 2 ⟨"c", 2⟩ ∧
        (n.move (.receive 2)).2 = [.returned 2 ⟨"c", 2⟩ (.error .cancelled)] := by
  intro n h
  have hh : h = [.called 0 "a" ⟨"a", 0⟩, .called 1 "b" ⟨"b", 1⟩, .called 2 "c" ⟨"c", 2⟩,
    .settled ⟨"a", 0⟩ (.answered true), .settled ⟨"b", 1⟩ .refused, .hungUp,
    .returned 1 ⟨"b", 1⟩ (.error .cancelled), .settled ⟨"c", 2⟩ .discarded] := rfl
  have ha : Outstanding h 0 ⟨"a", 0⟩ := ⟨⟨"a", by simp [hh]⟩, by simp [hh]⟩
  have hc : Outstanding h 2 ⟨"c", 2⟩ := ⟨⟨"c", by simp [hh]⟩, by simp [hh]⟩
  have hreceive := (run_requests (C := Queue) interleaved).2.2.2
  exact ⟨⟨ha, (hreceive 0 _ ha).trans rfl⟩, by simp [hh], hc, (hreceive 2 _ hc).trans rfl⟩

end Network

end Switching
