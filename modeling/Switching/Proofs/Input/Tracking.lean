import Mathlib.Data.Multiset.AddSub
import Switching.Proofs.Input.Ledger
import Switching.Proofs.Input.Network

/-!
# Networks and their ledgers

A ledger tracks a network if every request is where its standing says: with its engine, on its way,
with the answering side, or nowhere any more.

* `Network.underway`: the requests that the answering side can take, or that are being dropped.
* `Network.Tracks`: a ledger tracks a network and what has happened in it.
* `Network.Relocates`: a request moves, and all others stay where they are.
* `Network.Tracks.record`: a request goes on, and all others stay as they are.
* `Network.Tracks.advance`: the same of a request whose call has not returned.
* **`Network.Tracks.happens`**: whatever happens, a ledger goes on tracking.
-/

namespace Switching

namespace Network

open LawfulChannels

variable {C : Type → Type} [Channels C] [LawfulChannels C]

/-- The requests that the answering side can take, or that are being dropped after it hung up. -/
def underway (n : Network C) : Multiset InputRequest :=
  (contents n.requests).pending + (n.left : Multiset InputRequest)

/-- The ledger `l` says of every request where it is in the network `n`, and which of the events `h`
are its own. -/
structure Tracks (l : Ledger) (h : List Event) (n : Network C) : Prop where
  fresh : ∀ {c}, n.replies.length ≤ c → l c = none
  unheard : ∀ {c}, l c = none → h.filter (Event.isAbout c) = []
  past : ∀ {e r st}, l.Has e r st → h.filter (Event.isAbout r.reply) = st.past e r
  reply : ∀ {e r st}, l.Has e r st → ∃ c, n.replies[r.reply]? = some c ∧ contents c = st.reply
  calls : ∀ {e call}, call ≠ .idle → (n.calls e = call ↔ ∃ r st, l.Has e r st ∧ st.call r = call)
  underway : ∀ {r}, r ∈ n.underway → ∃ e, l.Has e r .queued
  nodup : n.underway.Nodup
  held : ∀ {slot r}, n.held[slot]?.join = some r → ∃ e, l.Has e r (.held slot)

/-- In the network `n'` the request `r` is at most where `st` says, and all others are where they are
in `n`. -/
structure Relocates (r : InputRequest) (st : Standing) (n n' : Network C) : Prop where
  underway : ∀ {r'}, r' ∈ n'.underway → (r' = r ∧ st = .queued) ∨ (r' ≠ r ∧ r' ∈ n.underway)
  nodup : n'.underway.Nodup
  held : ∀ {slot r'}, n'.held[slot]?.join = some r' →
    (r' = r ∧ st = .held slot) ∨ (r' ≠ r ∧ n.held[slot]?.join = some r')

variable {n n' : Network C} {l : Ledger} {h events : List Event} {e : Nat} {r : InputRequest}
  {st st' : Standing}

omit [Channels C] [LawfulChannels C] in
theorem calls_setCall (n : Network C) (e : Nat) (call : Call) :
    (n.setCall e call).calls = Function.update n.calls e call :=
  funext fun _ => (Function.update_apply ..).symm

theorem underway_new : (new : Network C).underway = 0 := by
  rw [underway, new, contents_unbounded]
  rfl

theorem tracks_new : Tracks .empty [] (new : Network C) where
  fresh _ := rfl
  unheard _ := rfl
  past := nofun
  reply := nofun
  calls {e call} hcall :=
    ⟨fun h => absurd h.symm hcall, fun ⟨_, _, h, _⟩ => nomatch h⟩
  underway h := by simp [underway_new] at h
  nodup := by simp [underway_new]
  held := nofun

namespace Tracks

/-! ## One request goes on -/

theorem record (ht : Tracks l h n)
    (hmine : ∀ {e₂ r₂ st₂}, l.Has e₂ r₂ st₂ → r₂.reply = r.reply → e₂ = e ∧ r₂ = r)
    (honly : ∀ {r₂ st₂}, l.Has e r₂ st₂ → st₂.call r₂ ≠ .idle → r₂.reply = r.reply)
    (hpast : h.filter (Event.isAbout r.reply) ++ events = st.past e r)
    (hlength : n.replies.length ≤ n'.replies.length)
    (hreply : ∃ c, n'.replies[r.reply]? = some c ∧ contents c = st.reply)
    (hreplies : ∀ c < n.replies.length, c ≠ r.reply → n'.replies[c]? = n.replies[c]?)
    (hcalls : n'.calls = Function.update n.calls e (st.call r))
    (hplace : Relocates r st n n') :
    Tracks (l.record e r st) (h ++ events) n' := by
  -- what happens is about this request only
  have habout : ∀ v ∈ events, v.isAbout r.reply = true := fun v hv =>
    Standing.isAbout_of_mem_past (hpast ▸ List.mem_append_right _ hv)
  have hself : events.filter (Event.isAbout r.reply) = events := List.filter_eq_self.2 habout
  have hevents : ∀ {c}, c ≠ r.reply → events.filter (Event.isAbout c) = [] := fun hc =>
    List.filter_eq_nil_iff.2 fun v hv hc' => hc (Event.isAbout_unique hc' (habout v hv))
  have hlt : r.reply < n'.replies.length := by
    obtain ⟨c, hc, -⟩ := hreply
    exact (List.getElem?_eq_some_iff.1 hc).1
  have hkeeps : ∀ {e₂ r₂ st₂}, r₂ ≠ r → l.Has e₂ r₂ st₂ → (l.record e r st).Has e₂ r₂ st₂ :=
    fun hne hhas => Ledger.has_record_iff.2 (.inr ⟨fun heq => hne (hmine hhas heq).2, hhas⟩)
  constructor
  case fresh =>
    intro c hc
    have hne : c ≠ r.reply := by omega
    rw [Ledger.record_of_ne hne]
    exact ht.fresh (hlength.trans hc)
  case unheard =>
    intro c hc
    have hne : c ≠ r.reply := by
      rintro rfl
      cases Ledger.has_record.symm.trans hc
    rw [Ledger.record_of_ne hne] at hc
    rw [List.filter_append, ht.unheard hc, hevents hne, List.append_nil]
  case past =>
    intro e₂ r₂ st₂ hhas
    rcases Ledger.has_record_iff.1 hhas with ⟨rfl, rfl, rfl⟩ | ⟨hne, hhas⟩
    · rw [List.filter_append, ← hpast, hself]
    · rw [List.filter_append, ht.past hhas, hevents hne, List.append_nil]
  case reply =>
    intro e₂ r₂ st₂ hhas
    rcases Ledger.has_record_iff.1 hhas with ⟨rfl, rfl, rfl⟩ | ⟨hne, hhas⟩
    · exact hreply
    · obtain ⟨c, hc, hcontents⟩ := ht.reply hhas
      exact ⟨c, (hreplies _ (List.getElem?_eq_some_iff.1 hc).1 hne).trans hc, hcontents⟩
  case calls =>
    intro e₂ call hcall
    rw [hcalls]
    by_cases heq : e₂ = e
    · subst heq
      rw [Function.update_self]
      constructor
      · exact fun h => ⟨r, st, Ledger.has_record, h⟩
      · rintro ⟨r₂, st₂, hhas, rfl⟩
        rcases Ledger.has_record_iff.1 hhas with ⟨-, rfl, rfl⟩ | ⟨hne, hhas⟩
        · rfl
        · exact absurd (honly hhas hcall) hne
    · rw [Function.update_of_ne heq, ht.calls hcall]
      refine exists_congr fun r₂ => exists_congr fun st₂ => and_congr_left fun _ => ?_
      rw [Ledger.has_record_iff]
      constructor
      · exact fun hhas => .inr ⟨fun hreply => heq (hmine hhas hreply).1, hhas⟩
      · rintro (⟨rfl, -, -⟩ | ⟨-, hhas⟩)
        · exact absurd rfl heq
        · exact hhas
  case underway =>
    intro r₂ hr₂
    rcases hplace.underway hr₂ with ⟨rfl, rfl⟩ | ⟨hne, hr₂⟩
    · exact ⟨e, Ledger.has_record⟩
    · exact (ht.underway hr₂).imp fun _ => hkeeps hne
  case nodup => exact hplace.nodup
  case held =>
    intro slot r₂ hr₂
    rcases hplace.held hr₂ with ⟨rfl, rfl⟩ | ⟨hne, hr₂⟩
    · exact ⟨e, Ledger.has_record⟩
    · exact (ht.held hr₂).imp fun _ => hkeeps hne

theorem calls_eq (ht : Tracks l h n) (hhas : l.Has e r st) (hopen : st.call r ≠ .idle) :
    n.calls e = st.call r := (ht.calls hopen).2 ⟨r, st, hhas, rfl⟩

theorem contents_eq {c : C Bool} (ht : Tracks l h n) (hhas : l.Has e r st)
    (hreply : n.replies[r.reply]? = some c) : contents c = st.reply := by
  obtain ⟨c', hc', hcontents⟩ := ht.reply hhas
  obtain rfl : c = c' := Option.some.inj (hreply.symm.trans hc')
  exact hcontents

theorem advance (ht : Tracks l h n) (hhas : l.Has e r st) (hopen : st.call r ≠ .idle)
    (hpast : st.past e r ++ events = st'.past e r) (f : C Bool → C Bool)
    (hreplies : n'.replies = n.replies.modify r.reply f)
    (hreply : ∀ c, contents c = st.reply → contents (f c) = st'.reply)
    (hcalls : n'.calls = Function.update n.calls e (st'.call r))
    (hplace : Relocates r st' n n') : Tracks (l.record e r st') (h ++ events) n' := by
  refine ht.record ?_ ?_ ?_ ?_ ?_ ?_ hcalls hplace
  · intro e₂ r₂ st₂ hhas₂ heq
    obtain ⟨he, hr, -⟩ := hhas.unique hhas₂ heq
    exact ⟨he, hr⟩
  · intro r₂ st₂ hhas₂ hopen₂
    have hsame : st₂.call r₂ = st.call r :=
      (ht.calls_eq hhas₂ hopen₂).symm.trans (ht.calls_eq hhas hopen)
    rw [Standing.call_inj hsame hopen₂]
  · rw [ht.past hhas, hpast]
  · rw [hreplies, List.length_modify]
  · obtain ⟨c, hc, hcontents⟩ := ht.reply hhas
    refine ⟨f c, ?_, hreply c hcontents⟩
    rw [hreplies, List.getElem?_modify_eq, hc]
    rfl
  · intro c _ hne
    rw [hreplies, List.getElem?_modify_ne _ _ hne.symm]

theorem update_calls_of_eq (ht : Tracks l h n) (hhas : l.Has e r st) (hopen : st.call r ≠ .idle)
    (hsame : st'.call r = st.call r) : n.calls = Function.update n.calls e (st'.call r) := by
  rw [hsame, ← ht.calls_eq hhas hopen, Function.update_eq_self]

/-! ## Places -/

theorem ne_of_underway (ht : Tracks l h n) (hhas : l.Has e r st) (hst : st ≠ .queued)
    {r' : InputRequest} (hr' : r' ∈ n.underway) : r' ≠ r := by
  rintro rfl
  obtain ⟨e', hqueued⟩ := ht.underway hr'
  exact hst (hqueued.unique hhas rfl).2.2

theorem ne_of_held (ht : Tracks l h n) (hhas : l.Has e r st) {slot : Nat} {r' : InputRequest}
    (hr' : n.held[slot]?.join = some r') (hst : st ≠ .held slot) : r' ≠ r := by
  rintro rfl
  obtain ⟨e', hheld⟩ := ht.held hr'
  exact hst (hheld.unique hhas rfl).2.2

theorem relocates_of_eq (ht : Tracks l h n) (hhas : l.Has e r st) (hqueued : st ≠ .queued)
    (hheld : ∀ slot, st ≠ .held slot) (hunderway' : n'.underway = n.underway)
    (hheld' : n'.held = n.held) : Relocates r st' n n' where
  underway {r'} hr' := by
    rw [hunderway'] at hr'
    exact .inr ⟨ht.ne_of_underway hhas hqueued hr', hr'⟩
  nodup := hunderway' ▸ ht.nodup
  held {slot r'} hr' := by
    rw [hheld'] at hr'
    exact .inr ⟨ht.ne_of_held hhas hr' (hheld slot), hr'⟩

/-- A request leaves the channel of the requests, or what was left there. -/
theorem relocates_of_cons (ht : Tracks l h n) (hunderway : n.underway = r ::ₘ n'.underway)
    (hheld : ∀ {slot r'}, n'.held[slot]?.join = some r' →
      (r' = r ∧ st = .held slot) ∨ (r' ≠ r ∧ n.held[slot]?.join = some r')) :
    Relocates r st n n' where
  underway {r'} hr' := by
    have hnodup := Multiset.nodup_cons.1 (hunderway ▸ ht.nodup)
    exact .inr ⟨fun heq => hnodup.1 (heq ▸ hr'), hunderway ▸ Multiset.mem_cons_of_mem hr'⟩
  nodup := (Multiset.nodup_cons.1 (hunderway ▸ ht.nodup)).2
  held := hheld

/-! ## Calls -/

theorem call (ht : Tracks l h n) (hidle : n.calls e = .idle) (p : String) :
    Tracks (l.record e ⟨p, n.replies.length⟩ .prepared) (h ++ [.called e p ⟨p, n.replies.length⟩])
      ({ n with replies := n.replies ++ [Channels.bounded 1] }.setCall e
        (.prepared ⟨p, n.replies.length⟩)) := by
  have hnone : l n.replies.length = none := ht.fresh le_rfl
  refine ht.record ?_ ?_ ?_ ?_ ?_ ?_ ?_ ⟨?_, ht.nodup, ?_⟩
  · exact fun hhas heq => absurd heq (hhas.reply_ne hnone)
  · exact fun hhas hopen => absurd (ht.calls_eq hhas hopen) (hidle ▸ hopen.symm)
  · rw [ht.unheard hnone]
    rfl
  · simp [setCall]
  · exact ⟨_, List.getElem?_concat_length, contents_bounded 1⟩
  · exact fun c hc _ => List.getElem?_append_left hc
  · exact calls_setCall ..
  · intro r' hr'
    obtain ⟨e', hhas⟩ := ht.underway hr'
    exact .inr ⟨fun heq => hhas.reply_ne hnone (congrArg _ heq), hr'⟩
  · intro slot r' hr'
    obtain ⟨e', hhas⟩ := ht.held hr'
    exact .inr ⟨fun heq => hhas.reply_ne hnone (congrArg _ heq), hr'⟩

theorem has_of_prepared (ht : Tracks l h n) (hcall : n.calls e = .prepared r) :
    l.Has e r .prepared := by
  obtain ⟨r', st, hhas, hst⟩ := (ht.calls (by simp)).1 hcall
  obtain ⟨rfl, rfl⟩ := Standing.call_eq_prepared_iff.1 hst
  exact hhas

theorem has_of_waiting (ht : Tracks l h n) (hcall : n.calls e = .waiting r) :
    ∃ st, l.Has e r st ∧ st.call r = .waiting r := by
  obtain ⟨r', st, hhas, hst⟩ := (ht.calls (by simp)).1 hcall
  obtain rfl := Standing.eq_of_call_eq_waiting hst
  exact ⟨st, hhas, hst⟩

theorem send {requests : C InputRequest} (ht : Tracks l h n) (hcall : n.calls e = .prepared r)
    (hsent : Channels.send n.requests r = .sent requests) :
    Tracks (l.record e r .queued) (h ++ []) ({ n with requests }.setCall e (.waiting r)) := by
  have hhas := ht.has_of_prepared hcall
  have hunderway : ({ n with requests }.setCall e (.waiting r)).underway = r ::ₘ n.underway := by
    rw [Network.underway, Network.underway, ← Multiset.cons_add]
    exact congrArg (·.pending + _) (contents_of_sent hsent)
  have hnot : r ∉ n.underway := fun hmem => ht.ne_of_underway hhas nofun hmem rfl
  refine ht.advance hhas nofun rfl id (List.modify_id ..).symm (fun _ hc => hc)
    (calls_setCall ..) ⟨?_, ?_, ?_⟩
  · intro r' hr'
    rw [hunderway, Multiset.mem_cons] at hr'
    exact hr'.imp (⟨·, rfl⟩) fun hr' => ⟨ht.ne_of_underway hhas nofun hr', hr'⟩
  · rw [hunderway, Multiset.nodup_cons]
    exact ⟨hnot, ht.nodup⟩
  · exact fun hr' => .inr ⟨ht.ne_of_held hhas hr' nofun, hr'⟩

theorem sendFails (ht : Tracks l h n) (hcall : n.calls e = .prepared r) :
    Tracks (l.record e r (.returned .discarded))
      (h ++ [.settled r .discarded, .returned e r (.error .cancelled)])
      ((n.dropRequest r).leave e r) := by
  have hhas := ht.has_of_prepared hcall
  refine ht.advance hhas nofun rfl _ (List.modify_modify_eq ..) ?_ (calls_setCall ..)
    (ht.relocates_of_eq hhas nofun nofun rfl rfl)
  intro c hc
  rw [Function.comp_apply, contents_dropReceiver, contents_dropSender, hc]
  rfl

theorem leave (ht : Tracks l h n) {f : Fate} (hhas : l.Has e r (.settled f)) (g : C Bool → C Bool)
    (hg : ∀ c, contents c = (Standing.settled f).reply → contents (g c) = ⟨0, some 1, false, true⟩) :
    Tracks (l.record e r (.returned f)) (h ++ [.returned e r f.reply])
      ({ n with replies := n.replies.modify r.reply g }.leave e r) := by
  refine ht.advance hhas nofun rfl _ (List.modify_modify_eq ..) ?_ (calls_setCall ..)
    (ht.relocates_of_eq hhas nofun nofun rfl rfl)
  intro c hc
  rw [Function.comp_apply, contents_dropReceiver, hg c hc]
  rfl

theorem receive {c c' : C Bool} {b : Bool} (ht : Tracks l h n) (hcall : n.calls e = .waiting r)
    (hreply : n.replies[r.reply]? = some c) (hreceived : Channels.receive c = .received b c') :
    Tracks (l.record e r (.returned (.answered b))) (h ++ [.returned e r (.ok b)])
      ({ n with replies := n.replies.set r.reply c' }.leave e r) := by
  obtain ⟨st, hhas, -⟩ := ht.has_of_waiting hcall
  have hcontents := ht.contents_eq hhas hreply
  have hc := contents_of_received hreceived
  obtain ⟨rfl, hrest⟩ := Standing.eq_of_pending_eq_cons (hcontents ▸ congrArg Contents.pending hc)
  rw [List.set_eq_modify]
  refine ht.leave hhas (fun _ => c') fun _ _ => ?_
  have hc' : contents c' = { contents c with pending := (contents c').pending } := by rw [hc]
  rw [hc', hrest, hcontents]
  rfl

theorem receiveFails {c : C Bool} (ht : Tracks l h n) (hcall : n.calls e = .waiting r)
    (hreply : n.replies[r.reply]? = some c) (hgone : Channels.receive c = .disconnected) :
    ∃ f, Tracks (l.record e r (.returned f)) (h ++ [.returned e r (.error .cancelled)])
      (n.leave e r) := by
  obtain ⟨st, hhas, hwaiting⟩ := ht.has_of_waiting hcall
  obtain ⟨hpending, hsender⟩ := pending_of_disconnected hgone
  rw [ht.contents_eq hhas hreply] at hpending hsender
  obtain ⟨f, rfl, hf, hempty⟩ :=
    Standing.exists_of_hasSender_eq_false (ne_of_eq_of_ne hwaiting nofun) hpending hsender
  refine ⟨f, hf ▸ ?_⟩
  have hleave := ht.leave hhas id fun _ hc => hc.trans hempty
  rwa [List.modify_id] at hleave

/-! ## The answering side -/

theorem take {requests : C InputRequest} (ht : Tracks l h n)
    (hreceived : Channels.receive n.requests = .received r requests) :
    ∃ e, Tracks (l.record e r (.held n.held.length)) (h ++ [])
      { n with requests, held := n.held ++ [some r] } := by
  have hunderway : n.underway =
      r ::ₘ ({ n with requests, held := n.held ++ [some r] } : Network C).underway := by
    rw [Network.underway, Network.underway, ← Multiset.cons_add]
    exact congrArg (·.pending + _) (contents_of_received hreceived)
  obtain ⟨e, hhas⟩ := ht.underway (hunderway ▸ Multiset.mem_cons_self ..)
  refine ⟨e, ht.advance hhas nofun rfl id (List.modify_id ..).symm (fun _ hc => hc)
    (ht.update_calls_of_eq hhas nofun rfl) (ht.relocates_of_cons hunderway ?_)⟩
  intro slot r' hr'
  rcases lt_trichotomy slot n.held.length with hlt | rfl | hgt
  · rw [List.getElem?_append_left hlt] at hr'
    exact .inr ⟨ht.ne_of_held hhas hr' nofun, hr'⟩
  · rw [List.getElem?_concat_length] at hr'
    exact .inl ⟨(Option.some.inj hr').symm, rfl⟩
  · rw [List.getElem?_eq_none (by simpa using Nat.succ_le_of_lt hgt)] at hr'
    cases hr'

theorem discard {left : List InputRequest} (ht : Tracks l h n) (hleft : n.left = r :: left) :
    ∃ e, Tracks (l.record e r (.settled .discarded)) (h ++ [.settled r .discarded])
      { n.dropRequest r with left } := by
  have hunderway : n.underway = r ::ₘ ({ n.dropRequest r with left } : Network C).underway := by
    rw [Network.underway, Network.underway, hleft, ← Multiset.cons_coe, Multiset.add_cons]
    rfl
  obtain ⟨e, hhas⟩ := ht.underway (hunderway ▸ Multiset.mem_cons_self ..)
  refine ⟨e, ht.advance hhas nofun rfl _ rfl ?_ (ht.update_calls_of_eq hhas nofun rfl)
    (ht.relocates_of_cons hunderway fun hr' => .inr ⟨ht.ne_of_held hhas hr' nofun, hr'⟩)⟩
  intro c hc
  rw [contents_dropSender, hc]
  rfl

theorem contents_of_held {slot : Nat} {c : C Bool} (ht : Tracks l h n)
    (hheld : n.held[slot]?.join = some r) (hreply : n.replies[r.reply]? = some c) :
    contents c = ⟨0, some 1, true, true⟩ := by
  obtain ⟨e, hhas⟩ := ht.held hheld
  exact ht.contents_eq hhas hreply

theorem settle (ht : Tracks l h n) {slot : Nat} (hheld : n.held[slot]?.join = some r) (f : Fate)
    (g : C Bool → C Bool)
    (hg : ∀ c, contents c = ⟨0, some 1, true, true⟩ → contents (g c) = (Standing.settled f).reply) :
    ∃ e, Tracks (l.record e r (.settled f)) (h ++ [.settled r f])
      { n with replies := n.replies.modify r.reply g, held := n.held.set slot none } := by
  obtain ⟨e, hhas⟩ := ht.held hheld
  refine ⟨e, ht.advance hhas nofun rfl g rfl hg (ht.update_calls_of_eq hhas nofun rfl)
    ⟨fun hr' => .inr ⟨ht.ne_of_underway hhas nofun hr', hr'⟩, ht.nodup, ?_⟩⟩
  intro slot' r' hr'
  rw [List.getElem?_set] at hr'
  split_ifs at hr' with hslot hlt
  · cases hr'
  · cases hr'
  · exact .inr ⟨ht.ne_of_held hhas hr' fun heq => hslot (Standing.held.inj heq), hr'⟩

theorem respond {slot : Nat} {c c' : C Bool} {b : Bool} (ht : Tracks l h n)
    (hheld : n.held[slot]?.join = some r) (hreply : n.replies[r.reply]? = some c)
    (hsent : Channels.send c b = .sent c') :
    ∃ e, Tracks (l.record e r (.settled (.answered b))) (h ++ [.settled r (.answered b)])
      { n with replies := n.replies.set r.reply (Channels.dropSender c'),
               held := n.held.set slot none } := by
  rw [List.set_eq_modify]
  refine ht.settle hheld (.answered b) (fun _ => Channels.dropSender c') fun _ _ => ?_
  rw [contents_dropSender, contents_of_sent hsent, ht.contents_of_held hheld hreply]
  rfl

theorem refuse {slot : Nat} (ht : Tracks l h n) (hheld : n.held[slot]?.join = some r) :
    ∃ e, Tracks (l.record e r (.settled .refused)) (h ++ [.settled r .refused])
      { n.dropRequest r with held := n.held.set slot none } := by
  refine ht.settle hheld .refused Channels.dropSender fun c hc => ?_
  rw [contents_dropSender, hc]
  rfl

theorem hangUp (ht : Tracks l h n) :
    Tracks l (h ++ [.hungUp])
      { n with requests := (Channels.dropReceiver n.requests).2, isListening := false,
               left := (Channels.dropReceiver n.requests).1 } := by
  have hfilter : ∀ c, (h ++ [Event.hungUp]).filter (Event.isAbout c) = h.filter (Event.isAbout c) :=
    fun c => by rw [List.filter_append]; exact List.append_nil _
  have hle : (contents (Channels.dropReceiver n.requests).2).pending +
      ((Channels.dropReceiver n.requests).1 : Multiset InputRequest) ≤ n.underway := by
    rw [contents_dropReceiver, pending_dropReceiver, Multiset.zero_add]
    exact Multiset.le_add_right ..
  exact {
    fresh := ht.fresh
    unheard := fun hc => (hfilter _).trans (ht.unheard hc)
    past := fun hhas => (hfilter _).trans (ht.past hhas)
    reply := ht.reply
    calls := ht.calls
    underway := fun hr => ht.underway (Multiset.mem_of_le hle hr)
    nodup := Multiset.nodup_of_le hle ht.nodup
    held := ht.held }

/-- **Whatever happens, a ledger goes on tracking.** -/
theorem happens (ht : Tracks l h n) (hn : Happens n events n') :
    ∃ l', Tracks l' (h ++ events) n' := by
  cases hn with
  | call hidle p => exact ⟨_, ht.call hidle p⟩
  | send hcall hsent => exact ⟨_, ht.send hcall hsent⟩
  | sendFails hcall hgone => exact ⟨_, ht.sendFails hcall⟩
  | receive hcall hreply hreceived => exact ⟨_, ht.receive hcall hreply hreceived⟩
  | receiveFails hcall hreply hgone =>
    obtain ⟨f, hf⟩ := ht.receiveFails hcall hreply hgone
    exact ⟨_, hf⟩
  | take hlistening hreceived =>
    obtain ⟨e, he⟩ := ht.take hreceived
    exact ⟨_, he⟩
  | respond hheld hreply hsent =>
    obtain ⟨e, he⟩ := ht.respond hheld hreply hsent
    exact ⟨_, he⟩
  | respondFails hheld hreply hgone =>
    have hreceiver := hasReceiver_of_disconnected hgone
    rw [ht.contents_of_held hheld hreply] at hreceiver
    cases hreceiver
  | refuse hheld =>
    obtain ⟨e, he⟩ := ht.refuse hheld
    exact ⟨_, he⟩
  | hangUp hlistening => exact ⟨_, ht.hangUp⟩
  | discard hleft =>
    obtain ⟨e, he⟩ := ht.discard hleft
    exact ⟨_, he⟩

end Tracks

/-- In every run there is a ledger. -/
theorem exists_tracks (ms : List Move) :
    ∃ l, Tracks l ((new : Network C).run ms).2 ((new : Network C).run ms).1 :=
  run_induction (P := fun h n => ∃ l, Tracks l h n) (h := []) (fun ⟨_, ht⟩ hn => ht.happens hn)
    ⟨_, tracks_new⟩ ms

end Network

end Switching
