import Malamute.L3Server.Trace

/-!
# Clients that have not opened a connection

The start state inherits the handlers of `defaults`, which were written with an
open client in mind. `Inputs` is what the peer behind a routing id can make
happen without CONNECTION OPEN: its messages, and its timer. `Untouched` is
what must come of it.

* `unopened_untouched_iff`: the server handles any such sequence and nothing
  outside the client changes, iff no CONNECTION CLOSE is in the sequence.
* `close_before_open`: on CONNECTION CLOSE it follows the NULL address.
-/
namespace Malamute.L3
open Malamute.Core Malamute.L1 Malamute.L2 Server

/-- What a peer sends, or its timer. -/
inductive Input where
  | message (w : Wire)
  | expiry
  deriving DecidableEq

/-- The server handles the inputs of the peer with routing id `rid`, in order.
A timer belongs to the context, and ends with it. -/
inductive Inputs (rex : Str → Str → Bool) (rid : Key) : List Input → Server → Server → Prop where
  | nil (s : Server) : Inputs rex rid [] s s
  | message {w : Wire} {is : List Input} {s s₁ s' : Server} :
      (broker rex).step s (.request rid w) s₁ → Inputs rex rid is s₁ s' →
      Inputs rex rid (.message w :: is) s s'
  | expiry {c : Cid} {is : List Input} {s s₁ s' : Server} : s.clients.get rid = some c →
      (broker rex).step s (.expired c) s₁ → Inputs rex rid is s₁ s' →
      Inputs rex rid (.expiry :: is) s s'
  | idle {is : List Input} {s s' : Server} : s.clients.get rid = none →
      Inputs rex rid is s s' → Inputs rex rid (.expiry :: is) s s'

/-- The context of the peer has not processed CONNECTION OPEN; or there is none
yet. -/
def Waiting (s : Server) (rid : Key) : Prop :=
  ∀ c k, s.clients.get rid = some c → s.ctx c = some k → k.state = .start

/-- Nothing outside the context of the peer has changed. The object messages
are received in is scratch space, and identities are not reused. -/
structure Untouched (rid : Key) (s s' : Server) : Prop where
  others : ∀ c k, (s'.ctx c = some k ∧ s'.clients.get rid ≠ some c) ↔
    (s.ctx c = some k ∧ s.clients.get rid ≠ some c)
  clients : ∀ key, key ≠ rid → s'.clients.get key = s.clients.get key
  zombies : s'.zombies = s.zombies
  addresses : s'.addresses = s.addresses
  streams : s'.streams = s.streams
  services : s'.services = s.services
  serviceCfg : s'.serviceCfg = s.serviceCfg
  mailbox : s'.mailbox = s.mailbox
  mailboxPipe : s'.mailboxPipe = s.mailboxPipe
  refs : s'.refs = s.refs
  messageId : s'.messageId = s.messageId
  offerId : s'.offerId = s.offerId

/-- Between two reactor events, with the peer not open. -/
structure Idle (rid : Key) (s : Server) : Prop where
  regular : Regular s
  running : s.running = true
  rest : s.rest = []
  waiting : Waiting s rid

section
variable {rex : Str → Str → Bool} {s s' : Server} {rid : Key} {c : Cid} {k : Client}

theorem Untouched.refl (rid : Key) (s : Server) : Untouched rid s s :=
  ⟨fun _ _ => .rfl, fun _ _ => rfl, rfl, rfl, rfl, rfl, rfl, rfl, rfl, rfl, rfl, rfl⟩

theorem Untouched.trans {s₁ : Server} (h : Untouched rid s s₁) (h' : Untouched rid s₁ s') :
    Untouched rid s s' where
  others c k := (h'.others c k).trans (h.others c k)
  clients key hk := (h'.clients key hk).trans (h.clients key hk)
  zombies := h'.zombies.trans h.zombies
  addresses := h'.addresses.trans h.addresses
  streams := h'.streams.trans h.streams
  services := h'.services.trans h.services
  serviceCfg := h'.serviceCfg.trans h.serviceCfg
  mailbox := h'.mailbox.trans h.mailbox
  mailboxPipe := h'.mailboxPipe.trans h.mailboxPipe
  refs := h'.refs.trans h.refs
  messageId := h'.messageId.trans h.messageId
  offerId := h'.offerId.trans h.offerId

/-! ## A message -/

/-- The context that a message of the peer is for. -/
theorem waiting_clientRequire (hr : Reg s) (hw : Waiting s rid) {s₁ : Server}
    (h : s.clientRequire rid = (c, s₁)) :
    Untouched rid s s₁ ∧ s₁.clients.get rid = some c ∧
      ∃ k, s₁.ctx c = some k ∧ Unopened k := by
  have hr₁ := (reg_clientRequire hr h).1
  rcases clientRequire_cases h with ⟨hc, rfl⟩ | ⟨hn, rfl, rfl⟩
  · obtain ⟨k, hk, -, -⟩ := hr.hashed rid c hc
    exact ⟨.refl rid _, hc, k, hk, (hr.start_of hk (hw c k hc hk)).1⟩
  · have hctx : (s.clientNew rid).ctx s.clientId = some (.fresh rid) := by simp [clientNew_eq]
    refine ⟨⟨?_, ?_, rfl, rfl, rfl, rfl, rfl, rfl, rfl, rfl, rfl, rfl⟩, ?_, _, hctx,
      (hr₁.start_of hctx rfl).1⟩
    · intro d j
      have hget : (s.clientNew rid).clients.get rid = some s.clientId := by simp [clientNew_eq]
      rw [hget, hn]
      by_cases hd : d = s.clientId
      · -- the identity was not in use
        subst hd
        refine ⟨fun h => absurd rfl h.2, fun h => ?_⟩
        exact absurd (hr.fresh _ _ h.1) (Nat.lt_irrefl _)
      · have hne : s.clientId ≠ d := fun h => hd h.symm
        simp [clientNew_eq, Function.update_of_ne hd, hne]
    · intro key hkey
      simp [clientNew_eq, Table.get_set, hkey]
    · simp [clientNew_eq]

theorem protocolEvent_load (w : Wire) (p : Proto) :
    (protocolEvent (w.load p) = .connectionOpen ↔ w.id = .connectionOpen) ∧
      (protocolEvent (w.load p) = .connectionClose ↔ w.id = .connectionClose) := by
  have hid : Id.ofCode (w.load p).id = some w.id := by
    have : (w.load p).id = w.id.code := by cases w <;> rfl
    rw [this, Id.ofCode_code]
  simp only [protocolEvent, hid]
  cases w <;> simp [Wire.id]

/-- In the start state a message is answered with ERROR, unless it opens or
closes the connection. -/
theorem startState_of_external {e : Event} (he : e.External) (hne : e ≠ .expired)
    (hopen : e ≠ .connectionOpen) (hclose : e ≠ .connectionClose) :
    startState e = ([.signalCommandInvalid, .send .error], none) := by
  cases e <;> first | rfl | contradiction

theorem protocolEvent_ne_expired (p : Proto) : protocolEvent p ≠ .expired := by
  unfold protocolEvent
  split <;> simp

/-- How the server takes a message of the peer: the message object it is read
into, the context it is for and what the machine makes of it. -/
theorem step_request (hi : Idle rid s) (w : Wire) (r : Except Fault Server) {s₁ : Server}
    (hreq : (s.received (w.load { s.message with routingId := some rid }) []).clientRequire rid =
      (c, s₁))
    {n : Nat} (hr : r ≠ .error .fuel)
    (hx : execute rex n c (protocolEvent (w.load { s.message with routingId := some rid }))
      (s₁.hear c w.encode (w.load { s.message with routingId := some rid })) = r) :
    Outcome rex s (.request rid w) r := by
  refine ⟨n, ?_, hr⟩
  obtain ⟨body, more, he, -⟩ := recvBody_encode w s.message
  have hrid : (w.load { s.message with routingId := some rid }).routingId = some rid := by
    cases w <;> rfl
  have hgo : s.handleProtocol rex n (rid :: w.encode) = r := by
    simp only [handleProtocol, recv_encode, hrid, Option.getD_some]
    rw [show ({ s with message := _, rest := _, hand := none } : Server) = s.received _ _ from rfl,
      hreq]
    exact hx
  simp only [step, Label.request, hi.running, hi.rest]
  rw [if_neg (by simp), if_pos ⟨trivial, by rw [he]; simp⟩, hgo]

/-- **A message of a peer that has not opened** is answered, and leaves the
peer as it was, unless it is CONNECTION OPEN or CONNECTION CLOSE. -/
theorem idle_message (hi : Idle rid s) {w : Wire} (hopen : w.id ≠ .connectionOpen)
    (hclose : w.id ≠ .connectionClose) :
    ∃ s', (broker rex).step s (.request rid w) s' ∧ Untouched rid s s' ∧ Idle rid s' := by
  let p := w.load { s.message with routingId := some rid }
  have hr : Reg (s.received p []) := reg_received hi.regular.reg p []
  have hw : Waiting (s.received p []) rid := hi.waiting
  rcases hreq : (s.received p []).clientRequire rid with ⟨c, s₁⟩
  obtain ⟨hsame, hc, k, hk, hu⟩ := waiting_clientRequire hr hw hreq
  have hstart := startState_of_external (protocolEvent_external p) (protocolEvent_ne_expired p)
    (fun h => hopen ((protocolEvent_load w _).1.1 h))
    (fun h => hclose ((protocolEvent_load w _).2.1 h))
  have hstep : (broker rex).step s (.request rid w)
      ((((s₁.hear c w.encode p).enter c (protocolEvent p)).setStatus commandInvalid).answer c k
        .error) :=
    step_request (n := 2) hi w _ hreq (by simp) (execute_unopened hu hk hstart)
  refine ⟨_, hstep, ?_, (regular_inductive rex).step _ _ _ hi.regular hstep, ?_, ?_, ?_⟩
  · have hreceived : Untouched rid s (s.received p []) :=
      ⟨fun _ _ => .rfl, fun _ _ => rfl, rfl, rfl, rfl, rfl, rfl, rfl, rfl, rfl, rfl, rfl⟩
    have hanswered : Untouched rid s₁
        ((((s₁.hear c w.encode p).enter c (protocolEvent p)).setStatus commandInvalid).answer c k
          .error) :=
      ⟨fun _ _ => .rfl, fun _ _ => rfl, rfl, rfl, rfl, rfl, rfl, rfl, rfl, rfl, rfl, rfl⟩
    exact (hreceived.trans hsame).trans hanswered
  · rcases clientRequire_cases hreq with ⟨-, rfl⟩ | ⟨-, -, rfl⟩ <;> exact hi.running
  · rcases clientRequire_cases hreq with ⟨-, rfl⟩ | ⟨-, -, rfl⟩ <;> rfl
  · intro d j hd hj
    cases hc.symm.trans hd
    cases hk.symm.trans hj
    exact hu.state

/-- CONNECTION CLOSE faults. -/
theorem idle_close (hi : Idle rid s) {w : Wire} (hclose : w.id = .connectionClose) :
    Outcome rex s (.request rid w) (.error .nullPointer) := by
  let p := w.load { s.message with routingId := some rid }
  have hr : Reg (s.received p []) := reg_received hi.regular.reg p []
  have hw : Waiting (s.received p []) rid := hi.waiting
  rcases hreq : (s.received p []).clientRequire rid with ⟨c, s₁⟩
  obtain ⟨-, -, k, hk, hu⟩ := waiting_clientRequire hr hw hreq
  refine step_request (n := 1) hi w _ hreq (by simp) ?_
  rw [(protocolEvent_load w _).2.2 hclose]
  exact execute_close hu hk

/-! ## The timer -/

/-- **The timer of a client that has not opened** frees its context. -/
theorem idle_expiry (hi : Idle rid s) (hc : s.clients.get rid = some c) :
    ∃ s', (broker rex).step s (.expired c) s' ∧ Untouched rid s s' ∧ Idle rid s' := by
  obtain ⟨k, hk, hkey, hz⟩ := hi.regular.reg.hashed rid c hc
  obtain ⟨hu, hh⟩ := hi.regular.reg.start_of hk (hi.waiting c k hc hk)
  have hstep : (broker rex).step s (.expired c)
      (((s.enter c .expired).setStatus success).bury c k) := by
    refine ⟨1, ?_, by simp⟩
    simp only [step, hi.running, hk]
    rw [if_neg (by simp), if_pos ⟨hi.rest, hz⟩, execute_departed hu hk hh]
  refine ⟨_, hstep, ⟨?_, ?_, ?_, rfl, rfl, rfl, rfl, rfl, rfl, rfl, rfl, rfl⟩,
    (regular_inductive rex).step _ _ _ hi.regular hstep, hi.running, hi.rest, ?_⟩
  · intro d j
    have hgone : (((s.enter c .expired).setStatus success).bury c k).clients.get rid = none := by
      simp [hkey]
    rw [hgone, hc]
    by_cases hd : d = c
    · simp [hd, hu.refcount]
    · have hne : c ≠ d := fun h => hd h.symm
      simp [Function.update_of_ne hd, hne]
  · intro key hne
    have hne : key ≠ k.hashkey := by rw [hkey]; exact hne
    simp [Table.get_del, hne]
  · simp [hu.refcount]
  · intro d j hd
    simp [hkey] at hd

/-! ## Any sequence of them -/

/-- Without CONNECTION OPEN and CONNECTION CLOSE every sequence is handled. -/
theorem inputs_total {is : List Input} (hi : Idle rid s)
    (hopen : ∀ w, .message w ∈ is → w.id ≠ .connectionOpen)
    (hclose : ∀ w, .message w ∈ is → w.id ≠ .connectionClose) :
    ∃ s', Inputs rex rid is s s' ∧ Untouched rid s s' := by
  induction is generalizing s with
  | nil => exact ⟨s, .nil s, .refl rid s⟩
  | cons i is ih =>
    have hopen' : ∀ w, .message w ∈ is → w.id ≠ .connectionOpen :=
      fun w hw => hopen w (List.mem_cons_of_mem _ hw)
    have hclose' : ∀ w, .message w ∈ is → w.id ≠ .connectionClose :=
      fun w hw => hclose w (List.mem_cons_of_mem _ hw)
    cases i with
    | message w =>
      obtain ⟨s₁, hstep, hsame, hi₁⟩ :=
        idle_message hi (hopen w List.mem_cons_self) (hclose w List.mem_cons_self)
      obtain ⟨s', hrun, hsame'⟩ := ih hi₁ hopen' hclose'
      exact ⟨s', .message hstep hrun, hsame.trans hsame'⟩
    | expiry =>
      cases hc : s.clients.get rid with
      | none =>
        obtain ⟨s', hrun, hsame⟩ := ih hi hopen' hclose'
        exact ⟨s', .idle hc hrun, hsame⟩
      | some c =>
        obtain ⟨s₁, hstep, hsame, hi₁⟩ := idle_expiry hi hc
        obtain ⟨s', hrun, hsame'⟩ := ih hi₁ hopen' hclose'
        exact ⟨s', .expiry hc hstep hrun, hsame.trans hsame'⟩

/-- A sequence that is handled to its end has no CONNECTION CLOSE. -/
theorem no_close_of_inputs {is : List Input} (hi : Idle rid s)
    (hopen : ∀ w, .message w ∈ is → w.id ≠ .connectionOpen) (h : Inputs rex rid is s s') :
    ∀ w, .message w ∈ is → w.id ≠ .connectionClose := by
  induction h with
  | nil _ => simp
  | @message w is s s₁ s' hstep _ ih =>
    have hclose : w.id ≠ .connectionClose := by
      intro hw
      cases Outcome.unique hstep (idle_close hi hw)
    obtain ⟨s₂, hstep₂, -, hi₂⟩ := idle_message hi (hopen w List.mem_cons_self) hclose
    cases Outcome.unique hstep hstep₂
    have hrest := ih hi₂ fun w hw => hopen w (List.mem_cons_of_mem _ hw)
    intro v hv
    rcases List.mem_cons.1 hv with hv | hv
    · cases hv
      exact hclose
    · exact hrest v hv
  | @expiry c is s s₁ s' hc hstep _ ih =>
    obtain ⟨s₂, hstep₂, -, hi₂⟩ := idle_expiry hi hc
    cases Outcome.unique hstep hstep₂
    have hrest := ih hi₂ fun w hw => hopen w (List.mem_cons_of_mem _ hw)
    intro v hv
    exact hrest v ((List.mem_cons.1 hv).resolve_left (by simp))
  | @idle is s s' _ _ ih =>
    have hrest := ih hi fun w hw => hopen w (List.mem_cons_of_mem _ hw)
    intro v hv
    exact hrest v ((List.mem_cons.1 hv).resolve_left (by simp))

theorem idle_of_reachable (hreach : (broker rex).Reachable s) (hrun : s.running = true)
    (hrest : s.rest = []) (hw : Waiting s rid) : Idle rid s :=
  ⟨(regular_inductive rex).reachable s hreach, hrun, hrest, hw⟩

theorem waiting_of_start (hc : s.clients.get rid = some c)
    (hk : ((s.ctx c).any fun k => k.state = .start) = true) : Waiting s rid := by
  intro d k hd hk'
  cases hc.symm.trans hd
  rw [hk', Option.any_some] at hk
  exact of_decide_eq_true hk

/-- **A peer that does not open a connection can do no harm, iff it does not
close one either.** -/
theorem unopened_untouched_iff {is : List Input} (hreach : (broker rex).Reachable s)
    (hrun : s.running = true) (hrest : s.rest = []) (hw : Waiting s rid)
    (hopen : ∀ w, .message w ∈ is → w.id ≠ .connectionOpen) :
    (∃ s', Inputs rex rid is s s' ∧ Untouched rid s s') ↔
      ∀ w, .message w ∈ is → w.id ≠ .connectionClose := by
  have hi := idle_of_reachable hreach hrun hrest hw
  exact ⟨fun ⟨_, h, _⟩ => no_close_of_inputs hi hopen h, inputs_total hi hopen⟩

end

/-- Client 0 reads the stream "s" and offers a service; client 1 publishes on the stream, asks for
another service and writes to a mailbox; client 2 has only sent a PING. -/
def busyRun : List Label :=
  [.request [2] (.connectionOpen (.ofBytes [98])), .request [3] (.connectionOpen (.ofBytes [99])),
    .request [2] (.streamRead (.ofBytes [115]) .empty), .command (.ofBytes [115]),
    .request [2] (.serviceOffer (.ofBytes [115]) .empty),
    .request [3] (.streamWrite (.ofBytes [115])), .request [3] (.streamSend .empty [[7]]),
    .request [3] (.serviceSend (.ofBytes [116]) .empty .empty 0 [[8]]),
    .request [3] (.mailboxSend (.ofBytes [100]) .empty .empty 0 [[9]]), .mailbox,
    .request [1] .connectionPing]

/-- After it client 2 sends what it may not send, and PINGs, and its timer runs out. -/
theorem unopened_untouched_ping : ∃ s, (broker fun _ _ => true).Reachable s ∧
    s.clients.get [1] = some 2 ∧ s.addresses.keys.length = 2 ∧
    ((s.streams.get (.ofBytes [115])).any fun st =>
      st.selectors.length = 1 ∧ st.pending.length = 1) = true ∧
    (s.service (.ofBytes [115])).offers.items.length = 1 ∧
    (s.service (.ofBytes [116])).queue.items.length = 1 ∧
    ((s.mailbox.mailboxes.get (.ofBytes [100])).map (·.items.length)) = some 1 ∧
    ∃ s', Inputs (fun _ _ => true) [1] [.message (.streamSend .empty [[7]]),
      .message .connectionPing, .expiry, .message .connectionPing] s s' ∧ Untouched [1] s s' := by
  have h : ((Server.new.steps (fun _ _ => true) (fun _ _ => True) 20 busyRun).any fun s =>
      (s.running = true ∧ s.rest = [] ∧ ((s.ctx 2).any fun k => k.state = .start) = true) ∧
      s.clients.get [1] = some 2 ∧ s.addresses.keys.length = 2 ∧
      ((s.streams.get (.ofBytes [115])).any fun st =>
        st.selectors.length = 1 ∧ st.pending.length = 1) = true ∧
      (s.service (.ofBytes [115])).offers.items.length = 1 ∧
      (s.service (.ofBytes [116])).queue.items.length = 1 ∧
      ((s.mailbox.mailboxes.get (.ofBytes [100])).map (·.items.length)) = some 1) = true := by
    decide +kernel
  obtain ⟨s, hs, hp⟩ := (Option.any_eq_true _ _).1 h
  obtain ⟨⟨hrun, hrest, hstart⟩, hc, haddr, hstream, hoffer, hqueue, hmail⟩ := of_decide_eq_true hp
  have hreach := (reachable_of_steps hs).of_within
  exact ⟨s, hreach, hc, haddr, hstream, hoffer, hqueue, hmail,
    (unopened_untouched_iff hreach hrun hrest (waiting_of_start hc hstart) (by simp [Wire.id])).2
      (by simp [Wire.id])⟩

/-- A client has sent PING and then CONNECTION CLOSE. -/
theorem close_before_open : ∃ s k, (broker fun _ _ => true).Reachable s ∧ s.running = true ∧
    s.rest = [] ∧ s.clients.get [1] = some 0 ∧ s.ctx 0 = some k ∧ k.state = .start ∧
    k.address = none ∧
    Outcome (fun _ _ => true) s (.request [1] .connectionClose) (.error .nullPointer) ∧
    ¬ ∃ s', Inputs (fun _ _ => true) [1] [.message .connectionClose] s s' := by
  have hping : ((Server.new.steps (fun _ _ => true) (fun _ _ => True) 20
      [.request [1] .connectionPing]).any fun s => s.running = true ∧ s.rest = [] ∧
        s.clients.get [1] = some 0 ∧
        ((s.ctx 0).any fun k => k.state = .start ∧ k.address = none) = true) = true := by
    decide +kernel
  obtain ⟨s, hs, hp⟩ := (Option.any_eq_true _ _).1 hping
  obtain ⟨hrun, hrest, hc, hk⟩ := of_decide_eq_true hp
  obtain ⟨k, hk, hstart⟩ := (Option.any_eq_true _ _).1 hk
  obtain ⟨hstate, haddr⟩ := of_decide_eq_true hstart
  have hreach := (reachable_of_steps hs).of_within
  have hw : Waiting s [1] := waiting_of_start hc (by simp [hk, hstate])
  have hfault : Outcome (fun _ _ => true) s (.request [1] .connectionClose)
      (.error .nullPointer) := idle_close (idle_of_reachable hreach hrun hrest hw) rfl
  refine ⟨s, k, hreach, hrun, hrest, hc, hk, hstate, haddr, hfault, ?_⟩
  rintro ⟨s', hin⟩
  cases hin with
  | message hstep _ => cases Outcome.unique hstep hfault

end Malamute.L3
