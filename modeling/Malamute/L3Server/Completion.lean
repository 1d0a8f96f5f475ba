import Malamute.L3Server.Ending

/-!
# Every event is processed to completion, or the server is gone

`Halts s c e` lists the events that end in a fault. `execute_ends`: an event of
a client that is not on the list is executed to its end, nested executions and
follow-up events and all; `execute_halts`: an event on the list is not.

`events_complete_iff` is the same for the steps of the broker: every step that
is possible ends, and unless it is one of `Aborts` it ends in a state in which
no message waits for a client that is connected.
-/
namespace Malamute.L3
open Malamute.Core Malamute.L1 Malamute.L2 Server

/-- The events that the server does not survive. -/
inductive Halts (rex : Str → Str → Bool) (s : Server) (c : Cid) : Event → Prop where
  /-- `client_closed_connection` follows the address of a client that has none -/
  | closes {k : Client} : s.ctx c = some k → k.state = .start → Halts rex s c .connectionClose
  /-- the mailbox engine, asked for the messages of the new client, finds one
  without content in its pipe -/
  | opens {k : Client} : s.ctx c = some k → k.state = .start → s.message.address ≠ .empty →
      Bodiless s → Halts rex s c .connectionOpen
  /-- asked for those of the client that a message has been delivered to -/
  | mails {k : Client} {target : Cid} : s.ctx c = some k → k.state = .connected →
      s.addresses.get s.message.address = some target → Bodiless s → Halts rex s c .mailboxSend
  /-- a request without content, that no offer takes, goes to the queue -/
  | requests {k : Client} : s.ctx c = some k → k.state = .connected → s.message.content = none →
      (∀ o ∈ (s.service s.message.address).offers.items,
        rex o.pattern s.message.subject = false) → Halts rex s c .serviceSend

/-- The message in `parts` is read from a client, and its event is one of these. -/
inductive Fatal (rex : Str → Str → Bool) (s : Server) (parts : List Frame) : Prop where
  | intro {p : Proto} {rest : List Frame} {c : Cid} {s₁ : Server} :
      recv s.message parts = (p, .ok, rest) →
      (s.received p rest).clientRequire (p.routingId.getD []) = (c, s₁) →
      Halts rex (s₁.hear c parts.tail p) c (protocolEvent p) → Fatal rex s parts

/-- The steps that the broker does not survive. -/
inductive Aborts (rex : Str → Str → Bool) (s : Server) : Label → Prop where
  | router {rid : Key} {frames : List Frame} : Fatal rex s (rid :: frames) →
      Aborts rex s (.router rid frames)
  | more : Fatal rex s s.rest → Aborts rex s .more
  /-- a stream has sent something for a client that has been freed -/
  | traffic {name : Str} {st : Stream} {t : Traffic} {up : List Traffic} {c : Cid} :
      s.streams.get name = some st → st.up = t :: up → (t = .ack c ∨ ∃ m, t = .deliver c m) →
      s.ctx c = none → Aborts rex s (.traffic name)
  /-- the mailbox engine reads a message without content -/
  | mailbox {a : Str} {m : Msg} {pipe : List (Str × Msg)} : s.mailboxPipe = (a, m) :: pipe →
      m.content = none → Aborts rex s .mailbox
  | configure {service mailbox : MsgqCfg} : Bodiless s → Aborts rex s (.configure service mailbox)

/-- No message waits for a client that is connected. -/
def Drained (s : Server) : Prop :=
  ∀ c k a, s.ctx c = some k → k.state = .connected → k.address = some a → a ≠ .empty →
    s.waiting (.mailbox a) = []

/-- The step ends, and leaves no message behind. -/
def Completes (rex : Str → Str → Bool) (s : Server) (l : Label) : Prop :=
  ∃ s', Outcome rex s l (.ok s') ∧ Drained s'

namespace Server

/-- What is left of a round: actions, and the end of the round. -/
def round (rex : Str → Str → Bool) (c : Cid) (next : Option State) (as : List Action) (s : Server)
    (n : Nat) : Except Fault Server :=
  runActions (runAction rex (execute rex n) n c) c as s >>= finish rex n c next

end Server

section
variable {rex : Str → Str → Bool} {ok : MsgqCfg → MsgqCfg → Prop} {s s₁ s' : Server} {c : Cid}
  {k : Client} {a name : Str} {m : Msg} {next : Option State} {acts : List Action} {e : Event}
  {r : Except Fault Server}

/-! ## Rounds -/

theorem ends_round (hk : s.ctx c = some k) (hq : Quiet k)
    (ht : transition k.state e = some (acts, next))
    (h : Ends (round rex c next acts (s.enter c e)) r) :
    Ends (fun n => execute rex n c e s) r :=
  .succ (h.congr fun _ => execute_round hk hq.nextEvent hq.exception ht)

theorem round_cons {act : Action} {n : Nat} (hk : s.ctx c = some k) (hq : Quiet k) :
    round rex c next (act :: acts) s n =
      (runAction rex (execute rex n) n c act s >>= fun s => round rex c next acts s n) := by
  rw [Server.round, runActions_cons hk hq.exception]
  cases runAction rex (execute rex n) n c act s with
  | error f => rfl
  | ok s₂ => rfl

theorem ends_action {act : Action} (hk : s.ctx c = some k) (hq : Quiet k)
    (ha : Ends (fun n => runAction rex (execute rex n) n c act s) (.ok s₁))
    (h : Ends (round rex c next acts s₁) r) : Ends (round rex c next (act :: acts) s) r :=
  (ha.bind (g := fun n s => round rex c next acts s n) h).congr fun _ => round_cons hk hq

theorem halts_action {act : Action} {f : Fault} (hk : s.ctx c = some k) (hq : Quiet k)
    (ha : Ends (fun n => runAction rex (execute rex n) n c act s) (.error f)) :
    Ends (round rex c next (act :: acts) s) (.error f) :=
  (ha.error (g := fun n s => round rex c next acts s n)).congr fun _ => round_cons hk hq

/-- The last action of a round. -/
theorem ends_final {act : Action} (hk : s.ctx c = some k) (hq : Quiet k)
    (h : Ends (fun n => runAction rex (execute rex n) n c act s >>= finish rex n c next) r) :
    Ends (round rex c next [act] s) r :=
  h.congr fun _ => round_cons hk hq

theorem ends_last (hk : s.ctx c = some k) (hq : Quiet k) :
    Ends (round rex c none [] s) (.ok s) := by
  refine .succ (.always fun n => ?_)
  rw [Server.round, runActions_nil, ok_bind, finish_quiet_eq hk hq.nextEvent hq.exception,
    Option.getD_none, setClient_self hk]

/-- A round that ends with sending a reply. -/
theorem ends_answer {i : Id} (hk : s.ctx c = some k) (hq : Quiet k) :
    Ends (round rex c none [.send i] s) (.ok (s.answer c k i)) :=
  ends_action hk hq (.always fun _ => send_eq hk i) (ends_last (k := k) hk hq)

/-- A round that ends with an exception. -/
theorem ends_fail (ho : Open s c k a) : Ends
    (round rex c none [] (s.setClient c { k with exception := some .exception }))
      (.ok (s.fail c k a)) :=
  .succ (.always fun _ => finish_fail_eq ho)

theorem ends_leave (ho : Open s c k a) :
    Ends (round rex c none [.deregisterTheClient, .terminate] s) (.ok (s.leave c k a)) :=
  .always fun _ => run_leave ho

/-! ## Actions that start executions -/

/-- A message for the mailbox of a client that is there goes to it at once. -/
theorem mailing_eq {ex : Exec} {target : Cid} {t : Client} (ho : Open s c k a)
    (htarget : s.addresses.get s.message.address = some target)
    (ht : Open s target t s.message.address) : s.writeMessageToMailbox ex c =
      ex target .mailboxMessage
        ((s.mailing c a).setClient target { t with msg := some (s.messageFrom a) }) := by
  have hget : (((s.newMsg (s.messageFrom a)).setMessage s.message.takeContent).log
      (.mailed c (s.messageFrom a))).addresses.get (s.messageFrom a).address = some target :=
    htarget
  have hctx : (((s.newMsg (s.messageFrom a)).setMessage s.message.takeContent).log
      (.mailed c (s.messageFrom a))).ctx target = some t := ht.ctx
  simp only [writeMessageToMailbox, client_of ho.ctx, ok_bind, ho.address, hget, client_of hctx]
  rw [if_neg (by rw [ht.quiet.msg]; simp), sendEvent,
    client_of (k := { t with msg := some (s.messageFrom a) }) (by simp), ok_bind,
    if_neg (by rw [ht.state]; simp)]
  rfl

theorem mailing_ends (rex : Str → Str → Bool) (hr : Reg s) (h : Queues ok s) (ho : Open s c k a)
    (hb : s.addresses.get s.message.address = none ∨ ¬Bodiless s) :
    ∃ s', Ends (fun n => s.writeMessageToMailbox (execute rex n) c) (.ok s') := by
  cases htarget : s.addresses.get s.message.address with
  | none =>
    have hget : (((s.newMsg (s.messageFrom a)).setMessage s.message.takeContent).log
        (.mailed c (s.messageFrom a))).addresses.get (s.messageFrom a).address = none := htarget
    refine ⟨(s.mailing c a).setMailbox s.mailbox
      (s.mailboxPipe ++ [(s.message.address, s.messageFrom a)]), .always fun n => ?_⟩
    simp only [writeMessageToMailbox, client_of ho.ctx, ok_bind, ho.address, hget]
    rfl
  | some target =>
    obtain ⟨-, t, ht⟩ := hr.registered _ _ htarget
    have hopen : Open (s.mailing c a) target t s.message.address := ht.frame rfl rfl rfl
    have hqueues : Queues ok (s.mailing c a) := h.frame rfl (fun _ => rfl) rfl
    have hnone : ¬Bodiless (s.mailing c a) := hb.resolve_left (by rw [htarget]; simp)
    obtain ⟨s', hend⟩ := mailbox_ends rex (s.messageFrom a) hopen hqueues (.inr hnone)
    exact ⟨s', hend.congr fun n => mailing_eq ho htarget ht⟩

theorem mailing_halts (rex : Str → Str → Bool) {target : Cid} (hr : Reg s) (h : Queues ok s)
    (ho : Open s c k a)
    (htarget : s.addresses.get s.message.address = some target) (hb : Bodiless s) :
    Ends (fun n => s.writeMessageToMailbox (execute rex n) c) (.error .assertion) := by
  obtain ⟨hne, t, ht⟩ := hr.registered _ _ htarget
  have hopen : Open (s.mailing c a) target t s.message.address := ht.frame rfl rfl rfl
  have hqueues : Queues ok (s.mailing c a) := h.frame rfl (fun _ => rfl) rfl
  have hend := mailbox_halts rex (s.messageFrom a) hopen hqueues hne hb
  exact hend.congr fun n => mailing_eq ho htarget ht

/-- A request: it is dispatched, or goes to the queue of the service. -/
theorem requesting_eq {ex : Exec} {s₁ : Server} {b : Bool} (ho : Open s c k a)
    (hd : (s.requesting c a).serviceDispatchMessage rex ex s.message.address (s.messageFrom a) =
      .ok (s₁, b)) : s.writeMessageToService rex ex c = if b then .ok s₁ else (do
        let (queue, verdict) ← (s₁.service s.message.address).queue.enqueue s₁.serviceCfg
          (s.messageFrom a)
        match verdict with
        | .queued _ => .ok (s₁.setService s.message.address
            ((s₁.service s.message.address).setQueue queue))
        | .refused => .ok (((s₁.setService s.message.address
            ((s₁.service s.message.address).setQueue queue)).unlink (s.messageFrom a)).log
              (.dropped (.service s.message.address) (s.messageFrom a)))) := by
  simp only [writeMessageToService, client_of ho.ctx, ok_bind, ho.address]
  have hd' : ((((s.newMsg (s.messageFrom a)).setMessage s.message.takeContent).log
      (.requested c (s.messageFrom a))).serviceRequire
        (s.messageFrom a).address).serviceDispatchMessage rex ex (s.messageFrom a).address
          (s.messageFrom a) = .ok (s₁, b) := hd
  rw [hd']
  cases b with
  | true => rfl
  | false => rfl

theorem requesting_open (hr : Reg s) (c : Cid) (a : Str) :
    OffersOpen (s.requesting c a) s.message.address :=
  (hr.offers s.message.address).frame (by rw [service_requesting]) rfl rfl rfl

theorem requesting_ends (rex : Str → Str → Bool) (hr : Reg s) (h : Queues ok s) (ho : Open s c k a)
    (hb : s.message.content ≠ none ∨
      ∃ o ∈ (s.service s.message.address).offers.items, rex o.pattern s.message.subject = true) :
    ∃ s', Ends (fun n => s.writeMessageToService rex (execute rex n) c) (.ok s') := by
  have hoffers := requesting_open hr c a
  have hqueues : Queues ok (s.requesting c a) :=
    h.frame rfl (fun name => by rw [service_requesting]) rfl
  obtain ⟨s₁, b, heq⟩ := dispatch_ends rex hoffers (s.messageFrom a)
  have hd := dispatch_ok hoffers (heq 0)
  cases b with
  | true => exact ⟨s₁, .succ (.succ (.always fun n => requesting_eq ho (heq n)))⟩
  | false =>
    have hcontent : (s.messageFrom a).content ≠ none := by
      refine hb.resolve_right ?_
      rintro ⟨o, hmem, hmatch⟩
      have hnot := (dispatched_false hd).2 o (by rw [service_requesting]; exact hmem)
      cases hmatch.symm.trans hnot
    obtain ⟨q, v, henq⟩ := enqueue_ok s₁.serviceCfg
      ((queues_dispatched hqueues hd).service s.message.address) hcontent
    generalize hs₂ : s₁.setService s.message.address
      ((s₁.service s.message.address).setQueue q) = s₂
    cases v with
    | queued w =>
      refine ⟨s₂, .succ (.succ (.always fun n => (requesting_eq ho (heq n)).trans ?_))⟩
      rw [if_neg Bool.false_ne_true, henq, ← hs₂]
      rfl
    | refused =>
      refine ⟨(s₂.unlink (s.messageFrom a)).log (.dropped (.service s.message.address)
        (s.messageFrom a)), .succ (.succ (.always fun n => (requesting_eq ho (heq n)).trans ?_))⟩
      rw [if_neg Bool.false_ne_true, henq, ← hs₂]
      rfl

theorem requesting_halts (hr : Reg s) (ho : Open s c k a) (hm : s.message.content = none)
    (hnot : ∀ o ∈ (s.service s.message.address).offers.items,
      rex o.pattern s.message.subject = false) :
    Ends (fun n => s.writeMessageToService rex (execute rex n) c) (.error .assertion) := by
  have hoffers := requesting_open hr c a
  obtain ⟨s₁, b, heq⟩ := dispatch_ends rex hoffers (s.messageFrom a)
  have hd := dispatch_ok hoffers (heq 0)
  cases b with
  | true =>
    obtain ⟨⟨o, hmem, hmatch⟩, -⟩ := dispatched_true hd
    rw [service_requesting] at hmem
    cases hmatch.symm.trans (hnot o hmem)
  | false =>
    refine .succ (.succ (.always fun n => (requesting_eq ho (heq n)).trans ?_))
    rw [if_neg Bool.false_ne_true, enqueue_bodiless hm, error_bind]

/-- SERVICE OFFER: the offer is stored, and the queue scanned. -/
theorem offering_ends (rex : Str → Str → Bool) (hr : Reg s) (h : Queues ok s) (ho : Open s c k a) :
    ∃ s', Ends (round rex c none [.storeServiceOffer, .send .ok, .dispatchTheService] s)
      (.ok s') := by
  have hq := ho.quiet
  have hoff : Open (s.offering c k) c k a := ho.frame rfl rfl rfl
  obtain ⟨s₀, hstore, hctx₀, hans⟩ : ∃ s₀, s.storeServiceOffer c = .ok s₀ ∧ s₀.ctx c = some k ∧
      s₀.answer c k .ok = s.offering c k := ⟨_, rfl, ho.ctx, rfl⟩
  have hqueues : Queues ok (s.offering c k) := by
    refine h.frame rfl (fun name => ?_) rfl
    rw [service_offering]
    split <;> rfl
  have hoffers : OffersOpen (s.offering c k) s.message.address := by
    intro o hmem
    rw [service_offering, if_pos rfl, Service.setOffers_offers, CursorList.items_addEnd,
      List.mem_append, List.mem_singleton] at hmem
    rcases hmem with hmem | rfl
    · obtain ⟨t, b, ht⟩ := hr.offers _ o hmem
      exact ⟨t, b, ht.frame rfl rfl rfl⟩
    · exact ⟨k, a, hoff⟩
  obtain ⟨s₁, n, heq⟩ := dispatchService_ends rex hoffers hqueues
  have hscan := offered_ok ho hr (heq n (Nat.le_refl n))
  have hctx : s₁.ctx c = some k := by rw [(scan_same hscan).ctx]; exact ho.ctx
  refine ⟨s₁, ends_action ho.ctx hq (.always fun _ => hstore)
    (ends_action hctx₀ hq (.always fun _ => send_eq hctx₀ .ok) ?_)⟩
  rw [hans]
  exact ends_action hoff.ctx hq ⟨n, heq⟩ (ends_last hctx hq)

/-! ## The events of the start state -/

theorem registering_ends (rex : Str → Str → Bool) (hr : Reg s) (hk : s.ctx c = some k)
    (hs : k.state = .start) : ∃ s', ∀ n, s.registerNewClient (execute rex (n + 1)) c = .ok s' := by
  simp only [registerNewClient, modifyClient_of hk, ok_bind]
  generalize s.message.address = a
  by_cases hempty : a = .empty
  · exact ⟨_, fun n => by rw [if_pos hempty]⟩
  simp only [hempty, if_false, setClient_addresses]
  cases hold : s.addresses.get a with
  | none =>
    simp only [ok_bind, deleteAddress, setClient_addresses, hold]
    exact ⟨_, fun n => rfl⟩
  | some old =>
    obtain ⟨-, t, ht⟩ := hr.registered a old hold
    have hne : old ≠ c := by
      rintro rfl
      cases (ht.connected_of hk).symm.trans hs
    have ht' : Open (s.setClient c { k with address := some a }) old t a := ht.setClient_ne hne _
    simp only [sendEvent, client_of ht'.ctx, ok_bind, if_neg (show ¬t.state = .zombie by
      rw [ht'.state]; simp), execute_expired_eq ht', deleteAddress]
    have hnone : (((s.setClient c { k with address := some a }).enter old .expired).leave old t
        a).addresses.get a = none := by simp [leave, hempty]
    simp only [hnone, ok_bind]
    exact ⟨_, fun n => rfl⟩

/-- CONNECTION OPEN comes down to the look into the mailbox of the new client,
from a state `d` in which nothing has been done to mailboxes. -/
theorem opening_round (rex : Str → Str → Bool) (hr : Reg s) (h : Queues ok s)
    (hk : s.ctx c = some k) (hs : k.state = .start) (ha : s.message.address = a) :
    ∃ d : Server, Queues ok d ∧ d.mailboxPipe = s.mailboxPipe ∧
      Open (d.setClient c (k.opened a)) c (k.opened a) a ∧
      ∀ r, Ends (fun n =>
          (d.setClient c { k with address := some a }).checkForMailboxMessages c >>=
            finish rex n c (some .connected)) r →
        Ends (fun n => execute rex n c .connectionOpen s) r := by
  obtain ⟨hu, hh⟩ := hr.start_of hk hs
  have hreg : Reg (s.enter c .connectionOpen) := hr.frame rfl rfl rfl rfl hr.offers
  obtain ⟨s₂, hregister⟩ := registering_ends rex hreg hk hs
  obtain ⟨s₁, hev, -, rfl⟩ := register_ok hreg hk hs ha (hregister 0)
  have hopen := open_register (a := a) hu.quiet (hev.hashed hk hs hh)
  have hqueues := queues_evicted (queues_enter h c .connectionOpen) hev
  have hpipe : s₁.mailboxPipe = s.mailboxPipe := by
    cases hev with
    | nobody _ => rfl
    | holder _ _ _ => rfl
  generalize hd : (if a = .empty then s₁ else s₁.setAddresses (s₁.addresses.set a c)).setStatus
    success = d at hregister
  refine ⟨d.answer c (k.opened a) .ok, ?_, ?_, ?_, fun r hend => ?_⟩
  · refine Queues.frame hqueues ?_ ?_ ?_
    · rw [← hd]
      split <;> rfl
    · intro name
      rw [← hd]
      split <;> rfl
    · rw [← hd]
      split <;> rfl
  · rw [← hpipe, ← hd]
    split <;> rfl
  · rw [← hd]
    exact hopen
  · have hact : ∀ n, runAction rex (execute rex (n + 1)) (n + 1) c .registerNewClient
        (s.enter c .connectionOpen) = .ok (d.setClient c { k with address := some a }) := hregister
    refine ends_round hk hu.quiet (by rw [hs]; rfl) (ends_action hk hu.quiet
      (.succ (.always hact)) ?_)
    have hquiet : Quiet { k with address := some a } :=
      ⟨hu.quiet.nextEvent, hu.quiet.exception, hu.quiet.msg⟩
    have hsend := send_eq (s := d.setClient c { k with address := some a })
      (k := { k with address := some a }) (c := c) (by simp) .ok
    refine ends_action (k := { k with address := some a }) (by simp) hquiet
      (.always fun _ => hsend) ?_
    exact ends_final (k := { k with address := some a }) (by simp) hquiet hend

theorem opening_ends (rex : Str → Str → Bool) (hr : Reg s) (h : Queues ok s)
    (hk : s.ctx c = some k) (hs : k.state = .start)
    (hb : s.message.address = .empty ∨ ¬Bodiless s) :
    ∃ s', Ends (fun n => execute rex n c .connectionOpen s) (.ok s') := by
  obtain ⟨hu, -⟩ := hr.start_of hk hs
  obtain ⟨d, hqueues, hpipe, hopen, hround⟩ := opening_round rex hr h hk hs rfl
  have hz : k.state ≠ .zombie := by rw [hs]; simp
  have hnone : s.message.address = .empty ∨ ¬Bodiless d := by
    unfold Bodiless
    rw [hpipe]
    exact hb
  obtain ⟨s', hend⟩ := check_ends rex (k := { k with address := some s.message.address })
    ⟨hu.quiet.nextEvent, hu.quiet.exception, hu.quiet.msg⟩ hz rfl hopen hqueues hnone
  exact ⟨s', hround _ hend⟩

theorem opening_halts (rex : Str → Str → Bool) (hr : Reg s) (h : Queues ok s)
    (hk : s.ctx c = some k) (hs : k.state = .start) (ha : s.message.address ≠ .empty)
    (hb : Bodiless s) :
    Ends (fun n => execute rex n c .connectionOpen s) (.error .assertion) := by
  obtain ⟨hu, -⟩ := hr.start_of hk hs
  obtain ⟨d, hqueues, hpipe, -, hround⟩ := opening_round rex hr h hk hs rfl
  have hz : k.state ≠ .zombie := by rw [hs]; simp
  have hsome : Bodiless d := by
    unfold Bodiless
    rw [hpipe]
    exact hb
  exact hround _ (check_halts rex c (k := { k with address := some s.message.address })
    ⟨hu.quiet.nextEvent, hu.quiet.exception, hu.quiet.msg⟩ hz rfl hqueues ha hsome)

theorem start_ends (hr : Reg s) (h : Queues ok s) (hk : s.ctx c = some k) (hs : k.state = .start)
    (he : e.External) (hh : ¬Halts rex s c e) :
    ∃ s', Ends (fun n => execute rex n c e s) (.ok s') := by
  obtain ⟨hu, hhash⟩ := hr.start_of hk hs
  have hunopened (hc : startState e = ([.signalCommandInvalid, .send .error], none)) :
      ∃ s', Ends (fun n => execute rex n c e s) (.ok s') :=
    ⟨_, .succ (.succ (.always fun n => execute_unopened hu hk hc))⟩
  cases e with
  | connectionOpen =>
    refine opening_ends rex hr h hk hs ?_
    by_contra hb
    obtain ⟨ha, hb⟩ := not_or.1 hb
    exact hh (.opens hk hs ha (not_not.1 hb))
  | connectionClose => exact absurd (.closes hk hs) hh
  | expired => exact ⟨_, .succ (.always fun n => execute_departed hu hk hhash)⟩
  | streamMessage => exact he.elim
  | mailboxMessage => exact he.elim
  | serviceMessage => exact he.elim
  | exception => exact he.elim
  | _ => exact hunopened rfl

/-! ## The events of an open client -/

theorem open_ends (hr : Reg s) (h : Queues ok s) (ho : Open s c k a) (he : e.External)
    (hh : ¬Halts rex s c e) : ∃ s', Ends (fun n => execute rex n c e s) (.ok s') := by
  have hq := ho.quiet
  have hopen : Open (s.enter c e) c k a := ho.frame rfl rfl rfl
  have hreg : Reg (s.enter c e) := hr.frame rfl rfl rfl rfl hr.offers
  have hqueues := queues_enter h c e
  have hregistered : ∀ b d, (s.enter c e).addresses.get b = some d →
      ∃ t, Open (s.enter c e) d t b :=
    fun b d hd => (hreg.registered b d hd).2
  have hround {acts} {r} (hc : connectedState e = (acts, none))
      (hend : Ends (round rex c none acts (s.enter c e)) r) :
      Ends (fun n => execute rex n c e s) r :=
    ends_round ho.ctx hq (by rw [ho.state, transition, hc]) hend
  -- the handlers that every unexpected event shares
  have hinvalid (hc : connectedState e =
      ([.signalCommandInvalid, .send .error, .deregisterTheClient, .terminate], none)) :
      ∃ s', Ends (fun n => execute rex n c e s) (.ok s') := by
    have hs : Open ((s.enter c e).setStatus commandInvalid) c k a := ho.frame rfl rfl rfl
    have ha : Open (((s.enter c e).setStatus commandInvalid).answer c k .error) c k a :=
      ho.frame rfl rfl rfl
    exact ⟨_, hround hc (ends_action hopen.ctx hq (.always fun _ => rfl)
      (ends_action hs.ctx hq (.always fun _ => send_eq hs.ctx .error) (ends_leave ha)))⟩
  cases e with
  | terminate => exact hinvalid rfl
  | connectionOpen => exact hinvalid rfl
  | streamMessage => exact he.elim
  | mailboxMessage => exact he.elim
  | serviceMessage => exact he.elim
  | exception => exact he.elim
  | streamWrite =>
    exact ⟨_, hround rfl (ends_action hopen.ctx hq
      (.always fun _ => storeStreamWriter_eq hopen.ctx)
      (ends_answer (k := { k with writer := some s.message.stream }) (by simp)
        ⟨hq.nextEvent, hq.exception, hq.msg⟩))⟩
  | streamRead =>
    exact ⟨_, hround rfl (ends_action hopen.ctx hq
      (.always fun _ => storeStreamReader_eq hopen.ctx)
      (ends_answer (k := k.reading s.message.stream) (by simp)
        ⟨hq.nextEvent, hq.exception, hq.msg⟩))⟩
  | streamCancel =>
    exact ⟨_, hround rfl (ends_action hopen.ctx hq
      (.always fun _ => cancelStreamReader_eq hopen.ctx)
      (ends_answer (k := { k with readers := k.readers.tail }) (by simp)
        ⟨hq.nextEvent, hq.exception, hq.msg⟩))⟩
  | streamSend =>
    cases hw : k.writer with
    | none =>
      exact ⟨_, hround rfl (ends_action hopen.ctx hq
        (.always fun _ => writeMessageToStream_none hopen hw) (ends_fail hopen))⟩
    | some name =>
      exact ⟨_, hround rfl (ends_action hopen.ctx hq
        (.always fun _ => writeMessageToStream_some hopen hw) (ends_last (k := k) ho.ctx hq))⟩
  | mailboxSend =>
    have hb : s.addresses.get s.message.address = none ∨ ¬Bodiless s := by
      cases htarget : s.addresses.get s.message.address with
      | none => exact .inl rfl
      | some target => exact .inr fun hb => hh (.mails ho.ctx ho.state htarget hb)
    obtain ⟨s₁, hend⟩ := mailing_ends rex hreg hqueues hopen hb
    obtain ⟨n, heq⟩ := hend
    have hm := mailed_ok hopen hregistered (heq n (Nat.le_refl n))
    have hctx : s₁.ctx c = some k := by rw [(mailed_same hm).ctx]; exact ho.ctx
    exact ⟨_, hround rfl (ends_action hopen.ctx hq ⟨n, heq⟩ (ends_last hctx hq))⟩
  | serviceSend =>
    have hb : s.message.content ≠ none ∨ ∃ o ∈ (s.service s.message.address).offers.items,
        rex o.pattern s.message.subject = true := by
      by_contra hb
      obtain ⟨hm, hnot⟩ := not_or.1 hb
      refine hh (.requests ho.ctx ho.state (not_not.1 hm) fun o ho => ?_)
      exact Bool.eq_false_iff.2 fun hmatch => hnot ⟨o, ho, hmatch⟩
    obtain ⟨s₁, hend⟩ := requesting_ends rex hreg hqueues hopen hb
    obtain ⟨n, heq⟩ := hend
    have hm := requested_ok hopen (hreg.offers _) (heq n (Nat.le_refl n))
    have hctx : s₁.ctx c = some k := by rw [(requested_same hm).ctx]; exact ho.ctx
    exact ⟨_, hround rfl (ends_action hopen.ctx hq ⟨n, heq⟩ (ends_last hctx hq))⟩
  | serviceOffer =>
    obtain ⟨s₁, hend⟩ := offering_ends rex hreg hqueues hopen
    exact ⟨s₁, hround rfl hend⟩
  | confirm =>
    exact ⟨_, hround rfl (ends_action hopen.ctx hq
      (.always fun _ => haveMessageConfirmation_eq hopen) (ends_fail hopen))⟩
  | credit =>
    exact ⟨_, hround rfl (ends_action hopen.ctx hq (.always fun _ => rfl) (ends_last hopen.ctx hq))⟩
  | connectionPing => exact ⟨_, hround rfl (ends_answer hopen.ctx hq)⟩
  | connectionClose =>
    have ha : Open ((s.enter c .connectionClose).answer c k .ok) c k a := ho.frame rfl rfl rfl
    exact ⟨_, hround rfl (ends_action hopen.ctx hq (.always fun _ => send_eq hopen.ctx .ok)
      (ends_action ha.ctx hq (.always fun _ => clientClosedConnection_eq ha) (ends_leave ha)))⟩
  | expired =>
    exact ⟨_, hround rfl (ends_action hopen.ctx hq (.always fun _ => rfl) (ends_leave hopen))⟩

/-! ## Executions -/

/-- **An execution ends**, and well if its event is not one of `Halts`. -/
theorem execute_ends (hr : Reg s) (h : Queues ok s) (hk : s.ctx c = some k)
    (hz : k.state ≠ .zombie) (he : e.External) (hh : ¬Halts rex s c e) :
    ∃ s', Ends (fun n => execute rex n c e s) (.ok s') := by
  rcases hr.state_cases hk with hs | hs | hs
  · exact start_ends hr h hk hs he hh
  · obtain ⟨a, ho⟩ := hr.open_of hk hs
    exact open_ends hr h ho he hh
  · exact absurd hs hz

theorem execute_halts (hr : Reg s) (h : Queues ok s) (hh : Halts rex s c e) :
    ∃ f, f ≠ .fuel ∧ Ends (fun n => execute rex n c e s) (.error f) := by
  have hreg : Reg (s.enter c e) := hr.frame rfl rfl rfl rfl hr.offers
  have hqueues := queues_enter h c e
  cases hh with
  | closes hk hs =>
    obtain ⟨hu, -⟩ := hr.start_of hk hs
    exact ⟨.nullPointer, by simp, .succ (.always fun n => execute_close hu hk)⟩
  | opens hk hs ha hb => exact ⟨.assertion, by simp, opening_halts rex hr h hk hs ha hb⟩
  | mails hk hs htarget hb =>
    obtain ⟨a, ho⟩ := hr.open_of hk hs
    have hopen : Open (s.enter c .mailboxSend) c _ a := ho.frame rfl rfl rfl
    have hact : Ends (fun n => runAction rex (execute rex n) n c .writeMessageToMailbox
        (s.enter c .mailboxSend)) (.error .assertion) :=
      mailing_halts rex hreg hqueues hopen htarget hb
    exact ⟨.assertion, by simp, ends_round hk ho.quiet (by rw [hs]; rfl)
      (halts_action hopen.ctx ho.quiet hact)⟩
  | requests hk hs hm hnot =>
    obtain ⟨a, ho⟩ := hr.open_of hk hs
    have hopen : Open (s.enter c .serviceSend) c _ a := ho.frame rfl rfl rfl
    have hact : Ends (fun n => runAction rex (execute rex n) n c .writeMessageToService
        (s.enter c .serviceSend)) (.error .assertion) := requesting_halts hreg hopen hm hnot
    exact ⟨.assertion, by simp, ends_round hk ho.quiet (by rw [hs]; rfl)
      (halts_action hopen.ctx ho.quiet hact)⟩

/-! ## Steps -/

theorem outcome_of_ends {l : Label} {f : Nat → Except Fault Server}
    (hf : ∀ n, s.step rex n l = some (f n)) (h : Ends f r) (hr : r ≠ .error .fuel) :
    Outcome rex s l r := by
  obtain ⟨n, h⟩ := h
  exact ⟨n, by rw [hf, h n (Nat.le_refl n)], hr⟩

theorem protocol_ends {parts : List Frame} (hr : Reg s) (h : Queues ok s)
    (hh : ¬Fatal rex s parts) : ∃ s', Ends (fun n => s.handleProtocol rex n parts) (.ok s') := by
  unfold handleProtocol
  rcases hrecv : recv s.message parts with ⟨p, rc, rest⟩
  cases rc with
  | interrupted => exact ⟨_, .always fun n => rfl⟩
  | malformed => exact ⟨_, .always fun n => rfl⟩
  | ok =>
    rcases hreq : (s.received p rest).clientRequire (p.routingId.getD []) with ⟨c, s₁⟩
    obtain ⟨hr₁, k, hk, hz⟩ := reg_clientRequire (reg_received hr p rest) hreq
    have hqueues : Queues ok (s₁.hear c parts.tail p) :=
      (queues_required h hreq).frame rfl (fun _ => rfl) rfl
    obtain ⟨s', hend⟩ := execute_ends (reg_hear hr₁ c parts.tail p) hqueues hk hz
      (protocolEvent_external p) fun hh' => hh ⟨hrecv, hreq, hh'⟩
    refine ⟨s', hend.congr fun n => ?_⟩
    dsimp only
    rw [show ({ s with message := p, rest := rest, hand := none } : Server) = s.received p rest
      from rfl, hreq]

theorem protocol_halts {parts : List Frame} (hr : Reg s) (h : Queues ok s)
    (hh : Fatal rex s parts) :
    ∃ f, f ≠ .fuel ∧ Ends (fun n => s.handleProtocol rex n parts) (.error f) := by
  obtain ⟨hrecv, hreq, hh⟩ := hh
  rename_i p rest c s₁
  obtain ⟨hr₁, -⟩ := reg_clientRequire (reg_received hr p rest) hreq
  have hqueues : Queues ok (s₁.hear c parts.tail p) :=
    (queues_required h hreq).frame rfl (fun _ => rfl) rfl
  obtain ⟨f, hf, hend⟩ := execute_halts (reg_hear hr₁ c parts.tail p) hqueues hh
  refine ⟨f, hf, hend.congr fun n => ?_⟩
  unfold handleProtocol
  rw [hrecv]
  dsimp only
  rw [show ({ s with message := p, rest := rest, hand := none } : Server) = s.received p rest
    from rfl, hreq]

/-- What a stream sends for a client whose context is there. -/
theorem traffic_ends (rex : Str → Str → Bool) {t : Traffic} (hr : Reg s)
    (ht : t = .ack c ∨ ∃ m, t = .deliver c m) (hk : s.ctx c = some k)
    (hstart : (∃ m, t = .deliver c m) → k.state ≠ .start) :
    ∃ s', Ends (fun n => s.forwardStreamTraffic rex n t) (.ok s') := by
  rcases ht with rfl | ⟨m, rfl⟩
  · exact ⟨_, .always fun n => clientPut_eq hr hk⟩
  simp only [forwardStreamTraffic, client_of hk, ok_bind]
  rcases hr.state_cases hk with hs | hs | hs
  · exact absurd hs (hstart ⟨m, rfl⟩)
  · obtain ⟨a, ho⟩ := hr.open_of hk hs
    have hctx : ((s.enter c .streamMessage).deliver c k .streamDeliver m).ctx c = some k := hk
    refine ⟨(s.enter c .streamMessage).deliver c k .streamDeliver m,
      .succ (.succ (.always fun n => ?_))⟩
    rw [if_neg (by rw [hs]; simp), if_neg (by rw [ho.quiet.msg]; simp), sendEvent,
      client_of (k := { k with msg := some m }) (by simp), ok_bind, if_neg (by rw [hs]; simp),
      execute_deliver_eq ho rfl, ok_bind, client_of hctx, ok_bind,
      if_neg (by rw [ho.quiet.msg]; simp)]
  · exact ⟨_, .always fun n => by rw [if_pos hs]⟩

theorem traffic_halts {n : Nat} {t : Traffic} (ht : t = .ack c ∨ ∃ m, t = .deliver c m)
    (hk : s.ctx c = none) : s.forwardStreamTraffic rex n t = .error .freed := by
  rcases ht with rfl | ⟨m, rfl⟩
  · simp [forwardStreamTraffic, clientPut, modifyClient, client, hk]
  · simp [forwardStreamTraffic, client, hk]

theorem client_of_traffic {t : Traffic} {d : Cid} (h : t = .ack c ∨ ∃ m, t = .deliver c m)
    (h' : t = .ack d ∨ ∃ m, t = .deliver d m) : c = d := by
  rcases h with rfl | ⟨m, rfl⟩
  · simpa using h'
  · simpa using h'

/-- A message is read: what the handler does with it is what the step does. -/
theorem outcome_protocol {l : Label} {parts : List Frame} (hr : Reg s) (h : Queues ok s)
    (hf : ∀ n, s.step rex n l = some (s.handleProtocol rex n parts)) :
    (¬Fatal rex s parts → ∃ s', Outcome rex s l (.ok s')) ∧
      (Fatal rex s parts → ∃ f, Outcome rex s l (.error f)) := by
  refine ⟨fun hh => ?_, fun hh => ?_⟩
  · obtain ⟨s', hend⟩ := protocol_ends hr h hh
    exact ⟨s', outcome_of_ends hf hend (by simp)⟩
  · obtain ⟨f, hfuel, hend⟩ := protocol_halts hr h hh
    exact ⟨f, outcome_of_ends hf hend (by simpa using hfuel)⟩

/-- The server reads what a stream has sent for client `c`. -/
theorem outcome_traffic {name : Str} {st : Stream} {t : Traffic} {up : List Traffic}
    (hr : Regular s) (hst : s.streams.get name = some st) (hup : st.up = t :: up)
    (hf : ∀ n, s.step rex n (.traffic name) =
      some ((s.popStream name st up).forwardStreamTraffic rex n t)) :
    (¬Aborts rex s (.traffic name) → ∃ s', Outcome rex s (.traffic name) (.ok s')) ∧
      (Aborts rex s (.traffic name) → ∃ f, Outcome rex s (.traffic name) (.error f)) := by
  obtain ⟨c, ht⟩ : ∃ c, t = .ack c ∨ ∃ m, t = .deliver c m := by
    cases t with
    | ack c => exact ⟨c, .inl rfl⟩
    | deliver c m => exact ⟨c, .inr ⟨m, rfl⟩⟩
  cases hk : s.ctx c with
  | none =>
    refine ⟨fun hh => absurd (.traffic hst hup ht hk) hh, fun _ => ⟨.freed, ?_⟩⟩
    exact outcome_of_ends hf (.always fun n => traffic_halts ht hk) (by simp)
  | some k =>
    have hstart : (∃ m, t = .deliver c m) → k.state ≠ .start := by
      rintro ⟨m, rfl⟩
      exact (hr.wired.named name _ c hst (.deliver m (hup ▸ List.mem_cons_self))).2 k hk
    obtain ⟨s', hend⟩ := traffic_ends rex (reg_popStream hr.reg name st up) ht hk hstart
    refine ⟨fun _ => ⟨s', outcome_of_ends hf hend (by simp)⟩, fun hh => ?_⟩
    cases hh with
    | traffic hst' hup' ht' hnone =>
      cases hst.symm.trans hst'
      cases hup.symm.trans hup'
      cases client_of_traffic ht ht'
      cases hk.symm.trans hnone

/-- The mailbox engine and the server take a new configuration. -/
theorem outcome_configure {service mailbox : MsgqCfg} (h : Queues (fun _ _ => True) s)
    (hf : ∀ n, s.step rex n (.configure service mailbox) = some (s.configure service mailbox)) :
    (¬Bodiless s → ∃ s', Outcome rex s (.configure service mailbox) (.ok s')) ∧
      (Bodiless s → ∃ f, Outcome rex s (.configure service mailbox) (.error f)) := by
  have hqueues : Queues (fun _ _ => True) { s with serviceCfg := service } :=
    ⟨fun name => reachable_configure (h.services name) trivial, h.mailboxes⟩
  refine ⟨fun hb => ?_, fun hb => ?_⟩
  · obtain ⟨s₁, hreads, -⟩ := mailboxReads_ok hqueues hb
    have hend : s.configure service mailbox =
        .ok (s₁.setMailbox (s₁.mailbox.configure mailbox) s₁.mailboxPipe) := by
      dsimp only at hreads
      rw [Server.configure, hreads, ok_bind]
    exact ⟨_, outcome_of_ends hf (.always fun n => hend) (by simp)⟩
  · have hreads := mailboxReads_bodiless hqueues hb
    have hend : s.configure service mailbox = .error .assertion := by
      dsimp only at hreads
      rw [Server.configure, hreads, error_bind]
    exact ⟨_, outcome_of_ends hf (.always fun n => hend) (by simp)⟩

/-- **A step ends**: well, unless it is one of `Aborts`. -/
theorem step_ends {n : Nat} {l : Label} (hr : Regular s) (h : Queues (fun _ _ => True) s)
    (hl : s.step rex n l ≠ none) :
    (¬Aborts rex s l → ∃ s', Outcome rex s l (.ok s')) ∧
      (Aborts rex s l → ∃ f, Outcome rex s l (.error f)) := by
  obtain ⟨r, hstep⟩ := Option.ne_none_iff_exists'.1 hl
  obtain ⟨f, hatt, hf⟩ := attempts_of_step hstep
  cases hatt with
  | router _ _ =>
    obtain ⟨hgood, hbad⟩ := outcome_protocol hr.reg h hf
    refine ⟨fun hh => hgood fun hfatal => hh (.router hfatal), fun hh => ?_⟩
    cases hh with
    | router hfatal => exact hbad hfatal
  | more _ =>
    obtain ⟨hgood, hbad⟩ := outcome_protocol hr.reg h hf
    refine ⟨fun hh => hgood fun hfatal => hh (.more hfatal), fun hh => ?_⟩
    cases hh with
    | more hfatal => exact hbad hfatal
  | @expired c k _ hk hz =>
    obtain ⟨s', hend⟩ : ∃ s', Ends (fun n => execute rex n c .expired s) (.ok s') :=
      execute_ends hr.reg h hk hz trivial (fun hh => by cases hh)
    exact ⟨fun _ => ⟨s', outcome_of_ends hf hend (by simp)⟩, fun hh => by cases hh⟩
  | traffic _ hst hup => exact outcome_traffic hr hst hup hf
  | command _ _ =>
    exact ⟨fun _ => ⟨_, outcome_of_ends hf (.always fun n => rfl) (by simp)⟩,
      fun hh => by cases hh⟩
  | message _ _ =>
    exact ⟨fun _ => ⟨_, outcome_of_ends hf (.always fun n => rfl) (by simp)⟩,
      fun hh => by cases hh⟩
  | mailbox hne =>
    obtain ⟨⟨a, m⟩, pipe, hp⟩ := List.exists_cons_of_ne_nil hne
    refine ⟨fun hh => ?_, fun hh => ?_⟩
    · obtain ⟨s', hread, -⟩ := mailboxRead_ok h hp fun hm => hh (.mailbox hp hm)
      exact ⟨s', outcome_of_ends hf (.always fun n => hread) (by simp)⟩
    · cases hh with
      | mailbox hp hm =>
        exact ⟨_, outcome_of_ends hf (.always fun n => mailboxRead_bodiless hp hm) (by simp)⟩
  | configure _ =>
    obtain ⟨hgood, hbad⟩ := outcome_configure h hf
    refine ⟨fun hh => hgood fun hb => hh (.configure hb), fun hh => ?_⟩
    cases hh with
    | configure hb => exact hbad hb

/-- Whatever a step of a reachable state ends in, nothing waits for a client
that is connected. -/
theorem drained_of_reachable (h : (broker rex).Reachable s) : Drained s := by
  obtain ⟨hr, hp⟩ := (posted_inductive rex).reachable s h
  intro c k a hk hs haddr ha
  obtain ⟨b, ho⟩ := hr.reg.open_of hk hs
  cases ho.address.symm.trans haddr
  exact hp.clear a c (ho.registered ha)

/-- **Every event is processed to completion, iff it is not one that the broker
does not survive.** A step that is possible in a reachable state has an outcome:
its executions, nested ones and follow-up events included, end. Unless it is one
of `Aborts` that is a state in which no message waits for a connected client. -/
theorem events_complete_iff {n : Nat} {l : Label} (h : (broker rex).Reachable s)
    (hl : s.step rex n l ≠ none) :
    (∃ r, Outcome rex s l r) ∧ (Completes rex s l ↔ ¬Aborts rex s l) := by
  have hr := (regular_inductive rex).reachable s h
  have hwithin : ((broker rex).within (Configures fun _ _ => True)).Reachable s :=
    h.within fun _ l => by cases l <;> simp [Configures]
  have hqueues := ((queues_inductive rex fun _ _ => True).reachable s hwithin).2
  obtain ⟨hgood, hbad⟩ := step_ends hr hqueues hl
  by_cases ha : Aborts rex s l
  · obtain ⟨f, hf⟩ := hbad ha
    refine ⟨⟨_, hf⟩, fun hc => ?_, fun hn => absurd ha hn⟩
    obtain ⟨s', hs', -⟩ := hc
    cases Outcome.unique hf hs'
  · obtain ⟨s', hs'⟩ := hgood ha
    exact ⟨⟨_, hs'⟩, fun _ => ha, fun _ => ⟨s', hs', drained_of_reachable (h.step hs')⟩⟩

end

/-- Client "a" has sent a message to "b"; "b" opens its connection, and gets it. -/
theorem events_complete_mailRun : ∃ s, (broker fun _ _ => true).Reachable s ∧
    (s.waiting (.mailbox (.ofBytes [98]))).length = 1 ∧
    Completes (fun _ _ => true) s (.request [2] (.connectionOpen (.ofBytes [98]))) ∧
    ¬Aborts (fun _ _ => true) s (.request [2] (.connectionOpen (.ofBytes [98]))) := by
  have hrun : ((Server.new.steps (fun _ _ => true) (fun _ _ => True) 20 (mailRun.take 2)).any
      fun s => (s.waiting (.mailbox (.ofBytes [98]))).length = 1 ∧
        ((s.step (fun _ _ => true) 20 (.request [2] (.connectionOpen (.ofBytes [98])))).any
          fun r => r.isOk) = true) = true := by decide +kernel
  obtain ⟨s, hs, hp⟩ := (Option.any_eq_true _ _).1 hrun
  obtain ⟨hwait, hstep⟩ := of_decide_eq_true hp
  obtain ⟨r, hr, hok⟩ := (Option.any_eq_true _ _).1 hstep
  have hreach := (reachable_of_steps hs).of_within
  cases r with
  | error f => cases hok
  | ok s' =>
    have hout : Outcome (fun _ _ => true) s (.request [2] (.connectionOpen (.ofBytes [98])))
        (.ok s') := ⟨20, hr, by simp⟩
    have hc : Completes _ s _ := ⟨s', hout, drained_of_reachable (hreach.step hout)⟩
    exact ⟨s, hreach, hwait, hc, (events_complete_iff hreach (by rw [hr]; simp)).2.1 hc⟩

/-- The first message of a client is CONNECTION CLOSE. -/
theorem close_not_completed : (broker fun _ _ => true).Reachable .new ∧
    Outcome (fun _ _ => true) .new (.request [1] .connectionClose) (.error .nullPointer) ∧
    ¬Completes (fun _ _ => true) .new (.request [1] .connectionClose) := by
  have hfault : Outcome (fun _ _ => true) .new (.request [1] .connectionClose)
      (.error .nullPointer) := ⟨20, by rfl, by simp⟩
  refine ⟨.initial rfl, hfault, ?_⟩
  rintro ⟨s', hout, -⟩
  cases Outcome.unique hfault hout

end Malamute.L3
