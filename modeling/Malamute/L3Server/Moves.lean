import Malamute.L3Server.Handled

/-!
# One step of the broker, without the machine

`Moved s l s'` restates a step that ends well: a message has been read and its
event `Handled`, an item of a message pipe has reached its client, an engine
has read an item. `moved_of_step` is the link to `broker`.

A stream message has its closed form only if the client it is for is open.
`Wired` is the invariant behind that: no stream and no pipe names a client in
the start state. It also says that the streams that clients refer to exist.
-/
namespace Malamute.L3
open Malamute.Core Malamute.L1 Malamute.L2

structure Wired (s : Server) : Prop where
  distinct : ∀ name st, s.streams.get name = some st → Distinct st.selectors
  named : ∀ name st c, s.streams.get name = some st → st.Names c →
    c < s.clientId ∧ ∀ k, s.ctx c = some k → k.state ≠ .start
  writers : ∀ c k name, s.ctx c = some k → k.writer = some name →
    ∃ st, s.streams.get name = some st
  readers : ∀ c k, s.ctx c = some k → ∀ name ∈ k.readers, ∃ st, s.streams.get name = some st

theorem wired_new : Wired .new where
  distinct name st h := by cases h
  named name st c h := by cases h
  writers c k name h := by cases h
  readers c k h := by cases h

namespace Server

/-- `mlm_proto_recv` returned `p` and left `rest` on the socket. -/
@[simps] def received (p : Proto) (rest : List Frame) (s : Server) : Server :=
  { s with message := p, rest := rest, hand := none }

/-- The server has read the first item of the message pipe of a stream. -/
def popStream (s : Server) (name : Str) (st : Stream) (up : List Traffic) : Server :=
  s.setStreams (s.streams.set name { st with up := up })

/-- `engine_client_put` on a context `k`. -/
def put (c : Cid) (k : Client) (s : Server) : Server :=
  if k.refcount - 1 = 0 ∧ k.state = .zombie then
    (s.setZombies (s.zombies.del k.hashkey)).freeClient c
  else s.setClient c { k with refcount := k.refcount - 1 }

end Server

open Server

/-- One round of `s_server_handle_protocol` on the frames `parts`. -/
inductive Received (rex : Str → Str → Bool) (s : Server) (parts : List Frame) : Server → Prop where
  | interrupted {p : Proto} {rest : List Frame} : recv s.message parts = (p, .interrupted, rest) →
      Received rex s parts { s.received p rest with running := false }
  | ignored {p : Proto} {rest : List Frame} : recv s.message parts = (p, .malformed, rest) →
      Received rex s parts ((s.received p rest).clientRequire (p.routingId.getD [])).2
  | handled {p : Proto} {rest : List Frame} {c : Cid} {s₁ s' : Server} :
      recv s.message parts = (p, .ok, rest) →
      (s.received p rest).clientRequire (p.routingId.getD []) = (c, s₁) →
      Handled rex (s₁.hear c parts.tail p) c (protocolEvent p) s' → Received rex s parts s'

/-- **One step of the broker.** -/
inductive Moved (rex : Str → Str → Bool) (s : Server) : Label → Server → Prop where
  | router {rid : Key} {frames : List Frame} {s' : Server} : s.rest = [] → frames ≠ [] →
      Received rex s (rid :: frames) s' → Moved rex s (.router rid frames) s'
  | more {s' : Server} : s.rest ≠ [] → Received rex s s.rest s' → Moved rex s .more s'
  | expired {c : Cid} {k : Client} {s' : Server} : s.rest = [] → s.ctx c = some k →
      k.state ≠ .zombie → Handled rex s c .expired s' → Moved rex s (.expired c) s'
  | acked {name : Str} {st : Stream} {c : Cid} {up : List Traffic} {k : Client} : s.rest = [] →
      s.streams.get name = some st → st.up = .ack c :: up → s.ctx c = some k →
      Moved rex s (.traffic name) ((s.popStream name st up).put c k)
  | discarded {name : Str} {st : Stream} {c : Cid} {m : Msg} {up : List Traffic} {k : Client} :
      s.rest = [] → s.streams.get name = some st → st.up = .deliver c m :: up →
      s.ctx c = some k → k.state = .zombie →
      Moved rex s (.traffic name) ((s.popStream name st up).unlink m)
  | delivered {name : Str} {st : Stream} {c : Cid} {m : Msg} {up : List Traffic} {k : Client}
      {a : Str} : s.rest = [] → s.streams.get name = some st → st.up = .deliver c m :: up →
      Open s c k a →
      Moved rex s (.traffic name)
        (((s.popStream name st up).enter c .streamMessage).deliver c k .streamDeliver m)
  | command {name : Str} {st st' : Stream} : s.streams.get name = some st →
      st.handleCommand = some st' →
      Moved rex s (.command name) (s.setStreams (s.streams.set name st'))
  | message {name : Str} {st st' : Stream} {m : Msg} {targets : List Cid} :
      s.streams.get name = some st → st.handleMessage rex = some (st', m, targets) →
      Moved rex s (.message name)
        ((((s.setStreams (s.streams.set name st')).linkTimes m targets.length).unlink m).log
          (.forwarded name m targets))
  | mailbox {s' : Server} : s.mailboxPipe ≠ [] → s.mailboxRead = .ok s' → Moved rex s .mailbox s'
  | configured {service mailbox : MsgqCfg} {s₁ : Server} : s.rest = [] →
      mailboxReads s.mailboxPipe { s with serviceCfg := service } = .ok s₁ →
      Moved rex s (.configure service mailbox)
        (s₁.setMailbox (s₁.mailbox.configure mailbox) s₁.mailboxPipe)

section Step
variable {rex : Str → Str → Bool} {s s' : Server}

/-! ## New clients -/

/-- The context of a client that has just sent its first message. -/
def Client.fresh (key : Key) : Client where
  hashkey := key
  refcount := 0
  state := .start
  nextEvent := none
  exception := none
  address := none
  writer := none
  readers := []
  msg := none

theorem clientNew_eq (s : Server) (key : Key) : s.clientNew key =
    { s with
      ctx := Function.update s.ctx s.clientId (some (.fresh key))
      clients := s.clients.set key s.clientId
      clientId := s.clientId + 1 } := rfl

theorem clientRequire_cases {key : Key} {c : Cid} {s₁ : Server}
    (h : s.clientRequire key = (c, s₁)) :
    (s.clients.get key = some c ∧ s₁ = s) ∨
      (s.clients.get key = none ∧ c = s.clientId ∧ s₁ = s.clientNew key) := by
  unfold clientRequire at h
  split at h
  · rename_i d hd
    cases h
    exact .inl ⟨hd, rfl⟩
  · rename_i hn
    cases h
    exact .inr ⟨hn, rfl, rfl⟩

theorem reg_clientNew (hr : Reg s) {key : Key} (hk : s.clients.get key = none) :
    Reg (s.clientNew key) := by
  have hfree : s.ctx s.clientId = none := by
    cases hc : s.ctx s.clientId with
    | none => rfl
    | some k => exact absurd (hr.fresh _ _ hc) (Nat.lt_irrefl _)
  have hne : ∀ d k, s.ctx d = some k → d ≠ s.clientId := by
    rintro d k hd rfl
    rw [hfree] at hd
    cases hd
  -- contexts that were there before are as they were
  have hold : ∀ {d k}, s.ctx d = some k → (s.clientNew key).ctx d = some k := by
    intro d k hd
    rw [clientNew_eq]
    simpa [Function.update_of_ne (hne d k hd)] using hd
  have hkeep : ∀ {d k}, s.clients.get (Client.hashkey k) = some d →
      (s.clientNew key).clients.get k.hashkey = some d := by
    intro d k hd
    have : k.hashkey ≠ key := by
      intro h
      rw [h, hk] at hd
      cases hd
    rw [clientNew_eq]
    simpa [Table.get_set, this] using hd
  have hopen : ∀ {d k b}, Open s d k b → Open (s.clientNew key) d k b := by
    intro d k b ho
    exact ⟨hold ho.ctx, ho.quiet, ho.state, ho.address, hkeep ho.hashed, ho.registered⟩
  refine ⟨?_, ?_, ?_, ?_, ?_⟩
  · intro c k h
    rw [clientNew_eq] at h ⊢
    by_cases hc : c = s.clientId
    · simp [hc]
    · simp only [Function.update_of_ne hc] at h
      exact Nat.lt_succ_of_lt (hr.fresh c k h)
  · intro c k h
    by_cases hc : c = s.clientId
    · subst hc
      rw [clientNew_eq] at h
      simp only [Function.update_self, Option.some.injEq] at h
      subst h
      refine .start ⟨⟨rfl, rfl, rfl⟩, rfl, rfl, rfl, rfl, rfl⟩ ?_
      rw [clientNew_eq]
      simp [Client.fresh]
    · rw [clientNew_eq] at h
      simp only [Function.update_of_ne hc] at h
      cases hr.phase c k h with
      | start hu hh => exact .start hu (hkeep hh)
      | opened a ho => exact .opened a (hopen ho)
      | zombie hs hrd ha => exact .zombie hs hrd ha
  · intro key' c h
    rw [clientNew_eq] at h
    simp only [Table.get_set] at h
    split at h
    · rename_i hkey
      cases h
      refine ⟨.fresh key, ?_, hkey.symm, by simp [Client.fresh]⟩
      rw [clientNew_eq]
      simp
    · obtain ⟨k, hc, hkey, hz⟩ := hr.hashed key' c h
      exact ⟨k, hold hc, hkey, hz⟩
  · intro a c h
    obtain ⟨ha, k, ho⟩ := hr.registered a c h
    exact ⟨ha, k, hopen ho⟩
  · intro name o ho
    obtain ⟨k, a, hk⟩ := hr.offers name o ho
    exact ⟨k, a, hopen hk⟩

theorem reg_received (hr : Reg s) (p : Proto) (rest : List Frame) : Reg (s.received p rest) :=
  hr.frame rfl rfl rfl rfl hr.offers

theorem reg_hear (hr : Reg s) (c : Cid) (frames : List Frame) (p : Proto) :
    Reg (s.hear c frames p) := hr.frame rfl rfl rfl rfl hr.offers

theorem reg_clientRequire (hr : Reg s) {key : Key} {c : Cid} {s₁ : Server}
    (h : s.clientRequire key = (c, s₁)) : Reg s₁ ∧ ∃ k, s₁.ctx c = some k ∧ k.state ≠ .zombie := by
  rcases clientRequire_cases h with ⟨hc, rfl⟩ | ⟨hn, rfl, rfl⟩
  · obtain ⟨k, hk, -, hz⟩ := hr.hashed _ _ hc
    exact ⟨hr, k, hk, hz⟩
  · refine ⟨reg_clientNew hr hn, .fresh key, ?_, by simp [Client.fresh]⟩
    rw [clientNew_eq]
    simp

/-- Whoever is open was there before the message came. -/
theorem known_of_open {key : Key} {c : Cid} {k : Client} {a : Str} {s₁ : Server}
    (h : s.clientRequire key = (c, s₁)) {frames : List Frame} {p : Proto}
    (ho : Open (s₁.hear c frames p) c k a) : s.clients.get key = some c ∧ Open s c k a ∧ s₁ = s := by
  rcases clientRequire_cases h with ⟨hc, rfl⟩ | ⟨-, rfl, rfl⟩
  · exact ⟨hc, ho.frame rfl rfl rfl, rfl⟩
  · -- a new client has not opened its connection
    have hctx := ho.ctx
    rw [clientNew_eq] at hctx
    simp only [hear_ctx, Function.update_self, Option.some.injEq] at hctx
    have hs := ho.state
    rw [← hctx] at hs
    cases hs

/-! ## Steps -/

theorem received_of_handleProtocol {n : Nat} {parts : List Frame} (hr : Reg s)
    (h : s.handleProtocol rex n parts = .ok s') : Received rex s parts s' := by
  unfold handleProtocol at h
  rcases hrecv : recv s.message parts with ⟨p, rc, rest⟩
  rw [hrecv] at h
  cases rc with
  | interrupted => cases h; exact .interrupted hrecv
  | malformed => cases h; exact .ignored hrecv
  | ok =>
    dsimp only at h
    rcases hreq : (s.received p rest).clientRequire (p.routingId.getD []) with ⟨c, s₁⟩
    rw [show ({ s with message := p, rest := rest, hand := none } : Server) = s.received p rest
      from rfl, hreq] at h
    obtain ⟨hr₁, k, hk, hz⟩ := reg_clientRequire (reg_received hr p rest) hreq
    exact .handled hrecv hreq
      (execute_handled (reg_hear hr₁ c parts.tail p) hk hz (protocolEvent_external p) h)

/-- A message of a known client is read as it was sent. -/
theorem handled_of_request {rid : Key} {w : Wire} {c : Cid} (h : Moved rex s (.request rid w) s')
    (hc : s.clients.get rid = some c) :
    Handled rex ((s.received (w.load { s.message with routingId := some rid }) []).hear c w.encode
        (w.load { s.message with routingId := some rid })) c
      (protocolEvent (w.load { s.message with routingId := some rid })) s' := by
  have hrid : (w.load { s.message with routingId := some rid }).routingId = some rid := by
    cases w <;> rfl
  have hread := recv_encode w s.message rid
  cases h with
  | router _ _ hrecv =>
    cases hrecv with
    | interrupted hrecv => cases hread.symm.trans hrecv
    | ignored hrecv => cases hread.symm.trans hrecv
    | handled hrecv hreq hh =>
      cases hread.symm.trans hrecv
      rw [hrid] at hreq
      rcases clientRequire_cases hreq with ⟨hget, rfl⟩ | ⟨hget, -, -⟩
      · cases hc.symm.trans hget
        exact hh
      · cases hc.symm.trans hget

/-- The ACK of a CANCEL arrives. -/
theorem clientPut_eq {c : Cid} {k : Client} (hr : Reg s) (hk : s.ctx c = some k) :
    s.clientPut c = .ok (s.put c k) := by
  simp only [clientPut, modifyClient_of hk, ok_bind]
  rw [client_of (k := { k with refcount := k.refcount - 1 }) (by simp), ok_bind]
  unfold put
  by_cases hz : k.refcount - 1 = 0 ∧ k.state = .zombie
  · have haddr : k.address = none ∨ k.address = some .empty := by
      cases hr.phase c k hk with
      | start hu => cases hz.2.symm.trans hu.state
      | opened a ho => rw [ho.state] at hz; cases hz.2
      | zombie _ _ ha => exact ha
    simp only [hz, and_self, if_true]
    rcases haddr with ha | ha
    · simp [clientFinalize, clientTerminate, client, ha, freeClient, setClient, setZombies]
    · simp [clientFinalize, clientTerminate, client, modifyClient, ha, freeClient, setClient,
        setZombies]
  · simp only [hz, if_false]

/-- A forwarded message arrives. -/
theorem forward_cases {n : Nat} {c : Cid} {m : Msg} (hr : Reg s)
    (hstart : ∀ k, s.ctx c = some k → k.state ≠ .start)
    (h : s.forwardStreamTraffic rex n (.deliver c m) = .ok s') :
    ∃ k, s.ctx c = some k ∧
      ((k.state = .zombie ∧ s' = s.unlink m) ∨
        ∃ a, Open s c k a ∧ s' = (s.enter c .streamMessage).deliver c k .streamDeliver m) := by
  simp only [forwardStreamTraffic] at h
  obtain ⟨k, hk, h⟩ := bind_eq_ok.1 h
  have hctx : s.ctx c = some k := by
    unfold Server.client at hk
    split at hk
    · cases hk
    · rename_i k' hk'
      cases hk
      exact hk'
  refine ⟨k, hctx, ?_⟩
  rcases hr.state_cases hctx with hs | hs | hs
  · exact absurd hs (hstart k hctx)
  · obtain ⟨a, ho⟩ := hr.open_of hctx hs
    rw [if_neg (by rw [hs]; simp), if_neg (by rw [ho.quiet.msg]; simp)] at h
    obtain ⟨s₁, hx, h⟩ := bind_eq_ok.1 h
    rw [sendEvent, client_of (k := { k with msg := some m }) (by simp), ok_bind,
      if_neg (by rw [hs]; simp)] at hx
    have hs₁ := execute_deliver ho rfl hx
    rw [hs₁, client_of (k := k) (by simpa using hctx), ok_bind,
      if_neg (by rw [ho.quiet.msg]; simp)] at h
    cases h
    exact .inr ⟨a, ho, rfl⟩
  · rw [if_pos hs] at h
    cases h
    exact .inl ⟨hs, rfl⟩

theorem reg_popStream (hr : Reg s) (name : Str) (st : Stream) (up : List Traffic) :
    Reg (s.popStream name st up) := hr.frame rfl rfl rfl rfl hr.offers

/-- What a step that is possible attempts, by its fuel. -/
inductive Attempts (rex : Str → Str → Bool) (s : Server) :
    Label → (Nat → Except Fault Server) → Prop where
  | router {rid : Key} {frames : List Frame} : s.rest = [] → frames ≠ [] →
      Attempts rex s (.router rid frames) fun n => s.handleProtocol rex n (rid :: frames)
  | more : s.rest ≠ [] → Attempts rex s .more fun n => s.handleProtocol rex n s.rest
  | expired {c : Cid} {k : Client} : s.rest = [] → s.ctx c = some k → k.state ≠ .zombie →
      Attempts rex s (.expired c) fun n => execute rex n c .expired s
  | traffic {name : Str} {st : Stream} {t : Traffic} {up : List Traffic} : s.rest = [] →
      s.streams.get name = some st → st.up = t :: up →
      Attempts rex s (.traffic name) fun n => (s.popStream name st up).forwardStreamTraffic rex n t
  | command {name : Str} {st st' : Stream} : s.streams.get name = some st →
      st.handleCommand = some st' →
      Attempts rex s (.command name) fun _ => .ok (s.setStreams (s.streams.set name st'))
  | message {name : Str} {st st' : Stream} {m : Msg} {targets : List Cid} :
      s.streams.get name = some st → st.handleMessage rex = some (st', m, targets) →
      Attempts rex s (.message name) fun _ =>
        .ok ((((s.setStreams (s.streams.set name st')).linkTimes m targets.length).unlink m).log
          (.forwarded name m targets))
  | mailbox : s.mailboxPipe ≠ [] → Attempts rex s .mailbox fun _ => s.mailboxRead
  | configure {service mailbox : MsgqCfg} : s.rest = [] →
      Attempts rex s (.configure service mailbox) fun _ => s.configure service mailbox

/-- Whether a step is possible, and what it attempts, does not depend on the fuel. -/
theorem attempts_of_step {n : Nat} {l : Label} {r : Except Fault Server}
    (h : s.step rex n l = some r) : ∃ f, Attempts rex s l f ∧ ∀ n, s.step rex n l = some (f n) := by
  unfold Server.step at h ⊢
  split at h
  · cases h
  rename_i hrun
  simp only [if_neg hrun]
  cases l with
  | router rid frames =>
    dsimp only at h ⊢
    split at h
    · rename_i hc
      exact ⟨_, .router hc.1 hc.2, fun n => if_pos hc⟩
    · cases h
  | more =>
    dsimp only at h ⊢
    split at h
    · rename_i hc
      exact ⟨_, .more hc, fun n => if_pos hc⟩
    · cases h
  | expired c =>
    dsimp only at h ⊢
    split at h
    · cases h
    · rename_i k hk
      split at h
      · rename_i hc
        exact ⟨_, .expired hc.1 hk hc.2, fun n => if_pos hc⟩
      · cases h
  | traffic name =>
    dsimp only at h ⊢
    split at h
    · rename_i sel pend t up hst
      split at h
      · rename_i hrest
        exact ⟨_, .traffic hrest hst rfl, fun n => if_pos hrest⟩
      · cases h
    · cases h
  | command name =>
    dsimp only at h ⊢
    split at h
    · cases h
    · rename_i st' hst'
      obtain ⟨st, hst, hcmd⟩ := Option.bind_eq_some_iff.1 hst'
      exact ⟨_, .command hst hcmd, fun n => rfl⟩
  | message name =>
    dsimp only at h ⊢
    split at h
    · cases h
    · rename_i st' m targets hst'
      obtain ⟨st, hst, hmsg⟩ := Option.bind_eq_some_iff.1 hst'
      exact ⟨_, .message hst hmsg, fun n => rfl⟩
  | mailbox =>
    dsimp only at h ⊢
    split at h
    · cases h
    · rename_i hne
      exact ⟨_, .mailbox hne, fun n => if_neg hne⟩
  | configure service mailbox =>
    dsimp only at h ⊢
    split at h
    · rename_i hrest
      exact ⟨_, .configure hrest, fun n => if_pos hrest⟩
    · cases h

/-- **A step that ends well is `Moved`.** -/
theorem moved_of_step {l : Label} (hr : Reg s) (hw : Wired s) (h : (broker rex).step s l s') :
    Moved rex s l s' := by
  obtain ⟨n, h, -⟩ := h
  obtain ⟨f, hatt, hf⟩ := attempts_of_step h
  have hx : f n = .ok s' := Option.some.inj ((hf n).symm.trans h)
  cases hatt with
  | router hrest hne => exact .router hrest hne (received_of_handleProtocol hr hx)
  | more hrest => exact .more hrest (received_of_handleProtocol hr hx)
  | expired hrest hk hz => exact .expired hrest hk hz (execute_handled hr hk hz trivial hx)
  | @traffic name st t up hrest hst hup =>
    cases t with
    | ack c =>
      cases hk : s.ctx c with
      | none =>
        have hfreed : (s.popStream name st up).clientPut c = .error .freed := by
          simp [clientPut, modifyClient, client, popStream, hk]
        cases hx.symm.trans hfreed
      | some k =>
        cases hx.symm.trans (clientPut_eq (reg_popStream hr name st up) hk)
        exact .acked hrest hst hup hk
    | deliver c m =>
      have hnamed := hw.named name _ c hst (.deliver m (hup ▸ List.mem_cons_self))
      obtain ⟨k, hk, ⟨hz, rfl⟩ | ⟨a, ho, rfl⟩⟩ := forward_cases
        (reg_popStream hr name st up) hnamed.2 hx
      · exact .discarded hrest hst hup hk hz
      · exact .delivered hrest hst hup (ho.frame rfl rfl rfl)
  | command hst hcmd =>
    cases hx
    exact .command hst hcmd
  | message hst hmsg =>
    cases hx
    exact .message hst hmsg
  | mailbox hne => exact .mailbox hne hx
  | configure hrest =>
    obtain ⟨s₁, hreads, hx⟩ := bind_eq_ok.1 hx
    cases hx
    exact .configured hrest hreads

end Step
end Malamute.L3
