import Malamute.L3Server.Refine

/-!
# Every execution is `Handled`

The events of a client in the start state, and the theorem of this layer:
between two events of a client, the loop does exactly what `Handled` says.
-/
namespace Malamute.L3
open Malamute.Core Malamute.L1 Malamute.L2

theorem Open.setClient_ne {s : Server} {c d : Cid} {k : Client} {a : Str} (h : Open s c k a) (hne : c ≠ d) (j : Client) :
    Open (s.setClient d j) c k a where
  ctx := by rw [Server.setClient_ctx, Function.update_of_ne hne]; exact h.ctx
  quiet := h.quiet
  state := h.state
  address := h.address
  hashed := h.hashed
  registered := h.registered

theorem Quiet.opened {k : Client} (h : Quiet k) (a : Str) : Quiet (k.opened a) :=
  ⟨h.nextEvent, h.exception, h.msg⟩

/-- Whoever is expired to make room is not the client that opens. -/
theorem Evicted.hashed {s s₁ : Server} {c : Cid} {k : Client} {a : Str} (h : Evicted a s s₁)
    (hk : s.ctx c = some k) (hs : k.state = .start) (hh : s.clients.get k.hashkey = some c) :
    s₁.clients.get k.hashkey = some c := by
  cases h with
  | nobody _ => exact hh
  | @holder old t _ _ ht =>
    have hkey : k.hashkey ≠ t.hashkey := by
      intro heq
      have hold : c = old := Option.some.inj (hh.symm.trans (heq ▸ ht.hashed))
      subst hold
      cases (ht.connected_of hk).symm.trans hs
    simpa [Server.leave, Client.deregistered, Table.get_del, hkey] using hh

namespace Server
variable {rex : Str → Str → Bool} {s s' : Server} {c : Cid} {k : Client}

/-! ## Another client in the way -/

theorem leave_setClient_ne {d : Cid} (hne : c ≠ d) (j k : Client) (a : Str) :
    (s.setClient c k).leave d j a = (s.leave d j a).setClient c k := by
  simp only [leave, bury, deregister, setClient, Function.update_comm hne.symm]
  rfl

theorem leave_ctx_ne {d : Cid} (hne : d ≠ c) (a : Str) : (s.leave c k a).ctx d = s.ctx d := by
  simp [leave, Function.update_of_ne hne]

/-- An open client expires. -/
theorem execute_expired_eq {n : Nat} {a : Str} (h : Open s c k a) :
    execute rex (n + 1) c .expired s = .ok ((s.enter c .expired).leave c k a) := by
  have hopen : Open (s.enter c .expired) c k a := h.frame rfl rfl rfl
  rw [execute_round h.ctx h.quiet.nextEvent h.quiet.exception (by rw [h.state]; rfl),
    runActions_step hopen.ctx h.quiet.exception rfl, run_leave hopen]

theorem execute_expired {n : Nat} {a : Str} (h : Open s c k a)
    (hx : execute rex n c .expired s = .ok s') : s' = (s.enter c .expired).leave c k a := by
  obtain ⟨n, rfl⟩ := execute_ok hx
  rw [execute_expired_eq h] at hx
  exact (Except.ok.inj hx).symm

/-! ## Opening a connection -/

/-- The context while `register_new_client` runs. -/
theorem register_ok {n : Nat} {a : Str} (hr : Reg s) (hk : s.ctx c = some k)
    (hs : k.state = .start) (ha : s.message.address = a)
    (hx : s.registerNewClient (execute rex n) c = .ok s') :
    ∃ s₁, Evicted a s s₁ ∧ s₁.ctx c = some k ∧
      s' = ((if a = .empty then s₁ else s₁.setAddresses (s₁.addresses.set a c)).setStatus
        success).setClient c { k with address := some a } := by
  simp only [registerNewClient, ha, modifyClient_of hk, ok_bind] at hx
  by_cases hempty : a = .empty
  · simp only [hempty, if_true, setStatus_setClient] at hx ⊢
    exact ⟨s, .nobody (.inl rfl), hk, (Except.ok.inj hx).symm⟩
  simp only [hempty, if_false, setClient_addresses] at hx ⊢
  cases hold : s.addresses.get a with
  | none =>
    simp only [hold, ok_bind, deleteAddress, setClient_addresses, setAddresses_setClient,
      setStatus_setClient] at hx
    exact ⟨s, .nobody (.inr hold), hk, (Except.ok.inj hx).symm⟩
  | some old =>
    obtain ⟨-, t, ht⟩ := hr.registered a old hold
    have hne : old ≠ c := by
      rintro rfl
      cases (ht.connected_of hk).symm.trans hs
    have ht' : Open (s.setClient c { k with address := some a }) old t a := ht.setClient_ne hne _
    rw [hold] at hx
    obtain ⟨s₁, hex, hx⟩ := bind_eq_ok.1 hx
    rw [sendEvent, client_of ht'.ctx, ok_bind, if_neg (by rw [ht'.state]; simp)] at hex
    have hs₁ := execute_expired ht' hex
    rw [enter_setClient, leave_setClient_ne hne.symm] at hs₁
    have hnone : s₁.addresses.get a = none := by
      rw [hs₁]
      simp [leave, hempty]
    simp only [deleteAddress, hnone, ok_bind] at hx
    refine ⟨(s.enter old .expired).leave old t a, .holder hempty hold ht, ?_, ?_⟩
    · rw [leave_ctx_ne hne.symm]; exact hk
    · rw [← Except.ok.inj hx, hs₁]
      rfl

/-- What `Drain` sees of the state in which CONNECTION OPEN is answered. -/
theorem open_register {s₁ : Server} {a : Str} (hq : Quiet k)
    (hh : s₁.clients.get k.hashkey = some c) : Open (s₁.register c k a) c (k.opened a) a where
  ctx := by by_cases ha : a = .empty <;> simp [register, ha]
  quiet := hq.opened a
  state := rfl
  address := rfl
  hashed := by by_cases ha : a = .empty <;> simpa [register, ha, Client.opened] using hh
  registered ha := by simp [register, ha]

/-- `check_for_mailbox_messages` after CONNECTION OPEN, and the end of the round:
`s` is the state without the context of `c`. -/
theorem finish_opened {n : Nat} {a : Str} (hq : Quiet k) (hs : k.state = .start)
    (ho : Open (s.setClient c (k.opened a)) c (k.opened a) a)
    (hx : runActions (runAction rex (execute rex n) n c) c [.checkForMailboxMessages]
      (s.setClient c { k with address := some a }) >>= finish rex n c (some .connected) = .ok s') :
    Drain c (k.opened a) a (s.setClient c (k.opened a)) s' := by
  have hctx : (s.setClient c { k with address := some a }).ctx c =
      some { k with address := some a } := by simp
  rw [runActions_cons hctx hq.exception] at hx
  by_cases ha : a = .empty
  · have hcheck : runAction rex (execute rex n) n c .checkForMailboxMessages
        (s.setClient c { k with address := some a }) =
          .ok (s.setClient c { k with address := some a }) := by
      simp only [runAction, checkForMailboxMessages, client_of hctx, ok_bind]
      rw [if_pos ha]
    rw [hcheck, ok_bind, runActions_nil, ok_bind] at hx
    have hfin := finish_quiet hctx hq.nextEvent hq.exception hx
    rw [setClient_setClient] at hfin
    rw [hfin]
    exact .anonymous ha
  · have hz : ({ k with address := some a } : Client).state ≠ .zombie := by
      show k.state ≠ .zombie
      rw [hs]; simp
    rw [show runAction rex (execute rex n) n c .checkForMailboxMessages _ = _ from
      check_eq hctx hz rfl ha, mailboxQuery_setClient] at hx
    have hquery := mailboxQuery_setClient s c (k.opened a) a
    cases hm : s.mailboxQuery a with
    | error e => rw [hm] at hx; cases hx
    | ok r =>
      obtain ⟨s₁, r⟩ := r
      rw [hm] at hx hquery
      have ho₁ : Open (s₁.setClient c (k.opened a)) c (k.opened a) a :=
        (mailboxQuery_only hquery).open ho
      cases r with
      | none =>
        have hmsg : ({ k with address := some a, msg := none } : Client) =
            { k with address := some a } := by rw [← hq.msg]
        simp only [Except.map, ok_bind, setClient_setClient, hmsg, runActions_nil] at hx
        have hfin := finish_quiet (k := { k with address := some a }) (by simp) hq.nextEvent
          hq.exception hx
        rw [setClient_setClient] at hfin
        rw [hfin]
        exact .empty ha hquery
      | some m =>
        simp only [Except.map, ok_bind, setClient_setClient, runActions_nil] at hx
        rw [finish_next (k := { k with
          address := some a, msg := some m, nextEvent := some .mailboxMessage }) (by simp) rfl
          (by simp) hq.exception, setClient_setClient] at hx
        rw [← setClient_setClient s₁ c (k.opened a)] at hx
        exact .next ha hquery (loop_mailbox ho₁ hx)

/-- CONNECTION OPEN in the start state. -/
theorem run_open {n : Nat} {a : Str} (hr : Reg s) (hk : s.ctx c = some k) (hs : k.state = .start)
    (ha : s.message.address = a)
    (hx : runActions (runAction rex (execute rex n) n c) c
        [.registerNewClient, .send .ok, .checkForMailboxMessages] s >>=
      finish rex n c (some .connected) = .ok s') :
    ∃ s₁, Evicted a s s₁ ∧ Drain c (k.opened a) a (s₁.register c k a) s' := by
  obtain ⟨⟨hq, -, -, -, -, -⟩, hh⟩ := hr.start_of hk hs
  rw [runActions_cons hk hq.exception] at hx
  obtain ⟨s₃, hx, hfin⟩ := bind_eq_ok.1 hx
  obtain ⟨s₂, hreg, hx⟩ := bind_eq_ok.1 hx
  obtain ⟨s₁, hev, hk₁, rfl⟩ := register_ok hr hk hs ha hreg
  refine ⟨s₁, hev, ?_⟩
  have hopen := open_register (a := a) hq (hev.hashed hk hs hh)
  have hsend : runAction rex (execute rex n) n c (.send .ok) _ = _ :=
    send_eq (s := ((if a = .empty then s₁ else s₁.setAddresses (s₁.addresses.set a c)).setStatus
      success).setClient c { k with address := some a }) (k := { k with address := some a })
      (by simp) .ok
  rw [runActions_step (k := { k with address := some a }) (by simp) hq.exception hsend] at hx
  have hdrain := finish_opened (s := ((if a = .empty then s₁ else s₁.setAddresses
    (s₁.addresses.set a c)).setStatus success).answer c (k.opened a) .ok) hq hs hopen
      (bind_eq_ok.2 ⟨s₃, hx, hfin⟩)
  exact hdrain

/-! ## The other events of the start state -/

/-- The timer of a client that has not opened: there is nothing to deregister. -/
theorem execute_departed {n : Nat} (hu : Unopened k) (hk : s.ctx c = some k)
    (hh : s.clients.get k.hashkey = some c) :
    execute rex (n + 1) c .expired s =
      .ok (((s.enter c .expired).setStatus success).bury c k) := by
  have hx := hu.quiet.exception
  have hctx : ((s.enter c .expired).setStatus success).ctx c = some k := hk
  have hact : runAction rex (execute rex n) n c .deregisterTheClient (s.enter c .expired) =
      .ok ((s.enter c .expired).setStatus success) := by
    simp only [runAction, deregisterTheClient, client_of (s := s.enter c .expired) hk, ok_bind]
    rw [hu.address]
  rw [execute_round hk hu.quiet.nextEvent hx (by rw [hu.state]; rfl),
    runActions_step (s := s.enter c .expired) hk hx rfl,
    runActions_step (s := s.enter c .expired) hk hx hact,
    runActions_step hctx hx (a := .terminate) (modifyClient_of hctx _), runActions_nil, ok_bind,
    finish_terminate (k := { k with nextEvent := some .terminate }) (by simp) rfl hx]
  have hdel := deleteClient_eq (s := ((s.enter c .expired).setStatus success).setClient c
    { k with nextEvent := some .terminate }) (c := c)
      (k := { k with nextEvent := some .terminate }) (by simp) hh (.inl hu.address) rfl
  rw [bury_setClient] at hdel
  exact hdel

/-- CONNECTION CLOSE before CONNECTION OPEN: `client_closed_connection` follows
the NULL address. -/
theorem execute_close {n : Nat} (hu : Unopened k) (hk : s.ctx c = some k) :
    execute rex (n + 1) c .connectionClose s = .error .nullPointer := by
  have hx := hu.quiet.exception
  have hctx : ((s.enter c .connectionClose).answer c k .ok).ctx c = some k := hk
  have hact : runAction rex (execute rex n) n c .clientClosedConnection
      ((s.enter c .connectionClose).answer c k .ok) = .error .nullPointer := by
    simp only [runAction, clientClosedConnection, client_of hctx, ok_bind]
    rw [hu.address]
  rw [execute_round hk hu.quiet.nextEvent hx (by rw [hu.state]; rfl),
    runActions_step (s := s.enter c .connectionClose) hk hx
      (send_eq (s := s.enter c .connectionClose) hk .ok), runActions_cons hctx hx, hact]
  rfl

/-- The events that the start state answers with ERROR. -/
theorem execute_unopened {n : Nat} {e : Event} (hu : Unopened k) (hk : s.ctx c = some k)
    (he : startState e = ([.signalCommandInvalid, .send .error], none)) :
    execute rex (n + 2) c e s =
      .ok (((s.enter c e).setStatus commandInvalid).answer c k .error) := by
  have hx := hu.quiet.exception
  have hctx : ((s.enter c e).setStatus commandInvalid).ctx c = some k := hk
  have hdone : (((s.enter c e).setStatus commandInvalid).answer c k .error).ctx c = some k := hk
  rw [execute_round hk hu.quiet.nextEvent hx (by rw [hu.state, transition, he]),
    runActions_step (s := s.enter c e) hk hx rfl, runActions_step hctx hx (send_eq hctx .error),
    runActions_nil, ok_bind, finish_quiet_eq hdone hu.quiet.nextEvent hx, Option.getD_none]
  rw [setClient_self hdone]

/-- An event of a client in the start state. -/
theorem handled_start {n : Nat} {e : Event} (hr : Reg s) (hk : s.ctx c = some k)
    (hs : k.state = .start) (he : e.External) (hx : execute rex n c e s = .ok s') :
    Handled rex s c e s' := by
  obtain ⟨n, rfl⟩ := execute_ok hx
  obtain ⟨hu, hh⟩ := hr.start_of hk hs
  have hunopened (hc : startState e = ([.signalCommandInvalid, .send .error], none)) :
      Handled rex s c e s' := by
    -- one more round of fuel ends the loop, with the same result
    have hmore := (execute_mono rex (n + 1) c e s).eq (by rw [hx]; simp)
    rw [hx, execute_unopened hu hk hc] at hmore
    cases hmore
    exact .unopened hk hs hc
  cases e with
  | connectionOpen =>
    have hreg : Reg (s.enter c .connectionOpen) := hr.frame rfl rfl rfl rfl hr.offers
    rw [execute_round hk hu.quiet.nextEvent hu.quiet.exception (by rw [hs]; rfl)] at hx
    obtain ⟨s₁, hev, hdrain⟩ := run_open hreg hk hs rfl hx
    exact .opened hk hs hev hdrain
  | connectionClose => cases hx.symm.trans (execute_close hu hk)
  | expired =>
    cases hx.symm.trans (execute_departed hu hk hh)
    have hd : Handled rex s c .expired _ := .departed hk hs
    exact hd
  | streamMessage => exact he.elim
  | mailboxMessage => exact he.elim
  | serviceMessage => exact he.elim
  | exception => exact he.elim
  | _ => exact hunopened rfl

/-- **The machine does what `Handled` says.** Between two events no execution is
running (`Reg`); an event of a message or a timer then has the effect that
`Handled` describes, whatever the amount of fuel. -/
theorem execute_handled {n : Nat} {e : Event} (hr : Reg s) (hk : s.ctx c = some k)
    (hs : k.state ≠ .zombie) (he : e.External) (hx : execute rex n c e s = .ok s') :
    Handled rex s c e s' := by
  rcases hr.state_cases hk with hstart | hopen | hz
  · exact handled_start hr hk hstart he hx
  · obtain ⟨a, ho⟩ := hr.open_of hk hopen
    exact handled_open hr ho he hx
  · exact absurd hz hs

end Server

/-- A message never carries one of the events that actions send. -/
theorem protocolEvent_external (p : Proto) : (protocolEvent p).External := by
  unfold protocolEvent
  split <;> trivial

end Malamute.L3
