import Malamute.L3Server.Frames

/-!
# The machine does what `Handled` says

`execute_handled`: a run of the table-driven loop that ends in a state ends in
a state that `Handled` describes. The loop is taken apart round by round:
`loop_round` is one round, `finish` its end, and each action is evaluated on
the state it finds.
-/
namespace Malamute.L3
open Malamute.Core Malamute.L1 Malamute.L2

namespace Server
variable {rex : Str → Str → Bool} {s s' : Server} {c : Cid} {k : Client}

/-! ## Contexts -/

theorem client_of (h : s.ctx c = some k) : s.client c = .ok k := by
  simp [client, h]

theorem modifyClient_of (h : s.ctx c = some k) (f : Client → Client) :
    s.modifyClient c f = .ok (s.setClient c (f k)) := by
  simp [modifyClient, client_of h]

theorem setClient_self (h : s.ctx c = some k) : s.setClient c k = s := by
  have : Function.update s.ctx c (some k) = s.ctx := by rw [← h, Function.update_eq_self]
  simp [setClient, this]

@[simp] theorem setClient_setClient (s : Server) (c : Cid) (k k' : Client) :
    (s.setClient c k).setClient c k' = s.setClient c k' := by
  simp [setClient]

@[simp] theorem freeClient_setClient (s : Server) (c : Cid) (k : Client) :
    (s.setClient c k).freeClient c = s.freeClient c := by
  simp [setClient, freeClient]

/-! Writes to a context commute with all other writes; the normal form has the
write to the context outermost. -/

@[simp] theorem log_setClient (s : Server) (c : Cid) (k : Client) (o : Obs) :
    (s.setClient c k).log o = (s.log o).setClient c k := rfl

@[simp] theorem setMessage_setClient (s : Server) (c : Cid) (k : Client) (p : Proto) :
    (s.setClient c k).setMessage p = (s.setMessage p).setClient c k := rfl

@[simp] theorem setStatus_setClient (s : Server) (c : Cid) (k : Client) (n : UInt16) :
    (s.setClient c k).setStatus n = (s.setStatus n).setClient c k := rfl

@[simp] theorem setHand_setClient (s : Server) (c : Cid) (k : Client) (m : Option Msg) :
    (s.setClient c k).setHand m = (s.setHand m).setClient c k := rfl

@[simp] theorem unlink_setClient (s : Server) (c : Cid) (k : Client) (m : Msg) :
    (s.setClient c k).unlink m = (s.unlink m).setClient c k := rfl

@[simp] theorem setAddresses_setClient (s : Server) (c : Cid) (k : Client) (t : Table Str Cid) :
    (s.setClient c k).setAddresses t = (s.setAddresses t).setClient c k := rfl

@[simp] theorem setMailbox_setClient (s : Server) (c : Cid) (k : Client) (b : Mailbox)
    (pipe : List (Str × Msg)) :
    (s.setClient c k).setMailbox b pipe = (s.setMailbox b pipe).setClient c k := rfl

@[simp] theorem setService_setClient (s : Server) (c : Cid) (k : Client) (name : Str)
    (v : Service) : (s.setClient c k).setService name v = (s.setService name v).setClient c k := rfl

@[simp] theorem pushStream_setClient (s : Server) (c : Cid) (k : Client) (name : Str)
    (i : Issue) : (s.setClient c k).pushStream name i = (s.pushStream name i).setClient c k := rfl

@[simp] theorem withdrawOffers_setClient (s : Server) (c d : Cid) (k : Client) :
    (s.setClient c k).withdrawOffers d = (s.withdrawOffers d).setClient c k := rfl

@[simp] theorem enter_setClient (s : Server) (c d : Cid) (k : Client) (e : Event) :
    (s.setClient c k).enter d e = (s.enter d e).setClient c k := rfl

@[simp] theorem answer_setClient (s : Server) (c d : Cid) (k j : Client) (id : Id) :
    (s.setClient c k).answer d j id = (s.answer d j id).setClient c k := rfl

@[simp] theorem deliver_setClient (s : Server) (c d : Cid) (k j : Client) (id : Id) (m : Msg) :
    (s.setClient c k).deliver d j id m = (s.deliver d j id m).setClient c k := rfl

theorem bury_setClient (s : Server) (c : Cid) (k j : Client) :
    (s.setClient c j).bury c k = s.bury c k := by
  simp [bury, setClient]

/-! ## Rounds -/

/-- The end of one round of the loop. -/
def finish (rex : Str → Str → Bool) (n : Nat) (c : Cid) (next : Option State) (s : Server) :
    Except Fault Server := do
  let k ← s.client c
  let k := afterActions k next
  let s := s.setClient c k
  if k.nextEvent = some .terminate then s.deleteClient k.hashkey
  else loop rex n c s

/-- One round of the loop: the actions of the transition, and the end. -/
theorem loop_round {n : Nat} {e : Event} {acts : List Action} {next : Option State}
    (hk : s.ctx c = some k) (he : k.nextEvent = some e)
    (ht : transition k.state e = some (acts, next)) :
    loop rex (n + 1) c s =
      runActions (runAction rex (execute rex n) n c) c acts
        ((s.setClient c { k with nextEvent := none, exception := none }).enter c e) >>=
      finish rex n c next := by
  rw [loop]
  simp only [client_of hk, ok_bind, he, ht]
  rfl

/-- The events that a round resets are reset already, whatever message is there. -/
theorem reset_events (hn : k.nextEvent = none) (hx : k.exception = none) (m : Option Msg) :
    ({ k with msg := m, nextEvent := none, exception := none } : Client) = { k with msg := m } := by
  rw [hn, hx]

/-- An execution on a quiet client starts from the state as it is. -/
theorem execute_round {n : Nat} {e : Event} {acts : List Action} {next : Option State}
    (hk : s.ctx c = some k) (hn : k.nextEvent = none) (hx : k.exception = none)
    (ht : transition k.state e = some (acts, next)) :
    execute rex (n + 1) c e s =
      runActions (runAction rex (execute rex n) n c) c acts (s.enter c e) >>=
      finish rex n c next := by
  have hk' : { k with nextEvent := none, exception := none } = k := reset_events hn hx k.msg
  rw [execute, modifyClient_of hk, ok_bind,
    loop_round (k := { k with nextEvent := some e }) (by simp) rfl ht]
  simp only [setClient_setClient, hk', setClient_self hk]

/-- Without fuel nothing is executed. -/
theorem execute_ok {n : Nat} {e : Event} (h : execute rex n c e s = .ok s') :
    ∃ m, n = m + 1 := by
  cases n with
  | zero =>
    obtain ⟨_, _, h⟩ := bind_eq_ok.1 h
    cases h
  | succ m => exact ⟨m, rfl⟩

variable {act : Action → Server → Except Fault Server}

@[simp] theorem runActions_nil : runActions act c [] s = .ok s := rfl

theorem runActions_cons {a : Action} {as : List Action} (hk : s.ctx c = some k)
    (hx : k.exception = none) :
    runActions act c (a :: as) s = act a s >>= runActions act c as := by
  simp [runActions, client_of hk, hx]

theorem afterActions_quiet (hx : k.exception = none) (next : Option State) :
    afterActions k next = { k with state := next.getD k.state } := by
  simp [afterActions, hx]

theorem runActions_step {a : Action} {as : List Action} (hk : s.ctx c = some k)
    (hx : k.exception = none) (ha : act a s = .ok s') :
    runActions act c (a :: as) s = runActions act c as s' := by
  rw [runActions_cons hk hx, ha, ok_bind]

/-- A round of one action: the action, and what follows it. -/
theorem runActions_last {n : Nat} {a : Action} {next : Option State} (hk : s.ctx c = some k)
    (hx : k.exception = none)
    (h : runActions act c [a] s >>= finish rex n c next = .ok s') :
    ∃ s₁, act a s = .ok s₁ ∧ finish rex n c next s₁ = .ok s' := by
  rw [runActions_cons hk hx] at h
  obtain ⟨s₂, h, hfin⟩ := bind_eq_ok.1 h
  obtain ⟨s₁, hact, h⟩ := bind_eq_ok.1 h
  cases h
  exact ⟨s₂, hact, hfin⟩

/-- A round that leaves the client quiet ends the loop. -/
theorem finish_quiet_eq {n : Nat} {next : Option State} (hk : s.ctx c = some k)
    (hn : k.nextEvent = none) (hx : k.exception = none) :
    finish rex (n + 1) c next s = .ok (s.setClient c { k with state := next.getD k.state }) := by
  simp only [finish, client_of hk, ok_bind, afterActions_quiet hx]
  rw [if_neg (by rw [hn]; simp), loop,
    client_of (k := { k with state := next.getD k.state }) (by simp), ok_bind]
  split
  · rfl
  · rename_i e he
    cases hn.symm.trans he

theorem finish_quiet {n : Nat} {next : Option State} (hk : s.ctx c = some k)
    (hn : k.nextEvent = none) (hx : k.exception = none)
    (h : finish rex n c next s = .ok s') :
    s' = s.setClient c { k with state := next.getD k.state } := by
  cases n with
  | zero =>
    simp only [finish, client_of hk, ok_bind, afterActions_quiet hx] at h
    rw [if_neg (by rw [hn]; simp)] at h
    cases h
  | succ n =>
    rw [finish_quiet_eq hk hn hx] at h
    exact (Except.ok.inj h).symm

/-- A round that set the next event goes on. -/
theorem finish_next {n : Nat} {next : Option State} {e : Event} (hk : s.ctx c = some k)
    (hn : k.nextEvent = some e) (he : e ≠ .terminate) (hx : k.exception = none) :
    finish rex n c next s = loop rex n c (s.setClient c { k with state := next.getD k.state }) := by
  simp only [finish, client_of hk, ok_bind, afterActions_quiet hx]
  rw [if_neg (by rw [hn]; simpa using he)]

theorem finish_terminate {n : Nat} (hk : s.ctx c = some k)
    (hn : k.nextEvent = some .terminate) (hx : k.exception = none) :
    finish rex n c none s = s.deleteClient k.hashkey := by
  simp only [finish, client_of hk, ok_bind, afterActions_quiet hx]
  rw [if_pos hn, Option.getD_none, setClient_self hk]

/-! ## Leaving -/

/-- `zhash_delete` for a client whose address is not in the address table. -/
theorem deleteClient_eq (hk : s.ctx c = some k) (hh : s.clients.get k.hashkey = some c)
    (ha : k.address = none ∨ k.address = some .empty) (hn : k.nextEvent = some .terminate) :
    s.deleteClient k.hashkey = .ok (s.bury c k) := by
  have hfin : s.clientFinalize c = .ok (s.freeClient c) := by
    rcases ha with ha | ha
    · simp [clientFinalize, clientTerminate, client_of hk, ha]
    · simp [clientFinalize, clientTerminate, client_of hk, ha, modifyClient_of hk]
  have hk' : { k with state := .zombie, nextEvent := some .terminate } =
      { k with state := State.zombie } := by
    cases k; simp_all
  simp only [deleteClient, hh, clientDestroy, client_of hk, ok_bind]
  by_cases hr : k.refcount = 0
  · simp only [hr, if_true, hfin, ok_bind, bury]
    rfl
  · simp only [hr, if_false, hk', bury]
    rw [modifyClient_of (k := k) (by simpa using hk)]
    rfl

/-- An open client that deregisters. -/
theorem deregister_eq {a : Str} (h : Open s c k a) :
    s.deregisterTheClient c = .ok ((s.deregister c k a).setClient c (k.deregistered a)) := by
  have hk : (s.cancelReaders c k.readers).ctx c = some k := h.ctx
  simp only [deregisterTheClient, client_of h.ctx, ok_bind, h.address, modifyClient_of hk]
  by_cases ha : a = .empty
  · subst ha
    rw [if_pos rfl]
    rfl
  · have hreg : ((s.cancelReaders c k.readers).withdrawOffers c).addresses.get a = some c :=
      h.registered ha
    simp only [ha, if_false, withdrawOffers_setClient, deleteAddress, setClient_addresses, hreg]
    rw [modifyClient_of (k := { k with readers := [], address := some a }) (by simp), ok_bind,
      ok_bind, setClient_setClient]
    simp only [deregister, Client.deregistered, ha, if_false]
    rfl

/-- `deregister_the_client`, `terminate` and the end of the loop. -/
theorem run_leave {n : Nat} {a : Str} (h : Open s c k a) :
    runActions (runAction rex (execute rex n) n c) c [.deregisterTheClient, .terminate] s >>=
      finish rex n c none = .ok (s.leave c k a) := by
  have hx := h.quiet.exception
  have hx₁ : (k.deregistered a).exception = none := hx
  have haddr : (k.deregistered a).address = none ∨ (k.deregistered a).address = some .empty := by
    by_cases ha : a = .empty <;> simp [Client.deregistered, ha]
  rw [runActions_step h.ctx hx (a := .deregisterTheClient) (deregister_eq h),
    runActions_step (k := k.deregistered a) (by simp) hx₁ (a := .terminate)
      (modifyClient_of (k := k.deregistered a) (by simp) _),
    runActions_nil, ok_bind, setClient_setClient]
  rw [finish_terminate (k := { k.deregistered a with nextEvent := some .terminate }) (by simp) rfl
      hx₁]
  have hdel := deleteClient_eq (s := (s.deregister c k a).setClient c
    { k.deregistered a with nextEvent := some .terminate }) (c := c)
      (k := { k.deregistered a with nextEvent := some .terminate }) (by simp) h.hashed haddr rfl
  rw [bury_setClient] at hdel
  exact hdel

/-! ## Sending and delivering -/

theorem send_eq (hk : s.ctx c = some k) (id : Id) : s.send c id = .ok (s.answer c k id) := by
  simp only [send, client_of hk, ok_bind]
  rfl

theorem getMessage_eq (hk : s.ctx c = some k) (hq : Quiet k) (m : Msg) :
    (s.setClient c { k with msg := some m }).getMessageToDeliver c =
      .ok (((s.setMessage (m.setProto s.message)).setHand (some m)).unlink m) := by
  have hk' : ({ k with msg := none } : Client) = k := by
    rw [← hq.msg]
  simp only [getMessageToDeliver]
  rw [client_of (k := { k with msg := some m }) (by simp), ok_bind]
  simp only [setMessage_setClient, setHand_setClient, unlink_setClient]
  rw [modifyClient_of (k := { k with msg := some m }) (by simp), setClient_setClient]
  simp only [hk']
  rw [setClient_self (by simpa using hk)]
  rfl

/-- The first two actions of the three message events. -/
theorem run_deliver {n : Nat} {as : List Action} {m : Msg} {id : Id} (hk : s.ctx c = some k)
    (hq : Quiet k) :
    runActions (runAction rex (execute rex n) n c) c (.getMessageToDeliver :: .send id :: as)
        (s.setClient c { k with msg := some m }) =
      runActions (runAction rex (execute rex n) n c) c as (s.deliver c k id m) := by
  rw [runActions_cons (k := { k with msg := some m }) (by simp) hq.exception]
  rw [show runAction rex (execute rex n) n c .getMessageToDeliver _ = _ from
    getMessage_eq hk hq m, ok_bind, runActions_cons (k := k) (by simpa using hk) hq.exception]
  rw [show runAction rex (execute rex n) n c (.send id) _ = _ from
    send_eq (k := k) (by simpa using hk) id, ok_bind]
  rfl

/-- A stream or service message event on an open client: two rounds of fuel. -/
theorem execute_deliver_eq {n : Nat} {e : Event} {id : Id} {m : Msg} {a : Str} (h : Open s c k a)
    (he : connectedState e = ([.getMessageToDeliver, .send id], some .connected)) :
    execute rex (n + 2) c e (s.setClient c { k with msg := some m }) =
      .ok ((s.enter c e).deliver c k id m) := by
  have hk : ({ k with state := .connected } : Client) = k := by rw [← h.state]
  have hctx : ((s.enter c e).deliver c k id m).ctx c = some k := h.ctx
  rw [execute_round (k := { k with msg := some m }) (by simp) h.quiet.nextEvent h.quiet.exception
    (by rw [h.state, transition, he]), enter_setClient, run_deliver (by simpa using h.ctx) h.quiet,
    runActions_nil, ok_bind, finish_quiet_eq hctx h.quiet.nextEvent h.quiet.exception]
  simp only [Option.getD_some, hk]
  rw [setClient_self hctx]

theorem execute_deliver {n : Nat} {e : Event} {id : Id} {m : Msg} {a : Str} (h : Open s c k a)
    (he : connectedState e = ([.getMessageToDeliver, .send id], some .connected))
    (hx : execute rex n c e (s.setClient c { k with msg := some m }) = .ok s') :
    s' = (s.enter c e).deliver c k id m := by
  have hmore := Le.of_le (execute_mono rex · c e (s.setClient c { k with msg := some m }))
    (Nat.le_add_right n 2)
  have heq := hmore.eq (by rw [hx]; simp)
  rw [hx, execute_deliver_eq h he] at heq
  exact (Except.ok.inj heq).symm

/-! ## Mailbox queries -/

theorem mailboxReads_setClient (pipe : List (Str × Msg)) (s : Server) (c : Cid) (k : Client) :
    mailboxReads pipe (s.setClient c k) =
      (mailboxReads pipe s).map (fun s => s.setClient c k) := by
  have hread : ∀ s : Server, (s.setClient c k).mailboxRead =
      s.mailboxRead.map (fun s => s.setClient c k) := by
    intro s
    unfold mailboxRead
    simp only [setClient_mailboxPipe, setClient_mailbox]
    cases s.mailboxPipe with
    | nil => rfl
    | cons p pipe =>
      obtain ⟨a, m⟩ := p
      dsimp only
      cases s.mailbox.store a m with
      | error e => rfl
      | ok r =>
        obtain ⟨b, v⟩ := r
        cases v <;> rfl
  induction pipe generalizing s with
  | nil => rfl
  | cons p pipe ih =>
    simp only [mailboxReads, hread]
    cases s.mailboxRead with
    | error e => rfl
    | ok s₁ => exact ih s₁

theorem mailboxQuery_setClient (s : Server) (c : Cid) (k : Client) (a : Str) :
    (s.setClient c k).mailboxQuery a =
      (s.mailboxQuery a).map (fun r => (r.1.setClient c k, r.2)) := by
  simp only [mailboxQuery, setClient_mailboxPipe, mailboxReads_setClient]
  cases mailboxReads s.mailboxPipe s with
  | error e => rfl
  | ok s₁ =>
    simp only [Except.map, ok_bind, setClient_mailbox]
    cases s₁.mailbox.query a with
    | error e => rfl
    | ok r => rfl

/-- `check_for_mailbox_messages` for a client with a non-empty address. -/
theorem check_eq {a : Str} (hk : s.ctx c = some k) (hs : k.state ≠ .zombie)
    (haddr : k.address = some a) (ha : a ≠ .empty) :
    s.checkForMailboxMessages c = (do
      let (s, m) ← s.mailboxQuery a
      match m with
      | none => .ok (s.setClient c { k with msg := none })
      | some m => .ok (s.setClient c { k with msg := some m, nextEvent := some .mailboxMessage })) := by
  simp only [checkForMailboxMessages, client_of hk, ok_bind]
  split
  · rename_i h; rw [haddr] at h; cases h
  rename_i a' h
  cases haddr.symm.trans h
  rw [if_neg ha]
  cases hq : s.mailboxQuery a with
  | error e => rfl
  | ok r =>
    obtain ⟨s₁, m⟩ := r
    have hk₁ : s₁.ctx c = some k := by
      obtain ⟨b, pipe, refs, ms, rfl⟩ := mailboxQuery_only hq
      exact hk
    simp only [ok_bind, modifyClient_of hk₁]
    cases m with
    | none => rfl
    | some m =>
      simp only [setNextEvent]
      rw [modifyClient_of (k := { k with msg := some m }) (by simp), setClient_setClient,
        if_neg hs]

/-- One round of the mailbox message event: the delivery, and a look for more. -/
theorem loop_mailbox_round {n : Nat} {m : Msg} {a : Str} (h : Open s c k a) :
    loop rex (n + 1) c
        (s.setClient c { k with msg := some m, nextEvent := some .mailboxMessage }) =
      (((s.enter c .mailboxMessage).deliver c k .mailboxDeliver m).checkForMailboxMessages c >>=
        finish rex n c (some .connected)) := by
  have hk' := reset_events h.quiet.nextEvent h.quiet.exception (some m)
  have hctx : ((s.enter c .mailboxMessage).deliver c k .mailboxDeliver m).ctx c = some k := h.ctx
  rw [loop_round (k := { k with msg := some m, nextEvent := some .mailboxMessage }) (by simp) rfl
    (by rw [h.state]; rfl)]
  simp only [setClient_setClient, hk', enter_setClient]
  rw [run_deliver (by simpa using h.ctx) h.quiet, runActions_cons hctx h.quiet.exception, runAction]
  cases ((s.enter c .mailboxMessage).deliver c k .mailboxDeliver m).checkForMailboxMessages c with
  | error f => rfl
  | ok s₁ => rfl

/-- There is no mailbox for the empty address. -/
theorem check_anonymous (hk : s.ctx c = some k) (haddr : k.address = some .empty) :
    s.checkForMailboxMessages c = .ok s := by
  simp [checkForMailboxMessages, client_of hk, haddr]

/-- The loop from a mailbox message event: it drains the mailbox. -/
theorem loop_mailbox {n : Nat} {m : Msg} {a : Str} (h : Open s c k a)
    (hx : loop rex n c (s.setClient c { k with msg := some m, nextEvent := some .mailboxMessage }) =
      .ok s') :
    Drain c k a ((s.enter c .mailboxMessage).deliver c k .mailboxDeliver m) s' := by
  induction n generalizing s m with
  | zero => cases hx
  | succ n ih =>
    rw [loop_mailbox_round h] at hx
    -- the state after the delivery, in which the client is open and quiet again
    generalize hd : (s.enter c .mailboxMessage).deliver c k .mailboxDeliver m = d at hx ⊢
    have hopen : Open d c k a := by
      rw [← hd]; exact h.frame rfl rfl rfl
    have hstate : ({ k with state := .connected } : Client) = k := by rw [← h.state]
    by_cases ha : a = .empty
    · rw [check_anonymous hopen.ctx (ha ▸ h.address), ok_bind] at hx
      rw [finish_quiet hopen.ctx h.quiet.nextEvent h.quiet.exception hx]
      simp only [Option.getD_some, hstate, setClient_self hopen.ctx]
      exact .anonymous ha
    · have hz : k.state ≠ .zombie := by rw [h.state]; simp
      rw [check_eq hopen.ctx hz h.address ha] at hx
      cases hq : d.mailboxQuery a with
      | error e => rw [hq] at hx; cases hx
      | ok r =>
        obtain ⟨s₁, r⟩ := r
        have hopen₁ : Open s₁ c k a := (mailboxQuery_only hq).open hopen
        rw [hq] at hx
        cases r with
        | none =>
          have hmsg : ({ k with msg := none } : Client) = k := by rw [← h.quiet.msg]
          simp only [ok_bind, hmsg, setClient_self hopen₁.ctx] at hx
          rw [finish_quiet hopen₁.ctx h.quiet.nextEvent h.quiet.exception hx]
          simp only [Option.getD_some, hstate, setClient_self hopen₁.ctx]
          exact .empty ha hq
        | some m' =>
          simp only [ok_bind] at hx
          refine .next ha hq (ih hopen₁ ?_)
          rw [finish_next (k := { k with msg := some m', nextEvent := some .mailboxMessage })
            (by simp) rfl (by simp) h.quiet.exception] at hx
          simp only [setClient_setClient, Option.getD_some, ← h.state] at hx
          exact hx

theorem execute_mailbox {n : Nat} {m : Msg} {a : Str} (h : Open s c k a)
    (hx : execute rex n c .mailboxMessage (s.setClient c { k with msg := some m }) = .ok s') :
    Drain c k a ((s.enter c .mailboxMessage).deliver c k .mailboxDeliver m) s' := by
  rw [execute, modifyClient_of (k := { k with msg := some m }) (by simp), setClient_setClient,
    ok_bind] at hx
  exact loop_mailbox h hx

/-! ## Services -/

theorem dispatch_ok {n : Nat} {name : Str} {m : Msg} {b : Bool} (ho : OffersOpen s name)
    (h : s.serviceDispatchMessage rex (execute rex n) name m = .ok (s', b)) :
    Dispatched rex name m s s' b := by
  unfold serviceDispatchMessage at h
  dsimp only at h
  split at h
  · rename_i offers hs
    cases h
    exact .none hs
  · rename_i offers o hs
    have hmem : o ∈ (s.service name).offers.items := CursorList.mem_of_seek hs
    obtain ⟨t, a, ht⟩ := ho o hmem
    rw [client_of (k := t) (by simpa using ht.ctx), ok_bind] at h
    rw [if_neg (by rw [ht.quiet.msg]; simp)] at h
    obtain ⟨s₁, hx, h⟩ := bind_eq_ok.1 h
    rw [log_setClient, sendEvent, client_of (k := { t with msg := some m }) (by simp), ok_bind,
      if_neg (by rw [ht.state]; simp)] at hx
    have hopen : Open ((s.setService name ((s.service name).setOffers offers)).log
        (.dispatched name (s.service name).offers.items o m)) o.client t a :=
      ht.frame rfl rfl rfl
    have hs₁ := execute_deliver hopen rfl hx
    have hv : s₁.service name = (s.service name).setOffers offers := by
      rw [hs₁]; simp [service]
    have hcomm : ∀ v, s₁.setService name v =
        ((((s.log (.dispatched name (s.service name).offers.items o m)).enter o.client
          .serviceMessage).deliver o.client t .serviceDeliver m).setService name v) := by
      intro v; rw [hs₁]
      exact setService_setService (((s.log (.dispatched name (s.service name).offers.items o m)).enter
        o.client .serviceMessage).deliver o.client t .serviceDeliver m) name
          ((s.service name).setOffers offers) v
    cases h
    rw [hv, hcomm]
    exact .some hs ht.ctx

theorem scan_ok {n l : Nat} {name : Str} {m : Option Msg} (ho : OffersOpen s name)
    (h : serviceDispatchLoop rex (execute rex n) name l m s = .ok s') :
    Scan rex name m s s' := by
  induction l generalizing s m with
  | zero =>
    cases m with
    | none => cases h; exact .done
    | some m => cases h
  | succ l ih =>
    cases m with
    | none => cases h; exact .done
    | some m =>
      obtain ⟨⟨s₁, b⟩, hd, h⟩ := bind_eq_ok.1 h
      have hd := dispatch_ok (s := s.link m) (ho.frame (.refl _) rfl rfl rfl) hd
      obtain ⟨hperm, hq⟩ := dispatched_service hd
      have hsame := dispatched_same hd
      have ho₁ : ∀ queue : Msgq, OffersOpen ((s₁.unlink m).setService name
          ((s₁.service name).setQueue queue)) name := by
        intro queue
        refine ho.frame ?_ hsame.ctx hsame.clients hsame.addresses
        rw [service_setService]; exact hperm
      cases b with
      | false => exact .skip hd (ih (ho₁ _) h)
      | true =>
        obtain ⟨queue, hqueue, h⟩ := bind_eq_ok.1 h
        refine .take hd hqueue (ih (ho₁ _) ?_)
        have hv : ((s₁.setService name ((s₁.service name).setQueue queue)).unlink m).service name =
            (s₁.service name).setQueue queue := service_setService s₁ name _
        have hcomm : ∀ v, ((s₁.setService name ((s₁.service name).setQueue queue)).unlink
            m).setService name v = (s₁.unlink m).setService name v :=
          fun v => setService_setService (s₁.unlink m) name _ v
        simp only [ok_bind, hv, hcomm] at h
        exact h

/-! ## The events of an open client -/

theorem finish_same {n : Nat} (hk : s.ctx c = some k) (hq : Quiet k)
    (h : finish rex n c none s = .ok s') : s' = s := by
  rw [finish_quiet hk hq.nextEvent hq.exception h, Option.getD_none]
  exact setClient_self hk

/-- A round that ends with sending a reply. -/
theorem run_answer {n : Nat} {id : Id} (hk : s.ctx c = some k) (hq : Quiet k)
    (h : runActions (runAction rex (execute rex n) n c) c [.send id] s >>= finish rex n c none =
      .ok s') : s' = s.answer c k id := by
  rw [runActions_step hk hq.exception (send_eq hk id), runActions_nil, ok_bind] at h
  exact finish_same (by simpa using hk) hq h

/-- A round in which an action raised the exception. -/
theorem finish_fail_eq {n : Nat} {a : Str} (h : Open s c k a) :
    finish rex (n + 1) c none (s.setClient c { k with exception := some .exception }) =
      .ok (s.fail c k a) := by
  rw [finish, client_of (k := { k with exception := some .exception }) (by simp), ok_bind]
  have hk : afterActions { k with exception := some .exception } none =
      { k with exception := some .exception, nextEvent := some .exception } := rfl
  simp only [hk, setClient_setClient, Option.some.injEq, reduceCtorEq, if_false]
  have hk' : ({ k with nextEvent := none, exception := none } : Client) = k :=
    reset_events h.quiet.nextEvent h.quiet.exception k.msg
  rw [loop_round (k := { k with exception := some .exception, nextEvent := some .exception })
    (by simp) rfl (by rw [h.state]; rfl)]
  simp only [setClient_setClient, hk', setClient_self h.ctx]
  have hopen : Open (s.enter c .exception) c k a := h.frame rfl rfl rfl
  have hstatus : Open ((s.enter c .exception).setStatus failed) c k a := h.frame rfl rfl rfl
  have hans : Open (((s.enter c .exception).setStatus failed).answer c k .error) c k a :=
    h.frame rfl rfl rfl
  rw [runActions_step hopen.ctx h.quiet.exception rfl,
    runActions_step hstatus.ctx h.quiet.exception (send_eq hstatus.ctx .error),
    runActions_step hans.ctx h.quiet.exception rfl, run_leave hans]
  rfl

theorem finish_fail {n : Nat} {a : Str} (h : Open s c k a)
    (hx : finish rex n c none (s.setClient c { k with exception := some .exception }) = .ok s') :
    s' = s.fail c k a := by
  cases n with
  | zero =>
    rw [finish, client_of (k := { k with exception := some .exception }) (by simp), ok_bind] at hx
    cases hx
  | succ n =>
    rw [finish_fail_eq h] at hx
    exact (Except.ok.inj hx).symm

/-- A round that ends with deregistering and terminating. -/
theorem run_dropped {n : Nat} {a : Str} (h : Open s c k a)
    (hx : runActions (runAction rex (execute rex n) n c) c [.deregisterTheClient, .terminate] s >>=
      finish rex n c none = .ok s') : s' = s.leave c k a := by
  rw [run_leave h] at hx
  exact (Except.ok.inj hx).symm

theorem storeStreamWriter_eq (hk : s.ctx c = some k) :
    s.storeStreamWriter c = .ok (((s.streamRequire s.message.stream).setClient c
      { k with writer := some s.message.stream }).setStatus success) := by
  simp only [storeStreamWriter]
  rw [modifyClient_of (k := k) (by simpa using hk)]
  rfl

theorem storeStreamReader_eq (hk : s.ctx c = some k) :
    s.storeStreamReader c = .ok (((((s.streamRequire s.message.stream).pushStream s.message.stream
      (.command (.compile c s.message.pattern))).setClient c (k.reading s.message.stream)).setStatus
        success).log (.subscribed c s.message.stream s.message.pattern)) := by
  simp only [storeStreamReader]
  rw [modifyClient_of (k := k) (by simpa using hk), ok_bind, pushStream_setClient, clientGet,
    modifyClient_of (k := { k with readers := k.readers ++ [s.message.stream] }) (by simp), ok_bind,
    setClient_setClient]
  rfl

theorem cancelStreamReader_eq (hk : s.ctx c = some k) :
    s.cancelStreamReader c = .ok ((((s.streamRequire s.message.stream).pushStream s.message.stream
      (.command (.cancel c))).setClient c { k with readers := k.readers.tail }).log
        (.cancelled c s.message.stream)) := by
  simp only [cancelStreamReader]
  rw [modifyClient_of (k := k) (by simpa using hk)]
  rfl

/-- Without a writer `write_message_to_stream` raises the exception. -/
theorem writeMessageToStream_none {a : Str} (h : Open s c k a) (hw : k.writer = none) :
    s.writeMessageToStream c = .ok (s.setClient c { k with exception := some .exception }) := by
  simp only [writeMessageToStream, client_of h.ctx, ok_bind, setException]
  split
  · rw [modifyClient_of h.ctx, if_neg (by rw [h.state]; simp)]
  · rename_i hsome _
    cases hsome.symm.trans hw
  · rename_i hsome _
    cases hsome.symm.trans hw

theorem writeMessageToStream_some {a name : Str} (h : Open s c k a) (hw : k.writer = some name) :
    s.writeMessageToStream c = .ok (s.publish c a name) := by
  simp only [writeMessageToStream, client_of h.ctx, ok_bind, hw, h.address]
  rfl

theorem haveMessageConfirmation_eq {a : Str} (h : Open s c k a) :
    s.haveMessageConfirmation c = .ok (s.setClient c { k with exception := some .exception }) := by
  simp only [haveMessageConfirmation, setException]
  rw [modifyClient_of h.ctx, if_neg (by rw [h.state]; simp)]

theorem clientClosedConnection_eq {a : Str} (h : Open s c k a) :
    s.clientClosedConnection c = .ok s := by
  simp only [clientClosedConnection, client_of h.ctx, ok_bind, h.address]

/-- `write_message_to_mailbox` for an open client, when the holders of addresses
are open. -/
theorem mailed_ok {n : Nat} {a : Str} (h : Open s c k a)
    (hreg : ∀ b d, s.addresses.get b = some d → ∃ t, Open s d t b)
    (hx : s.writeMessageToMailbox (execute rex n) c = .ok s') : Mailed c a s s' := by
  simp only [writeMessageToMailbox, client_of h.ctx, ok_bind] at hx
  split at hx
  · rename_i hn; rw [h.address] at hn; cases hn
  rename_i sender hsender
  cases h.address.symm.trans hsender
  split at hx
  · rename_i target htarget
    obtain ⟨t, ht⟩ := hreg _ _ htarget
    rw [client_of (k := t) (by simpa using ht.ctx), ok_bind,
      if_neg (by rw [ht.quiet.msg]; simp), sendEvent,
      client_of (k := { t with msg := some (s.messageFrom a) }) (by simp), ok_bind,
      if_neg (by rw [ht.state]; simp)] at hx
    refine .direct htarget ht.ctx (execute_mailbox ?_ hx)
    exact ht.frame rfl rfl rfl
  · rename_i hnone
    cases hx
    exact .stored hnone

/-- `write_message_to_service` for an open client. -/
theorem requested_ok {n : Nat} {a : Str} (h : Open s c k a) (ho : OffersOpen s s.message.address)
    (hx : s.writeMessageToService rex (execute rex n) c = .ok s') : Requested rex c a s s' := by
  simp only [writeMessageToService, client_of h.ctx, ok_bind] at hx
  split at hx
  · rename_i hn; rw [h.address] at hn; cases hn
  rename_i sender hsender
  cases h.address.symm.trans hsender
  obtain ⟨⟨s₁, b⟩, hd, hx⟩ := bind_eq_ok.1 hx
  have hreq : OffersOpen (s.requesting c a) s.message.address := by
    have hs : (s.requesting c a).service s.message.address = s.service s.message.address := by
      simp [service, requesting, Table.get_ensure]
    refine ho.frame ?_ rfl rfl rfl
    rw [hs]
  have hd : Dispatched rex s.message.address (s.messageFrom a) (s.requesting c a) s₁ b :=
    dispatch_ok hreq hd
  cases b with
  | true => cases hx; exact .dispatched hd
  | false =>
    obtain ⟨⟨queue, v⟩, hq, hx⟩ := bind_eq_ok.1 hx
    cases v with
    | queued w => cases hx; exact .queued hd hq
    | refused => cases hx; exact .refused hd hq

theorem serviceRequire_of_some {name : Str} {v : Service} (h : s.services.get name = some v) :
    s.serviceRequire name = s := by
  have : s.services.ensure name .new = s.services := by simp [Table.ensure, h]
  simp [serviceRequire, this]

/-- `dispatch_the_service` after an offer was added. -/
theorem offered_ok {n : Nat} {a : Str} (h : Open s c k a) (hr : Reg s)
    (hx : (s.offering c k).dispatchTheService rex (execute rex n) n = .ok s') :
    Scan rex s.message.address ((s.offering c k).service s.message.address).queue.first.2
      ((s.offering c k).setService s.message.address
        (((s.offering c k).service s.message.address).setQueue
          ((s.offering c k).service s.message.address).queue.first.1)) s' := by
  have hv : (s.offering c k).services.get s.message.address =
      some ((s.service s.message.address).setOffers ((s.service s.message.address).offers.addEnd
        ⟨s.offerId, s.message.pattern, c⟩)) := by
    simp [offering, service, Table.get_ensure]
  have hs : (s.offering c k).service s.message.address =
      (s.service s.message.address).setOffers ((s.service s.message.address).offers.addEnd
        ⟨s.offerId, s.message.pattern, c⟩) := by
    rw [service, hv]; rfl
  have haddr : (s.offering c k).message.address = s.message.address := rfl
  have hsize : ¬ ((s.offering c k).service s.message.address).offers.size = 0 := by
    rw [hs]; simp [CursorList.size]
  simp only [dispatchTheService, haddr, serviceRequire_of_some hv, serviceDispatch] at hx
  rw [if_neg hsize] at hx
  refine scan_ok ?_ hx
  intro o ho
  rw [service_setService, Service.setQueue_offers, hs, Service.setOffers_offers,
    CursorList.items_addEnd, List.mem_append, List.mem_singleton] at ho
  rcases ho with ho | rfl
  · obtain ⟨t, b, ht⟩ := hr.offers _ o ho
    exact ⟨t, b, ht.frame rfl rfl rfl⟩
  · exact ⟨k, a, h.frame rfl rfl rfl⟩

/-- SERVICE OFFER from an open client. -/
theorem run_offer {n : Nat} {a : Str} (h : Open s c k a) (hr : Reg s)
    (hx : runActions (runAction rex (execute rex n) n c) c
        [.storeServiceOffer, .send .ok, .dispatchTheService] s >>= finish rex n c none = .ok s') :
    Scan rex s.message.address ((s.offering c k).service s.message.address).queue.first.2
      ((s.offering c k).setService s.message.address
        (((s.offering c k).service s.message.address).setQueue
          ((s.offering c k).service s.message.address).queue.first.1)) s' := by
  have hoff : Open (s.offering c k) c k a := h.frame rfl rfl rfl
  obtain ⟨s₀, hstore, hctx₀, hans⟩ : ∃ s₀, s.storeServiceOffer c = .ok s₀ ∧ s₀.ctx c = some k ∧
      s₀.answer c k .ok = s.offering c k := ⟨_, rfl, h.ctx, rfl⟩
  have hq := h.quiet.exception
  rw [runActions_step h.ctx hq (a := .storeServiceOffer) hstore,
    runActions_step hctx₀ hq (a := .send .ok) (send_eq hctx₀ .ok), hans] at hx
  obtain ⟨s₁, hdisp, hfin⟩ := runActions_last hoff.ctx hq hx
  have hscan := offered_ok h hr hdisp
  have hctx : s₁.ctx c = some k := by rw [(scan_same hscan).ctx]; exact hoff.ctx
  rw [finish_same hctx h.quiet hfin]
  exact hscan

/-- An event of an open client. -/
theorem handled_open {n : Nat} {e : Event} {a : Str} (hr : Reg s) (h : Open s c k a)
    (he : e.External) (hx : execute rex n c e s = .ok s') : Handled rex s c e s' := by
  obtain ⟨n, rfl⟩ := execute_ok hx
  have hn := h.quiet.nextEvent
  have hq := h.quiet.exception
  have hopen : Open (s.enter c e) c k a := h.frame rfl rfl rfl
  have hreg : ∀ b d, s.addresses.get b = some d → ∃ t, Open s d t b :=
    fun b d hd => (hr.registered b d hd).2
  have hround {acts} (hc : connectedState e = (acts, none)) :
      runActions (runAction rex (execute rex n) n c) c acts (s.enter c e) >>= finish rex n c none =
        .ok s' := by
    rw [← hx, execute_round h.ctx hn hq]
    rw [h.state, transition, hc]
  -- the handlers that every unexpected event shares
  have hinvalid (hc : connectedState e =
      ([.signalCommandInvalid, .send .error, .deregisterTheClient, .terminate], none)) :
      Handled rex s c e s' := by
    have hx := hround hc
    have hs : Open ((s.enter c e).setStatus commandInvalid) c k a := h.frame rfl rfl rfl
    have ha : Open (((s.enter c e).setStatus commandInvalid).answer c k .error) c k a :=
      h.frame rfl rfl rfl
    rw [runActions_step hopen.ctx hq rfl, runActions_step hs.ctx hq (send_eq hs.ctx .error)] at hx
    rw [run_dropped ha hx]
    exact .invalid h hc
  cases e with
  | terminate => exact hinvalid rfl
  | connectionOpen => exact hinvalid rfl
  | streamMessage => exact he.elim
  | mailboxMessage => exact he.elim
  | serviceMessage => exact he.elim
  | exception => exact he.elim
  | streamWrite =>
    have hx := hround rfl
    rw [runActions_step hopen.ctx hq (storeStreamWriter_eq hopen.ctx)] at hx
    rw [run_answer (k := { k with writer := some s.message.stream }) (by simp)
      ⟨hn, hq, h.quiet.msg⟩ hx]
    have hw : Handled rex s c .streamWrite _ := .wrote h
    exact hw
  | streamRead =>
    have hx := hround rfl
    rw [runActions_step hopen.ctx hq (storeStreamReader_eq hopen.ctx)] at hx
    rw [run_answer (k := k.reading s.message.stream) (by simp) ⟨hn, hq, h.quiet.msg⟩ hx]
    have hr : Handled rex s c .streamRead _ := .read h
    exact hr
  | streamCancel =>
    have hx := hround rfl
    rw [runActions_step hopen.ctx hq (cancelStreamReader_eq hopen.ctx)] at hx
    rw [run_answer (k := { k with readers := k.readers.tail }) (by simp)
      ⟨hn, hq, h.quiet.msg⟩ hx]
    have hc : Handled rex s c .streamCancel _ := .cancelled h
    exact hc
  | streamSend =>
    have hx := hround rfl
    rw [runActions_cons hopen.ctx hq] at hx
    cases hw : k.writer with
    | none =>
      rw [show runAction rex (execute rex n) n c .writeMessageToStream _ = _ from
        writeMessageToStream_none hopen hw, ok_bind, runActions_nil, ok_bind] at hx
      rw [finish_fail hopen hx]
      exact .unwritten h hw
    | some name =>
      rw [show runAction rex (execute rex n) n c .writeMessageToStream _ = _ from
        writeMessageToStream_some hopen hw, ok_bind, runActions_nil, ok_bind] at hx
      have hctx : ((s.enter c .streamSend).publish c a name).ctx c = some k := h.ctx
      rw [finish_same hctx h.quiet hx]
      exact .published h hw
  | mailboxSend =>
    obtain ⟨s₂, hact, hfin⟩ := runActions_last hopen.ctx hq (hround rfl)
    have hm := mailed_ok hopen (fun b d hd => by
      obtain ⟨t, ht⟩ := hreg b d hd
      exact ⟨t, ht.frame rfl rfl rfl⟩) hact
    have hctx : s₂.ctx c = some k := by rw [(mailed_same hm).ctx]; exact h.ctx
    rw [finish_same hctx h.quiet hfin]
    exact .mailed h hm
  | serviceSend =>
    obtain ⟨s₂, hact, hfin⟩ := runActions_last hopen.ctx hq (hround rfl)
    have ho : OffersOpen (s.enter c .serviceSend) (s.enter c .serviceSend).message.address :=
      OffersOpen.frame (hr.offers _) (.refl _) rfl rfl rfl
    have hm := requested_ok hopen ho hact
    have hctx : s₂.ctx c = some k := by rw [(requested_same hm).ctx]; exact h.ctx
    rw [finish_same hctx h.quiet hfin]
    exact .requested h hm
  | serviceOffer =>
    have hreg' : Reg (s.enter c .serviceOffer) := hr.frame rfl rfl rfl rfl hr.offers
    exact .offered h rfl (run_offer hopen hreg' (hround rfl))
  | confirm =>
    have hx := hround rfl
    rw [runActions_step hopen.ctx hq (a := .haveMessageConfirmation)
      (haveMessageConfirmation_eq hopen), runActions_nil, ok_bind] at hx
    rw [finish_fail hopen hx]
    exact .confirmed h
  | credit =>
    have hx := hround rfl
    rw [runActions_step hopen.ctx hq rfl, runActions_nil, ok_bind] at hx
    rw [finish_same hopen.ctx h.quiet hx]
    exact .credited h
  | connectionPing =>
    rw [run_answer hopen.ctx h.quiet (hround rfl)]
    exact .pinged h
  | connectionClose =>
    have hx := hround rfl
    have ha : Open ((s.enter c .connectionClose).answer c k .ok) c k a := h.frame rfl rfl rfl
    rw [runActions_step hopen.ctx hq (send_eq hopen.ctx .ok),
      runActions_step ha.ctx hq (a := .clientClosedConnection) (clientClosedConnection_eq ha)] at hx
    rw [run_dropped ha hx]
    exact .closed h
  | expired =>
    have hx := hround rfl
    rw [runActions_step hopen.ctx hq rfl] at hx
    rw [run_dropped hopen hx]
    exact .expired h

end Server
end Malamute.L3
