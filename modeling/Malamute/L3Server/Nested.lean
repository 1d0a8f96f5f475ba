import Malamute.L3Server.Vigil

/-!
# Nested executions

The rounds of the machine under watch. An execution is nested in an action only
to give a client its message (`Nests.deliver`) or to expire the holder of an
address (`Nests.expire`), and neither starts another one.
-/
namespace Malamute.L3
open Malamute.Core Malamute.L1 Malamute.L2 Server

namespace Watched

section
variable {chk : List Msg → Server → Prop} [∀ L s, Decidable (chk L s)] {rex : Str → Str → Bool}
  {L : List Msg} {s s' : Server} {c d : Cid} {k t : Client} {R : List Cid}

@[simp] theorem lift_ok_bind {α β : Type} (a : α) (f : α → Except Alarm β) :
    (lift (.ok a) >>= f) = f a := rfl

/-! ## Rounds -/

variable (chk rex) in
/-- An execution that an action of the first context of `R` starts. -/
def nest (n : Nat) (R : List Cid) : Watched.Exec := fun L d e s => do
  let s ← lift (s.modifyClient d fun k => { k with nextEvent := some e })
  let s ← loop chk rex n R L d s
  if alive R s then .ok s else .error .gone

variable (chk rex) in
/-- The end of one round, which began with the message `slot` and the trace `t`. -/
def finish (n : Nat) (R : List Cid) (L : List Msg) (c : Cid) (next : Option State)
    (slot : Option Msg) (t : List Obs) (s : Server) : Except Alarm Server :=
  if slot.any (fun m => !sentFirst c m t s.trace) then .error .unsent
  else do
    let k ← lift (s.client c)
    let k := afterActions k next
    let s := s.setClient c k
    if k.nextEvent = some .terminate then
      if k.msg.isSome then .error .unsent else lift (s.deleteClient k.hashkey)
    else loop chk rex n R L c s

theorem loop_round {n : Nat} {e : Event} {acts : List Action} {next : Option State}
    (hk : s.ctx c = some k) (he : k.nextEvent = some e)
    (ht : transition k.state e = some (acts, next)) :
    loop chk rex (n + 1) R L c s =
      runActions (runAction chk rex (nest chk rex n (c :: R)) n L c) c acts
        ((s.setClient c { k with nextEvent := none, exception := none }).enter c e) >>=
      finish chk rex n R L c next k.msg (s.trace ++ [.event c e]) := by
  rw [loop, client_of hk, show lift (Except.ok k) = .ok k from rfl, ok_bind]
  simp only [he, ht]
  rfl

/-! ## Rounds without messages -/

/-- All actions of the event are simple. -/
def SimpleEvent (st : State) (e : Event) : Prop :=
  ∀ acts next, transition st e = some (acts, next) → ∀ a ∈ acts, a.simple = true

theorem simpleEvent_exception (st : State) : SimpleEvent st .exception := by
  intro acts next h
  cases st <;> cases h <;> decide

theorem runAction_simple {wex : Watched.Exec} (ex : L3.Exec) {n : Nat} {a : Action}
    (ha : a.simple = true) :
    runAction chk rex wex n L c a s = lift (s.runAction rex ex n c a) := by
  cases a with
  | registerNewClient | checkForMailboxMessages | writeMessageToStream | writeMessageToMailbox
  | writeMessageToService | dispatchTheService | getMessageToDeliver => cases ha
  | _ => rfl

theorem agrees_runActions (hc : Conserved chk) {wex : Watched.Exec} {ex : L3.Exec} {n : Nat}
    (as : List Action) (has : ∀ a ∈ as, a.simple = true) :
    Agrees .fault (runActions (runAction chk rex wex n L c) c as s)
      (Server.runActions (fun a s => s.runAction rex ex n c a) c as s) (Light chk L c s) := by
  induction as generalizing s with
  | nil => exact .ok .refl
  | cons a as ih =>
    obtain ⟨ha, has⟩ := List.forall_mem_cons.1 has
    refine .bind (P := fun _ => True) (.lift fun _ _ => trivial) fun k _ _ => ?_
    dsimp only
    split
    · refine .bind (P := Light chk L c s) ?_ fun s₁ _ h₁ => (ih has).mono fun _ _ h₂ => h₁.trans h₂
      rw [runAction_simple ex ha]
      exact .lift fun s₁ hs₁ => light_action hc ha hs₁
    · exact ih has

/-- The end of a round whose actions have only touched the context: an exception
may follow, whose actions are simple. -/
theorem agrees_finish_light (hc : Conserved chk) {n : Nat} {next : Option State} {t : List Obs}
    (h : chk L s) (hk : s.ctx c = some k) (hm : k.msg = none)
    (hh : s.clients.get k.hashkey = some c)
    (hn : k.nextEvent = none ∨ k.nextEvent = some .terminate)
    (hx : k.exception = none ∨ k.exception = some .exception)
    (hloop : ∀ {s : Server} {k : Client}, chk L s → s.ctx c = some k → k.msg = none →
      s.clients.get k.hashkey = some c → (∀ e, k.nextEvent = some e → SimpleEvent k.state e) →
        Agrees .fault (loop chk rex n R L c s) (Server.loop rex n c s) (chk L)) :
    Agrees .fault (finish chk rex n R L c next none t s) (Server.finish rex n c next s) (chk L) := by
  have hnext : (afterActions k next).nextEvent = none ∨
      (afterActions k next).nextEvent = some .terminate ∨
        (afterActions k next).nextEvent = some .exception := by
    unfold afterActions
    rcases hx with hx | hx
    · rw [hx]
      rcases hn with hn | hn
      · exact .inl hn
      · exact .inr (.inl hn)
    · rw [hx]
      exact .inr (.inr rfl)
  have hmsg : (afterActions k next).msg = none := by
    rw [← hm]
    unfold afterActions
    split <;> rfl
  have hkey : (afterActions k next).hashkey = k.hashkey := by
    unfold afterActions
    split <;> rfl
  have hset : chk L (s.setClient c (afterActions k next)) :=
    conserved_setClient hc h hk (hmsg.trans hm.symm)
  have hctx : (s.setClient c (afterActions k next)).ctx c = some (afterActions k next) := by simp
  have hclients : (s.setClient c (afterActions k next)).clients.get
      (afterActions k next).hashkey = some c := by
    rw [hkey]
    exact hh
  rw [finish, Server.finish, client_of hk]
  refine .bind (P := fun i => i = k) (.lift fun i hi => (Except.ok.inj hi).symm) ?_
  rintro i - rfl
  dsimp only
  split
  · rw [hmsg]
    exact .lift fun s₂ hdel => conserved_deleteClient hc hset hctx hmsg hclients hdel
  · rename_i hterm
    refine hloop hset hctx hmsg hclients fun e' he' => ?_
    rcases hnext with h' | h' | h'
    · cases h'.symm.trans he'
    · exact absurd h' hterm
    · cases h'.symm.trans he'
      exact simpleEvent_exception _

/-- The machine of a client without a message, from an event whose actions are
simple. -/
theorem agrees_loop (hc : Conserved chk) {n : Nat} (h : chk L s) (hk : s.ctx c = some k)
    (hm : k.msg = none) (hh : s.clients.get k.hashkey = some c)
    (he : ∀ e, k.nextEvent = some e → SimpleEvent k.state e) :
    Agrees .fault (loop chk rex n R L c s) (Server.loop rex n c s) (chk L) := by
  induction n generalizing s k with
  | zero => exact .error Fault.fuel
  | succ n ih =>
    cases hn : k.nextEvent with
    | none =>
      rw [loop, Server.loop, client_of hk]
      refine .bind (P := fun j => j = k) (.lift fun j hj => (Except.ok.inj hj).symm) ?_
      rintro j - rfl
      simp only [hn, hm]
      exact .ok h
    | some e =>
      cases ht : transition k.state e with
      | none =>
        rw [loop, Server.loop, client_of hk]
        refine .bind (P := fun j => j = k) (.lift fun j hj => (Except.ok.inj hj).symm) ?_
        rintro j - rfl
        simp only [hn, ht, hm]
        exact .ok (conserved_setClient hc h hk hm.symm)
      | some r =>
        obtain ⟨acts, next⟩ := r
        rw [loop_round hk hn ht, Server.loop_round hk hn ht]
        have hclear : chk L (s.setClient c { k with nextEvent := none, exception := none }) :=
          conserved_setClient hc h hk rfl
        have hstart : chk L ((s.setClient c { k with nextEvent := none, exception := none }).enter
            c e) := hc.same hclear rfl rfl fun _ => rfl
        refine .bind (agrees_runActions hc acts (he e hn acts next ht)) fun s₁ _ hl => ?_
        obtain ⟨j, hj, htouch⟩ := hl.touched { k with nextEvent := none, exception := none }
          (by simp)
        have hclients : s₁.clients.get j.hashkey = some c := by
          rw [hl.clients, htouch.hashkey]
          exact hh
        rw [hm]
        exact agrees_finish_light hc (hl.kept hstart) hj (htouch.msg.trans hm) hclients
          htouch.nextEvent htouch.exception fun h hk hm hh he => ih h hk hm hh he

theorem agrees_end (hc : Conserved chk) {n : Nat} {next : Option State} {t : List Obs}
    (h : chk L s) (hk : s.ctx c = some k) (hm : k.msg = none)
    (hh : s.clients.get k.hashkey = some c)
    (hn : k.nextEvent = none ∨ k.nextEvent = some .terminate)
    (hx : k.exception = none ∨ k.exception = some .exception) :
    Agrees .fault (finish chk rex n R L c next none t s) (Server.finish rex n c next s) (chk L) :=
  agrees_finish_light hc h hk hm hh hn hx fun h hk hm hh he => agrees_loop hc h hk hm hh he

/-! ## Rounds that deliver -/

theorem sentFirst_append (c : Cid) (m : Msg) (t rest : List Obs) (a : Option Str) (w : Option Wire) :
    sentFirst c m t (t ++ .sent c a w (some m) :: rest) = true := by
  unfold sentFirst
  rw [List.drop_left]
  simp

theorem runActions_cons {act : Action → Server → Except Alarm Server} {a : Action}
    {as : List Action} (hk : s.ctx c = some k) (hx : k.exception = none) :
    runActions act c (a :: as) s = act a s >>= runActions act c as := by
  rw [runActions, client_of hk, lift_ok_bind, hx]
  rfl

theorem getMessage_eq (hc : Conserved chk) {m : Msg} (hk : s.ctx c = some k) (hq : Quiet k)
    (hlt : c < s.clientId) (h : chk L (s.setClient c { k with msg := some m })) :
    getMessageToDeliver chk L c (s.setClient c { k with msg := some m }) =
      .ok (((s.setMessage (m.setProto s.message)).setHand (some m)).unlink m) := by
  have hk' : ({ k with msg := none } : Client) = k := by
    rw [← hq.msg]
  have hself : ((s.setMessage (m.setProto s.message)).setHand (some m)).setClient c k =
      (s.setMessage (m.setProto s.message)).setHand (some m) := setClient_self (by simpa using hk)
  have htaken : chk (m :: L) ((s.setMessage (m.setProto s.message)).setHand (some m)) :=
    hc.same (hc.take h hk hq.msg hlt) rfl rfl fun _ => rfl
  rw [getMessageToDeliver, client_of (k := { k with msg := some m }) (by simp), lift_ok_bind]
  dsimp only
  rw [setMessage_setClient, setHand_setClient, setClient_setClient, hk', setClient_message, hself,
    see_ok htaken, ok_bind]
  exact drop_ok hc htaken

/-- The first two actions of the three message events. -/
theorem run_deliver (hc : Conserved chk) {wex : Watched.Exec} {n : Nat} {as : List Action} {m : Msg}
    {id : Id} (hk : s.ctx c = some k) (hq : Quiet k) (hlt : c < s.clientId)
    (h : chk L (s.setClient c { k with msg := some m })) :
    runActions (runAction chk rex wex n L c) c (.getMessageToDeliver :: .send id :: as)
        (s.setClient c { k with msg := some m }) =
      runActions (runAction chk rex wex n L c) c as (s.deliver c k id m) := by
  rw [runActions_cons (k := { k with msg := some m }) (by simp) hq.exception]
  rw [show runAction chk rex wex n L c .getMessageToDeliver _ = _ from
    getMessage_eq hc hk hq hlt h, ok_bind, runActions_cons (k := k) (by simpa using hk) hq.exception]
  have hsend : runAction chk rex wex n L c (.send id)
      (((s.setMessage (m.setProto s.message)).setHand (some m)).unlink m) =
        .ok (s.deliver c k id m) := by
    show lift (Server.send c id _) = _
    rw [send_eq (k := k) (by simpa using hk) id]
    rfl
  rw [hsend, ok_bind]

/-- The end of a round that leaves the client without a message. -/
theorem agrees_finish (hc : Conserved chk) {n : Nat} {slot : Option Msg} {t : List Obs}
    (hk : s.ctx c = some k) (hq : Quiet k) (hh : s.clients.get k.hashkey = some c) (h : chk L s)
    (ht : slot.any (fun m => !sentFirst c m t s.trace) = false) :
    Agrees .fault (finish chk rex n R L c (some .connected) slot t s)
      (Server.finish rex n c (some .connected) s) (chk L) := by
  have hafter : afterActions k (some .connected) = { k with state := .connected } :=
    afterActions_quiet hq.exception _
  rw [finish, Server.finish, client_of hk]
  simp only [ht, Bool.false_eq_true, if_false]
  refine .bind (P := fun j => j = k) (.lift fun j hj => (Except.ok.inj hj).symm) ?_
  rintro j - rfl
  rw [hafter, if_neg (by rw [hq.nextEvent]; simp), if_neg (by rw [hq.nextEvent]; simp)]
  have hset : chk L (s.setClient c { j with state := .connected }) :=
    conserved_setClient hc h hk rfl
  refine agrees_loop (k := { j with state := .connected }) hc hset (by simp) hq.msg hh fun e he => ?_
  cases hq.nextEvent.symm.trans he

/-- The end of a round that leaves the client with a message from its mailbox. -/
theorem agrees_finish_next {n : Nat} {slot : Option Msg} {t : List Obs} {m : Msg}
    (hk : s.ctx c = some { k with msg := some m, nextEvent := some .mailboxMessage }) (hq : Quiet k)
    (ht : slot.any (fun m => !sentFirst c m t s.trace) = false)
    (hloop : Agrees .fault
      (loop chk rex n R L c (s.setClient c
        { k with state := .connected, msg := some m, nextEvent := some .mailboxMessage }))
      (Server.loop rex n c (s.setClient c
        { k with state := .connected, msg := some m, nextEvent := some .mailboxMessage })) (chk L)) :
    Agrees .fault (finish chk rex n R L c (some .connected) slot t s)
      (Server.finish rex n c (some .connected) s) (chk L) := by
  rw [finish, Server.finish, client_of hk]
  simp only [ht, Bool.false_eq_true, if_false]
  refine .bind (P := fun j => j = { k with msg := some m, nextEvent := some .mailboxMessage })
    (.lift fun j hj => (Except.ok.inj hj).symm) ?_
  rintro j - rfl
  have hafter : afterActions { k with msg := some m, nextEvent := some .mailboxMessage }
      (some .connected) =
        { k with state := .connected, msg := some m, nextEvent := some .mailboxMessage } :=
    afterActions_quiet (k := { k with msg := some m, nextEvent := some .mailboxMessage })
      hq.exception _
  rw [hafter, if_neg (by simp), if_neg (by simp)]
  exact hloop

/-- A stream or service message event. -/
theorem agrees_deliver (hc : Conserved chk) {n : Nat} {e : Event} {id : Id} {m : Msg} {a : Str}
    (ho : Open s c k a) (hlt : c < s.clientId)
    (he : connectedState e = ([.getMessageToDeliver, .send id], some .connected))
    (h : chk L (s.setClient c { k with msg := some m })) :
    Agrees .fault (loop chk rex n R L c (s.setClient c { k with msg := some m, nextEvent := some e }))
      (Server.loop rex n c (s.setClient c { k with msg := some m, nextEvent := some e })) (chk L) := by
  cases n with
  | zero => exact .error Fault.fuel
  | succ n =>
    have hk' := reset_events ho.quiet.nextEvent ho.quiet.exception (some m)
    have hopen : Open (s.enter c e) c k a := ho.frame rfl rfl rfl
    have hfilled : chk L ((s.enter c e).setClient c { k with msg := some m }) :=
      hc.same h rfl rfl fun _ => rfl
    have hsent : chk L ((s.enter c e).deliver c k id m) :=
      hc.deliver (hc.take hfilled hopen.ctx ho.quiet.msg hlt) k id
    rw [loop_round (k := { k with msg := some m, nextEvent := some e }) (by simp) rfl
        (by rw [ho.state, transition, he]),
      Server.loop_round (k := { k with msg := some m, nextEvent := some e }) (by simp) rfl
        (by rw [ho.state, transition, he])]
    simp only [setClient_setClient, hk', enter_setClient]
    rw [run_deliver hc hopen.ctx ho.quiet hlt hfilled, Server.run_deliver hopen.ctx ho.quiet]
    have hdone : Open ((s.enter c e).deliver c k id m) c k a := hopen.frame rfl rfl rfl
    refine agrees_finish hc hdone.ctx ho.quiet hdone.hashed hsent ?_
    rw [Option.any_some, Bool.not_eq_false']
    exact sentFirst_append c m (s.trace ++ [.event c e]) [] k.address _

/-- `check_for_mailbox_messages` for a client with a non-empty address. -/
theorem check_eq {a : Str} (hk : s.ctx c = some k) (haddr : k.address = some a) (ha : a ≠ .empty) :
    checkForMailboxMessages chk L c s = (do
      let (s, m) ← mailboxQuery chk L s a
      let k ← lift (s.client c)
      if k.msg.isSome then .error .slot
      else
        let s ← see chk L (s.setClient c { k with msg := m })
        match m with
        | none => .ok s
        | some _ => lift (s.setNextEvent c .mailboxMessage)) := by
  rw [checkForMailboxMessages, client_of hk, lift_ok_bind]
  split
  · rename_i h
    cases haddr.symm.trans h
  · rename_i a' h
    cases haddr.symm.trans h
    exact if_neg ha

/-- `check_for_mailbox_messages`: the mailbox and its pipe change, and the slot is
filled if there is a message. -/
theorem agrees_check (hc : Conserved chk) {wex : Watched.Exec} {ex : L3.Exec} {n : Nat} {a : Str}
    (hk : s.ctx c = some k) (hq : Quiet k) (hz : k.state ≠ .zombie) (haddr : k.address = some a)
    (hlt : c < s.clientId) (h : chk L s) :
    Agrees .fault (runAction chk rex wex n L c .checkForMailboxMessages s)
      (s.runAction rex ex n c .checkForMailboxMessages) (fun s' => chk L s' ∧ ∃ s₁,
        MailboxOnly s s₁ ∧ (s' = s₁ ∨ ∃ m,
          s' = s₁.setClient c { k with msg := some m, nextEvent := some .mailboxMessage })) := by
  show Agrees .fault (checkForMailboxMessages chk L c s) (s.checkForMailboxMessages c) _
  by_cases ha : a = .empty
  · have hw : checkForMailboxMessages chk L c s = .ok s := by
      rw [checkForMailboxMessages, client_of hk, lift_ok_bind, haddr]
      exact if_pos ha
    have hs : s.checkForMailboxMessages c = .ok s := by
      rw [Server.checkForMailboxMessages, client_of hk, ok_bind, haddr]
      exact if_pos ha
    rw [hw, hs]
    exact .ok ⟨h, s, .refl s, .inl rfl⟩
  rw [check_eq hk haddr ha, Server.check_eq hk hz haddr ha]
  refine .bind (agrees_mailboxQuery hc a h) ?_
  rintro ⟨s₁, r⟩ hquery hr
  have honly := mailboxQuery_only hquery
  have hk₁ : s₁.ctx c = some k := by rw [honly.same.ctx]; exact hk
  have hlt₁ : c < s₁.clientId := by rw [honly.same.clientId]; exact hlt
  dsimp only
  rw [client_of hk₁, lift_ok_bind, if_neg (by rw [hq.msg]; simp)]
  cases r with
  | none =>
    have hself : s₁.setClient c { k with msg := none } = s₁ := by
      have hmsg : ({ k with msg := none } : Client) = k := by rw [← hq.msg]
      rw [hmsg, setClient_self hk₁]
    rw [hself]
    exact .check (see_ok hr) (.ok ⟨hr, s₁, honly, .inl rfl⟩)
  | some m =>
    have hfill : chk L (s₁.setClient c { k with msg := some m }) := hc.fill hr hk₁ hq.msg hlt₁
    have hnext : chk L (s₁.setClient c
        { k with msg := some m, nextEvent := some .mailboxMessage }) :=
      conserved_resetClient hc hfill rfl
    have hset : (s₁.setClient c { k with msg := some m }).setNextEvent c .mailboxMessage =
        .ok (s₁.setClient c { k with msg := some m, nextEvent := some .mailboxMessage }) := by
      rw [setNextEvent, modifyClient_of (k := { k with msg := some m }) (by simp),
        setClient_setClient, if_neg hz]
    refine .check (see_ok hfill) ?_
    dsimp only
    rw [hset]
    exact .ok ⟨hnext, s₁, honly, .inr ⟨m, rfl⟩⟩

/-- A mailbox message event, which drains the mailbox. -/
theorem agrees_drain (hc : Conserved chk) {n : Nat} {m : Msg} {a : Str} (ho : Open s c k a)
    (hlt : c < s.clientId) (h : chk L (s.setClient c { k with msg := some m })) :
    Agrees .fault
      (loop chk rex n R L c (s.setClient c
        { k with msg := some m, nextEvent := some .mailboxMessage }))
      (Server.loop rex n c (s.setClient c
        { k with msg := some m, nextEvent := some .mailboxMessage })) (chk L) := by
  induction n generalizing s m with
  | zero => exact .error Fault.fuel
  | succ n ih =>
    have hk' := reset_events ho.quiet.nextEvent ho.quiet.exception (some m)
    have hopen : Open (s.enter c .mailboxMessage) c k a := ho.frame rfl rfl rfl
    have hfilled : chk L ((s.enter c .mailboxMessage).setClient c { k with msg := some m }) :=
      hc.same h rfl rfl fun _ => rfl
    have hsent : chk L ((s.enter c .mailboxMessage).deliver c k .mailboxDeliver m) :=
      hc.deliver (hc.take hfilled hopen.ctx ho.quiet.msg hlt) k .mailboxDeliver
    have hz : k.state ≠ .zombie := by rw [ho.state]; simp
    have hstate : ({ k with state := .connected } : Client) = k := by rw [← ho.state]
    rw [loop_round (k := { k with msg := some m, nextEvent := some .mailboxMessage }) (by simp) rfl
        (by rw [ho.state]; rfl),
      Server.loop_round (k := { k with msg := some m, nextEvent := some .mailboxMessage }) (by simp)
        rfl (by rw [ho.state]; rfl)]
    simp only [setClient_setClient, hk', enter_setClient]
    rw [run_deliver hc hopen.ctx ho.quiet hlt hfilled, Server.run_deliver hopen.ctx ho.quiet]
    -- the state after the delivery, in which the client is open and quiet again
    have hdone : Open ((s.enter c .mailboxMessage).deliver c k .mailboxDeliver m) c k a :=
      hopen.frame rfl rfl rfl
    rw [runActions_cons hdone.ctx hdone.quiet.exception,
      Server.runActions_cons hdone.ctx hdone.quiet.exception]
    refine .bind (P := fun s' => chk L s' ∧ ∃ s₁, MailboxOnly
      ((s.enter c .mailboxMessage).deliver c k .mailboxDeliver m) s₁ ∧ (s' = s₁ ∨ ∃ m',
        s' = s₁.setClient c { k with msg := some m', nextEvent := some .mailboxMessage })) ?_ ?_
    · refine .bind (agrees_check hc hdone.ctx hdone.quiet hz hdone.address hlt hsent) fun s' _ hs' => ?_
      exact .ok hs'
    rintro s' - ⟨hchk, s₁, honly, hs'⟩
    have hopen₁ : Open s₁ c k a := honly.open hdone
    -- whatever was dropped, the message has been sent before
    have htrace : ∀ w : Server, w.trace = s₁.trace → (some m).any (fun m =>
        !sentFirst c m (s.trace ++ [.event c .mailboxMessage]) w.trace) = false := by
      intro w hw
      obtain ⟨b, pipe, refs, ms, rfl⟩ := honly
      rw [hw, Option.any_some, Bool.not_eq_false']
      have happ := sentFirst_append c m (s.trace ++ [.event c .mailboxMessage])
        (ms.map fun p => .dropped (.mailbox p.1) p.2) k.address
        ((s.enter c .mailboxMessage).delivery k.hashkey .mailboxDeliver m).wire
      simp only [deliver_trace, enter_trace, List.append_assoc, List.singleton_append] at happ ⊢
      exact happ
    rcases hs' with rfl | ⟨m', rfl⟩
    · exact agrees_finish hc hopen₁.ctx hopen₁.quiet hopen₁.hashed hchk (htrace _ rfl)
    · refine agrees_finish_next (k := k) (m := m') (by simp) hopen₁.quiet (htrace _ rfl) ?_
      rw [setClient_setClient]
      have hlt₁ : c < s₁.clientId := by rw [honly.same.clientId]; exact hlt
      have hslot : chk L (s₁.setClient c { k with msg := some m' }) :=
        conserved_resetClient hc hchk rfl
      have hnext := ih hopen₁ hlt₁ hslot
      rw [show ({ k with state := .connected, msg := some m', nextEvent := some .mailboxMessage } :
        Client) = { k with msg := some m', nextEvent := some .mailboxMessage } by rw [← ho.state]]
      exact hnext

/-! ## What an action may start -/

theorem alive_iff : alive R s = true ↔ ∀ c ∈ R, ∃ k, s.ctx c = some k ∧ k.state ≠ .zombie := by
  unfold alive
  rw [List.all_eq_true]
  refine forall₂_congr fun c _ => ?_
  cases s.ctx c with
  | none => simp
  | some k => simp

theorem alive_of_ctx (h : alive R s = true) (hx : s'.ctx = s.ctx) : alive R s' = true := by
  rw [alive_iff] at h ⊢
  rw [hx]
  exact h

/-- The executions that an action starts end as they should, while the contexts
`R` run. -/
structure Nests (chk : List Msg → Server → Prop) (wex : Watched.Exec) (ex : L3.Exec)
    (R : List Cid) : Prop where
  deliver : ∀ {L : List Msg} {s : Server} {d : Cid} {t : Client} {a : Str} {m : Msg} {e : Event}
    {id : Id}, Open s d t a → d < s.clientId →
      connectedState e = ([.getMessageToDeliver, .send id], some .connected) → alive R s = true →
        chk L (s.setClient d { t with msg := some m }) →
          Agrees .fault (wex L d e (s.setClient d { t with msg := some m }))
            (ex d e (s.setClient d { t with msg := some m })) (chk L)
  drain : ∀ {L : List Msg} {s : Server} {d : Cid} {t : Client} {a : Str} {m : Msg},
    Open s d t a → d < s.clientId → alive R s = true →
      chk L (s.setClient d { t with msg := some m }) →
        Agrees .fault (wex L d .mailboxMessage (s.setClient d { t with msg := some m }))
          (ex d .mailboxMessage (s.setClient d { t with msg := some m })) (chk L)
  expire : ∀ {L : List Msg} {s : Server} {d : Cid} {t : Client} {a : Str},
    Open s d t a → d ∉ R → alive R s = true → chk L s →
      Agrees .fault (wex L d .expired s) (ex d .expired s) (chk L)

theorem simpleEvent_expired (st : State) : SimpleEvent st .expired := by
  intro acts next h
  cases st <;> cases h <;> decide

theorem nests_nest (hc : Conserved chk) (n : Nat) (R : List Cid) :
    Nests chk (nest chk rex n R) (Server.execute rex n) R where
  deliver := by
    intro L s d t a m e id ho hlt he hr h
    have hloop : Agrees .fault
        (loop chk rex n R L d (s.setClient d { t with msg := some m, nextEvent := some e }))
        (Server.loop rex n d (s.setClient d { t with msg := some m, nextEvent := some e }))
        (chk L) := agrees_deliver hc ho hlt he h
    have hset : (s.setClient d { t with msg := some m }).modifyClient d
        (fun k => { k with nextEvent := some e }) =
          .ok (s.setClient d { t with msg := some m, nextEvent := some e }) := by
      rw [modifyClient_of (k := { t with msg := some m }) (by simp), setClient_setClient]
    rw [nest, Server.execute, hset, lift_ok_bind, ok_bind]
    refine .andThen hloop fun s' hs' _ => if_pos (alive_of_ctx hr ?_)
    have hex : Server.execute rex n d e (s.setClient d { t with msg := some m }) = .ok s' := by
      rw [Server.execute, hset, ok_bind, hs']
    rw [execute_deliver ho he hex]
    rfl
  drain := by
    intro L s d t a m ho hlt hr h
    have hloop : Agrees .fault
        (loop chk rex n R L d
          (s.setClient d { t with msg := some m, nextEvent := some .mailboxMessage }))
        (Server.loop rex n d
          (s.setClient d { t with msg := some m, nextEvent := some .mailboxMessage }))
        (chk L) := agrees_drain hc ho hlt h
    have hset : (s.setClient d { t with msg := some m }).modifyClient d
        (fun k => { k with nextEvent := some .mailboxMessage }) =
          .ok (s.setClient d { t with msg := some m, nextEvent := some .mailboxMessage }) := by
      rw [modifyClient_of (k := { t with msg := some m }) (by simp), setClient_setClient]
    rw [nest, Server.execute, hset, lift_ok_bind, ok_bind]
    refine .andThen hloop fun s' hs' _ => if_pos (alive_of_ctx hr ?_)
    exact (drain_same (loop_mailbox ho hs')).ctx
  expire := by
    intro L s d t a ho hd hr h
    have hset : s.modifyClient d (fun k => { k with nextEvent := some .expired }) =
        .ok (s.setClient d { t with nextEvent := some .expired }) := modifyClient_of ho.ctx _
    have hstart : chk L (s.setClient d { t with nextEvent := some .expired }) :=
      conserved_setClient hc h ho.ctx rfl
    have hevent : ∀ e, ({ t with nextEvent := some .expired } : Client).nextEvent = some e →
        SimpleEvent t.state e := by
      intro e he
      obtain rfl := Option.some.inj he
      exact simpleEvent_expired _
    have hloop : Agrees .fault
        (loop chk rex n R L d (s.setClient d { t with nextEvent := some .expired }))
        (Server.loop rex n d (s.setClient d { t with nextEvent := some .expired })) (chk L) :=
      agrees_loop hc hstart (k := { t with nextEvent := some .expired }) (by simp)
        ho.quiet.msg ho.hashed hevent
    rw [nest, Server.execute, hset, lift_ok_bind, ok_bind]
    refine .andThen hloop fun s' hs' _ => if_pos ?_
    have hex : Server.execute rex n d .expired s = .ok s' := by
      rw [Server.execute, hset, ok_bind, hs']
    rw [alive_iff] at hr ⊢
    intro c hmem
    have hne : c ≠ d := by
      rintro rfl
      exact hd hmem
    rw [execute_expired ho hex, leave_ctx_ne hne]
    exact hr c hmem

end
end Watched
end Malamute.L3
