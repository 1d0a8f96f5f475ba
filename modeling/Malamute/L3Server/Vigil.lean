import Malamute.L3Server.References
import Malamute.L3Server.Moves
import Malamute.Core.Watch

/-!
# No check fails

The parts of the watched server against those of the server: whatever `chk` is,
as long as transfers keep it (`Conserved`), a part that starts where `chk` holds
ends as the server's own part does, raises no alarm, and leaves `chk`.
-/
namespace Malamute.L3
open Malamute.Core Malamute.L1 Malamute.L2 Server

/-- Transfers keep the check, and the counts are right where it holds. -/
structure Conserved (chk : List Msg → Server → Prop) : Prop where
  exact : ∀ {L : List Msg} {s : Server}, chk L s → Exact L s
  transfer : ∀ {L L' : List Msg} {s s' : Server}, Transfer L s L' s' → chk L s → chk L' s'

section
variable {chk : List Msg → Server → Prop} [∀ L s, Decidable (chk L s)] {rex : Str → Str → Bool}
  {L L' : List Msg} {s s' : Server} {c : Cid} {k : Client}

omit [∀ L s, Decidable (chk L s)] in
/-- References change places. -/
theorem Conserved.move (hc : Conserved chk) (h : chk L s) (hr : s'.refs = s.refs)
    (hm : s'.messageId = s.messageId) (hh : ∀ i, held s' i + copies i L' = held s i + copies i L) :
    chk L' s' := hc.transfer (.move hr hm hh) h

omit [∀ L s, Decidable (chk L s)] in
/-- Nothing happens to references. -/
theorem Conserved.same (hc : Conserved chk) (h : chk L s) (hr : s'.refs = s.refs)
    (hm : s'.messageId = s.messageId) (hh : ∀ i, held s' i = held s i) : chk L s' :=
  hc.move h hr hm fun i => by rw [hh]

omit [∀ L s, Decidable (chk L s)] in
theorem Conserved.unlink (hc : Conserved chk) {m : Msg} (h : chk (m :: L) s) : chk L (s.unlink m) :=
  hc.transfer (.unlink rfl) h

namespace Watched

theorem see_ok (h : chk L s) : see chk L s = .ok s := if_pos h

theorem drop_ok (hc : Conserved chk) {m : Msg} (h : chk (m :: L) s) :
    drop chk L m s = .ok (s.unlink m) := by
  have hcount := (hc.exact h).counted m.mid
  have hlive : ¬ s.refs m.mid ≤ 0 := by
    rw [hcount, holders, copies_cons, if_pos rfl]
    omega
  rw [drop, if_neg hlive, see_ok (hc.unlink h)]

theorem share_ok (hc : Conserved chk) {m : Msg} (h : chk L s) (hm : 0 < holders L s m.mid) :
    share chk L m s = .ok (s.link m) := by
  have hcount := (hc.exact h).counted m.mid
  have hlive : ¬ s.refs m.mid ≤ 0 := by omega
  rw [share, if_neg hlive, see_ok (hc.transfer (.link hm) h)]

/-! ## Mailbox engine -/

theorem agrees_mailboxRead (hc : Conserved chk) (h : chk L s) :
    Agrees .fault (mailboxRead chk L s) s.mailboxRead (chk L) := by
  cases hp : s.mailboxPipe with
  | nil =>
    simp only [mailboxRead, Server.mailboxRead, hp]
    exact .ok h
  | cons p pipe =>
    obtain ⟨a, m⟩ := p
    simp only [mailboxRead, Server.mailboxRead, hp]
    have hread : chk (m :: L) (s.setMailbox s.mailbox pipe) := by
      refine hc.move h rfl rfl fun i => ?_
      have hset := held_setMailbox (i := i) s s.mailbox pipe
      simp only [hp, List.map_cons, copies_cons] at hset
      rw [copies_cons]
      omega
    refine .check (see_ok hread) (.bind (P := fun _ => True) (.lift fun _ _ => trivial) ?_)
    rintro ⟨b, r⟩ hstore -
    have hheld := fun i => mailboxHeld_store (i := i) hstore
    have hset := fun i => held_setMailbox (i := i) (s.setMailbox s.mailbox pipe) b pipe
    simp only [setMailbox_mailbox, setMailbox_mailboxPipe] at hset
    cases r with
    | queued w =>
      have hqueued : chk L ((s.setMailbox s.mailbox pipe).setMailbox b pipe) := by
        refine hc.move hread rfl rfl fun i => ?_
        have h1 := hheld i
        have h2 := hset i
        simp only [reduceCtorEq, if_false] at h1
        rw [copies_cons] at h1 ⊢
        rw [copies_nil] at h1
        omega
      dsimp only
      rw [see_ok hqueued]
      exact .ok hqueued
    | refused =>
      have hrefused : chk (m :: L) ((s.setMailbox s.mailbox pipe).setMailbox b pipe) := by
        refine hc.same hread rfl rfl fun i => ?_
        have h1 := hheld i
        have h2 := hset i
        simp only [if_true] at h1
        omega
      exact .check (drop_ok hc hrefused) (.ok (hc.same (hc.unlink hrefused) rfl rfl
        fun _ => rfl))

theorem agrees_mailboxReads (hc : Conserved chk) (pipe : List (Str × Msg)) (h : chk L s) :
    Agrees .fault (mailboxReads chk L pipe s) (Server.mailboxReads pipe s) (chk L) := by
  induction pipe generalizing s with
  | nil => exact .ok h
  | cons p pipe ih => exact .bind (agrees_mailboxRead hc h) fun s₁ _ h₁ => ih h₁

theorem agrees_mailboxQuery (hc : Conserved chk) (a : Str) (h : chk L s) :
    Agrees .fault (mailboxQuery chk L s a) (s.mailboxQuery a)
      (fun r => chk (r.2.toList ++ L) r.1) := by
  refine .bind (agrees_mailboxReads hc s.mailboxPipe h) fun s₁ _ h₁ => ?_
  refine .bind (P := fun _ => True) (.lift fun _ _ => trivial) ?_
  rintro ⟨b, r⟩ hquery -
  have hreply : chk (r.toList ++ L) (s₁.setMailbox b s₁.mailboxPipe) := by
    refine hc.move h₁ rfl rfl fun i => ?_
    have hheld := mailboxHeld_query (i := i) hquery
    have hset := held_setMailbox (i := i) s₁ b s₁.mailboxPipe
    rw [copies_append]
    omega
  exact .check (see_ok hreply) (.ok hreply)

end Watched

/-! ## Actions that hold no reference -/

/-- What such an action may do to a context. -/
structure Touch (k k' : Client) : Prop where
  hashkey : k'.hashkey = k.hashkey
  msg : k'.msg = k.msg
  state : k'.state = k.state
  nextEvent : k'.nextEvent = k.nextEvent ∨ k'.nextEvent = some .terminate
  exception : k'.exception = k.exception ∨ k'.exception = some .exception

theorem Touch.refl (k : Client) : Touch k k := ⟨rfl, rfl, rfl, .inl rfl, .inl rfl⟩

theorem Touch.trans {j : Client} (h : Touch k j) {i : Client} (h' : Touch j i) : Touch k i where
  hashkey := h'.hashkey.trans h.hashkey
  msg := h'.msg.trans h.msg
  state := h'.state.trans h.state
  nextEvent := by
    rcases h'.nextEvent with he | he
    · rw [he]
      exact h.nextEvent
    · exact .inr he
  exception := by
    rcases h'.exception with he | he
    · rw [he]
      exact h.exception
    · exact .inr he

/-- References stay where they are, and the context of `c` is only touched. -/
structure Light (chk : List Msg → Server → Prop) (L : List Msg) (c : Cid) (s s' : Server) :
    Prop where
  kept : chk L s → chk L s'
  clients : s'.clients = s.clients
  touched : ∀ k, s.ctx c = some k → ∃ k', s'.ctx c = some k' ∧ Touch k k'

omit [∀ L s, Decidable (chk L s)] in
theorem Light.refl : Light chk L c s s := ⟨id, rfl, fun k hk => ⟨k, hk, .refl k⟩⟩

omit [∀ L s, Decidable (chk L s)] in
theorem Light.trans {s₁ : Server} (h : Light chk L c s s₁) (h' : Light chk L c s₁ s') :
    Light chk L c s s' where
  kept hk := h'.kept (h.kept hk)
  clients := h'.clients.trans h.clients
  touched k hk := by
    obtain ⟨j, hj, ht⟩ := h.touched k hk
    obtain ⟨i, hi, ht'⟩ := h'.touched j hj
    exact ⟨i, hi, ht.trans ht'⟩

omit [∀ L s, Decidable (chk L s)] in
theorem Light.frame (hc : Conserved chk) (hr : s'.refs = s.refs) (hm : s'.messageId = s.messageId)
    (hh : ∀ i, held s' i = held s i) (hx : s'.ctx = s.ctx) (hcl : s'.clients = s.clients) :
    Light chk L c s s' :=
  ⟨fun h => hc.same h hr hm hh, hcl, fun k hk => ⟨k, by rw [hx]; exact hk, .refl k⟩⟩

theorem ctx_of_client (h : s.client c = .ok k) : s.ctx c = some k := by
  unfold Server.client at h
  split at h
  · cases h
  · cases h
    assumption

omit [∀ L s, Decidable (chk L s)] in
theorem conserved_setClient (hc : Conserved chk) (h : chk L s) {j : Client} (hk : s.ctx c = some k)
    (hj : j.msg = k.msg) : chk L (s.setClient c j) := by
  refine hc.same h rfl rfl fun i => held_setClient_same ?_
  rw [hk]
  simp [slotOf, hj]

omit [∀ L s, Decidable (chk L s)] in
theorem conserved_resetClient (hc : Conserved chk) {j : Client} (h : chk L (s.setClient c k))
    (hj : j.msg = k.msg) : chk L (s.setClient c j) := by
  have hset := conserved_setClient (c := c) (k := k) hc h (by simp) hj
  rw [setClient_setClient] at hset
  exact hset

omit [∀ L s, Decidable (chk L s)] in
theorem light_setClient (hc : Conserved chk) {d : Cid} {j : Client} (hk : s.ctx d = some k)
    (hj : Touch k j) : Light chk L c s (s.setClient d j) where
  kept h := conserved_setClient hc h hk hj.msg
  clients := rfl
  touched i hi := by
    by_cases hd : c = d
    · subst hd
      cases hk.symm.trans hi
      exact ⟨j, by simp, hj⟩
    · exact ⟨i, by simpa [Function.update_of_ne hd] using hi, .refl i⟩

omit [∀ L s, Decidable (chk L s)] in
theorem light_modify (hc : Conserved chk) {d : Cid} {f : Client → Client}
    (h : s.modifyClient d f = .ok s') (hf : ∀ k, Touch k (f k)) : Light chk L c s s' := by
  obtain ⟨k, hk, h⟩ := bind_eq_ok.1 h
  cases h
  exact light_setClient hc (ctx_of_client hk) (hf k)

omit [∀ L s, Decidable (chk L s)] in
theorem light_deleteAddress (hc : Conserved chk) {a : Str} (h : s.deleteAddress a = .ok s') :
    Light chk L c s s' := by
  unfold deleteAddress at h
  split at h
  · cases h
    exact .refl
  · obtain ⟨s₁, hm, h⟩ := bind_eq_ok.1 h
    cases h
    have hone : Light chk L c s s₁ :=
      light_modify hc hm fun k => ⟨rfl, rfl, rfl, .inl rfl, .inl rfl⟩
    exact hone.trans (.frame hc rfl rfl (fun _ => rfl) rfl rfl)

omit [∀ L s, Decidable (chk L s)] in
theorem light_raise (hc : Conserved chk) (h : s.setException c .exception = .ok s') :
    Light chk L c s s' := by
  refine light_modify hc h fun k => ?_
  split
  · exact .refl k
  · exact ⟨rfl, rfl, rfl, .inl rfl, .inr rfl⟩

omit [∀ L s, Decidable (chk L s)] in
theorem light_storeStreamWriter (hc : Conserved chk) (h : s.storeStreamWriter c = .ok s') :
    Light chk L c s s' := by
  obtain ⟨s₁, hm, h⟩ := bind_eq_ok.1 h
  cases h
  have hreq : Light chk L c s (s.streamRequire s.message.stream) :=
    .frame hc rfl rfl (fun _ => held_streamRequire ..) rfl rfl
  have hset : Light chk L c (s.streamRequire s.message.stream) s₁ :=
    light_modify hc hm fun k => ⟨rfl, rfl, rfl, .inl rfl, .inl rfl⟩
  exact (hreq.trans hset).trans (.frame hc rfl rfl (fun _ => rfl) rfl rfl)

omit [∀ L s, Decidable (chk L s)] in
theorem light_storeStreamReader (hc : Conserved chk) (h : s.storeStreamReader c = .ok s') :
    Light chk L c s s' := by
  obtain ⟨s₁, hm, h⟩ := bind_eq_ok.1 h
  obtain ⟨s₂, hget, h⟩ := bind_eq_ok.1 h
  cases h
  have hreq : Light chk L c s (s.streamRequire s.message.stream) :=
    .frame hc rfl rfl (fun _ => held_streamRequire ..) rfl rfl
  have hset : Light chk L c (s.streamRequire s.message.stream) s₁ :=
    light_modify hc hm fun k => ⟨rfl, rfl, rfl, .inl rfl, .inl rfl⟩
  have hpush : Light chk L c s₁
      (s₁.pushStream s.message.stream (.command (.compile c s.message.pattern))) :=
    .frame hc rfl rfl (fun _ => held_pushStream_command ..) rfl rfl
  have hcount := light_modify (L := L) (c := c) hc hget fun k => ⟨rfl, rfl, rfl, .inl rfl, .inl rfl⟩
  exact (((hreq.trans hset).trans hpush).trans hcount).trans
    (.frame hc rfl rfl (fun _ => rfl) rfl rfl)

omit [∀ L s, Decidable (chk L s)] in
theorem light_cancelStreamReader (hc : Conserved chk) (h : s.cancelStreamReader c = .ok s') :
    Light chk L c s s' := by
  obtain ⟨s₁, hm, h⟩ := bind_eq_ok.1 h
  cases h
  have hreq : Light chk L c s (s.streamRequire s.message.stream) :=
    .frame hc rfl rfl (fun _ => held_streamRequire ..) rfl rfl
  have hpush : Light chk L c (s.streamRequire s.message.stream)
      ((s.streamRequire s.message.stream).pushStream s.message.stream (.command (.cancel c))) :=
    .frame hc rfl rfl (fun _ => held_pushStream_command ..) rfl rfl
  have hset := light_modify (L := L) (c := c) hc hm fun k => ⟨rfl, rfl, rfl, .inl rfl, .inl rfl⟩
  exact ((hreq.trans hpush).trans hset).trans (.frame hc rfl rfl (fun _ => rfl) rfl rfl)

omit [∀ L s, Decidable (chk L s)] in
theorem light_storeServiceOffer (hc : Conserved chk) (h : s.storeServiceOffer c = .ok s') :
    Light chk L c s s' := by
  have hoffer (s₀ : Server) (name : Str) (o : Offer) : Light chk L c s₀
      ((s₀.setService name ((s₀.service name).setOffers ((s₀.service name).offers.addEnd o))).log
        (.offered c name o)) :=
    .frame hc rfl rfl (fun _ => held_setOffers s₀ name _) rfl rfl
  have hreq : Light chk L c s (s.newOffer.serviceRequire s.message.address) :=
    .frame hc rfl rfl (fun _ => held_serviceRequire s.newOffer s.message.address) rfl rfl
  have h' := Except.ok.inj h
  rw [← h']
  exact hreq.trans (hoffer ..)

omit [∀ L s, Decidable (chk L s)] in
theorem light_deregisterTheClient (hc : Conserved chk) (h : s.deregisterTheClient c = .ok s') :
    Light chk L c s s' := by
  obtain ⟨k, -, h⟩ := bind_eq_ok.1 h
  split at h
  · cases h
    exact .frame hc rfl rfl (fun _ => rfl) rfl rfl
  · rename_i a _
    obtain ⟨s₁, hm, h⟩ := bind_eq_ok.1 h
    have hcancel : Light chk L c s (s.cancelReaders c k.readers) :=
      .frame hc rfl rfl (fun _ => held_cancelReaders ..) rfl rfl
    have hset := light_modify (L := L) (c := c) hc hm fun k => ⟨rfl, rfl, rfl, .inl rfl, .inl rfl⟩
    have hwithdraw : Light chk L c s₁ (s₁.withdrawOffers c) :=
      .frame hc rfl rfl (fun _ => held_withdrawOffers ..) rfl rfl
    have hbefore := (hcancel.trans hset).trans hwithdraw
    dsimp only at h
    split at h
    · cases h
      exact hbefore.trans (.frame hc rfl rfl (fun _ => rfl) rfl rfl)
    · obtain ⟨s₂, hdel, h⟩ := bind_eq_ok.1 h
      cases h
      exact (hbefore.trans (light_deleteAddress hc hdel)).trans
        (.frame hc rfl rfl (fun _ => rfl) rfl rfl)

/-- Actions that hold no reference to a message and start no execution. -/
def Action.simple : Action → Bool
  | .registerNewClient | .checkForMailboxMessages | .writeMessageToStream
  | .writeMessageToMailbox | .writeMessageToService | .dispatchTheService
  | .getMessageToDeliver => false
  | _ => true

omit [∀ L s, Decidable (chk L s)] in
theorem light_action (hc : Conserved chk) {ex : Exec} {n : Nat} {a : Action} (ha : a.simple = true)
    (h : s.runAction rex ex n c a = .ok s') : Light chk L c s s' := by
  cases a with
  | storeStreamWriter => exact light_storeStreamWriter hc h
  | storeStreamReader => exact light_storeStreamReader hc h
  | cancelStreamReader => exact light_cancelStreamReader hc h
  | storeServiceOffer => exact light_storeServiceOffer hc h
  | haveMessageConfirmation => exact light_raise hc h
  | clientClosedConnection =>
    obtain ⟨k, -, h⟩ := bind_eq_ok.1 h
    split at h
    · cases h
    · cases h
      exact .refl
  | deregisterTheClient => exact light_deregisterTheClient hc h
  | send id =>
    obtain ⟨k, -, h⟩ := bind_eq_ok.1 h
    cases h
    exact .frame hc rfl rfl (fun _ => rfl) rfl rfl
  | terminate => exact light_modify hc h fun k => ⟨rfl, rfl, rfl, .inr rfl, .inl rfl⟩
  | signalCommandInvalid =>
    cases h
    exact .frame hc rfl rfl (fun _ => rfl) rfl rfl
  | signalOperationFailed =>
    cases h
    exact .frame hc rfl rfl (fun _ => rfl) rfl rfl
  | creditTheClient | clientExpired | clientHadException =>
    cases h
    exact .refl
  | registerNewClient | checkForMailboxMessages | writeMessageToStream | writeMessageToMailbox
  | writeMessageToService | dispatchTheService | getMessageToDeliver => cases ha

/-! ## Deleting a client -/

omit [∀ L s, Decidable (chk L s)] in
theorem light_clientTerminate (hc : Conserved chk) {d : Cid} (h : s.clientTerminate d = .ok s') :
    Light chk L c s s' := by
  obtain ⟨k, -, h⟩ := bind_eq_ok.1 h
  split at h
  · cases h
    exact .refl
  · split at h
    · exact light_modify hc h fun k => ⟨rfl, rfl, rfl, .inl rfl, .inl rfl⟩
    · exact light_deleteAddress hc h

omit [∀ L s, Decidable (chk L s)] in
/-- A context that is deleted has no message in its slot. -/
theorem conserved_deleteClient (hc : Conserved chk) {key : Key} (h : chk L s) (hk : s.ctx c = some k)
    (hm : k.msg = none) (hh : s.clients.get key = some c) (hd : s.deleteClient key = .ok s') :
    chk L s' := by
  unfold deleteClient at hd
  rw [hh] at hd
  obtain ⟨s₁, hdel, hd⟩ := bind_eq_ok.1 hd
  have h₁ : chk L s₁ := by
    obtain ⟨j, hj, hdel⟩ := bind_eq_ok.1 hdel
    cases hk.symm.trans (ctx_of_client hj)
    split at hdel
    · obtain ⟨s₂, hterm, hfree⟩ := bind_eq_ok.1 hdel
      cases hfree
      have hlight : Light chk L c s s₂ := light_clientTerminate hc hterm
      obtain ⟨i, hi, ht⟩ := hlight.touched k hk
      refine hc.same (hlight.kept h) rfl rfl fun _ => held_freeClient ?_
      rw [hi, slotOf, Option.bind_some, ht.msg, hm]
      rfl
    · have hzombies : chk L (s.setZombies (s.zombies.ensure k.hashkey c)) :=
        hc.same h rfl rfl fun _ => rfl
      obtain ⟨j, hj, hmod⟩ := bind_eq_ok.1 hdel
      cases hmod
      have hctx := ctx_of_client hj
      refine hc.same hzombies rfl rfl fun _ => held_setClient_same ?_
      rw [hctx]
      rfl
  cases hd
  exact hc.same h₁ rfl rfl fun _ => rfl

/-! ## Filling and emptying a slot -/

omit [∀ L s, Decidable (chk L s)] in
theorem holders_fill {m : Msg} (hk : s.ctx c = some k) (hm : k.msg = none) (hlt : c < s.clientId)
    (i : Nat) : held (s.setClient c { k with msg := some m }) i + copies i L =
      held s i + copies i (m :: L) := by
  have hset := held_setClient (i := i) (k := { k with msg := some m }) hlt
  rw [hk] at hset
  simp only [slotOf, hm, Option.bind_some, Option.toList_none, Option.toList_some, copies_nil,
    copies_cons] at hset ⊢
  omega

omit [∀ L s, Decidable (chk L s)] in
/-- A local reference goes into an empty slot. -/
theorem Conserved.fill (hc : Conserved chk) {m : Msg} (h : chk (m :: L) s) (hk : s.ctx c = some k)
    (hm : k.msg = none) (hlt : c < s.clientId) :
    chk L (s.setClient c { k with msg := some m }) :=
  hc.move h rfl rfl (holders_fill hk hm hlt)

omit [∀ L s, Decidable (chk L s)] in
/-- The reference in a slot becomes a local one. -/
theorem Conserved.take (hc : Conserved chk) {m : Msg} (h : chk L (s.setClient c { k with msg := some m }))
    (hk : s.ctx c = some k) (hm : k.msg = none) (hlt : c < s.clientId) : chk (m :: L) s :=
  hc.move h rfl rfl fun i => (holders_fill hk hm hlt i).symm

omit [∀ L s, Decidable (chk L s)] in
theorem Conserved.deliver (hc : Conserved chk) {m : Msg} (h : chk (m :: L) s) (k : Client) (id : Id) :
    chk L (s.deliver c k id m) := hc.same (hc.unlink h) rfl rfl fun _ => rfl

end
end Malamute.L3
