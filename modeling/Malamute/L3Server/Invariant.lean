import Malamute.L3Server.Moves

/-!
# `Reg` and `Wired` hold in every reachable state

One lemma for each way the clients or the streams change: a client that is
gone (`Reg.gone`), a client that has opened (`Reg.register`), an update of an
open client (`Reg.update`), a write to a stream (`Wired.push`), a change of the
contexts (`Wired.contexts`). All else is framed.
-/
namespace Malamute.L3
open Malamute.Core Malamute.L1 Malamute.L2 Server

variable {rex : Str → Str → Bool} {s s' : Server} {c : Cid} {k : Client} {a : Str}

/-! ## Services -/

theorem service_setService_ne {name name' : Str} (h : name' ≠ name) (v : Service) :
    (s.setService name v).service name' = s.service name' := by
  simp [service, Table.get_set_ne _ _ h]

@[simp] theorem service_serviceRequire (s : Server) (name name' : Str) :
    (s.serviceRequire name).service name' = s.service name' := by
  unfold service
  rw [serviceRequire_services, Table.get_ensure]
  split
  · rename_i h; rw [h]; rfl
  · rfl

@[simp] theorem service_withdrawOffers (s : Server) (c : Cid) (name : Str) :
    (s.withdrawOffers c).service name = (s.service name).withdraw c := by
  unfold service
  rw [withdrawOffers_services, Table.get_map]
  cases s.services.get name with
  | none => rfl
  | some v => rfl

theorem mem_withdraw {v : Service} {o : Offer} :
    o ∈ (v.withdraw c).offers.items ↔ o ∈ v.offers.items ∧ o.client ≠ c := by
  simp [Service.withdraw, CursorList.items_sweep_reset]

/-- The offers of all services stay the same, up to their order. -/
def SameOffers (s s' : Server) : Prop :=
  ∀ name, ((s'.service name).offers.items).Perm (s.service name).offers.items

theorem SameOffers.refl (s : Server) : SameOffers s s := fun _ => .refl _

theorem SameOffers.trans {s₁ s₂ s₃ : Server} (h : SameOffers s₁ s₂) (h' : SameOffers s₂ s₃) :
    SameOffers s₁ s₃ := fun name => (h' name).trans (h name)

theorem SameOffers.of_services (h : s'.services = s.services) : SameOffers s s' := by
  intro name
  rw [service_frame h]

/-- Only the queue of a service changes. -/
theorem sameOffers_setQueue (s : Server) (name : Str) (queue : Msgq) :
    SameOffers s (s.setService name ((s.service name).setQueue queue)) := by
  intro name'
  by_cases h : name' = name
  · subst h
    rw [service_setService]
    exact .refl _
  · rw [service_setService_ne h]

theorem drain_services (h : Drain c k a s s') : s'.services = s.services := by
  have hquery : ∀ {s s' : Server} {r : Option Msg}, s.mailboxQuery a = .ok (s', r) →
      s'.services = s.services := by
    intro s s' r h
    obtain ⟨b, pipe, refs, ms, rfl⟩ := mailboxQuery_only h
    rfl
  induction h with
  | anonymous _ => rfl
  | empty _ hq => exact hquery hq
  | @next s s₁ s' m _ hq _ ih =>
    have hd : ((s₁.enter c .mailboxMessage).deliver c k .mailboxDeliver m).services = s₁.services :=
      rfl
    exact (ih.trans hd).trans (hquery hq)

theorem mailed_services (h : Mailed c a s s') : s'.services = s.services := by
  cases h with
  | direct _ _ hd =>
    rw [drain_services hd]
    rfl
  | stored _ => rfl

theorem dispatched_offers {name : Str} {m : Msg} {b : Bool} (h : Dispatched rex name m s s' b) :
    SameOffers s s' := by
  intro name'
  by_cases hn : name' = name
  · subst hn
    exact (dispatched_service h).1
  · cases h with
    | none _ => rw [service_setService_ne hn]
    | some _ _ => rw [service_setService_ne hn]; exact .refl _

theorem scan_offers {name : Str} {m : Option Msg} (h : Scan rex name m s s') : SameOffers s s' := by
  induction h with
  | done => exact .refl _
  | @skip m s s₁ s' hd _ ih =>
    have hq : SameOffers s₁ ((s₁.unlink m).setService name _) :=
      sameOffers_setQueue (s₁.unlink m) name (s₁.service name).queue.next.1
    exact ((dispatched_offers hd).trans hq).trans ih
  | @take m s s₁ s' queue hd _ _ ih =>
    have hq : SameOffers s₁ ((s₁.unlink m).setService name _) :=
      sameOffers_setQueue (s₁.unlink m) name queue.next.1
    exact ((dispatched_offers hd).trans hq).trans ih

theorem requesting_offers (s : Server) (c : Cid) (a : Str) : SameOffers s (s.requesting c a) := by
  intro name
  rw [requesting, service_serviceRequire]
  exact .refl _

theorem requested_offers (h : Requested rex c a s s') : SameOffers s s' := by
  cases h with
  | dispatched hd => exact (requesting_offers s c a).trans (dispatched_offers hd)
  | @queued s₁ queue w hd _ =>
    exact ((requesting_offers s c a).trans (dispatched_offers hd)).trans
      (sameOffers_setQueue s₁ s.message.address queue)
  | @refused s₁ queue hd _ =>
    exact ((requesting_offers s c a).trans (dispatched_offers hd)).trans
      (sameOffers_setQueue s₁ s.message.address queue)

/-! ## Clients -/

theorem Reg.same (hr : Reg s) (h : SameClients s s') (ho : SameOffers s s') : Reg s' := by
  refine hr.frame h.ctx h.clients h.addresses h.clientId ?_
  intro name o hm
  exact hr.offers name o ((ho name).mem_iff.1 hm)

/-- A context changes and stays in its phase. -/
theorem Reg.update (hr : Reg s) (hk : s.ctx c = some k) {k' : Client}
    (hkey : k'.hashkey = k.hashkey) (hz : k'.state = .zombie → k.state = .zombie)
    (hself : ∀ b, Open s c k b → Open (s.setClient c k') c k' b)
    (hphase : Phase (s.setClient c k') c k') : Reg (s.setClient c k') := by
  have hctx : (s.setClient c k').ctx c = some k' := by simp
  have hopen : ∀ d j b, Open s d j b → ∃ j, Open (s.setClient c k') d j b := by
    intro d j b h
    by_cases hd : d = c
    · subst hd
      cases hk.symm.trans h.ctx
      exact ⟨k', hself b h⟩
    · exact ⟨j, h.setClient_ne hd k'⟩
  refine ⟨?_, ?_, ?_, ?_, ?_⟩
  · intro d j h
    by_cases hd : d = c
    · rw [hd]; exact hr.fresh c k hk
    · rw [setClient_ctx, Function.update_of_ne hd] at h
      exact hr.fresh d j h
  · intro d j h
    by_cases hd : d = c
    · subst hd
      cases h.symm.trans hctx
      exact hphase
    · rw [setClient_ctx, Function.update_of_ne hd] at h
      cases hr.phase d j h with
      | start hu hh => exact .start hu hh
      | opened b ho => exact .opened b (ho.setClient_ne hd k')
      | zombie hs hrd ha => exact .zombie hs hrd ha
  · intro key d h
    obtain ⟨j, hj, hjk, hjz⟩ := hr.hashed key d h
    by_cases hd : d = c
    · subst hd
      cases hj.symm.trans hk
      exact ⟨k', hctx, hkey.trans hjk, fun h => hjz (hz h)⟩
    · exact ⟨j, by rw [setClient_ctx, Function.update_of_ne hd]; exact hj, hjk, hjz⟩
  · intro b d h
    obtain ⟨hb, j, hj⟩ := hr.registered b d h
    exact ⟨hb, hopen d j b hj⟩
  · intro name o hm
    obtain ⟨j, b, hj⟩ := hr.offers name o hm
    obtain ⟨j', hj'⟩ := hopen _ _ _ hj
    exact ⟨j', b, hj'⟩

/-- An open client changes and stays open. -/
theorem Reg.updateOpen (hr : Reg s) (ho : Open s c k a) {j : Client} (hq : Quiet j)
    (hs : j.state = .connected) (ha : j.address = some a) (hkey : j.hashkey = k.hashkey) :
    Reg (s.setClient c j) := by
  have hself : Open (s.setClient c j) c j a :=
    ⟨by simp, hq, hs, ha, by rw [hkey]; exact ho.hashed, ho.registered⟩
  refine hr.update ho.ctx hkey ?_ ?_ (.opened a hself)
  · intro hz
    rw [hs] at hz
    cases hz
  · intro b hb
    obtain ⟨-, rfl⟩ := ho.unique hb
    exact hself

/-- Once a client has opened, its reference count plays no role in `Reg`. -/
theorem Reg.refcount (hr : Reg s) (hk : s.ctx c = some k) (hs : k.state ≠ .start) (n : Int) :
    Reg (s.setClient c { k with refcount := n }) := by
  have hself : ∀ b, Open s c k b → Open (s.setClient c { k with refcount := n }) c
      { k with refcount := n } b := fun b ho =>
    ⟨by simp, ⟨ho.quiet.nextEvent, ho.quiet.exception, ho.quiet.msg⟩, ho.state, ho.address,
      ho.hashed, ho.registered⟩
  refine hr.update hk rfl id hself ?_
  cases hr.phase c k hk with
  | start hu => exact absurd hu.state hs
  | opened a ho => exact .opened a (hself a ho)
  | zombie hs hrd ha => exact .zombie hs hrd ha

/-- A zombie context is freed. -/
theorem Reg.free (hr : Reg s) (hk : s.ctx c = some k) (hz : k.state = .zombie) :
    Reg (s.freeClient c) := by
  have hne : ∀ d j, s.ctx d = some j → j.state ≠ .zombie → d ≠ c := by
    rintro d j hd hj rfl
    cases hk.symm.trans hd
    exact hj hz
  have hkeep : ∀ d j, s.ctx d = some j → j.state ≠ .zombie → (s.freeClient c).ctx d = some j := by
    intro d j hd hj
    rw [freeClient_ctx, Function.update_of_ne (hne d j hd hj)]
    exact hd
  have hopen : ∀ d j b, Open s d j b → Open (s.freeClient c) d j b := by
    intro d j b ho
    exact ⟨hkeep d j ho.ctx (by rw [ho.state]; simp), ho.quiet, ho.state, ho.address, ho.hashed,
      ho.registered⟩
  have hold : ∀ d j, (s.freeClient c).ctx d = some j → s.ctx d = some j := by
    intro d j h
    by_cases hd : d = c
    · subst hd
      simp at h
    · rwa [freeClient_ctx, Function.update_of_ne hd] at h
  refine ⟨fun d j h => hr.fresh d j (hold d j h), ?_, ?_, ?_, ?_⟩
  · intro d j h
    cases hr.phase d j (hold d j h) with
    | start hu hh => exact .start hu hh
    | opened b ho => exact .opened b (hopen d j b ho)
    | zombie hs hrd ha => exact .zombie hs hrd ha
  · intro key d h
    obtain ⟨j, hj, hjk, hjz⟩ := hr.hashed key d h
    exact ⟨j, hkeep d j hj hjz, hjk, hjz⟩
  · intro b d h
    obtain ⟨hb, j, hj⟩ := hr.registered b d h
    exact ⟨hb, j, hopen d j b hj⟩
  · intro name o hm
    obtain ⟨j, b, hj⟩ := hr.offers name o hm
    exact ⟨j, b, hopen _ _ _ hj⟩

/-- What it means for the hashes, the contexts and the offers that `c`, whose
context was `k`, is gone. -/
structure Gone (s s' : Server) (c : Cid) (k : Client) : Prop where
  clients : s'.clients = s.clients.del k.hashkey
  others : ∀ d, d ≠ c → s'.ctx d = s.ctx d
  zombie : ∀ k', s'.ctx c = some k' → k'.state = .zombie ∧ k'.readers = [] ∧
    (k'.address = none ∨ k'.address = some .empty)
  addresses : ∀ b d, s'.addresses.get b = some d ↔ s.addresses.get b = some d ∧ d ≠ c
  clientId : s'.clientId = s.clientId
  offers : ∀ name, ∀ o ∈ (s'.service name).offers.items,
    o ∈ (s.service name).offers.items ∧ o.client ≠ c

theorem Gone.open (hg : Gone s s' c k) (hh : s.clients.get k.hashkey = some c) {d : Cid}
    {j : Client} {b : Str} (ho : Open s d j b) (hd : d ≠ c) : Open s' d j b where
  ctx := by rw [hg.others d hd]; exact ho.ctx
  quiet := ho.quiet
  state := ho.state
  address := ho.address
  hashed := by
    have hne : j.hashkey ≠ k.hashkey := fun h => hd (Option.some.inj (by rw [← ho.hashed, h, hh]))
    rw [hg.clients, Table.get_del, if_neg hne]
    exact ho.hashed
  registered hb := (hg.addresses b d).2 ⟨ho.registered hb, hd⟩

theorem Reg.gone (hr : Reg s) (hk : s.ctx c = some k) (hh : s.clients.get k.hashkey = some c)
    (hg : Gone s s' c k) : Reg s' := by
  refine ⟨?_, ?_, ?_, ?_, ?_⟩
  · intro d j h
    rw [hg.clientId]
    by_cases hd : d = c
    · rw [hd]; exact hr.fresh c k hk
    · rw [hg.others d hd] at h
      exact hr.fresh d j h
  · intro d j h
    by_cases hd : d = c
    · subst hd
      obtain ⟨hz, hrd, ha⟩ := hg.zombie j h
      exact .zombie hz hrd ha
    · rw [hg.others d hd] at h
      cases hr.phase d j h with
      | start hu hj =>
        have hne : j.hashkey ≠ k.hashkey := fun h => hd (Option.some.inj (by rw [← hj, h, hh]))
        refine .start hu ?_
        rw [hg.clients, Table.get_del, if_neg hne]
        exact hj
      | opened b ho => exact .opened b (hg.open hh ho hd)
      | zombie hs hrd ha => exact .zombie hs hrd ha
  · intro key d h
    rw [hg.clients, Table.get_del] at h
    split at h
    · cases h
    · rename_i hne
      obtain ⟨j, hj, hjk, hz⟩ := hr.hashed key d h
      have hd : d ≠ c := by
        rintro rfl
        cases hj.symm.trans hk
        exact hne hjk.symm
      exact ⟨j, by rw [hg.others d hd]; exact hj, hjk, hz⟩
  · intro b d h
    obtain ⟨hb, hd⟩ := (hg.addresses b d).1 h
    obtain ⟨hne, j, hj⟩ := hr.registered b d hb
    exact ⟨hne, j, hg.open hh hj hd⟩
  · intro name o hm
    obtain ⟨hmem, hd⟩ := hg.offers name o hm
    obtain ⟨j, b, hj⟩ := hr.offers name o hmem
    exact ⟨j, b, hg.open hh hj hd⟩

theorem bury_zombie {k' : Client} (hrd : k.readers = [])
    (ha : k.address = none ∨ k.address = some .empty) (h : (s.bury c k).ctx c = some k') :
    k'.state = .zombie ∧ k'.readers = [] ∧ (k'.address = none ∨ k'.address = some .empty) := by
  rw [bury_ctx, Function.update_self] at h
  split at h
  · cases h
  · cases h
    exact ⟨rfl, hrd, ha⟩

theorem gone_leave (hr : Reg s) (ho : Open s c k a) : Gone s (s.leave c k a) c k where
  clients := rfl
  others d hd := leave_ctx_ne hd a
  zombie k' h := by
    refine bury_zombie rfl ?_ h
    by_cases ha : a = .empty <;> simp [Client.deregistered, ha]
  addresses b d := by
    -- `c` is registered under `a`, if under any address
    have hc : ∀ b, s.addresses.get b = some c → b = a ∧ a ≠ .empty := by
      intro b hb
      obtain ⟨hne, j, hj⟩ := hr.registered b c hb
      obtain ⟨-, rfl⟩ := ho.unique hj
      exact ⟨rfl, hne⟩
    show (if a = .empty then s.addresses else s.addresses.del a).get b = some d ↔ _
    by_cases ha : a = .empty
    · rw [if_pos ha]
      refine ⟨fun h => ⟨h, ?_⟩, fun h => h.1⟩
      rintro rfl
      exact (hc b h).2 ha
    · rw [if_neg ha, Table.get_del]
      split
      · rename_i hb
        subst hb
        rw [ho.registered ha]
        simp [eq_comm]
      · rename_i hb
        refine ⟨fun h => ⟨h, ?_⟩, fun h => h.1⟩
        rintro rfl
        exact hb (hc b h).1
  clientId := rfl
  offers name o hm := by
    have hs : (s.leave c k a).service name = (s.service name).withdraw c :=
      service_withdrawOffers s c name
    rw [hs] at hm
    exact mem_withdraw.1 hm

theorem Reg.leave (hr : Reg s) (ho : Open s c k a) : Reg (s.leave c k a) :=
  hr.gone ho.ctx ho.hashed (gone_leave hr ho)

/-- A client that expires before it opens. -/
theorem Reg.bury (hr : Reg s) (hk : s.ctx c = some k) (hs : k.state = .start) :
    Reg (s.bury c k) := by
  obtain ⟨⟨-, -, haddr, hrd, -, -⟩, hh⟩ := hr.start_of hk hs
  have hnot : ∀ j b, ¬ Open s c j b := by
    intro j b ho
    cases hk.symm.trans ho.ctx
    cases hs.symm.trans ho.state
  refine hr.gone hk hh ⟨rfl, ?_, ?_, ?_, rfl, ?_⟩
  · intro d hd
    rw [bury_ctx, Function.update_of_ne hd]
  · intro k' h
    exact bury_zombie hrd (.inl haddr) h
  · intro b d
    refine ⟨fun h => ⟨h, ?_⟩, fun h => h.1⟩
    rintro rfl
    obtain ⟨-, j, hj⟩ := hr.registered b d h
    exact hnot j b hj
  · intro name o hm
    refine ⟨hm, ?_⟩
    rintro rfl
    obtain ⟨j, b, hj⟩ := hr.offers name o hm
    exact hnot j b hj

/-- A client opens a connection with an address that nobody holds. -/
theorem Reg.register (hr : Reg s) (hk : s.ctx c = some k) (hs : k.state = .start)
    (ha : a = .empty ∨ s.addresses.get a = none) : Reg (s.register c k a) := by
  obtain ⟨⟨hq, -, -, -, -, -⟩, hh⟩ := hr.start_of hk hs
  have hself : Open (s.register c k a) c (k.opened a) a := open_register hq hh
  have hctx : ∀ d, d ≠ c → (s.register c k a).ctx d = s.ctx d := by
    intro d hd
    by_cases he : a = .empty <;> simp [Server.register, he, Function.update_of_ne hd]
  have hclients : (s.register c k a).clients = s.clients := by
    by_cases he : a = .empty <;> simp [Server.register, he]
  have haddr : ∀ b d, (s.register c k a).addresses.get b = some d ↔
      s.addresses.get b = some d ∨ (a ≠ .empty ∧ b = a ∧ d = c) := by
    intro b d
    by_cases he : a = .empty
    · simp [Server.register, he]
    · have hnone := ha.resolve_left he
      simp only [Server.register, he, if_false, answer_addresses, setStatus_addresses,
        setClient_addresses, setAddresses_addresses, Table.get_set]
      by_cases hb : b = a
      · simp [hb, hnone, eq_comm, he]
      · simp [hb]
  have hopen : ∀ d j b, Open s d j b → Open (s.register c k a) d j b := by
    intro d j b ho
    have hd : d ≠ c := by
      rintro rfl
      cases hk.symm.trans ho.ctx
      cases hs.symm.trans ho.state
    exact ⟨by rw [hctx d hd]; exact ho.ctx, ho.quiet, ho.state, ho.address,
      by rw [hclients]; exact ho.hashed, fun hb => (haddr b d).2 (.inl (ho.registered hb))⟩
  refine ⟨?_, ?_, ?_, ?_, ?_⟩
  · intro d j h
    have hid : (s.register c k a).clientId = s.clientId := by
      by_cases he : a = .empty <;> simp [Server.register, he]
    rw [hid]
    by_cases hd : d = c
    · rw [hd]; exact hr.fresh c k hk
    · rw [hctx d hd] at h
      exact hr.fresh d j h
  · intro d j h
    by_cases hd : d = c
    · subst hd
      cases h.symm.trans hself.ctx
      exact .opened a hself
    · rw [hctx d hd] at h
      cases hr.phase d j h with
      | start hu hh => exact .start hu (by rw [hclients]; exact hh)
      | opened b ho => exact .opened b (hopen d j b ho)
      | zombie hs hrd ha => exact .zombie hs hrd ha
  · intro key d h
    rw [hclients] at h
    obtain ⟨j, hj, hjk, hz⟩ := hr.hashed key d h
    by_cases hd : d = c
    · subst hd
      cases hj.symm.trans hk
      exact ⟨k.opened a, hself.ctx, hjk, by simp [Client.opened]⟩
    · exact ⟨j, by rw [hctx d hd]; exact hj, hjk, hz⟩
  · intro b d h
    rcases (haddr b d).1 h with h | ⟨hne, rfl, rfl⟩
    · obtain ⟨hb, j, hj⟩ := hr.registered b d h
      exact ⟨hb, j, hopen d j b hj⟩
    · exact ⟨hne, _, hself⟩
  · intro name o hm
    have hserv : (s.register c k a).service name = s.service name := by
      refine service_frame ?_ name
      by_cases he : a = .empty <;> simp [Server.register, he]
    rw [hserv] at hm
    obtain ⟨j, b, hj⟩ := hr.offers name o hm
    exact ⟨j, b, hopen _ _ _ hj⟩

/-- Whoever held the address has left. -/
theorem evicted_spec {s₁ : Server} (hr : Reg s) (h : Evicted a s s₁) (hk : s.ctx c = some k)
    (hs : k.state = .start) :
    Reg s₁ ∧ s₁.ctx c = some k ∧ (a = .empty ∨ s₁.addresses.get a = none) := by
  cases h with
  | nobody h => exact ⟨hr, hk, h⟩
  | @holder old t ha hold ho =>
    have ho' : Open (s.enter old .expired) old t a := ho.frame rfl rfl rfl
    have hr' : Reg (s.enter old .expired) := hr.frame rfl rfl rfl rfl hr.offers
    have hne : c ≠ old := by
      rintro rfl
      cases hk.symm.trans ho.ctx
      cases hs.symm.trans ho.state
    refine ⟨hr'.leave ho', ?_, .inr ?_⟩
    · rw [leave_ctx_ne hne]
      exact hk
    · simp [Server.leave, ha]

/-- The offers of `offering`: one more, of the client itself. -/
theorem mem_offering {name : Str} {o : Offer} (h : o ∈ ((s.offering c k).service name).offers.items) :
    o ∈ (s.service name).offers.items ∨ o.client = c := by
  by_cases hn : name = s.message.address
  · subst hn
    have hv : (s.offering c k).service s.message.address = (s.service s.message.address).setOffers
        ((s.service s.message.address).offers.addEnd ⟨s.offerId, s.message.pattern, c⟩) := by
      have hreq := service_serviceRequire s.newOffer s.message.address s.message.address
      rw [show s.newOffer.service s.message.address = s.service s.message.address from rfl] at hreq
      rw [← hreq]
      exact service_setService (s.newOffer.serviceRequire s.message.address) s.message.address _
    rw [hv, Service.setOffers_offers, CursorList.items_addEnd, List.mem_append,
      List.mem_singleton] at h
    rcases h with h | rfl
    · exact .inl h
    · exact .inr rfl
  · have hv : (s.offering c k).service name = s.service name := by
      have hne := service_setService_ne (s := s.newOffer.serviceRequire s.message.address) hn
        (((s.newOffer.serviceRequire s.message.address).service s.message.address).setOffers
          (((s.newOffer.serviceRequire s.message.address).service s.message.address).offers.addEnd
            ⟨s.offerId, s.message.pattern, c⟩))
      exact hne.trans (service_serviceRequire s.newOffer s.message.address name)
    rw [hv] at h
    exact .inl h

theorem Reg.offering (hr : Reg s) (ho : Open s c k a) : Reg (s.offering c k) := by
  refine hr.frame rfl rfl rfl rfl ?_
  intro name o hm
  rcases mem_offering hm with hm | rfl
  · exact hr.offers name o hm
  · exact ⟨k, a, ho⟩

/-! ## `Reg` is an invariant -/

theorem reg_handled {e : Event} (hr : Reg s) (h : Handled rex s c e s') : Reg s' := by
  have henter : ∀ e, Reg (s.enter c e) := fun e => hr.frame rfl rfl rfl rfl hr.offers
  -- what happens to the message object and the trace plays no role
  have hleave : ∀ {s₁ : Server} {k : Client} {a : Str}, s₁.ctx = s.ctx → s₁.clients = s.clients →
      s₁.addresses = s.addresses → s₁.clientId = s.clientId → s₁.services = s.services →
      Open s c k a → Reg (s₁.leave c k a) := by
    intro s₁ k a h1 h2 h3 h4 h5 ho
    refine (hr.frame h1 h2 h3 h4 ?_).leave (ho.frame h1 h2 h3)
    intro name o hm
    rw [service_frame h5] at hm
    exact hr.offers name o hm
  cases h with
  | opened hk hs hev hd =>
    obtain ⟨hr₁, hk₁, ha⟩ := evicted_spec (henter _) hev hk hs
    exact (hr₁.register hk₁ hs ha).same (drain_same hd) (.of_services (drain_services hd))
  | departed hk hs =>
    have hr₁ : Reg ((s.enter c .expired).setStatus success) := hr.frame rfl rfl rfl rfl hr.offers
    exact hr₁.bury hk hs
  | unopened hk hs _ => exact hr.frame rfl rfl rfl rfl hr.offers
  | @wrote k a ho =>
    have hr₁ : Reg ((s.enter c .streamWrite).streamRequire s.message.stream) :=
      hr.frame rfl rfl rfl rfl hr.offers
    have hr₂ := hr₁.updateOpen (j := { k with writer := some s.message.stream })
      (ho.frame rfl rfl rfl) ⟨ho.quiet.nextEvent, ho.quiet.exception, ho.quiet.msg⟩ ho.state
      ho.address rfl
    exact hr₂.frame rfl rfl rfl rfl hr₂.offers
  | @read k a ho =>
    have hr₁ : Reg (((s.enter c .streamRead).streamRequire s.message.stream).pushStream
        s.message.stream (.command (.compile c s.message.pattern))) :=
      hr.frame rfl rfl rfl rfl hr.offers
    have hr₂ := hr₁.updateOpen (j := k.reading s.message.stream) (ho.frame rfl rfl rfl)
      ⟨ho.quiet.nextEvent, ho.quiet.exception, ho.quiet.msg⟩ ho.state ho.address rfl
    exact hr₂.frame rfl rfl rfl rfl hr₂.offers
  | @cancelled k a ho =>
    have hr₁ : Reg (((s.enter c .streamCancel).streamRequire s.message.stream).pushStream
        s.message.stream (.command (.cancel c))) := hr.frame rfl rfl rfl rfl hr.offers
    have hr₂ := hr₁.updateOpen (j := { k with readers := k.readers.tail }) (ho.frame rfl rfl rfl)
      ⟨ho.quiet.nextEvent, ho.quiet.exception, ho.quiet.msg⟩ ho.state ho.address rfl
    exact hr₂.frame rfl rfl rfl rfl hr₂.offers
  | published ho _ => exact hr.frame rfl rfl rfl rfl hr.offers
  | unwritten ho _ => exact hleave rfl rfl rfl rfl rfl ho
  | mailed ho hm => exact (henter _).same (mailed_same hm) (.of_services (mailed_services hm))
  | requested ho hm => exact (henter _).same (requested_same hm) (requested_offers hm)
  | @offered k a s₁ _ ho hs₁ hscan =>
    have hr₁ : Reg s₁ := by
      rw [hs₁]
      exact (henter _).offering (ho.frame rfl rfl rfl)
    have hfirst : SameClients s₁ (s₁.setService s.message.address
        ((s₁.service s.message.address).setQueue
          (s₁.service s.message.address).queue.first.1)) := ⟨rfl, rfl, rfl, rfl, rfl, rfl, rfl, rfl⟩
    exact hr₁.same (hfirst.trans (scan_same hscan))
      ((sameOffers_setQueue _ _ _).trans (scan_offers hscan))
  | confirmed ho => exact hleave rfl rfl rfl rfl rfl ho
  | credited ho => exact henter _
  | pinged ho => exact hr.frame rfl rfl rfl rfl hr.offers
  | closed ho => exact hleave rfl rfl rfl rfl rfl ho
  | expired ho => exact hleave rfl rfl rfl rfl rfl ho
  | invalid ho _ => exact hleave rfl rfl rfl rfl rfl ho

/-- `SameClients` but for the streams. -/
theorem Reg.received (hr : Reg s) {parts : List Frame} (h : Received rex s parts s') : Reg s' := by
  cases h with
  | @interrupted p rest _ =>
    have hr₁ := reg_received hr p rest
    exact hr₁.frame rfl rfl rfl rfl hr₁.offers
  | @ignored p rest _ => exact (reg_clientRequire (reg_received hr p rest) rfl).1
  | @handled p rest c s₁ s' _ hreq hh =>
    exact reg_handled (reg_hear (reg_clientRequire (reg_received hr p rest) hreq).1 ..) hh

theorem Server.MailboxOnly.reg (h : MailboxOnly s s') (hr : Reg s) : Reg s' := by
  refine hr.same h.same (.of_services ?_)
  obtain ⟨b, pipe, refs, ms, rfl⟩ := h
  rfl

theorem reg_put (hr : Reg s) (hk : s.ctx c = some k) (hs : k.state ≠ .start) : Reg (s.put c k) := by
  unfold Server.put
  by_cases hz : k.refcount - 1 = 0 ∧ k.state = .zombie
  · rw [if_pos hz]
    have hr₁ : Reg (s.setZombies (s.zombies.del k.hashkey)) := hr.frame rfl rfl rfl rfl hr.offers
    exact hr₁.free hk hz.2
  · rw [if_neg hz]
    exact hr.refcount hk hs _

theorem reg_moved {l : Label} (hr : Reg s) (hw : Wired s) (h : Moved rex s l s') : Reg s' := by
  have hpop : ∀ name st up, Reg (s.popStream name st up) := reg_popStream hr
  cases h with
  | router _ _ h => exact hr.received h
  | more _ h => exact hr.received h
  | expired _ _ _ h => exact reg_handled hr h
  | @acked name st c up k _ hst hup hk =>
    have hnamed := hw.named name st c hst (.ack (by rw [hup]; exact List.mem_cons_self))
    exact reg_put (hpop name st up) hk (hnamed.2 k hk)
  | @discarded name st c m up k _ _ _ _ _ =>
    exact (hpop name st up).frame rfl rfl rfl rfl (hpop name st up).offers
  | @delivered name st c m up k a _ _ _ ho =>
    exact (hpop name st up).same (delivered_same ..) (.refl _)
  | command _ _ => exact hr.frame rfl rfl rfl rfl hr.offers
  | message _ _ => exact hr.frame rfl rfl rfl rfl hr.offers
  | mailbox _ hread => exact (mailboxRead_only hread).reg hr
  | @configured service mailbox s₁ _ hreads =>
    have hcfg : Reg { s with serviceCfg := service } := hr.frame rfl rfl rfl rfl hr.offers
    have hr₁ := (mailboxReads_only hreads).reg hcfg
    exact hr₁.frame rfl rfl rfl rfl hr₁.offers

/-! ## `Wired` -/

theorem Wired.frame (hw : Wired s) (h1 : s'.streams = s.streams) (h2 : s'.ctx = s.ctx)
    (h3 : s'.clientId = s.clientId) : Wired s' where
  distinct := by rw [h1]; exact hw.distinct
  named := by rw [h1, h2, h3]; exact hw.named
  writers := by rw [h1, h2]; exact hw.writers
  readers := by rw [h1, h2]; exact hw.readers

/-- One stream changes, and names nobody new but clients that are not in the
start state. -/
theorem Wired.setStream (hw : Wired s) (hr : Reg s) {name : Str} {st' : Stream}
    (hd : Distinct st'.selectors)
    (hn : ∀ d, st'.Names d → (∃ st, s.streams.get name = some st ∧ st.Names d) ∨
      ∃ j, s.ctx d = some j ∧ j.state ≠ .start) :
    Wired (s.setStreams (s.streams.set name st')) := by
  have hexists : ∀ name' st, s.streams.get name' = some st →
      ∃ st₁, (s.streams.set name st').get name' = some st₁ := by
    intro name' st h
    rw [Table.get_set]
    split
    · exact ⟨_, rfl⟩
    · exact ⟨st, h⟩
  refine ⟨?_, ?_, ?_, ?_⟩
  · intro name' st h
    rw [setStreams_streams, Table.get_set] at h
    split at h
    · cases h; exact hd
    · exact hw.distinct name' st h
  · intro name' st d h hnames
    rw [setStreams_streams, Table.get_set] at h
    split at h
    · cases h
      rcases hn d hnames with ⟨st, hst, hold⟩ | ⟨j, hj, hs⟩
      · exact hw.named name st d hst hold
      · refine ⟨hr.fresh d j hj, fun k hk => ?_⟩
        cases hj.symm.trans hk
        exact hs
    · exact hw.named name' st d h hnames
  · intro c k name' hk hwr
    obtain ⟨st, hst⟩ := hw.writers c k name' hk hwr
    exact hexists name' st hst
  · intro c k hk name' hmem
    obtain ⟨st, hst⟩ := hw.readers c k hk name' hmem
    exact hexists name' st hst

theorem Wired.streamRequire (hw : Wired s) (hr : Reg s) (name : Str) :
    Wired (s.streamRequire name) := by
  cases h : s.streams.get name with
  | some st =>
    have hsame : s.streamRequire name = s := by
      simp [Server.streamRequire, Table.ensure, h]
    rw [hsame]
    exact hw
  | none =>
    have hset : s.streamRequire name = s.setStreams (s.streams.set name .new) := by
      simp [Server.streamRequire, Table.ensure, h, setStreams]
    rw [hset]
    exact hw.setStream hr distinct_nil fun d hd => absurd hd (Stream.not_names_new d)

/-- A write to a stream of a client that is not in the start state. -/
theorem Wired.push (hw : Wired s) (hr : Reg s) {name : Str} {i : Issue} (hk : s.ctx c = some k)
    (hs : k.state ≠ .start) (hi : ∀ d, (∃ p, i = .command (.compile d p)) ∨
      i = .command (.cancel d) → d = c) : Wired (s.pushStream name i) := by
  cases h : s.streams.get name with
  | none =>
    have hsame : s.pushStream name i = s := by
      simp [Server.pushStream, Table.modify, h]
    rw [hsame]
    exact hw
  | some st =>
    have hset : s.pushStream name i = s.setStreams (s.streams.set name (st.push i)) := by
      simp [Server.pushStream, Table.modify, h, setStreams]
    rw [hset]
    refine hw.setStream hr (hw.distinct name st h) ?_
    intro d hd
    rcases Stream.names_push hd with hold | hnew
    · exact .inl ⟨st, h, hold⟩
    · rw [hi d hnew]
      exact .inr ⟨k, hk, hs⟩

theorem Wired.cancelReaders (hw : Wired s) (hr : Reg s) (hk : s.ctx c = some k)
    (hs : k.state ≠ .start) (readers : List Str) : Wired (s.cancelReaders c readers) := by
  induction readers generalizing s with
  | nil => exact hw
  | cons name readers ih =>
    have hr₁ : Reg (s.pushStream name (.command (.cancel c))) :=
      hr.frame rfl rfl rfl rfl hr.offers
    refine ih (hw.push hr hk hs ?_) hr₁ hk
    rintro d (⟨p, h⟩ | h)
    · cases h
    · cases h; rfl

theorem pushStream_exists {name : Str} (h : ∃ st, s.streams.get name = some st) (name' : Str)
    (i : Issue) : ∃ st, (s.pushStream name' i).streams.get name = some st := by
  obtain ⟨st, hst⟩ := h
  rw [pushStream_streams, Table.get_modify]
  split
  · rename_i he
    rw [← he, hst]
    exact ⟨_, rfl⟩
  · exact ⟨st, hst⟩

/-- The contexts change, and refer to nothing new but existing streams. -/
theorem Wired.contexts (hw : Wired s) (h1 : s'.streams = s.streams) (h3 : s.clientId ≤ s'.clientId)
    (h2 : ∀ d j', s'.ctx d = some j' → s.clientId ≤ d ∧ j'.writer = none ∧ j'.readers = [] ∨
      ∃ j, s.ctx d = some j ∧ (j'.state = .start → j.state = .start) ∧
        (∀ name, j'.writer = some name → j.writer = some name ∨ ∃ st, s.streams.get name = some st) ∧
        ∀ name ∈ j'.readers, name ∈ j.readers ∨ ∃ st, s.streams.get name = some st) : Wired s' := by
  refine ⟨by rw [h1]; exact hw.distinct, ?_, ?_, ?_⟩
  · intro name st d h hnames
    rw [h1] at h
    obtain ⟨hlt, hst⟩ := hw.named name st d h hnames
    refine ⟨Nat.lt_of_lt_of_le hlt h3, fun j' hj' => ?_⟩
    rcases h2 d j' hj' with ⟨hge, -, -⟩ | ⟨j, hj, hs, -, -⟩
    · exact absurd hlt (Nat.not_lt.2 hge)
    · exact fun h => hst j hj (hs h)
  · intro d j' name hj' hwr
    rw [h1]
    rcases h2 d j' hj' with ⟨-, hnone, -⟩ | ⟨j, hj, -, hwriter, -⟩
    · rw [hnone] at hwr; cases hwr
    · rcases hwriter name hwr with h | h
      · exact hw.writers d j name hj h
      · exact h
  · intro d j' hj' name hmem
    rw [h1]
    rcases h2 d j' hj' with ⟨-, -, hnil⟩ | ⟨j, hj, -, -, hreaders⟩
    · rw [hnil] at hmem; cases hmem
    · rcases hreaders name hmem with h | h
      · exact hw.readers d j hj name h
      · exact h

/-- One context changes or is gone. -/
theorem Wired.update (hw : Wired s) (h1 : s'.streams = s.streams) (h3 : s'.clientId = s.clientId)
    (hk : s.ctx c = some k) {x : Option Client} (h2 : s'.ctx = Function.update s.ctx c x)
    (hx : ∀ k', x = some k' → (k'.state = .start → k.state = .start) ∧
      (∀ name, k'.writer = some name → k.writer = some name ∨ ∃ st, s.streams.get name = some st) ∧
      ∀ name ∈ k'.readers, name ∈ k.readers ∨ ∃ st, s.streams.get name = some st) : Wired s' := by
  refine hw.contexts h1 (le_of_eq h3.symm) ?_
  intro d j' hj'
  rw [h2] at hj'
  by_cases hd : d = c
  · subst hd
    rw [Function.update_self] at hj'
    exact .inr ⟨k, hk, hx j' hj'⟩
  · rw [Function.update_of_ne hd] at hj'
    exact .inr ⟨j', hj', id, fun name h => .inl h, fun name h => .inl h⟩

theorem Wired.leave (hw : Wired s) (hr : Reg s) (ho : Open s c k a) : Wired (s.leave c k a) := by
  have hw₁ := hw.cancelReaders hr ho.ctx (by rw [ho.state]; simp) k.readers
  refine hw₁.update rfl rfl ho.ctx rfl ?_
  intro k' hk'
  split at hk'
  · cases hk'
  · cases hk'
    refine ⟨by simp, fun name h => .inl h, fun name h => ?_⟩
    simp [Client.deregistered] at h

theorem Wired.same (hw : Wired s) (h : SameClients s s') : Wired s' :=
  hw.frame h.streams h.ctx h.clientId

theorem wired_evicted {s₁ : Server} (hr : Reg s) (hw : Wired s) (h : Evicted a s s₁) : Wired s₁ := by
  cases h with
  | nobody _ => exact hw
  | @holder old t _ _ ho =>
    have hr₁ : Reg (s.enter old .expired) := hr.frame rfl rfl rfl rfl hr.offers
    have hw₁ : Wired (s.enter old .expired) := hw.frame rfl rfl rfl
    exact hw₁.leave hr₁ (ho.frame rfl rfl rfl)

theorem Wired.register (hw : Wired s) (hk : s.ctx c = some k) : Wired (s.register c k a) := by
  have hs : (s.register c k a).streams = s.streams ∧ (s.register c k a).clientId = s.clientId ∧
      (s.register c k a).ctx = Function.update s.ctx c (some (k.opened a)) := by
    rw [register_eq]
    exact ⟨rfl, rfl, rfl⟩
  refine hw.update hs.1 hs.2.1 hk hs.2.2 ?_
  intro k' hk'
  cases hk'
  exact ⟨by simp [Client.opened], fun name h => .inl h, fun name h => .inl h⟩

theorem wired_handled {e : Event} (hr : Reg s) (hw : Wired s) (h : Handled rex s c e s') :
    Wired s' := by
  have hreg : ∀ e, Reg (s.enter c e) := fun e => hr.frame rfl rfl rfl rfl hr.offers
  have henter : ∀ e, Wired (s.enter c e) := fun e => hw.frame rfl rfl rfl
  have hleave : ∀ {s₁ : Server} {k : Client} {a : Str}, s₁.ctx = s.ctx → s₁.clients = s.clients →
      s₁.addresses = s.addresses → s₁.clientId = s.clientId → s₁.services = s.services →
      s₁.streams = s.streams → Open s c k a → Wired (s₁.leave c k a) := by
    intro s₁ k a h1 h2 h3 h4 h5 h6 ho
    refine (hw.frame h6 h1 h4).leave (hr.frame h1 h2 h3 h4 ?_) (ho.frame h1 h2 h3)
    intro name o hm
    rw [service_frame h5] at hm
    exact hr.offers name o hm
  have hopen : ∀ {k : Client} {a : Str}, Open s c k a → k.state ≠ .start := by
    intro k a ho
    rw [ho.state]
    simp
  -- the stream that the message names exists from now on
  have hreq : ∀ e, Wired ((s.enter c e).streamRequire s.message.stream) ∧
      Reg ((s.enter c e).streamRequire s.message.stream) := fun e =>
    ⟨(henter e).streamRequire (hreg e) _, (hreg e).frame rfl rfl rfl rfl (hreg e).offers⟩
  have hexists : ∀ e, ∃ st,
      ((s.enter c e).streamRequire s.message.stream).streams.get s.message.stream = some st := by
    intro e
    rw [streamRequire_streams, Table.get_ensure, if_pos rfl]
    exact ⟨_, rfl⟩
  cases h with
  | @opened k _ _ hk hs hev hd =>
    obtain ⟨-, hk₁, -⟩ := evicted_spec (hreg _) hev hk hs
    exact ((wired_evicted (hreg _) (henter _) hev).register hk₁).same (drain_same hd)
  | @departed k hk hs =>
    have hw₁ : Wired ((s.enter c .expired).setStatus success) := hw.frame rfl rfl rfl
    refine hw₁.update rfl rfl hk rfl ?_
    intro k' hk'
    split at hk'
    · cases hk'
    · cases hk'
      exact ⟨by simp, fun name h => .inl h, fun name h => .inl h⟩
  | unopened hk hs _ => exact hw.frame rfl rfl rfl
  | wrote ho =>
    refine (hreq .streamWrite).1.update rfl rfl ho.ctx rfl ?_
    intro k' hk'
    cases hk'
    refine ⟨id, fun name h => ?_, fun name h => .inl h⟩
    cases h
    exact .inr (hexists _)
  | read ho =>
    have hpush : Wired (((s.enter c .streamRead).streamRequire s.message.stream).pushStream
        s.message.stream (.command (.compile c s.message.pattern))) := by
      refine (hreq .streamRead).1.push (hreq .streamRead).2 ho.ctx (hopen ho) ?_
      rintro d (⟨p, h⟩ | h)
      · cases h; rfl
      · cases h
    refine hpush.update rfl rfl ho.ctx rfl ?_
    intro k' hk'
    cases hk'
    refine ⟨id, fun name h => .inl h, fun name h => ?_⟩
    rcases List.mem_append.1 h with h | h
    · exact .inl h
    · rw [List.mem_singleton.1 h]
      exact .inr (pushStream_exists (hexists _) _ _)
  | cancelled ho =>
    have hpush : Wired (((s.enter c .streamCancel).streamRequire s.message.stream).pushStream
        s.message.stream (.command (.cancel c))) := by
      refine (hreq .streamCancel).1.push (hreq .streamCancel).2 ho.ctx (hopen ho) ?_
      rintro d (⟨p, h⟩ | h)
      · cases h
      · cases h; rfl
    refine hpush.update rfl rfl ho.ctx rfl ?_
    intro k' hk'
    cases hk'
    exact ⟨id, fun name h => .inl h, fun name h => .inl (List.mem_of_mem_tail h)⟩
  | @published k a name ho _ =>
    let m : Msg :=
      ⟨s.messageId, a, name, s.message.subject, none, s.message.timeout, s.message.content⟩
    have hw₁ : Wired (((s.enter c .streamSend).newMsg m).setMessage s.message.takeContent) :=
      hw.frame rfl rfl rfl
    have hr₁ : Reg (((s.enter c .streamSend).newMsg m).setMessage s.message.takeContent) :=
      hr.frame rfl rfl rfl rfl hr.offers
    have hpush : Wired ((((s.enter c .streamSend).newMsg m).setMessage
        s.message.takeContent).pushStream name (.message c m)) := by
      refine hw₁.push hr₁ ho.ctx (hopen ho) ?_
      rintro d (⟨p, h⟩ | h)
      · cases h
      · cases h
    exact hpush.frame rfl rfl rfl
  | unwritten ho _ => exact hleave rfl rfl rfl rfl rfl rfl ho
  | mailed ho hm => exact (henter _).same (mailed_same hm)
  | requested ho hm => exact (henter _).same (requested_same hm)
  | @offered k a s₁ _ ho hs₁ hscan =>
    have hw₁ : Wired s₁ := by
      rw [hs₁]
      exact hw.frame rfl rfl rfl
    have hfirst : SameClients s₁ (s₁.setService s.message.address
        ((s₁.service s.message.address).setQueue
          (s₁.service s.message.address).queue.first.1)) := ⟨rfl, rfl, rfl, rfl, rfl, rfl, rfl, rfl⟩
    exact hw₁.same (hfirst.trans (scan_same hscan))
  | confirmed ho => exact hleave rfl rfl rfl rfl rfl rfl ho
  | credited ho => exact henter _
  | pinged ho => exact hw.frame rfl rfl rfl
  | closed ho => exact hleave rfl rfl rfl rfl rfl rfl ho
  | expired ho => exact hleave rfl rfl rfl rfl rfl rfl ho
  | invalid ho _ => exact hleave rfl rfl rfl rfl rfl rfl ho

theorem Wired.clientRequire (hw : Wired s) {key : Key} {s₁ : Server}
    (h : s.clientRequire key = (c, s₁)) : Wired s₁ := by
  rcases clientRequire_cases h with ⟨-, rfl⟩ | ⟨-, rfl, rfl⟩
  · exact hw
  · refine hw.contexts rfl (Nat.le_succ _) ?_
    intro d j' hj'
    rw [clientNew_eq] at hj'
    by_cases hd : d = s.clientId
    · subst hd
      simp only [Function.update_self, Option.some.injEq] at hj'
      subst hj'
      exact .inl ⟨Nat.le_refl _, rfl, rfl⟩
    · simp only [Function.update_of_ne hd] at hj'
      exact .inr ⟨j', hj', id, fun name h => .inl h, fun name h => .inl h⟩

theorem Wired.received (hr : Reg s) (hw : Wired s) {parts : List Frame}
    (h : Received rex s parts s') : Wired s' := by
  have hrecv : ∀ p rest, Wired (s.received p rest) := fun p rest => hw.frame rfl rfl rfl
  cases h with
  | @interrupted p rest _ => exact (hrecv p rest).frame rfl rfl rfl
  | @ignored p rest _ => exact (hrecv p rest).clientRequire rfl
  | @handled p rest c s₁ s' _ hreq hh =>
    have hw₁ : Wired (s₁.hear c parts.tail p) :=
      ((hrecv p rest).clientRequire hreq).frame rfl rfl rfl
    exact wired_handled (reg_hear (reg_clientRequire (reg_received hr p rest) hreq).1 ..) hw₁ hh

theorem wired_popStream (hr : Reg s) (hw : Wired s) {name : Str} {st : Stream} {t : Traffic}
    {up : List Traffic} (hst : s.streams.get name = some st) (hup : st.up = t :: up) :
    Wired (s.popStream name st up) := by
  refine hw.setStream hr (hw.distinct name st hst) ?_
  intro d hd
  refine .inl ⟨st, hst, Stream.names_up ?_ hd⟩
  intro u hu
  rw [hup]
  exact List.mem_cons_of_mem _ hu

theorem wired_moved {l : Label} (hr : Reg s) (hw : Wired s) (h : Moved rex s l s') : Wired s' := by
  cases h with
  | router _ _ h => exact hw.received hr h
  | more _ h => exact hw.received hr h
  | expired _ _ _ h => exact wired_handled hr hw h
  | @acked name st c up k _ hst hup hk =>
    have hw₁ := wired_popStream hr hw hst hup
    unfold Server.put
    by_cases hz : k.refcount - 1 = 0 ∧ k.state = .zombie
    · rw [if_pos hz]
      refine hw₁.update rfl rfl hk (x := none) rfl ?_
      intro k' hk'
      cases hk'
    · rw [if_neg hz]
      refine hw₁.update rfl rfl hk rfl ?_
      intro k' hk'
      cases hk'
      exact ⟨id, fun name h => .inl h, fun name h => .inl h⟩
  | discarded _ hst hup _ _ => exact (wired_popStream hr hw hst hup).frame rfl rfl rfl
  | delivered _ hst hup _ => exact (wired_popStream hr hw hst hup).same (delivered_same ..)
  | command hst hcmd =>
    have hd := hw.distinct _ _ hst
    refine hw.setStream hr ?_ fun d hn => .inl ⟨_, hst, Stream.names_handleCommand hd hcmd hn⟩
    obtain ⟨k, _, _, -, -, -, hsel, -⟩ := Stream.handleCommand_cases hcmd
    rw [hsel]
    exact distinct_runCommand hd k
  | message hst hmsg =>
    have hd := hw.distinct _ _ hst
    have hw₁ := hw.setStream hr (by
      obtain ⟨_, _, _, -, -, -, -, hsel, -⟩ := Stream.handleMessage_cases hmsg
      rw [hsel]
      exact hd) fun d hn => .inl ⟨_, hst, Stream.names_handleMessage hmsg hn⟩
    exact hw₁.frame rfl rfl rfl
  | mailbox _ hread => exact hw.same (mailboxRead_only hread).same
  | @configured service mailbox s₁ _ hreads =>
    have hcfg : Wired { s with serviceCfg := service } := hw.frame rfl rfl rfl
    exact (hcfg.same (mailboxReads_only hreads).same).frame rfl rfl rfl

/-- **Every reachable state is regular.** -/
structure Regular (s : Server) : Prop where
  reg : Reg s
  wired : Wired s

theorem regular_moved {l : Label} (h : Regular s) (hm : Moved rex s l s') : Regular s' :=
  ⟨reg_moved h.reg h.wired hm, wired_moved h.reg h.wired hm⟩

theorem regular_inductive (rex : Str → Str → Bool) : (broker rex).Inductive Regular where
  init s h := by
    rw [show s = Server.new from h]
    exact ⟨reg_new, wired_new⟩
  step _ _ _ h hstep := regular_moved h (moved_of_step h.reg h.wired hstep)

end Malamute.L3
