import Malamute.L3Server.Invariant
import Malamute.L3Server.Nested

/-!
# No action raises an alarm

One lemma for each action that makes, moves or shares a message
(`agrees_writeStream`, `agrees_writeMailbox`, `agrees_dispatch`, `agrees_scan`,
`agrees_writeService`, `agrees_register`), and from them the executions that
the reactor starts (`agrees_execute`).
-/
namespace Malamute.L3
open Malamute.Core Malamute.L1 Malamute.L2 Server

section
variable {chk : List Msg → Server → Prop} {L : List Msg} {s : Server} {m : Msg}

theorem Conserved.create (hc : Conserved chk) (h : chk L s) (hm : m.mid = s.messageId) :
    chk (m :: L) (s.newMsg m) := hc.transfer (.create hm) h

theorem Conserved.link (hc : Conserved chk) (h : chk L s) (hm : 0 < holders L s m.mid) :
    chk (m :: L) (s.link m) := hc.transfer (.link hm) h

/-- A queued message is held. -/
theorem holders_queued {name : Str} (h : m ∈ (s.service name).queue.items) :
    0 < holders L s m.mid := by
  have hcopies : 0 < copies m.mid (s.service name).queue.items := by
    unfold copies
    exact List.countP_pos_iff.2 ⟨m, h, by simp⟩
  have hget : s.services.get name = some (s.service name) := by
    unfold Server.service at h ⊢
    cases hg : s.services.get name with
    | none =>
      rw [hg] at h
      cases h
    | some v => rfl
  have hle : copies m.mid (s.service name).queue.items ≤ servicesHeld s.services m.mid :=
    Table.le_sum (fun v => copies m.mid v.queue.items) hget
  unfold holders held
  omega

end

namespace Watched

section
variable {chk : List Msg → Server → Prop} [∀ L s, Decidable (chk L s)] {rex : Str → Str → Bool}
  {L : List Msg} {s s' : Server} {c : Cid} {k : Client} {a : Str} {R : List Cid}

omit [∀ L s, Decidable (chk L s)] in
theorem light_same (h : chk L s') (hs : SameClients s s') : Light chk L c s s' where
  kept _ := h
  clients := hs.clients
  touched k hk := ⟨k, by rw [hs.ctx]; exact hk, .refl k⟩

/-! ## Streams and mailboxes -/

theorem agrees_writeStream (hc : Conserved chk) (ho : Open s c k a)
    (hw : ∀ name, k.writer = some name → ∃ st, s.streams.get name = some st) (h : chk L s) :
    Agrees .fault (writeMessageToStream chk L c s) (s.writeMessageToStream c)
      (Light chk L c s) := by
  rw [writeMessageToStream, Server.writeMessageToStream, client_of ho.ctx, lift_ok_bind, ok_bind,
    ho.address]
  cases hwriter : k.writer with
  | none => exact .lift fun s' hs' => light_raise hc hs'
  | some name =>
    obtain ⟨st, hst⟩ := hw name hwriter
    dsimp only
    generalize hm : (⟨s.messageId, a, name, s.message.subject, none, s.message.timeout,
      s.message.content⟩ : Msg) = m
    have hmid : m.mid = s.messageId := by rw [← hm]
    have hnew : chk (m :: L) ((s.newMsg m).setMessage s.message.takeContent) :=
      hc.same (hc.create h hmid) rfl rfl fun _ => rfl
    have hpush : chk L (((s.newMsg m).setMessage s.message.takeContent).pushStream name
        (.message c m)) := by
      refine hc.move hnew rfl rfl fun i => ?_
      rw [held_pushStream_message (s := (s.newMsg m).setMessage s.message.takeContent) hst c m,
        copies_cons i m L, copies_cons i m [], copies_nil]
      omega
    refine .check (see_ok hnew) (.check (see_ok hpush) (.ok ?_))
    exact ⟨fun _ => hc.same hpush rfl rfl fun _ => rfl, rfl, fun j hj => ⟨j, hj, .refl j⟩⟩

theorem agrees_writeMailbox (hc : Conserved chk) {wex : Watched.Exec} {n : Nat}
    (hn : Nests chk wex (Server.execute rex n) R) (ho : Open s c k a)
    (hreg : ∀ b d, s.addresses.get b = some d → ∃ t, Open s d t b)
    (hfresh : ∀ d t, s.ctx d = some t → d < s.clientId) (hr : alive R s = true) (h : chk L s) :
    Agrees .fault (writeMessageToMailbox chk wex L c s)
      (s.writeMessageToMailbox (Server.execute rex n) c) (Light chk L c s) := by
  refine Agrees.mono (P := chk L) ?_ fun s' hs' h' =>
    light_same h' (mailed_same (mailed_ok ho hreg hs'))
  rw [writeMessageToMailbox, Server.writeMessageToMailbox, client_of ho.ctx, lift_ok_bind, ok_bind,
    ho.address]
  dsimp only
  generalize hm : s.messageFrom a = m
  have hmid : m.mid = s.messageId := by rw [← hm]; rfl
  generalize hs₁ : ((s.newMsg m).setMessage s.message.takeContent).log (.mailed c m) = s₁
  have hnew : chk (m :: L) s₁ := by
    rw [← hs₁]
    exact hc.same (hc.create h hmid) rfl rfl fun _ => rfl
  have hctx : s₁.ctx = s.ctx := by rw [← hs₁]; rfl
  have hid : s₁.clientId = s.clientId := by rw [← hs₁]; rfl
  have haddr : s₁.addresses = s.addresses := by rw [← hs₁]; rfl
  refine .check (see_ok hnew) ?_
  rw [haddr]
  cases htarget : s.addresses.get m.address with
  | some target =>
    obtain ⟨t, ht⟩ := hreg _ _ htarget
    have hlt : target < s₁.clientId := by rw [hid]; exact hfresh target t ht.ctx
    have hopen : Open s₁ target t m.address := ht.frame hctx (by rw [← hs₁]; rfl) haddr
    have hfill := hc.fill hnew hopen.ctx ht.quiet.msg hlt
    have hz : ¬ t.state = .zombie := by rw [ht.state]; simp
    dsimp only
    rw [client_of hopen.ctx, lift_ok_bind, ok_bind, if_neg (by rw [ht.quiet.msg]; simp),
      if_neg (by rw [ht.quiet.msg]; simp)]
    refine .check (see_ok hfill) ?_
    rw [sendEvent, Server.sendEvent, client_of (k := { t with msg := some m }) (by simp),
      lift_ok_bind, ok_bind, if_neg hz, if_neg hz]
    exact .andThen (hn.drain hopen hlt (alive_of_ctx hr hctx) hfill) fun s' _ h' => see_ok h'
  | none =>
    have hstored : chk L (s₁.setMailbox s₁.mailbox (s₁.mailboxPipe ++ [(m.address, m)])) := by
      refine hc.move hnew rfl rfl fun i => ?_
      have hset := held_setMailbox (i := i) s₁ s₁.mailbox (s₁.mailboxPipe ++ [(m.address, m)])
      simp only [List.map_append, List.map_cons, List.map_nil, copies_append, copies_cons,
        copies_nil] at hset ⊢
      omega
    dsimp only
    rw [see_ok hstored]
    exact .ok hstored

/-! ## Services -/

/-- The local reference to `m` is gone if the message was dispatched. -/
theorem agrees_dispatch (hc : Conserved chk) {wex : Watched.Exec} {ex : L3.Exec} {name : Str}
    {m : Msg} (hn : Nests chk wex ex R) (ho : OffersOpen s name)
    (hfresh : ∀ d t, s.ctx d = some t → d < s.clientId) (hr : alive R s = true)
    (h : chk (m :: L) s) :
    Agrees .fault (serviceDispatchMessage chk rex wex L s name m)
      (s.serviceDispatchMessage rex ex name m)
      (fun r => chk (if r.2 then L else m :: L) r.1) := by
  unfold serviceDispatchMessage Server.serviceDispatchMessage
  dsimp only
  cases hs : (s.service name).offers.reset.seek (fun o => rex o.pattern m.subject) with
  | mk offers found =>
    have hoffers : ∀ L', chk L' s → chk L' (s.setService name ((s.service name).setOffers offers)) :=
      fun L' h' => hc.same h' rfl rfl fun _ => held_setOffers ..
    cases found with
    | none => exact .ok (hoffers (m :: L) h)
    | some o =>
      have hmem : o ∈ (s.service name).offers.items := CursorList.mem_of_seek hs
      obtain ⟨t, a, ht⟩ := ho o hmem
      dsimp only
      generalize hs₁ : s.setService name ((s.service name).setOffers offers) = s₁ at hoffers
      generalize hs₂ : s₁.log (.dispatched name (s.service name).offers.items o m) = s₂
      have hlog : ∀ k, (s₁.setClient o.client k).log
          (.dispatched name (s.service name).offers.items o m) = s₂.setClient o.client k := by
        intro k
        rw [← hs₂]
        rfl
      have hctx : s₂.ctx = s.ctx := by rw [← hs₂, ← hs₁]; rfl
      have hopen : Open s₂ o.client t a :=
        ht.frame hctx (by rw [← hs₂, ← hs₁]; rfl) (by rw [← hs₂, ← hs₁]; rfl)
      have hopen₁ : s₁.ctx o.client = some t := by rw [← hs₁]; exact ht.ctx
      have hlt : o.client < s₂.clientId := by
        rw [show s₂.clientId = s.clientId by rw [← hs₂, ← hs₁]; rfl]
        exact hfresh _ _ ht.ctx
      have hstart : chk (m :: L) s₂ := by
        rw [← hs₂]
        exact hc.same (hoffers (m :: L) h) rfl rfl fun _ => rfl
      have hfill := hc.fill hstart hopen.ctx ht.quiet.msg hlt
      have hz : ¬ t.state = .zombie := by rw [ht.state]; simp
      rw [client_of hopen₁, lift_ok_bind, ok_bind, if_neg (by rw [ht.quiet.msg]; simp),
        if_neg (by rw [ht.quiet.msg]; simp), hlog]
      refine .check (see_ok hfill) ?_
      have hevent : Agrees .fault
          (sendEvent wex L (s₂.setClient o.client { t with msg := some m }) o.client .serviceMessage)
          ((s₂.setClient o.client { t with msg := some m }).sendEvent ex o.client .serviceMessage)
          (chk L) := by
        rw [sendEvent, Server.sendEvent, client_of (k := { t with msg := some m }) (by simp),
          lift_ok_bind, ok_bind, if_neg hz, if_neg hz]
        exact hn.deliver hopen hlt rfl (alive_of_ctx hr hctx) hfill
      refine .bind hevent fun s₃ _ h₃ => .check (see_ok h₃) (.ok ?_)
      exact hc.same h₃ rfl rfl fun _ => held_setOffers ..

/-- The cursor of the queue is on `m`. -/
def At (s : Server) (name : Str) (m : Option Msg) : Prop :=
  ∀ m', m = some m' → ∃ ms, (s.service name).queue.queue.back = m' :: ms

theorem at_next (s : Server) (name : Str) (v : Service) (q : Msgq) :
    At (s.setService name (v.setQueue q.next.1)) name q.next.2 := by
  intro m' hm'
  rw [service_setService, Service.setQueue_queue]
  unfold Msgq.next CursorList.next at hm' ⊢
  cases hpost : q.queue.post with
  | nil =>
    rw [hpost] at hm'
    cases hm'
  | cons x xs =>
    rw [hpost] at hm'
    obtain rfl := Option.some.inj hm'
    exact ⟨q.queue.back, rfl⟩

theorem at_first (s : Server) (name : Str) (v : Service) (q : Msgq) :
    At (s.setService name (v.setQueue q.first.1)) name q.first.2 :=
  at_next s name v { q with queue := q.queue.reset }

/-- The queue of a service is scanned. -/
theorem agrees_scan (hc : Conserved chk) {n l : Nat} {name : Str} {m : Option Msg}
    (hn : Nests chk (nest chk rex n R) (Server.execute rex n) R) (ho : OffersOpen s name)
    (hfresh : ∀ d t, s.ctx d = some t → d < s.clientId) (hr : alive R s = true)
    (ha : At s name m) (h : chk L s) :
    Agrees .fault (serviceDispatchLoop chk rex (nest chk rex n R) L name l m s)
      (Server.serviceDispatchLoop rex (Server.execute rex n) name l m s) (chk L) := by
  induction l generalizing s m with
  | zero =>
    cases m with
    | none => exact .ok h
    | some m => exact .error Fault.fuel
  | succ l ih =>
    cases m with
    | none => exact .ok h
    | some m =>
      obtain ⟨ms, hback⟩ := ha m rfl
      have hmem : m ∈ (s.service name).queue.items := by
        simp [Msgq.items, CursorList.items, hback]
      have hlink : chk (m :: L) (s.link m) := hc.link h (holders_queued hmem)
      refine .check (share_ok hc h (holders_queued hmem)) ?_
      have hoffers : OffersOpen (s.link m) name := ho.frame (.refl _) rfl rfl rfl
      refine .bind (agrees_dispatch hc hn hoffers hfresh (alive_of_ctx (s := s) hr rfl) hlink) ?_
      rintro ⟨s₁, b⟩ hd h₁
      have hdisp := dispatch_ok hoffers hd
      obtain ⟨hperm, hqueue⟩ := dispatched_service hdisp
      have hsame := dispatched_same hdisp
      -- what the rest of the loop needs, however the queue has changed
      have hrest : ∀ (s₂ : Server) (q : Msgq), SameClients s₁ s₂ →
          (s₂.service name).offers = (s₁.service name).offers → chk L s₂ →
            (s₂.service name).queue = q →
              Agrees .fault
                (serviceDispatchLoop chk rex (nest chk rex n R) L name l q.next.2
                  (s₂.setService name ((s₂.service name).setQueue q.next.1)))
                (Server.serviceDispatchLoop rex (Server.execute rex n) name l q.next.2
                  (s₂.setService name ((s₂.service name).setQueue q.next.1))) (chk L) := by
        intro s₂ q hs₂ hoff h₂ hq
        have hs : SameClients s s₂ := ((link_same s m).trans hsame).trans hs₂
        refine ih ?_ ?_ ?_ (at_next s₂ name _ _) ?_
        · refine ho.frame ?_ hs.ctx hs.clients hs.addresses
          rw [service_setService, Service.setQueue_offers, hoff]
          exact hperm
        · intro d t hd
          rw [setService_clientId, hs.clientId]
          exact hfresh d t (by rw [← hs.ctx]; exact hd)
        · exact alive_of_ctx hr hs.ctx
        · refine hc.same h₂ rfl rfl fun _ => held_setService_same ?_
          rw [Service.setQueue_queue, Msgq.items_next, hq]
      cases b with
      | false =>
        replace h₁ : chk (m :: L) s₁ := h₁
        have hunlink : chk L (s₁.unlink m) := hc.unlink h₁
        dsimp only
        rw [if_neg Bool.false_ne_true, if_neg Bool.false_ne_true, ok_bind, ok_bind]
        refine .check (see_ok h₁) (.check (drop_ok hc h₁) ?_)
        exact hrest (s₁.unlink m) _ ⟨rfl, rfl, rfl, rfl, rfl, rfl, rfl, rfl⟩ rfl hunlink rfl
      | true =>
        have hback₁ : (s₁.service name).queue.queue.back = m :: ms := by
          rw [hqueue]
          exact hback
        replace h₁ : chk L s₁ := h₁
        dsimp only
        rw [if_pos rfl, if_pos rfl]
        refine .bind (P := fun q => (s₁.service name).queue.dequeueCursor s₁.serviceCfg = .ok q)
          (.lift fun q hq => hq) fun q _ hq => ?_
        rw [ok_bind, ok_bind]
        -- the reference of the queue takes the place of the one that was linked
        have htaken : chk (m :: L) (s₁.setService name ((s₁.service name).setQueue q)) := by
          refine hc.move h₁ rfl rfl fun i => ?_
          have hset := held_setService s₁ name ((s₁.service name).setQueue q) i
          have hitems : (s₁.service name).queue.items = ms.reverse ++ m ::
              (s₁.service name).queue.queue.post := by
            simp [Msgq.items, CursorList.items, hback₁]
          have hleft : q.items = ms.reverse ++ (s₁.service name).queue.queue.post := by
            rw [Msgq.items, Msgq.dequeueCursor_queue hback₁ hq]
            rfl
          rw [Service.setQueue_queue, hitems, hleft, copies_append, copies_append, copies_cons]
            at hset
          rw [copies_cons]
          omega
        have hunlink := hc.unlink htaken
        refine .check (see_ok htaken) (.check (drop_ok hc htaken) ?_)
        refine hrest ((s₁.setService name ((s₁.service name).setQueue q)).unlink m) _
          ⟨rfl, rfl, rfl, rfl, rfl, rfl, rfl, rfl⟩ ?_ hunlink rfl
        show ((s₁.setService name ((s₁.service name).setQueue q)).service name).offers = _
        rw [service_setService]
        rfl

theorem agrees_dispatchService (hc : Conserved chk) {n : Nat}
    (hn : Nests chk (nest chk rex n R) (Server.execute rex n) R)
    (ho : OffersOpen s s.message.address) (hfresh : ∀ d t, s.ctx d = some t → d < s.clientId)
    (hr : alive R s = true) (h : chk L s) :
    Agrees .fault (dispatchTheService chk rex (nest chk rex n R) L n s)
      (s.dispatchTheService rex (Server.execute rex n) n) (chk L) := by
  have hreq : chk L (s.serviceRequire s.message.address) :=
    hc.same h rfl rfl fun _ => held_serviceRequire ..
  unfold dispatchTheService Server.dispatchTheService serviceDispatch Server.serviceDispatch
  dsimp only
  split
  · exact .ok hreq
  · refine agrees_scan hc hn ?_ hfresh (alive_of_ctx (s := s) hr rfl) (at_first _ _ _ _) ?_
    · refine ho.frame ?_ rfl rfl rfl
      rw [service_setService, Service.setQueue_offers, service_serviceRequire]
    · refine hc.same hreq rfl rfl fun _ => held_setService_same ?_
      rw [Service.setQueue_queue, Msgq.items_first]

theorem agrees_writeService (hc : Conserved chk) {n : Nat}
    (hn : Nests chk (nest chk rex n R) (Server.execute rex n) R) (ho : Open s c k a)
    (hoff : OffersOpen s s.message.address) (hfresh : ∀ d t, s.ctx d = some t → d < s.clientId)
    (hr : alive R s = true) (h : chk L s) :
    Agrees .fault (writeMessageToService chk rex (nest chk rex n R) L c s)
      (s.writeMessageToService rex (Server.execute rex n) c) (Light chk L c s) := by
  refine Agrees.mono (P := chk L) ?_ fun s' hs' h' =>
    light_same h' (requested_same (requested_ok ho hoff hs'))
  rw [writeMessageToService, Server.writeMessageToService, client_of ho.ctx, lift_ok_bind, ok_bind,
    ho.address]
  dsimp only
  have hnew : chk (s.messageFrom a :: L) (((s.newMsg (s.messageFrom a)).setMessage
      s.message.takeContent).log (.requested c (s.messageFrom a))) :=
    hc.same (hc.create h rfl) rfl rfl fun _ => rfl
  refine .check (see_ok hnew) ?_
  have hreq : chk (s.messageFrom a :: L) (s.requesting c a) :=
    hc.same hnew rfl rfl fun _ => held_serviceRequire ..
  have hoffers : OffersOpen (s.requesting c a) s.message.address := by
    refine hoff.frame ?_ rfl rfl rfl
    have hs : (s.requesting c a).service s.message.address = s.service s.message.address :=
      service_serviceRequire _ _ _
    rw [hs]
  refine .bind (agrees_dispatch hc hn hoffers hfresh (alive_of_ctx (s := s) hr rfl) hreq) ?_
  rintro ⟨s₁, b⟩ - h₁
  cases b with
  | true =>
    replace h₁ : chk L s₁ := h₁
    dsimp only
    rw [if_pos rfl, if_pos rfl, see_ok h₁]
    exact .ok h₁
  | false =>
    replace h₁ : chk (s.messageFrom a :: L) s₁ := h₁
    dsimp only
    rw [if_neg Bool.false_ne_true, if_neg Bool.false_ne_true]
    refine .check (see_ok h₁) ?_
    refine .bind (P := fun r => (s₁.service s.message.address).queue.enqueue s₁.serviceCfg
      (s.messageFrom a) = .ok r) (.lift fun r hr => hr) ?_
    rintro ⟨q, v⟩ - hq
    have hset := fun i => held_setService s₁ s.message.address
      ((s₁.service s.message.address).setQueue q) i
    simp only [Service.setQueue_queue] at hset
    rcases Msgq.enqueue_cases hq with ⟨w, rfl, hitems⟩ | ⟨rfl, rfl⟩
    · have hqueued : chk L (s₁.setService s.message.address
          ((s₁.service s.message.address).setQueue q)) := by
        refine hc.move h₁ rfl rfl fun i => ?_
        have hi := hset i
        rw [hitems, copies_append, copies_cons, copies_nil] at hi
        rw [copies_cons]
        omega
      show Agrees .fault (see chk L (s₁.setService s.message.address
        ((s₁.service s.message.address).setQueue q))) (.ok _) (chk L)
      rw [see_ok hqueued]
      exact .ok hqueued
    · have hrefused : chk (s.messageFrom a :: L) (s₁.setService s.message.address
          ((s₁.service s.message.address).setQueue (s₁.service s.message.address).queue)) :=
        hc.same h₁ rfl rfl fun i => by
          have hi := hset i
          omega
      have hdrop := hc.unlink hrefused
      exact .check (drop_ok hc hrefused) (.ok (hc.same hdrop rfl rfl fun _ => rfl))

/-! ## Opening a connection -/

/-- `register_new_client`; nobody but `c` executes. -/
theorem agrees_register (hc : Conserved chk) {n : Nat}
    (hn : Nests chk (nest chk rex n [c]) (Server.execute rex n) [c]) (hr : Reg s)
    (hk : s.ctx c = some k) (hs : k.state = .start) (h : chk L s) :
    Agrees .fault (registerNewClient (nest chk rex n [c]) L c s)
      (s.registerNewClient (Server.execute rex n) c) (chk L) := by
  have hset : chk L (s.setClient c { k with address := some s.message.address }) :=
    conserved_setClient hc h hk rfl
  -- after the holder of the address, if any, has expired
  have hrest : ∀ a s₁, chk L s₁ → Agrees .fault (do
        let s ← lift (s₁.deleteAddress a)
        .ok ((s.setAddresses (s.addresses.set a c)).setStatus success))
      (do
        let s ← s₁.deleteAddress a
        .ok ((s.setAddresses (s.addresses.set a c)).setStatus success)) (chk L) := by
    intro a s₁ h₁
    refine .bind (P := chk L) (.lift fun s₂ hs₂ => ?_) fun s₂ _ h₂ =>
      .ok (hc.same h₂ rfl rfl fun _ => rfl)
    have hdel : Light chk L c s₁ s₂ := light_deleteAddress hc hs₂
    exact hdel.kept h₁
  unfold registerNewClient Server.registerNewClient
  simp only [modifyClient_of hk, lift_ok_bind, ok_bind]
  split
  · exact .ok (hc.same hset rfl rfl fun _ => rfl)
  rw [setClient_addresses]
  cases hold : s.addresses.get s.message.address with
  | none => exact hrest _ _ hset
  | some old =>
    obtain ⟨-, t, ht⟩ := hr.registered _ _ hold
    have hne : old ≠ c := by
      rintro rfl
      cases (ht.connected_of hk).symm.trans hs
    have ht' : Open (s.setClient c { k with address := some s.message.address }) old t
        s.message.address := ht.setClient_ne hne _
    have halive : alive [c] (s.setClient c { k with address := some s.message.address }) = true := by
      rw [alive_iff]
      intro d hd
      obtain rfl := List.mem_singleton.1 hd
      refine ⟨{ k with address := some s.message.address }, by simp, ?_⟩
      show k.state ≠ .zombie
      rw [hs]
      simp
    have hz : ¬ t.state = .zombie := by rw [ht.state]; simp
    refine .bind (P := chk L) ?_ fun s₁ _ h₁ => hrest _ s₁ h₁
    rw [sendEvent, Server.sendEvent, client_of ht'.ctx, lift_ok_bind, ok_bind, if_neg hz, if_neg hz]
    exact hn.expire ht' (by simpa using hne) halive hset

/-- CONNECTION OPEN in the start state. -/
theorem agrees_opening (hc : Conserved chk) {n : Nat} (hr : Reg s) (hk : s.ctx c = some k)
    (hs : k.state = .start) (h : chk L s) :
    Agrees .fault (loop chk rex n [] L c (s.setClient c { k with nextEvent := some .connectionOpen }))
      (Server.loop rex n c (s.setClient c { k with nextEvent := some .connectionOpen })) (chk L) := by
  cases n with
  | zero => exact .error Fault.fuel
  | succ n =>
    obtain ⟨hu, hh⟩ := hr.start_of hk hs
    have hq := hu.quiet
    have hk' : ({ k with nextEvent := none, exception := none } : Client) = k :=
      reset_events hq.nextEvent hq.exception k.msg
    rw [loop_round (k := { k with nextEvent := some .connectionOpen }) (by simp) rfl
        (by rw [hs]; rfl),
      Server.loop_round (k := { k with nextEvent := some .connectionOpen }) (by simp) rfl
        (by rw [hs]; rfl)]
    have hmsg : ({ k with nextEvent := some .connectionOpen } : Client).msg = none := hq.msg
    rw [setClient_setClient, hk', setClient_self hk, hmsg]
    generalize hs₀ : s.enter c .connectionOpen = s₀
    have hr₀ : Reg s₀ := by rw [← hs₀]; exact hr.frame rfl rfl rfl rfl hr.offers
    have hk₀ : s₀.ctx c = some k := by rw [← hs₀]; exact hk
    have h₀ : chk L s₀ := by rw [← hs₀]; exact hc.same h rfl rfl fun _ => rfl
    have hh₀ : s₀.clients.get k.hashkey = some c := by rw [← hs₀]; exact hh
    generalize ha : s₀.message.address = a
    -- the client is still in the start state, but it has its address
    have hq₁ : Quiet { k with address := some a } := ⟨hq.nextEvent, hq.exception, hq.msg⟩
    have hz : ({ k with address := some a } : Client).state ≠ .zombie := by
      show k.state ≠ .zombie
      rw [hs]
      simp
    rw [runActions_cons hk₀ hq.exception, Server.runActions_cons hk₀ hq.exception]
    refine .bind (P := fun s' => chk L s' ∧ ∃ s₁,
      s₁.ctx c = some { k with address := some a } ∧
      Open (s₁.setClient c (k.opened a)) c (k.opened a) a ∧ c < s₁.clientId ∧ (s' = s₁ ∨ ∃ m,
        s' = s₁.setClient c
          { k with address := some a, msg := some m, nextEvent := some .mailboxMessage })) ?_ ?_
    · refine .bind (agrees_register hc (nests_nest hc n [c]) hr₀ hk₀ hs h₀) fun s₁ hx₁ h₁ => ?_
      obtain ⟨s₂, hev, hk₂, rfl⟩ := register_ok hr₀ hk₀ hs ha hx₁
      have hopen := open_register (a := a) hq (hev.hashed hk₀ hs hh₀)
      generalize hs₃ : (if a = .empty then s₂ else s₂.setAddresses (s₂.addresses.set a c)).setStatus
        success = s₃ at h₁
      have hsend : (s₃.setClient c { k with address := some a }).send c .ok =
          .ok ((s₃.answer c (k.opened a) .ok).setClient c { k with address := some a }) :=
        send_eq (k := { k with address := some a }) (by simp) .ok
      have hanswer : chk L ((s₃.answer c (k.opened a) .ok).setClient c
          { k with address := some a }) := hc.same h₁ rfl rfl fun _ => rfl
      rw [runActions_cons (k := { k with address := some a }) (by simp) hq.exception,
        Server.runActions_cons (k := { k with address := some a }) (by simp) hq.exception]
      show Agrees .fault (lift ((s₃.setClient c { k with address := some a }).send c .ok) >>= _)
        ((s₃.setClient c { k with address := some a }).send c .ok >>= _) _
      rw [hsend, lift_ok_bind, ok_bind]
      have hreg : Open ((s₃.answer c (k.opened a) .ok).setClient c (k.opened a)) c (k.opened a) a := by
        rw [← hs₃]
        exact hopen
      have hlt : c < (s₃.answer c (k.opened a) .ok).clientId := by
        have hid : s₂.clientId = s₀.clientId := by cases hev <;> rfl
        have hid₃ : s₃.clientId = s₂.clientId := by
          rw [← hs₃]
          split <;> rfl
        rw [answer_clientId, hid₃, hid]
        exact hr₀.fresh c k hk₀
      generalize s₃.answer c (k.opened a) .ok = s₄ at hanswer hreg hlt
      rw [runActions_cons (k := { k with address := some a }) (by simp) hq.exception,
        Server.runActions_cons (k := { k with address := some a }) (by simp) hq.exception]
      refine .bind (agrees_check hc (k := { k with address := some a }) (by simp) hq₁ hz rfl hlt
        hanswer) ?_
      rintro s' - ⟨h', s₅, honly, hs'⟩
      have hctx : s₅.ctx c = some { k with address := some a } := by
        rw [honly.same.ctx]
        simp
      refine .ok ⟨h', s₅, hctx, ⟨by simp, hq.opened a, rfl, rfl, ?_, ?_⟩, ?_, hs'⟩
      · rw [setClient_clients, honly.same.clients]
        exact hreg.hashed
      · rw [setClient_addresses, honly.same.addresses]
        exact hreg.registered
      · rw [honly.same.clientId]
        exact hlt
    · rintro s' - ⟨hchk, s₁, hk₁, hopen, hlt, rfl | ⟨m, rfl⟩⟩
      · exact agrees_finish hc hk₁ hq₁ hopen.hashed hchk rfl
      · refine agrees_finish_next (k := { k with address := some a }) (m := m) (by simp)
          hq₁ rfl ?_
        rw [setClient_setClient, ← setClient_setClient s₁ c (k.opened a)]
        refine agrees_drain hc hopen hlt ?_
        rw [setClient_setClient]
        have hslot := conserved_resetClient (j := { k.opened a with msg := some m }) hc hchk rfl
        exact hslot

/-! ## The events of an open client -/

/-- A round whose actions touch the context of an idle client. -/
theorem agrees_round (hc : Conserved chk) {n : Nat} {e : Event} {acts : List Action}
    {next : Option State} (hk : s.ctx c = some k) (hq : Quiet k)
    (hh : s.clients.get k.hashkey = some c) (ht : transition k.state e = some (acts, next))
    (hrun : Agrees .fault
      (runActions (runAction chk rex (nest chk rex n (c :: R)) n L c) c acts (s.enter c e))
      (Server.runActions (fun a s => s.runAction rex (Server.execute rex n) n c a) c acts
        (s.enter c e)) (Light chk L c (s.enter c e))) (h : chk L s) :
    Agrees .fault (loop chk rex (n + 1) R L c (s.setClient c { k with nextEvent := some e }))
      (Server.loop rex (n + 1) c (s.setClient c { k with nextEvent := some e })) (chk L) := by
  have hk' : ({ k with nextEvent := none, exception := none } : Client) = k := by
    cases k; have := hq.nextEvent; have := hq.exception; simp_all
  have hmsg : ({ k with nextEvent := some e } : Client).msg = none := hq.msg
  rw [loop_round (k := { k with nextEvent := some e }) (by simp) rfl ht,
    Server.loop_round (k := { k with nextEvent := some e }) (by simp) rfl ht, setClient_setClient,
    hk', setClient_self hk, hmsg]
  refine .bind hrun fun s₁ _ hl => ?_
  have henter : chk L (s.enter c e) := hc.same h rfl rfl fun _ => rfl
  obtain ⟨j, hj, htouch⟩ := hl.touched k hk
  have hclients : s₁.clients.get j.hashkey = some c := by
    rw [hl.clients, htouch.hashkey]
    exact hh
  refine agrees_end hc (hl.kept henter) hj (htouch.msg.trans hq.msg) hclients ?_ ?_
  · rw [← hq.nextEvent]
    exact htouch.nextEvent
  · rw [← hq.exception]
    exact htouch.exception

/-- The only action of a round. -/
theorem agrees_single {wex : Watched.Exec} {ex : L3.Exec} {n : Nat} {b : Action}
    {P : Server → Prop} (hk : s.ctx c = some k) (hx : k.exception = none)
    (h : Agrees .fault (runAction chk rex wex n L c b s) (s.runAction rex ex n c b) P) :
    Agrees .fault (runActions (runAction chk rex wex n L c) c [b] s)
      (Server.runActions (fun a s => s.runAction rex ex n c a) c [b] s) P := by
  rw [runActions_cons hk hx, Server.runActions_cons hk hx]
  exact .bind h fun s₁ _ h₁ => .ok h₁

/-- The actions of SERVICE OFFER. -/
theorem agrees_offer (hc : Conserved chk) {n : Nat} (hr : Reg s) (ho : Open s c k a)
    (h : chk L s) :
    Agrees .fault
      (runActions (runAction chk rex (nest chk rex n [c]) n L c) c
        [.storeServiceOffer, .send .ok, .dispatchTheService] s)
      (Server.runActions (fun a s => s.runAction rex (Server.execute rex n) n c a) c
        [.storeServiceOffer, .send .ok, .dispatchTheService] s) (Light chk L c s) := by
  obtain ⟨s₁, hstore, hctx₁, hans⟩ : ∃ s₁, s.storeServiceOffer c = .ok s₁ ∧ s₁.ctx c = some k ∧
      s₁.answer c k .ok = s.offering c k := ⟨_, rfl, ho.ctx, rfl⟩
  have hopen : Open (s.offering c k) c k a := ho.frame rfl rfl rfl
  have h₁ : chk L s₁ := (light_storeServiceOffer hc hstore).kept h
  have h₂ : chk L (s.offering c k) := by
    rw [← hans]
    exact hc.same h₁ rfl rfl fun _ => rfl
  have hsend : s₁.send c .ok = .ok (s.offering c k) := by rw [send_eq hctx₁, hans]
  have hx := ho.quiet.exception
  rw [runActions_cons ho.ctx hx, Server.runActions_cons ho.ctx hx]
  show Agrees .fault (lift (s.storeServiceOffer c) >>= _) (s.storeServiceOffer c >>= _) _
  rw [hstore, lift_ok_bind, ok_bind, runActions_cons hctx₁ hx, Server.runActions_cons hctx₁ hx]
  show Agrees .fault (lift (s₁.send c .ok) >>= _) (s₁.send c .ok >>= _) _
  rw [hsend, lift_ok_bind, ok_bind]
  have hr₂ : Reg (s.offering c k) := hr.offering ho
  have halive : alive [c] (s.offering c k) = true := by
    rw [alive_iff]
    intro d hd
    obtain rfl := List.mem_singleton.1 hd
    exact ⟨k, hopen.ctx, by rw [ho.state]; simp⟩
  refine agrees_single hopen.ctx hx (Agrees.mono (agrees_dispatchService hc (nests_nest hc n [c])
    (hr₂.offers _) hr₂.fresh halive h₂) fun s' hs' h' => ?_)
  have hscan := scan_same (offered_ok ho hr hs')
  have hoffering : (s.offering c k).ctx = s.ctx := rfl
  refine ⟨fun _ => h', ?_, fun j hj => ⟨j, ?_, .refl j⟩⟩
  · rw [hscan.clients]
    rfl
  · rw [hscan.ctx]
    exact hj

/-- An event of an open client. -/
theorem agrees_open (hc : Conserved chk) {n : Nat} {e : Event} (hr : Reg s) (hw : Wired s)
    (ho : Open s c k a) (he : e.External) (h : chk L s) :
    Agrees .fault (loop chk rex n [] L c (s.setClient c { k with nextEvent := some e }))
      (Server.loop rex n c (s.setClient c { k with nextEvent := some e })) (chk L) := by
  cases n with
  | zero => exact .error Fault.fuel
  | succ n =>
    have hopen : Open (s.enter c e) c k a := ho.frame rfl rfl rfl
    have hr' : Reg (s.enter c e) := hr.frame rfl rfl rfl rfl hr.offers
    have henter : chk L (s.enter c e) := hc.same h rfl rfl fun _ => rfl
    have hx := ho.quiet.exception
    have halive : alive [c] (s.enter c e) = true := by
      rw [alive_iff]
      intro d hd
      obtain rfl := List.mem_singleton.1 hd
      exact ⟨k, ho.ctx, by rw [ho.state]; simp⟩
    have hnests : Nests chk (nest chk rex n [c]) (Server.execute rex n) [c] := nests_nest hc n [c]
    have hround {acts} (hacts : connectedState e = (acts, none)) (hrun : Agrees .fault
        (runActions (runAction chk rex (nest chk rex n [c]) n L c) c acts (s.enter c e))
        (Server.runActions (fun a s => s.runAction rex (Server.execute rex n) n c a) c acts
          (s.enter c e)) (Light chk L c (s.enter c e))) : Agrees .fault
        (loop chk rex (n + 1) [] L c (s.setClient c { k with nextEvent := some e }))
        (Server.loop rex (n + 1) c (s.setClient c { k with nextEvent := some e })) (chk L) :=
      agrees_round hc ho.ctx ho.quiet ho.hashed (by rw [ho.state, transition, hacts]) hrun h
    -- the events without messages
    have hsimple (hs : SimpleEvent .connected e) : Agrees .fault
        (loop chk rex (n + 1) [] L c (s.setClient c { k with nextEvent := some e }))
        (Server.loop rex (n + 1) c (s.setClient c { k with nextEvent := some e })) (chk L) := by
      have hstart : chk L (s.setClient c { k with nextEvent := some e }) :=
        conserved_setClient hc h ho.ctx rfl
      refine agrees_loop hc hstart (k := { k with nextEvent := some e }) (by simp) ho.quiet.msg
        ho.hashed fun e' he' => ?_
      obtain rfl := Option.some.inj he'
      show SimpleEvent k.state e
      rw [ho.state]
      exact hs
    cases e with
    | streamMessage | mailboxMessage | serviceMessage | exception => exact he.elim
    | streamSend =>
      exact hround rfl (agrees_single hopen.ctx hx (agrees_writeStream hc hopen
        (fun name hname => hw.writers c k name ho.ctx hname) henter))
    | mailboxSend =>
      exact hround rfl (agrees_single hopen.ctx hx (agrees_writeMailbox hc hnests hopen
        (fun b d hd => (hr'.registered b d hd).2) hr'.fresh halive henter))
    | serviceSend =>
      exact hround rfl (agrees_single hopen.ctx hx (agrees_writeService hc hnests hopen
        (hr'.offers _) hr'.fresh halive henter))
    | serviceOffer => exact hround rfl (agrees_offer hc hr' hopen henter)
    | terminate | connectionOpen | streamWrite | streamRead | streamCancel | confirm | credit
    | connectionPing | connectionClose | expired =>
      refine hsimple fun acts next hacts => ?_
      cases hacts
      decide

/-- **An execution that the reactor starts.** -/
theorem agrees_execute (hc : Conserved chk) {n : Nat} {e : Event} (hr : Reg s) (hw : Wired s)
    (hk : s.ctx c = some k) (hz : k.state ≠ .zombie) (he : e.External) (h : chk L s) :
    Agrees .fault (execute chk rex n L c e s) (Server.execute rex n c e s) (chk L) := by
  rw [execute, Server.execute, modifyClient_of hk, lift_ok_bind, ok_bind]
  rcases hr.state_cases hk with hs | hs | hs
  · obtain ⟨hu, hh⟩ := hr.start_of hk hs
    have hstart : chk L (s.setClient c { k with nextEvent := some e }) :=
      conserved_setClient hc h hk rfl
    by_cases hopening : e = .connectionOpen
    · subst hopening
      exact agrees_opening hc hr hk hs h
    · refine agrees_loop hc hstart (k := { k with nextEvent := some e }) (by simp) hu.quiet.msg hh
        fun e' he' => ?_
      obtain rfl := Option.some.inj he'
      show SimpleEvent k.state e
      rw [hs]
      intro acts next hacts
      cases e with
      | connectionOpen => exact absurd rfl hopening
      | streamMessage | mailboxMessage | serviceMessage | exception => exact he.elim
      | _ => cases hacts; decide
  · obtain ⟨a, ho⟩ := hr.open_of hk hs
    exact agrees_open hc hr hw ho he h
  · exact absurd hs hz

end
end Watched
end Malamute.L3
