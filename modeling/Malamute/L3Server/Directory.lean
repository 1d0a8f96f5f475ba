import Malamute.L3Server.Trace

/-!
# The registry of clients

`Reg` says how the contexts, the hashes and the offers belong together between
two reactor events. `Recorded` adds what the trace has to say: who is connected
has processed CONNECTION OPEN and has not been deregistered.

`consistent`: the registry, as the rest of the server and the CLIENTLIST method
see it.
-/
namespace Malamute.L3
open Malamute.Core Malamute.L1 Malamute.L2 Server

/-- The reply to CLIENTLIST: the method, and a name for each entry of the address
table. mirrors src/src/mlm_server.c:362-371 -/
def Server.clientlist (s : Server) : List Str :=
  .ofBytes [67, 76, 73, 69, 78, 84, 76, 73, 83, 84] :: s.addresses.keys

/-- Client `c` is connected, with context `k`. -/
structure Connected (s : Server) (c : Cid) (k : Client) : Prop where
  ctx : s.ctx c = some k
  state : k.state = .connected

structure Recorded (s : Server) : Prop where
  left : ∀ c readers, .left c readers ∈ s.trace →
    c < s.clientId ∧ ∀ k, s.ctx c = some k → k.state = .zombie
  opened : ∀ c k, Connected s c k → .event c .connectionOpen ∈ s.trace

/-- The registry of clients is consistent. -/
structure Consistent (s : Server) : Prop where
  /-- an address in the table is that of a connected client -/
  registered : ∀ a c, s.addresses.get a = some c → ∃ k, Connected s c k ∧ k.address = some a
  /-- a connected client is in the table, unless it is anonymous -/
  holds : ∀ c k, Connected s c k → ∃ a, k.address = some a ∧
    (a ≠ .empty → s.addresses.get a = some c ∧ s.clientlist.tail.count a = 1)
  unshared : ∀ c d k j a, Connected s c k → Connected s d j → k.address = some a →
    j.address = some a → a ≠ .empty → c = d
  offers : ∀ name, ∀ o ∈ (s.service name).offers.items, ∃ k, Connected s o.client k
  opened : ∀ c k, Connected s c k →
    .event c .connectionOpen ∈ s.trace ∧ ∀ readers, .left c readers ∉ s.trace

section
variable {rex : Str → Str → Bool} {s s' : Server} {c : Cid} {k : Client} {a : Str}

/-- An observation that nobody has left. -/
def Obs.Staying : Obs → Prop
  | .left _ _ => False
  | _ => True

theorem relayed_staying : Relayed Obs.Staying :=
  ⟨fun _ _ => trivial, fun _ _ _ _ _ _ _ => trivial, fun _ _ => trivial, fun _ _ => trivial,
    fun _ _ _ _ => trivial, fun _ _ => trivial⟩

theorem Open.connected (h : Open s c k a) : Connected s c k := ⟨h.ctx, h.state⟩

/-! ## What keeps `Recorded` -/

theorem recorded_new : Recorded .new where
  left _ _ h := by cases h
  opened _ _ h := by cases h.ctx

/-- Nobody leaves, and zombies stay zombies. -/
theorem Recorded.stay (h : Recorded s) (ht : Grows Obs.Staying s s')
    (hid : s.clientId ≤ s'.clientId)
    (hctx : ∀ d k', s'.ctx d = some k' → d < s.clientId →
      ∃ k, s.ctx d = some k ∧ (k.state = .zombie → k'.state = .zombie))
    (hopen : ∀ d k', Connected s' d k' → .event d .connectionOpen ∈ s'.trace ∨
      ∃ k, Connected s d k) : Recorded s' := by
  obtain ⟨t, ht, hstay⟩ := ht
  refine ⟨fun d readers hl => ?_, fun d k' hc => ?_⟩
  · rw [ht] at hl
    rcases List.mem_append.1 hl with hl | hl
    · obtain ⟨hd, hz⟩ := h.left d readers hl
      refine ⟨Nat.lt_of_lt_of_le hd hid, fun k' hk' => ?_⟩
      obtain ⟨k, hk, hs⟩ := hctx d k' hk' hd
      exact hs (hz k hk)
    · exact (hstay _ hl).elim
  · rcases hopen d k' hc with he | ⟨k, hk⟩
    · exact he
    · rw [ht]
      exact List.mem_append_left _ (h.opened d k hk)

theorem Recorded.same (h : Recorded s) (ht : Grows Obs.Staying s s')
    (hctx : s'.ctx = s.ctx) (hid : s'.clientId = s.clientId) : Recorded s' := by
  refine h.stay ht (Nat.le_of_eq hid.symm) ?_ ?_
  · intro d k' hk' _
    exact ⟨k', by rw [← hctx]; exact hk', id⟩
  · intro d k' hc
    exact .inr ⟨k', by rw [← hctx]; exact hc.ctx, hc.state⟩

/-- One context changes, but not its state. -/
theorem Recorded.update (h : Recorded s) (ht : Grows Obs.Staying s s') (hk : s.ctx c = some k)
    {j : Client} (hj : j.state = k.state) (hctx : s'.ctx = Function.update s.ctx c (some j))
    (hid : s'.clientId = s.clientId) : Recorded s' := by
  have hold : ∀ d k', s'.ctx d = some k' → ∃ k, s.ctx d = some k ∧ k.state = k'.state := by
    intro d k' hk'
    rw [hctx] at hk'
    by_cases hd : d = c
    · rw [hd, Function.update_self] at hk'
      cases hk'
      exact ⟨k, by rw [hd]; exact hk, hj.symm⟩
    · rw [Function.update_of_ne hd] at hk'
      exact ⟨k', hk', rfl⟩
  refine h.stay ht (Nat.le_of_eq hid.symm) ?_ ?_
  · intro d k' hk' _
    obtain ⟨k, hk, hs⟩ := hold d k' hk'
    exact ⟨k, hk, fun hz => hs.symm.trans hz⟩
  · intro d k' hc
    obtain ⟨k, hk, hs⟩ := hold d k' hc.ctx
    exact .inr ⟨k, hk, hs.trans hc.state⟩

/-- A context is terminated; it is freed, or a zombie. -/
theorem Recorded.gone (h : Recorded s) (hc : c < s.clientId) {t : List Obs}
    (ht : s'.trace = s.trace ++ t) (hl : ∀ d readers, .left d readers ∈ t → d = c)
    (hid : s'.clientId = s.clientId) (hother : ∀ d, d ≠ c → s'.ctx d = s.ctx d)
    (hz : ∀ k', s'.ctx c = some k' → k'.state = .zombie) : Recorded s' := by
  refine ⟨fun d readers hleft => ?_, fun d k' hconn => ?_⟩
  · rw [hid]
    by_cases hd : d = c
    · rw [hd]
      exact ⟨hc, hz⟩
    · rw [ht] at hleft
      have hold := (List.mem_append.1 hleft).resolve_right fun hmem => hd (hl d readers hmem)
      obtain ⟨hlt, hz'⟩ := h.left d readers hold
      exact ⟨hlt, fun k' hk' => hz' k' (by rw [← hother d hd]; exact hk')⟩
  · by_cases hd : d = c
    · rw [hd] at hconn
      cases (hz k' hconn.ctx).symm.trans hconn.state
    · rw [ht]
      refine List.mem_append_left _ (h.opened d k' ⟨?_, hconn.state⟩)
      rw [← hother d hd]
      exact hconn.ctx

theorem recorded_enter (h : Recorded s) (c : Cid) (e : Event) : Recorded (s.enter c e) :=
  h.same (grows_one rfl trivial) rfl rfl

theorem recorded_leave (h : Recorded s) (hr : Reg s) (ho : Open s c k a) :
    Recorded (s.leave c k a) := by
  have hg := gone_leave hr ho
  refine h.gone (hr.fresh c k ho.ctx) (t := [.left c k.readers]) rfl ?_ rfl hg.others
    (fun k' hk' => (hg.zombie k' hk').1)
  intro d readers hmem
  cases List.mem_singleton.1 hmem
  rfl

theorem recorded_evicted {s₁ : Server} (h : Recorded s) (hr : Reg s) (hev : Evicted a s s₁) :
    Recorded s₁ := by
  cases hev with
  | nobody _ => exact h
  | @holder old t _ _ ho =>
    have hr₁ : Reg (s.enter old .expired) := hr.frame rfl rfl rfl rfl hr.offers
    exact recorded_leave (recorded_enter h old .expired) hr₁ (ho.frame rfl rfl rfl)

/-- A client opens its connection. -/
theorem recorded_register (h : Recorded s) (hk : s.ctx c = some k) (hs : k.state = .start)
    (he : .event c .connectionOpen ∈ s.trace) (a : Str) : Recorded (s.register c k a) := by
  have hgrows : Grows Obs.Staying s (s.register c k a) := by
    rw [register_eq]
    exact grows_one rfl trivial
  have hctx : (s.register c k a).ctx = Function.update s.ctx c (some (k.opened a)) := by
    rw [register_eq]
  refine h.stay hgrows (by rw [register_eq]) ?_ ?_
  · intro d k' hk' _
    rw [hctx] at hk'
    by_cases hd : d = c
    · refine ⟨k, by rw [hd]; exact hk, fun hz => ?_⟩
      cases hs.symm.trans hz
    · rw [Function.update_of_ne hd] at hk'
      exact ⟨k', hk', id⟩
  · intro d k' hc
    by_cases hd : d = c
    · rw [hd]
      exact .inl (hgrows.trace.subset he)
    · refine .inr ⟨k', ?_, hc.state⟩
      have hk' := hc.ctx
      rwa [hctx, Function.update_of_ne hd] at hk'

/-! ## Events -/

theorem recorded_handled {e : Event} (hr : Reg s) (h : Recorded s) (hh : Handled rex s c e s') :
    Recorded s' := by
  have henter : ∀ e, Recorded (s.enter c e) := fun e => recorded_enter h c e
  have hreply : ∀ {s₁ : Server} (k : Client) (id : Id), Recorded s₁ → Recorded (s₁.answer c k id) :=
    fun k id h => h.same (grows_one rfl trivial) rfl rfl
  have hset : ∀ {s₁ : Server} (n : UInt16), Recorded s₁ → Recorded (s₁.setStatus n) :=
    fun n h => h.same (grows_same rfl) rfl rfl
  -- after an event and answers the client leaves
  have hleave : ∀ {s₁ : Server} {k : Client} {a : Str}, Recorded s₁ → s₁.ctx = s.ctx →
      s₁.clients = s.clients → s₁.addresses = s.addresses → s₁.clientId = s.clientId →
      s₁.services = s.services → Open s c k a → Recorded (s₁.leave c k a) := by
    intro s₁ k a h₁ h1 h2 h3 h4 h5 ho
    refine recorded_leave h₁ (hr.frame h1 h2 h3 h4 fun name o hm => ?_) (ho.frame h1 h2 h3)
    rw [service_frame h5] at hm
    exact hr.offers name o hm
  have hfail : ∀ {e : Event} {k : Client} {a : Str}, Open s c k a →
      Recorded ((s.enter c e).fail c k a) := by
    intro e k a ho
    have h₁ := hreply k .error (hset failed (recorded_enter (henter e) c .exception))
    exact hleave h₁ rfl rfl rfl rfl rfl ho
  cases hh with
  | @opened k s₁ _ hk hs hev hd =>
    have hr₀ : Reg (s.enter c .connectionOpen) := hr.frame rfl rfl rfl rfl hr.offers
    obtain ⟨-, hk₁, -⟩ := evicted_spec hr₀ hev hk hs
    have hevent : .event c .connectionOpen ∈ s₁.trace :=
      (evicted_trace hev).subset (List.mem_append_right _ List.mem_cons_self)
    have h₁ := recorded_evicted (henter .connectionOpen) hr₀ hev
    have h₂ := recorded_register h₁ hk₁ hs hevent s.message.address
    exact h₂.same (relayed_staying.drain hd) (drain_same hd).ctx (drain_same hd).clientId
  | @departed k hk hs =>
    have h₁ := hset success (henter .expired)
    refine h₁.gone (c := c) (t := []) (hr.fresh c k hk) (List.append_nil _).symm (by simp) rfl ?_ ?_
    · intro d hd
      exact Function.update_of_ne hd _ _
    · intro k' hk'
      exact (bury_zombie (hr.start_of hk hs).1.readers (.inl (hr.start_of hk hs).1.address) hk').1
  | unopened _ _ _ => exact hreply _ _ (hset _ (henter _))
  | @wrote k a ho =>
    exact hreply k .ok ((henter .streamWrite).update (grows_same rfl) ho.ctx
      (j := { k with writer := some s.message.stream }) rfl rfl rfl)
  | @read k a ho =>
    exact hreply k .ok ((henter .streamRead).update
      (grows_one (o := .subscribed c s.message.stream s.message.pattern) rfl trivial) ho.ctx
      (j := k.reading s.message.stream) rfl rfl rfl)
  | @cancelled k a ho =>
    exact hreply k .ok ((henter .streamCancel).update
      (grows_one (o := .cancelled c s.message.stream) rfl trivial) ho.ctx
      (j := { k with readers := k.readers.tail }) rfl rfl rfl)
  | @published k a name _ _ =>
    exact (henter .streamSend).same (grows_one (o := .published c name _) rfl trivial) rfl rfl
  | unwritten ho _ => exact hfail ho
  | mailed _ hm =>
    exact (henter _).same (relayed_staying.mail hm) (mailed_same hm).ctx (mailed_same hm).clientId
  | requested _ hm =>
    exact (henter _).same (relayed_staying.request hm) (requested_same hm).ctx
      (requested_same hm).clientId
  | @offered k a s₁ _ _ hs₁ hscan =>
    subst hs₁
    have hoffer : Recorded ((s.enter c .serviceOffer).offering c k) := by
      refine hreply k .ok ((henter .serviceOffer).same (grows_one
        (o := .offered c s.message.address ⟨s.offerId, s.message.pattern, c⟩) rfl trivial) rfl rfl)
    generalize (s.enter c .serviceOffer).offering c k = s₀ at hscan hoffer
    have hfirst : Recorded (s₀.setService s.message.address ((s₀.service
        s.message.address).setQueue (s₀.service s.message.address).queue.first.1)) :=
      hoffer.same (grows_same rfl) rfl rfl
    exact hfirst.same (relayed_staying.scan hscan) (scan_same hscan).ctx (scan_same hscan).clientId
  | confirmed ho => exact hfail ho
  | credited _ => exact henter _
  | pinged _ => exact hreply _ _ (henter _)
  | @closed k a ho => exact hleave (hreply k .ok (henter _)) rfl rfl rfl rfl rfl ho
  | expired ho => exact hleave (henter _) rfl rfl rfl rfl rfl ho
  | @invalid k a _ ho _ =>
    exact hleave (hreply k .error (hset commandInvalid (henter e))) rfl rfl rfl rfl rfl ho

/-! ## Steps -/

theorem recorded_clientRequire (hr : Reg s) (h : Recorded s) {key : Key} {s₁ : Server}
    (hreq : s.clientRequire key = (c, s₁)) : Recorded s₁ := by
  rcases clientRequire_cases hreq with ⟨-, rfl⟩ | ⟨-, -, rfl⟩
  · exact h
  · have hctx : ∀ d, d ≠ s.clientId → (s.clientNew key).ctx d = s.ctx d := fun d hd => by
      rw [clientNew_eq]
      exact Function.update_of_ne hd _ _
    refine h.stay (grows_same rfl) (Nat.le_succ _) ?_ ?_
    · intro d k' hk' hd
      rw [hctx d (Nat.ne_of_lt hd)] at hk'
      exact ⟨k', hk', id⟩
    · intro d k' hc
      by_cases hd : d = s.clientId
      · have hk' := hc.ctx
        rw [hd, clientNew_eq] at hk'
        simp only [Function.update_self, Option.some.injEq] at hk'
        have hs := hc.state
        rw [← hk'] at hs
        cases hs
      · exact .inr ⟨k', by rw [← hctx d hd]; exact hc.ctx, hc.state⟩

theorem recorded_received {parts : List Frame} (hr : Reg s) (h : Recorded s)
    (hrecv : Received rex s parts s') : Recorded s' := by
  have hin : ∀ p rest, Recorded (s.received p rest) := fun p rest => h.same (grows_same rfl) rfl rfl
  cases hrecv with
  | @interrupted p rest _ => exact (hin p rest).same (grows_same rfl) rfl rfl
  | @ignored p rest _ => exact recorded_clientRequire (reg_received hr p rest) (hin p rest) rfl
  | @handled p rest c s₁ _ _ hreq hh =>
    have hr₁ := (reg_clientRequire (reg_received hr p rest) hreq).1
    have h₁ := recorded_clientRequire (reg_received hr p rest) (hin p rest) hreq
    have h₂ : Recorded (s₁.hear c parts.tail p) := h₁.same (grows_one (o := .received c
      ((s₁.ctx c).bind (·.address)) parts.tail p.wire) rfl trivial) rfl rfl
    exact recorded_handled (reg_hear hr₁ ..) h₂ hh

theorem recorded_put (hr : Reg s) (h : Recorded s) (hk : s.ctx c = some k) :
    Recorded (s.put c k) := by
  have hid : (s.put c k).clientId = s.clientId := by
    unfold Server.put
    split <;> rfl
  by_cases hz : k.refcount - 1 = 0 ∧ k.state = .zombie
  · have hctx : (s.put c k).ctx = Function.update s.ctx c none := by
      unfold Server.put
      rw [if_pos hz]
      rfl
    refine h.gone (t := []) (hr.fresh c k hk) (by rw [put_trace, List.append_nil]) (by simp) hid ?_ ?_
    · intro d hd
      rw [hctx, Function.update_of_ne hd]
    · intro k' hk'
      rw [hctx, Function.update_self] at hk'
      cases hk'
  · refine h.update (j := { k with refcount := k.refcount - 1 }) (grows_same (put_trace ..)) hk rfl
      ?_ hid
    unfold Server.put
    rw [if_neg hz]
    rfl

theorem recorded_moved {l : Label} (hr : Reg s) (h : Recorded s) (hm : Moved rex s l s') :
    Recorded s' := by
  have hpop : ∀ name st up, Recorded (s.popStream name st up) := fun name st up =>
    h.same (grows_same rfl) rfl rfl
  cases hm with
  | router _ _ hrecv => exact recorded_received hr h hrecv
  | more _ hrecv => exact recorded_received hr h hrecv
  | expired _ _ _ hh => exact recorded_handled hr h hh
  | @acked name st c up k _ _ _ hk => exact recorded_put (reg_popStream hr ..) (hpop name st up) hk
  | @discarded name st c m up k _ _ _ _ _ => exact (hpop name st up).same (grows_same rfl) rfl rfl
  | @delivered name st c m up k a _ _ _ _ =>
    exact (hpop name st up).same
      (relayed_staying.deliver _ c k .streamMessage m (.inl rfl)) rfl rfl
  | command _ _ => exact h.same (grows_same rfl) rfl rfl
  | @message name st st' m targets _ _ =>
    exact h.same (grows_one (o := .forwarded name m targets) rfl trivial) rfl rfl
  | mailbox _ hread =>
    have hsame := (mailboxRead_only hread).same
    exact h.same ((mailboxRead_only hread).grows relayed_staying.dropped) hsame.ctx hsame.clientId
  | configured _ hreads =>
    have hsame := (mailboxReads_only hreads).same
    have hcfg := (mailboxReads_only hreads).grows relayed_staying.dropped
    exact h.same hcfg hsame.ctx hsame.clientId

theorem recorded_inductive (rex : Str → Str → Bool) :
    (broker rex).Inductive fun s => Regular s ∧ Recorded s := by
  refine (regular_inductive rex).strengthen (Q := Recorded) ?_ ?_
  · rintro s rfl
    exact recorded_new
  · intro s l s' hr _ h hstep
    exact recorded_moved hr.reg h (moved_of_step hr.reg hr.wired hstep)

/-! ## The registry -/

theorem count_clientlist {a : Str} {c : Cid} (h : s.addresses.get a = some c) :
    s.clientlist.tail.count a = 1 := by
  have hmem : a ∈ s.addresses.keys := List.mem_map.2 ⟨_, Table.mem_of_get h, rfl⟩
  exact List.count_eq_one_of_mem s.addresses.nodup hmem

/-- **The client registry is consistent** between any two events of any run. -/
theorem consistent (rex : Str → Str → Bool) (s : Server) (h : (broker rex).Reachable s) :
    Consistent s := by
  obtain ⟨hreg, hrec⟩ := (recorded_inductive rex).reachable s h
  have hr := hreg.reg
  have hopen : ∀ c k, Connected s c k → ∃ a, Open s c k a := fun c k hc => hr.open_of hc.ctx hc.state
  refine ⟨?_, ?_, ?_, ?_, ?_⟩
  · intro a c ha
    obtain ⟨-, k, ho⟩ := hr.registered a c ha
    exact ⟨k, ho.connected, ho.address⟩
  · intro c k hc
    obtain ⟨a, ho⟩ := hopen c k hc
    exact ⟨a, ho.address, fun ha => ⟨ho.registered ha, count_clientlist (ho.registered ha)⟩⟩
  · intro c d k j a hc hd hk hj ha
    obtain ⟨b, ho⟩ := hopen c k hc
    obtain ⟨b', ho'⟩ := hopen d j hd
    obtain rfl := Option.some.inj (ho.address.symm.trans hk)
    obtain rfl := Option.some.inj (ho'.address.symm.trans hj)
    exact Option.some.inj ((ho.registered ha).symm.trans (ho'.registered ha))
  · intro name o ho
    obtain ⟨k, a, hk⟩ := hr.offers name o ho
    exact ⟨k, hk.connected⟩
  · intro c k hc
    refine ⟨hrec.opened c k hc, fun readers hl => ?_⟩
    cases ((hrec.left c readers hl).2 k hc.ctx).symm.trans hc.state

/-- Two clients open, the second with the address of the first. -/
theorem consistent_takeover : ∃ s, (broker fun _ _ => true).Reachable s ∧ Consistent s ∧
    s.clientlist.tail = [.ofBytes [97]] ∧ s.addresses.get (.ofBytes [97]) = some 1 := by
  have hrun : ((Server.new.steps (fun _ _ => true) (fun _ _ => True) 20
      [.request [1] (.connectionOpen (.ofBytes [97])),
        .request [2] (.connectionOpen (.ofBytes [97]))]).any fun s =>
      s.clientlist.tail = [.ofBytes [97]] ∧
        s.addresses.get (.ofBytes [97]) = some 1) = true := by decide +kernel
  obtain ⟨s, hs, hp⟩ := (Option.any_eq_true _ _).1 hrun
  have hreach := (reachable_of_steps hs).of_within
  exact ⟨s, hreach, consistent _ s hreach, of_decide_eq_true hp⟩

end
end Malamute.L3
