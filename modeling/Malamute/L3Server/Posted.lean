import Malamute.L3Server.Unmoved

/-!
# Waiting messages, over all runs

`posted_inductive`: in every reachable state the books of every line are in
order, no message waits for an address that a client is registered under, and
no message waits for a service that one of its offers matches.

* `mailbox_fifo`: mailboxes lose, duplicate and reorder nothing.
* `no_request_waits`: no request waits while an offer matches it.
* `request_once_in_order`: each request is in one place, and requests with the
  same subject are delivered in order.
-/
namespace Malamute.L3
open Malamute.Core Malamute.L1 Malamute.L2 Server

section
variable {rex : Str → Str → Bool} {s s' : Server} {c : Cid} {k : Client} {a name : Str} {m : Msg}

theorem Posted.unmoved (h : Posted rex s) (hu : Unmoved s s') : Posted rex s' where
  kept := by
    obtain ⟨t, ht, hn⟩ := hu.changes
    exact h.kept.still ht hn hu.waiting hu.messageId
  clear a c ha := (hu.waiting _).trans (h.clear a c (hu.addresses a c ha))
  unmatched name := (h.unmatched name).mono (by rw [hu.queues]; exact fun _ h => h) (hu.offers name)
  served := hu.served rex h.served

theorem Posted.log (h : Posted rex s) {o : Obs} (ho : o.change = none) (hp : o.Plain) :
    Posted rex (s.log o) where
  kept := h.kept.still (t := [o]) rfl (by rw [List.filterMap_cons_none ho, List.filterMap_nil])
    (waiting_of_fields rfl rfl rfl) (Nat.le_refl _)
  clear := h.clear
  unmatched := h.unmatched
  served := h.served.plain (.refl _) (growsPlain_log s hp)

/-! ## CONNECTION OPEN and SERVICE OFFER -/

theorem register_waiting (s : Server) (c : Cid) (k : Client) (a : Str) (l : Line) :
    (s.register c k a).waiting l = s.waiting l := by
  rw [register_eq]
  exact waiting_of_fields rfl rfl rfl l

theorem kept_register (h : Kept s) : Kept (s.register c k a) := by
  refine h.still (t := [.sent c (some a)
    ((s.message.setStatusCode success).setId .ok k.hashkey).wire s.hand]) ?_ ?_
      (register_waiting s c k a) ?_
  · rw [register_eq]
  · exact List.filterMap_cons_none (change_answer _ _ _ _ _ (by simp) (by simp))
  · rw [register_eq]

/-- **A client opens**: whatever waits for its address is handed out before
anything else happens. -/
theorem posted_opened (h : Posted rex s) (hd : Drain c (k.opened a) a (s.register c k a) s') :
    Posted rex s' := by
  have hsame := drain_same hd
  have hw := register_waiting s c k a
  have hk := kept_register (c := c) (k := k) (a := a) h.kept
  obtain ⟨hk', hempty, hown⟩ := kept_drain hk rfl hd
  have hgrows : GrowsPlain s (s.register c k a) := by
    rw [register_eq]
    exact ⟨[_], rfl, List.forall_mem_singleton.2 (plain_sent _ _ _ _ _ (by simp))⟩
  refine h.same_services hk' ?_ ?_ (hgrows.trans (growsPlain_drain hd))
  · intro b d hb
    rw [hsame.addresses, register_eq] at hb
    by_cases ha : a = .empty
    · simp only [ha, if_true] at hb
      exact hempty _ ((hw _).trans (h.clear b d hb))
    · simp only [ha, if_false, Table.get_set] at hb
      split at hb
      · rename_i hba
        rw [hba]
        exact hown ha
      · exact hempty _ ((hw _).trans (h.clear b d hb))
  · rw [drain_services hd, register_eq]

theorem service_offering (s : Server) (c : Cid) (k : Client) (name : Str) :
    (s.offering c k).service name = if name = s.message.address then
      (s.service name).setOffers ((s.service name).offers.addEnd ⟨s.offerId, s.message.pattern, c⟩)
    else s.service name := by
  have hreq := service_serviceRequire s.newOffer s.message.address
  split
  · rename_i hn
    subst hn
    have hv := hreq s.message.address
    rw [show s.newOffer.service s.message.address = s.service s.message.address from rfl] at hv
    rw [← hv]
    exact service_setService (s.newOffer.serviceRequire s.message.address) s.message.address _
  · rename_i hn
    exact (service_setService_ne (s := s.newOffer.serviceRequire s.message.address) hn _).trans
      (hreq name)

theorem served_offering (h : Served rex s) (c : Cid) (k : Client) :
    Served rex (s.offering c k) where
  listed name := by
    have htrace : (s.offering c k).trace = s.trace ++ [.offered c s.message.address ⟨s.offerId,
        s.message.pattern, c⟩] ++ [.sent c k.address (s.message.setId .ok k.hashkey).wire s.hand] :=
      rfl
    rw [htrace, listed_append, listed_append, service_offering]
    by_cases hn : name = s.message.address
    · subst hn
      simp only [if_true, Service.setOffers_offers, CursorList.items_addEnd, List.foldl_cons,
        List.foldl_nil, listStep]
      exact (h.listed s.message.address).append_right _
    · have hn' : s.message.address ≠ name := fun h => hn h.symm
      simpa [listStep, hn, hn'] using h.listed name
  matched := by
    refine (h.matched.snoc (o := .offered c s.message.address _) (by simp)).plain ?_
    exact List.forall_mem_singleton.2 (plain_sent c k.address s.message k.hashkey s.hand (by simp))

/-- Where the scan of the queue of `name` starts. -/
def Server.scanStart (s : Server) (name : Str) : Server :=
  s.setService name ((s.service name).setQueue (s.service name).queue.first.1)

theorem offering_waiting (s : Server) (c : Cid) (k : Client) (l : Line) :
    ((s.offering c k).scanStart s.message.address).waiting l = s.waiting l := by
  cases l with
  | mailbox b => rfl
  | service name subject =>
    by_cases hn : name = s.message.address
    · subst hn
      simp [waiting, scanStart, service_offering]
    · simp only [waiting, scanStart, service_setService_ne hn, service_offering, if_neg hn]

/-- The scan starts at the first message, with nothing before it. -/
theorem scanning_start (h : Posted rex s) (c : Cid) (k : Client) :
    Scanning rex ((s.offering c k).scanStart s.message.address) s.message.address
      ((s.offering c k).service s.message.address).queue.first.2 where
  kept := by
    refine h.kept.still (t := [.offered c s.message.address ⟨s.offerId, s.message.pattern, c⟩,
      .sent c k.address (s.message.setId .ok k.hashkey).wire s.hand]) ?_ ?_
        (offering_waiting s c k) (Nat.le_refl _)
    · simp [scanStart, offering]
    · rw [List.filterMap_cons_none rfl, List.filterMap_cons_none
        (change_answer _ _ _ _ _ (by simp) (by simp)), List.filterMap_nil]
  served := (served_offering h.served c k).setQueue _ _
  scanned := scanned_next (q := { ((s.offering c k).service s.message.address).queue with
    queue := ((s.offering c k).service s.message.address).queue.queue.reset })
      (by intro x hx; cases hx)

/-- **A service gets an offer**: whatever waits that it matches is handed out
before anything else happens. -/
theorem posted_offered (h : Posted rex s)
    (hscan : Scan rex s.message.address
      ((s.offering c k).service s.message.address).queue.first.2
      ((s.offering c k).scanStart s.message.address) s') : Posted rex s' := by
  have hsame := scan_same hscan
  obtain ⟨hend, honly⟩ := kept_scan hscan (scanning_start h c k)
  refine ⟨hend.kept, ?_, ?_, hend.served⟩
  · intro b d hb
    rw [hsame.addresses] at hb
    rw [honly.mailboxes, offering_waiting]
    exact h.clear b d hb
  · intro name
    by_cases hn : name = s.message.address
    · subst hn
      exact hend.scanned
    · rw [Unmatched, honly.services name hn, scanStart, service_setService_ne hn,
        service_offering, if_neg hn]
      exact h.unmatched name

/-! ## All steps -/

theorem posted_handled {e : Event} (hr : Reg s) (h : Posted rex s) (hh : Handled rex s c e s') :
    Posted rex s' := by
  cases passage_of_handled hh with
  | aside hu _ => exact h.unmoved hu
  | opened hu _ hd => exact posted_opened (h.unmoved hu) hd
  | mailed _ hm =>
    have hr₁ : Reg (s.enter c .mailboxSend) := hr.frame rfl rfl rfl rfl hr.offers
    exact posted_mailed hr₁ (h.unmoved (unmoved_enter ..)) hm
  | requested _ hm => exact posted_requested (h.unmoved (unmoved_enter ..)) hm
  | offered hs₁ hscan =>
    subst hs₁
    exact posted_offered (h.unmoved (unmoved_enter s c .serviceOffer)) hscan

theorem posted_received (hr : Reg s) (h : Posted rex s) {parts : List Frame}
    (hrecv : Received rex s parts s') : Posted rex s' := by
  have hin : ∀ p rest, Unmoved s (s.received p rest) := fun _ _ => .quiet rfl rfl rfl rfl rfl rfl
  cases hrecv with
  | @interrupted p rest _ => exact h.unmoved (.quiet rfl rfl rfl rfl rfl rfl)
  | @ignored p rest _ => exact h.unmoved ((hin p rest).trans (unmoved_clientRequire rfl))
  | @handled p rest c s₁ s' _ hreq hh =>
    have hheard : Posted rex (s₁.hear c parts.tail p) :=
      (h.unmoved ((hin p rest).trans (unmoved_clientRequire hreq))).log
        (o := .received c ((s₁.ctx c).bind (·.address)) parts.tail p.wire) rfl trivial
    exact posted_handled (reg_hear (reg_clientRequire (reg_received hr p rest) hreq).1 ..) hheard hh

/-- The mailbox engine goes on. -/
theorem Posted.emptied (h : Posted rex s) (hk : Kept s') (he : Emptied s s')
    (ho : MailboxOnly s s') : Posted rex s' := by
  have ha := ho.same.addresses
  refine h.same_services hk (fun b d hb => he _ (h.clear b d ?_)) ?_ (ho.grows fun _ _ => trivial)
  swap
  · obtain ⟨b, pipe, refs, ms, rfl⟩ := ho
    rfl
  rwa [ha] at hb

theorem posted_moved {l : Label} (hr : Reg s) (h : Posted rex s) (hm : Moved rex s l s') :
    Posted rex s' := by
  cases l with
  | traffic name => exact h.unmoved (unmoved_stream hm rfl).1
  | command name => exact h.unmoved (unmoved_stream hm rfl).1
  | message name => exact h.unmoved (unmoved_stream hm rfl).1
  | router rid frames =>
    cases hm with
    | router _ _ hrecv => exact posted_received hr h hrecv
  | more =>
    cases hm with
    | more _ hrecv => exact posted_received hr h hrecv
  | expired c =>
    cases hm with
    | expired _ _ _ hh => exact posted_handled hr h hh
  | mailbox =>
    cases hm with
    | mailbox _ hread =>
      obtain ⟨hk, he⟩ := kept_read h.kept hread
      exact h.emptied hk he (mailboxRead_only hread)
  | configure service mailbox =>
    cases hm with
    | @configured _ _ s₁ _ hreads =>
      have hcfg : Posted rex { s with serviceCfg := service } :=
        h.unmoved (.quiet rfl rfl rfl rfl rfl rfl)
      obtain ⟨hk, he⟩ := kept_reads hcfg.kept hreads
      have hread := hcfg.emptied hk he (mailboxReads_only hreads)
      refine hread.unmoved ⟨fun l => ?_, Nat.le_refl _, ⟨[], by simp, by simp⟩, fun _ _ ha => ha,
        fun _ => rfl, fun _ _ ho => ho, fun rex hs => hs.plain (.refl _) (grows_same rfl)⟩
      cases l <;> rfl

theorem posted_new (rex : Str → Str → Bool) : Posted rex .new where
  kept := kept_new
  clear a c h := by cases h
  unmatched name m hm := by cases hm
  served := served_new rex

/-- **The books are kept in every reachable state.** -/
theorem posted_inductive (rex : Str → Str → Bool) :
    (broker rex).Inductive fun s => Regular s ∧ Posted rex s := by
  refine (regular_inductive rex).strengthen (Q := Posted rex) ?_ ?_
  · rintro s rfl
    exact posted_new rex
  · intro s l s' hr _ h hstep
    exact posted_moved hr.reg h (moved_of_step hr.reg hr.wired hstep)

/-! ## The guarantees -/

/-- **Mailboxes lose, duplicate and reorder nothing.** What has been handed out
to the holders of address `a`, followed by what is in mailbox `a`, is what was
sent to `a` and not refused; and the mailbox of a registered client is empty. -/
theorem mailbox_fifo (h : (broker rex).Reachable s) (a : Str) :
    s.deliveredFrom (.mailbox a) ++ s.waiting (.mailbox a) =
      (s.sentTo (.mailbox a)).filter (fun m => m ∉ s.refusedBy (.mailbox a)) ∧
    ∀ c, s.addresses.get a = some c → s.waiting (.mailbox a) = [] := by
  have hp := ((posted_inductive rex).reachable s h).2
  exact ⟨(hp.kept.books _).flow, hp.clear a⟩

/-- Client "a" sends to "b" before "b" is there, and again when it is. -/
def mailRun : List Label :=
  [.request [1] (.connectionOpen (.ofBytes [97])),
    .request [1] (.mailboxSend (.ofBytes [98]) .empty .empty 0 [[1]]),
    .request [2] (.connectionOpen (.ofBytes [98])),
    .request [1] (.mailboxSend (.ofBytes [98]) .empty .empty 0 [[2]])]

theorem mailbox_fifo_mailRun :
    ∃ s, Server.new.steps (fun _ _ => true) (fun _ _ => True) 20 mailRun = some s ∧
      (s.deliveredFrom (.mailbox (.ofBytes [98]))).map Msg.content = [some [[1]], some [[2]]] ∧
      s.deliveredFrom (.mailbox (.ofBytes [98])) ++ s.waiting (.mailbox (.ofBytes [98])) =
        (s.sentTo (.mailbox (.ofBytes [98]))).filter
          (fun m => m ∉ s.refusedBy (.mailbox (.ofBytes [98]))) := by
  have hrun : ((Server.new.steps (fun _ _ => true) (fun _ _ => True) 20 mailRun).any fun s =>
      (s.deliveredFrom (.mailbox (.ofBytes [98]))).map Msg.content =
        [some [[1]], some [[2]]]) = true := by decide +kernel
  obtain ⟨s, hs, hp⟩ := (Option.any_eq_true _ _).1 hrun
  exact ⟨s, hs, of_decide_eq_true hp,
    (mailbox_fifo (reachable_of_steps hs).of_within (.ofBytes [98])).1⟩

/-- **No request waits while an offer matches it.** -/
theorem no_request_waits (h : (broker rex).Reachable s) (name : Str) :
    ∀ m ∈ (s.service name).queue.items, ∀ o ∈ (s.service name).offers.items,
      rex o.pattern m.subject = false :=
  ((posted_inductive rex).reachable s h).2.unmatched name

/-- Client "a" sends requests with subjects "x" and "y" to service "s"; then
client "w" offers to take those with subject "y". -/
def serviceRun : List Label :=
  [.request [1] (.connectionOpen (.ofBytes [97])),
    .request [1] (.serviceSend (.ofBytes [115]) (.ofBytes [120]) .empty 0 [[1]]),
    .request [1] (.serviceSend (.ofBytes [115]) (.ofBytes [121]) .empty 0 [[2]]),
    .request [2] (.connectionOpen (.ofBytes [119])),
    .request [2] (.serviceOffer (.ofBytes [115]) (.ofBytes [121]))]

theorem no_request_waits_serviceRun :
    ∃ s, Server.new.steps (fun p x => decide (p = x)) (fun _ _ => True) 20 serviceRun = some s ∧
      (s.service (.ofBytes [115])).queue.items.length = 1 ∧
      (s.service (.ofBytes [115])).offers.items.length = 1 ∧
      ∀ m ∈ (s.service (.ofBytes [115])).queue.items,
        ∀ o ∈ (s.service (.ofBytes [115])).offers.items, decide (o.pattern = m.subject) = false := by
  have hrun : ((Server.new.steps (fun p x => decide (p = x)) (fun _ _ => True) 20 serviceRun).any
      fun s => (s.service (.ofBytes [115])).queue.items.length = 1 ∧
        (s.service (.ofBytes [115])).offers.items.length = 1) = true := by decide +kernel
  obtain ⟨s, hs, hp⟩ := (Option.any_eq_true _ _).1 hrun
  obtain ⟨hqueue, hoffers⟩ := of_decide_eq_true hp
  exact ⟨s, hs, hqueue, hoffers,
    no_request_waits (reachable_of_steps hs).of_within (.ofBytes [115])⟩

theorem mem_sentTo_service (h : .requested c m ∈ s.trace) :
    m ∈ s.sentTo (.service m.address m.subject) := by
  simp only [sentTo, changes, List.mem_map, List.mem_filter, List.mem_filterMap]
  exact ⟨_, ⟨⟨_, h, rfl⟩, by simp⟩, rfl⟩

/-- **Each request is in one place, and none overtakes another of its
subject.** A request to `name` has been delivered once, or is in the queue, or
was refused; it went to a client with an offer that matched it then; and if a
request has been delivered, the earlier ones that were not refused have been
delivered before it. -/
theorem request_once_in_order (h : (broker rex).Reachable s) (name : Str) :
    (∀ c m, .requested c m ∈ s.trace → m.address = name →
      (s.deliveredFrom (.service name m.subject)).count m +
        (s.service name).queue.items.count m +
        (if m ∈ s.refusedBy (.service name m.subject) then 1 else 0) = 1) ∧
    Matched rex s.trace ∧
    ∀ subject s₁ m₁ s₂ m₂, s.sentTo (.service name subject) = s₁ ++ m₂ :: s₂ → m₁ ∈ s₁ →
      m₁ ∉ s.refusedBy (.service name subject) → m₂ ∈ s.deliveredFrom (.service name subject) →
      ∃ g₁ g₂, s.deliveredFrom (.service name subject) = g₁ ++ m₂ :: g₂ ∧ m₁ ∈ g₁ := by
  have hp := ((posted_inductive rex).reachable s h).2
  refine ⟨?_, hp.served.matched, ?_⟩
  · rintro c m hm rfl
    have honce := (hp.kept.books (.service m.address m.subject)).once (mem_sentTo_service hm)
    have hqueue : (s.waiting (.service m.address m.subject)).count m =
        (s.service m.address).queue.items.count m := List.count_filter (by simp)
    rwa [hqueue] at honce
  · intro subject s₁ m₁ s₂ m₂ hsent hm₁ hnot hm₂
    have hbooks := hp.kept.books (.service name subject)
    rw [hsent] at hbooks
    exact hbooks.order hm₁ hnot hm₂

/-- The request with subject "y" has been delivered, past the other one. -/
theorem request_once_in_order_serviceRun :
    ∃ s, Server.new.steps (fun p x => decide (p = x)) (fun _ _ => True) 20 serviceRun = some s ∧
      (s.deliveredFrom (.service (.ofBytes [115]) (.ofBytes [121]))).map Msg.content =
        [some [[2]]] ∧
      Matched (fun p x => decide (p = x)) s.trace ∧
      ∀ c m, .requested c m ∈ s.trace → m.address = .ofBytes [115] →
        (s.deliveredFrom (.service (.ofBytes [115]) m.subject)).count m +
          (s.service (.ofBytes [115])).queue.items.count m +
          (if m ∈ s.refusedBy (.service (.ofBytes [115]) m.subject) then 1 else 0) = 1 := by
  have hrun : ((Server.new.steps (fun p x => decide (p = x)) (fun _ _ => True) 20 serviceRun).any
      fun s => (s.deliveredFrom (.service (.ofBytes [115]) (.ofBytes [121]))).map Msg.content =
        [some [[2]]]) = true := by decide +kernel
  obtain ⟨s, hs, hp⟩ := (Option.any_eq_true _ _).1 hrun
  obtain ⟨honce, hmatched, -⟩ :=
    request_once_in_order (reachable_of_steps hs).of_within (.ofBytes [115])
  exact ⟨s, hs, of_decide_eq_true hp, hmatched, honce⟩

end

end Malamute.L3
