import Malamute.L3Server.Mailboxes

/-!
# Services keep the books

What a dispatch (`Dispatched`), SERVICE SEND (`Requested`) and the scan of a
queue after SERVICE OFFER (`Scan`) do to the lines. All messages of a line have
the same subject, so an offer matches all of them or none. As no message waits
that an offer matches (`Unmatched`), a message that is dispatched at once
passes an empty line, and one that the scan takes is the first of its line:
those before it have been found to match no offer.
-/
namespace Malamute.L3
open Malamute.Core Malamute.L1 Malamute.L2 Server

/-- The scan of the queue of `name` has come to a message: no message before it
matches an offer. -/
def Scanned (rex : Str → Str → Bool) (s : Server) (name : Str) : Option Msg → Prop
  | none => Unmatched rex s name
  | some m => ∃ pre, (s.service name).queue.queue.back = m :: pre ∧
      ∀ x ∈ pre, ∀ o ∈ (s.service name).offers.items, rex o.pattern x.subject = false

section
variable {rex : Str → Str → Bool} {s s' : Server} {c : Cid} {k : Client} {a name : Str} {m : Msg}

theorem Unmatched.mono (h : Unmatched rex s name)
    (hq : ∀ m ∈ (s'.service name).queue.items, m ∈ (s.service name).queue.items)
    (ho : ∀ o ∈ (s'.service name).offers.items, o ∈ (s.service name).offers.items) :
    Unmatched rex s' name := fun m hm o hmo => h m (hq m hm) o (ho o hmo)

/-! ## Dispatching one message -/

theorem dispatched_service_ne {b : Bool} (h : Dispatched rex name m s s' b) {name' : Str}
    (hne : name' ≠ name) : s'.service name' = s.service name' := by
  cases h with
  | none _ => exact service_setService_ne hne _
  | some _ _ => exact service_setService_ne hne _

theorem dispatched_waiting {b : Bool} (h : Dispatched rex name m s s' b) (l : Line) :
    s'.waiting l = s.waiting l := by
  cases l with
  | mailbox a => cases h <;> rfl
  | service name' subject =>
    by_cases hn : name' = name
    · subst hn
      simp only [waiting, (dispatched_service h).2]
    · simp only [waiting, dispatched_service_ne h hn]

theorem dispatched_messageId {b : Bool} (h : Dispatched rex name m s s' b) :
    s'.messageId = s.messageId := by
  cases h <;> rfl

/-- Nobody takes the message. -/
theorem dispatched_false (h : Dispatched rex name m s s' false) : s'.trace = s.trace ∧
    ∀ o ∈ (s.service name).offers.items, rex o.pattern m.subject = false := by
  cases h with
  | none hs =>
    refine ⟨rfl, fun o ho => ?_⟩
    have hnone := CursorList.seek_none (l := (s.service name).offers.reset)
      (p := fun o => rex o.pattern m.subject) (by rw [hs])
    exact hnone o ho

/-- The message goes to the client of an offer that matches it. -/
theorem dispatched_true (h : Dispatched rex name m s s' true) :
    (∃ o ∈ (s.service name).offers.items, rex o.pattern m.subject = true) ∧
      ∃ t, s'.trace = s.trace ++ t ∧
        t.filterMap Obs.change = [(.leaves, .service m.address m.subject, m)] := by
  cases h with
  | @some offers o t hs ht =>
    obtain ⟨-, -, -, -, ho, -⟩ := CursorList.seek_some hs
    have hmem : o ∈ (s.service name).offers.items := CursorList.mem_of_seek hs
    have hsent := change_serviceDeliver o.client t.address s t.hashkey m
    refine ⟨⟨o, hmem, ho⟩, [.dispatched name (s.service name).offers.items o m,
      .event o.client .serviceMessage,
      .sent o.client t.address (s.delivery t.hashkey .serviceDeliver m).wire (some m)], ?_, ?_⟩
    · simp [delivery]
    · rw [List.filterMap_cons_none rfl, List.filterMap_cons_none rfl,
        List.filterMap_cons_some hsent]
      rfl

/-- An offer that matches a message matches nobody that waits. -/
theorem Unmatched.waiting_nil (h : Unmatched rex s name)
    (ho : ∃ o ∈ (s.service name).offers.items, rex o.pattern m.subject = true) :
    s.waiting (.service name m.subject) = [] := by
  obtain ⟨o, hmem, hmatch⟩ := ho
  refine List.filter_eq_nil_iff.2 fun x hx => ?_
  intro hsub
  have hno := h x hx o hmem
  rw [of_decide_eq_true hsub, hmatch] at hno
  cases hno

/-! ## SERVICE SEND -/

theorem service_requesting (s : Server) (c : Cid) (a name : Str) :
    (s.requesting c a).service name = s.service name :=
  service_serviceRequire (((s.newMsg (s.messageFrom a)).setMessage
    s.message.takeContent).log (.requested c (s.messageFrom a))) s.message.address name

theorem requesting_waiting (s : Server) (c : Cid) (a : Str) (l : Line) :
    (s.requesting c a).waiting l = s.waiting l := by
  cases l with
  | mailbox b => rfl
  | service name subject => simp only [waiting, service_requesting]

theorem unmatched_requesting (h : Unmatched rex s name) : Unmatched rex (s.requesting c a) name := by
  rw [Unmatched, service_requesting]
  exact h

theorem unmatched_dispatched {b : Bool} (h : ∀ name, Unmatched rex s name) {name' : Str}
    (hd : Dispatched rex name' m s s' b) (name : Str) : Unmatched rex s' name := by
  by_cases hn : name = name'
  · subst hn
    refine (h name).mono ?_ ?_
    · rw [(dispatched_service hd).2]
      exact fun _ h => h
    · intro o ho
      exact (dispatched_service hd).1.mem_iff.1 ho
  · rw [Unmatched, dispatched_service_ne hd hn]
    exact h name

/-- A message put on the queue of a service waits on its own line. -/
theorem waiting_queued {queue : Msgq} (hi : queue.items = (s.service name).queue.items ++ [m])
    (l : Line) :
    (s.setService name ((s.service name).setQueue queue)).waiting l =
      s.waiting l ++ if l = .service name m.subject then [m] else [] := by
  cases l with
  | mailbox b => simp [waiting]
  | service name' subject =>
    by_cases hname : name' = name
    · subst hname
      simp only [waiting, service_setService, Service.setQueue_queue, hi, List.filter_append,
        List.append_cancel_left_eq]
      by_cases hsub : m.subject = subject
      · simp [hsub]
      · have hsub' : subject ≠ m.subject := fun h => hsub h.symm
        simp [hsub, hsub']
    · simp [waiting, service_setService_ne hname, hname]

/-- A message that no offer matches can wait. -/
theorem unmatched_queued {queue : Msgq} (h : ∀ name', Unmatched rex s name')
    (hi : queue.items = (s.service name).queue.items ++ [m])
    (hno : ∀ o ∈ (s.service name).offers.items, rex o.pattern m.subject = false) (name' : Str) :
    Unmatched rex (s.setService name ((s.service name).setQueue queue)) name' := by
  by_cases hname : name' = name
  · subst hname
    intro x hx o ho
    simp only [service_setService, Service.setQueue_queue, Service.setQueue_offers, hi,
      List.mem_append, List.mem_singleton] at hx ho
    rcases hx with hx | rfl
    · exact h name' x hx o ho
    · exact hno o ho
  · rw [Unmatched, service_setService_ne hname]
    exact h name'

/-- A service whose queue refused the message is as it was. -/
theorem service_refused {queue : Msgq} (hq : queue = (s.service name).queue) (name' : Str) :
    (s.setService name ((s.service name).setQueue queue)).service name' = s.service name' := by
  by_cases hname : name' = name
  · subst hname
    rw [service_setService, hq]
    rfl
  · exact service_setService_ne hname _

/-- **A request is dispatched at once, queued, or refused.** -/
theorem posted_requested (h : Posted rex s) (hm : Requested rex c a s s') : Posted rex s' := by
  have hsame := requested_same hm
  have hserved := served_requested h.served hm
  have hclear : ∀ {s' : Server}, s'.addresses = s.addresses →
      (∀ b, s'.waiting (.mailbox b) = s.waiting (.mailbox b)) →
      ∀ b d, s'.addresses.get b = some d → s'.waiting (.mailbox b) = [] := by
    intro s' h1 h2 b d hb
    rw [h2]
    rw [h1] at hb
    exact h.clear b d hb
  have hun : ∀ name, Unmatched rex (s.requesting c a) name := fun name =>
    unmatched_requesting (h.unmatched name)
  cases hm with
  | dispatched hd =>
    obtain ⟨ho, t, ht, hn⟩ := dispatched_true hd
    have hw : ∀ l, s'.waiting l = s.waiting l := fun l =>
      (dispatched_waiting hd l).trans (requesting_waiting s c a l)
    have hempty : s.waiting (.service s.message.address (s.messageFrom a).subject) = [] := by
      rw [← requesting_waiting s c a]
      exact (hun _).waiting_nil ho
    refine ⟨?_, hclear hsame.addresses fun b => hw (.mailbox b), unmatched_dispatched hun hd, hserved⟩
    refine h.kept.pass (t := .requested c (s.messageFrom a) :: t)
      (l := .service s.message.address s.message.subject) (m := s.messageFrom a) ?_ ?_ rfl ?_ hw
      hempty
    · rw [ht]
      simp [requesting]
    · rw [List.filterMap_cons_some (f := Obs.change) rfl, hn]
      rfl
    · rw [dispatched_messageId hd]
      rfl
  | @queued s₁ queue w hd hen =>
    obtain ⟨htr, hno⟩ := dispatched_false hd
    have hw₁ : ∀ l, s₁.waiting l = s.waiting l := fun l =>
      (dispatched_waiting hd l).trans (requesting_waiting s c a l)
    have hitems : queue.items =
        (s₁.service s.message.address).queue.items ++ [s.messageFrom a] := by
      rcases Msgq.enqueue_cases hen with ⟨_, -, hi⟩ | ⟨hv, -⟩
      · exact hi
      · cases hv
    have hw : ∀ l, (s₁.setService s.message.address
        ((s₁.service s.message.address).setQueue queue)).waiting l = s.waiting l ++
          if l = .service s.message.address s.message.subject then [s.messageFrom a] else [] := by
      intro l
      rw [← hw₁]
      exact waiting_queued hitems l
    refine ⟨?_, hclear hsame.addresses fun b => ?_, ?_, hserved⟩
    · refine h.kept.put (t := [.requested c (s.messageFrom a)])
        (l := .service s.message.address s.message.subject) ?_ rfl rfl ?_ hw
      · simp [htr, requesting]
      · rw [setService_messageId, dispatched_messageId hd]
        rfl
    · rw [hw, if_neg (by simp), List.append_nil]
    · refine unmatched_queued (unmatched_dispatched hun hd) hitems fun o ho => ?_
      exact hno o ((dispatched_service hd).1.mem_iff.1 ho)
  | @refused s₁ queue hd hen =>
    obtain ⟨htr, -⟩ := dispatched_false hd
    have hqueue : queue = (s₁.service s.message.address).queue := by
      rcases Msgq.enqueue_cases hen with ⟨_, hv, -⟩ | ⟨-, hq⟩
      · cases hv
      · exact hq
    have hservice : ∀ name, (s₁.setService s.message.address
        ((s₁.service s.message.address).setQueue queue)).service name = s₁.service name :=
      service_refused hqueue
    have hw : ∀ l, (((s₁.setService s.message.address ((s₁.service s.message.address).setQueue
        queue)).unlink (s.messageFrom a)).log (.dropped (.service s.message.address)
          (s.messageFrom a))).waiting l = s.waiting l := by
      intro l
      refine Eq.trans ?_ ((dispatched_waiting hd l).trans (requesting_waiting s c a l))
      cases l with
      | mailbox b => rfl
      | service name subject =>
        exact congrArg (fun v : Service => v.queue.items.filter (·.subject = subject))
          (hservice name)
    refine ⟨?_, hclear hsame.addresses fun b => hw (.mailbox b), ?_, hserved⟩
    · refine h.kept.refuse (t := [.requested c (s.messageFrom a),
        .dropped (.service s.message.address) (s.messageFrom a)])
          (l := .service s.message.address s.message.subject) ?_ rfl rfl ?_ hw
      · simp [htr, requesting]
      · rw [log_messageId, unlink_messageId, setService_messageId, dispatched_messageId hd]
        rfl
    · intro name
      have hv := hservice name
      have hun₁ := unmatched_dispatched hun hd name
      rw [Unmatched, ← hv] at hun₁
      exact hun₁

/-! ## The scan after SERVICE OFFER -/

/-- The scan moves on, from a message after which none of those seen matches. -/
theorem scanned_next {v : Service} {q : Msgq}
    (hb : ∀ x ∈ q.queue.back, ∀ o ∈ v.offers.items, rex o.pattern x.subject = false) :
    Scanned rex (s.setService name (v.setQueue q.next.1)) name q.next.2 := by
  unfold Msgq.next CursorList.next
  cases hpost : q.queue.post with
  | nil =>
    intro x hx o ho
    rw [service_setService] at hx ho
    refine hb x ?_ o ho
    simpa [Msgq.items, CursorList.reset, CursorList.items, hpost] using hx
  | cons y ys =>
    refine ⟨q.queue.back, ?_, ?_⟩
    · rw [service_setService]
      rfl
    · intro x hx o ho
      rw [service_setService] at ho
      exact hb x hx o ho

/-- A message that waits for a service was sent to it. -/
theorem Kept.address (h : Kept s) (hm : m ∈ (s.service name).queue.items) : m.address = name := by
  have hwait : m ∈ s.waiting (.service name m.subject) := by
    simpa [waiting] using hm
  rcases mem_sentTo ((h.books _).mem_sent (.inr hwait)).1 with ⟨c, -, hl⟩ | ⟨c, -, hl⟩
  · cases hl
  · exact (Line.service.inj hl).1.symm

/-- What taking the message under the cursor does to the lines of the service:
no message before it has its subject, as an offer matches it. -/
theorem waiting_take {pre post : List Msg}
    (hpre : ∀ x ∈ pre, ∀ o ∈ (s.service name).offers.items, rex o.pattern x.subject = false)
    (ho : ∃ o ∈ (s.service name).offers.items, rex o.pattern m.subject = true) (subject : Str) :
    (pre.reverse ++ m :: post).filter (·.subject = subject) =
      (if subject = m.subject then [m] else []) ++
        (pre.reverse ++ post).filter (·.subject = subject) := by
  by_cases hsub : m.subject = subject
  · subst hsub
    have hnil : pre.reverse.filter (fun x => x.subject = m.subject) = [] := by
      refine List.filter_eq_nil_iff.2 fun x hx hxs => ?_
      obtain ⟨o, hmem, hmatch⟩ := ho
      have hno := hpre x (List.mem_reverse.1 hx) o hmem
      rw [of_decide_eq_true hxs, hmatch] at hno
      cases hno
    simp [List.filter_append, hnil]
  · have hsub' : subject ≠ m.subject := fun h => hsub h.symm
    simp [List.filter_append, hsub, hsub']

/-- The scan of the queue of `name` is at a message. -/
structure Scanning (rex : Str → Str → Bool) (s : Server) (name : Str) (mo : Option Msg) : Prop where
  kept : Kept s
  served : Served rex s
  scanned : Scanned rex s name mo

/-- Only the service `name` is concerned. -/
structure Only (name : Str) (s s' : Server) : Prop where
  services : ∀ name', name' ≠ name → s'.service name' = s.service name'
  mailboxes : ∀ b, s'.waiting (.mailbox b) = s.waiting (.mailbox b)

theorem Only.trans {s₁ : Server} (h : Only name s s₁) (h' : Only name s₁ s') : Only name s s' where
  services name' hn := (h'.services name' hn).trans (h.services name' hn)
  mailboxes b := (h'.mailboxes b).trans (h.mailboxes b)

/-- What the scan does after a dispatch. -/
def Server.scanNext (s : Server) (name : Str) (m : Msg) (queue : Msgq) : Server :=
  (s.unlink m).setService name ((s.service name).setQueue queue.next.1)

theorem only_scanNext {b : Bool} {s₁ : Server} (hd : Dispatched rex name m (s.link m) s₁ b)
    (queue : Msgq) : Only name s (s₁.scanNext name m queue) where
  services _ hn := (service_setService_ne (s := s₁.unlink m) hn _).trans
    (dispatched_service_ne hd hn)
  mailboxes b := dispatched_waiting hd (.mailbox b)

theorem served_scanNext {b : Bool} {s₁ : Server} (hs : Served rex s)
    (hd : Dispatched rex name m (s.link m) s₁ b) (haddr : m.address = name) (queue : Msgq) :
    Served rex (s₁.scanNext name m queue) := by
  have hlink : Served rex (s.link m) := hs.plain (.refl _) (grows_same rfl)
  have hset := (served_dispatched hlink hd haddr).setQueue name queue.next.1
  exact hset.plain (.refl _) (grows_same rfl)

/-- The message under the cursor was sent to the service. -/
theorem Scanning.sent (h : Scanning rex s name (some m)) :
    m ∈ s.sentTo (.service name m.subject) := by
  obtain ⟨pre, hback, -⟩ := h.scanned
  have hwait : m ∈ s.waiting (.service name m.subject) := by
    simp [waiting, Msgq.items, CursorList.items, hback]
  exact ((h.kept.books _).mem_sent (.inr hwait)).1

theorem Scanning.address (h : Scanning rex s name (some m)) : m.address = name := by
  obtain ⟨pre, hback, -⟩ := h.scanned
  exact h.kept.address (by simp [Msgq.items, CursorList.items, hback])

/-- No offer matches the message: it stays. -/
theorem scanning_skip {s₁ : Server} (h : Scanning rex s name (some m))
    (hd : Dispatched rex name m (s.link m) s₁ false) :
    Scanning rex (s₁.scanNext name m (s₁.service name).queue) name
      (s₁.service name).queue.next.2 := by
  have haddr := h.address
  obtain ⟨pre, hback, hpre⟩ := h.scanned
  obtain ⟨htr, hno⟩ := dispatched_false hd
  have hoffers := (dispatched_service hd).1
  have hqueue : (s₁.service name).queue = (s.service name).queue := (dispatched_service hd).2
  have hw : ∀ l, (s₁.scanNext name m (s₁.service name).queue).waiting l = s.waiting l := by
    intro l
    cases l with
    | mailbox b => exact (only_scanNext hd _).mailboxes b
    | service name' subject =>
      by_cases hn : name' = name
      · subst hn
        simp [waiting, scanNext, hqueue]
      · simp only [waiting, (only_scanNext hd _).services name' hn]
  refine ⟨?_, served_scanNext h.served hd haddr _, scanned_next fun x hx o ho => ?_⟩
  · refine h.kept.still (t := []) ?_ rfl hw (Nat.le_of_eq (dispatched_messageId hd).symm)
    simpa [scanNext] using htr
  · have ho : o ∈ (s.service name).offers.items := hoffers.mem_iff.1 ho
    rw [hqueue, hback] at hx
    rcases List.mem_cons.1 hx with rfl | hx
    · exact hno o ho
    · exact hpre x hx o ho

/-- The message has been dispatched: it leaves the queue. -/
theorem scanning_take {s₁ : Server} {queue : Msgq} (h : Scanning rex s name (some m))
    (hd : Dispatched rex name m (s.link m) s₁ true)
    (hdeq : (s₁.service name).queue.dequeueCursor s₁.serviceCfg = .ok queue) :
    Scanning rex (s₁.scanNext name m queue) name queue.next.2 ∧ m.content ≠ none := by
  have haddr := h.address
  obtain ⟨pre, hback, hpre⟩ := h.scanned
  obtain ⟨ho, t, htr, hn⟩ := dispatched_true hd
  have hoffers := (dispatched_service hd).1
  have hqueue : (s₁.service name).queue = (s.service name).queue := (dispatched_service hd).2
  have hback₁ : (s₁.service name).queue.queue.back = m :: pre := by
    rw [hqueue]
    exact hback
  have hleft : queue.queue = ⟨pre, (s.service name).queue.queue.post⟩ := by
    rw [Msgq.dequeueCursor_queue hback₁ hdeq, hqueue]
  have hbefore : (s.service name).queue.items =
      pre.reverse ++ m :: (s.service name).queue.queue.post := by
    simp [Msgq.items, CursorList.items, hback]
  have hafter : queue.next.1.items = pre.reverse ++ (s.service name).queue.queue.post := by
    rw [Msgq.items_next, Msgq.items, hleft]
    rfl
  have hw : ∀ l, s.waiting l = (if l = .service name m.subject then [m] else []) ++
      (s₁.scanNext name m queue).waiting l := by
    intro l
    cases l with
    | mailbox b =>
      rw [if_neg (by simp)]
      exact ((only_scanNext hd _).mailboxes b).symm
    | service name' subject =>
      by_cases hn : name' = name
      · subst hn
        simp only [scanNext, waiting, service_setService, Service.setQueue_queue, hbefore, hafter,
          waiting_take hpre ho subject]
        simp
      · simp only [waiting, (only_scanNext hd _).services name' hn]
        simp [hn]
  refine ⟨⟨?_, served_scanNext h.served hd haddr _, scanned_next fun x hx o ho => ?_⟩,
    Msgq.dequeueCursor_content hback₁ hdeq⟩
  · rw [haddr] at hn
    refine h.kept.take (by simpa [scanNext] using htr) hn ?_ hw
    rw [scanNext, setService_messageId, unlink_messageId, dispatched_messageId hd]
    rfl
  · rw [hleft] at hx
    exact hpre x hx o (hoffers.mem_iff.1 ho)

/-- **The scan misses nothing**: afterwards no message in the queue matches an
offer. -/
theorem kept_scan {mo : Option Msg} (hscan : Scan rex name mo s s')
    (h : Scanning rex s name mo) : Scanning rex s' name none ∧ Only name s s' := by
  induction hscan with
  | done => exact ⟨h, fun _ _ => rfl, fun _ => rfl⟩
  | skip hd _ ih =>
    obtain ⟨hend, honly⟩ := ih (scanning_skip h hd)
    exact ⟨hend, (only_scanNext hd _).trans honly⟩
  | take hd hdeq _ ih =>
    obtain ⟨hend, honly⟩ := ih (scanning_take h hd hdeq).1
    exact ⟨hend, (only_scanNext hd _).trans honly⟩

end
end Malamute.L3
