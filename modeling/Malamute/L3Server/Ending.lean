import Malamute.L3Server.Accounts

/-!
# Every execution ends

`loop` goes on as long as an action sets a next event, a mailbox message event
sets itself again, and actions start executions of other clients. Here: with
enough fuel each of them ends. A look into a mailbox takes a message out of it,
after the first look the pipe to the mailbox engine is empty, and a round of
`s_service_dispatch` goes one message on in the queue.

`Halts s c e` says which events end in a fault; `execute_ends` is the theorem
of this module.
-/
namespace Malamute.L3
open Malamute.Core Malamute.L1 Malamute.L2 Server

/-- A message without content is on its way to the mailbox engine, which asserts
that there is one. mirrors src/src/mlm_msgq.c:99-100 -/
def Bodiless (s : Server) : Prop := ∃ p ∈ s.mailboxPipe, p.2.content = none

section
variable {rex : Str → Str → Bool} {ok : MsgqCfg → MsgqCfg → Prop} {s s' : Server} {c : Cid}
  {k : Client} {a name : Str} {m : Msg}

theorem Queues.mailbox (h : Queues ok s) (a : Str) : (s.mailbox.require a).Accounted :=
  (accounted_inductive ok).reachable _ (h.mailboxes a)

theorem Queues.service (h : Queues ok s) (name : Str) : (s.service name).queue.Accounted :=
  (accounted_inductive ok).reachable _ (h.services name)

/-- An enqueue of a message with content returns. -/
theorem enqueue_ok {q : Msgq} (cfg : MsgqCfg) (hq : q.Accounted) (hm : m.content ≠ none) :
    ∃ q' v, q.enqueue cfg m = .ok (q', v) := by
  obtain ⟨x, w, hcall, -⟩ := called_enqueue (x := ⟨cfg, q⟩) hq hm
  obtain ⟨⟨q', v⟩, henq, -⟩ := bind_eq_ok.1 hcall
  exact ⟨q', v, henq⟩

theorem enqueue_bodiless {q : Msgq} {cfg : MsgqCfg} (hm : m.content = none) :
    q.enqueue cfg m = .error .assertion := by
  simp [Msgq.enqueue, Msg.contentSize, hm]

/-! ## Mailbox queries -/

theorem mailboxRead_ok (h : Queues ok s) {pipe : List (Str × Msg)}
    (hp : s.mailboxPipe = (a, m) :: pipe) (hm : m.content ≠ none) :
    ∃ s', s.mailboxRead = .ok s' ∧ s'.mailboxPipe = pipe := by
  obtain ⟨q, v, henq⟩ := enqueue_ok s.mailbox.queueCfg (h.mailbox a) hm
  unfold mailboxRead
  rw [hp]
  simp only [Mailbox.store, henq, ok_bind]
  cases v with
  | queued w => exact ⟨_, rfl, rfl⟩
  | refused => exact ⟨_, rfl, rfl⟩

theorem mailboxRead_bodiless {pipe : List (Str × Msg)} (hp : s.mailboxPipe = (a, m) :: pipe)
    (hm : m.content = none) : s.mailboxRead = .error .assertion := by
  unfold mailboxRead
  rw [hp]
  simp only [Mailbox.store, enqueue_bodiless hm, error_bind]

theorem mailboxReads_ok (h : Queues ok s) (hb : ¬Bodiless s) :
    ∃ s', mailboxReads s.mailboxPipe s = .ok s' ∧ s'.mailboxPipe = [] := by
  generalize hp : s.mailboxPipe = pipe
  induction pipe generalizing s with
  | nil => exact ⟨s, rfl, hp⟩
  | cons p pipe ih =>
    have hm : p.2.content ≠ none := fun hm => hb ⟨p, by simp [hp], hm⟩
    obtain ⟨s₁, hread, hp₁⟩ := mailboxRead_ok h hp hm
    have hb₁ : ¬Bodiless s₁ := by
      rintro ⟨p', hmem, hm'⟩
      rw [hp₁] at hmem
      exact hb ⟨p', by simp [hp, hmem], hm'⟩
    obtain ⟨s', hreads, hp'⟩ := ih (queues_read h hread) hb₁ hp₁
    exact ⟨s', by rw [mailboxReads, hread, ok_bind, hreads], hp'⟩

theorem mailboxReads_bodiless (h : Queues ok s) (hb : Bodiless s) :
    mailboxReads s.mailboxPipe s = .error .assertion := by
  generalize hp : s.mailboxPipe = pipe
  induction pipe generalizing s with
  | nil =>
    obtain ⟨p, hmem, -⟩ := hb
    rw [hp] at hmem
    cases hmem
  | cons p pipe ih =>
    rw [mailboxReads]
    by_cases hm : p.2.content = none
    · rw [mailboxRead_bodiless hp hm, error_bind]
    · obtain ⟨s₁, hread, hp₁⟩ := mailboxRead_ok h hp hm
      have hb₁ : Bodiless s₁ := by
        obtain ⟨p', hmem, hm'⟩ := hb
        rw [hp] at hmem
        rcases List.mem_cons.1 hmem with heq | hmem
        · exact absurd (heq ▸ hm') hm
        · exact ⟨p', hp₁ ▸ hmem, hm'⟩
      rw [hread, ok_bind]
      exact ih (queues_read h hread) hb₁ hp₁

theorem mailboxQuery_ok (h : Queues ok s) (hb : ¬Bodiless s) (a : Str) :
    ∃ s' r, s.mailboxQuery a = .ok (s', r) ∧ s'.mailboxPipe = [] := by
  obtain ⟨s₁, hreads, hp₁⟩ := mailboxReads_ok h hb
  obtain ⟨b, r, hquery⟩ : ∃ b r, s₁.mailbox.query a = .ok (b, r) := by
    unfold Mailbox.query
    cases hg : s₁.mailbox.mailboxes.get a with
    | none => exact ⟨_, _, rfl⟩
    | some q =>
      have hq := (queues_reads h hreads).mailbox a
      rw [Mailbox.require, hg] at hq
      obtain ⟨q', r, hdeq, -⟩ :=
        called_dequeue (x := ⟨s₁.mailbox.queueCfg, q⟩) hq (k := .dequeue) (.inl rfl)
      dsimp only at hdeq ⊢
      rw [hdeq]
      exact ⟨_, _, rfl⟩
  refine ⟨s₁.setMailbox b s₁.mailboxPipe, r, ?_, hp₁⟩
  rw [mailboxQuery, hreads, ok_bind, hquery]
  rfl

theorem mailboxQuery_bodiless (h : Queues ok s) (hb : Bodiless s) (a : Str) :
    s.mailboxQuery a = .error .assertion := by
  rw [mailboxQuery, mailboxReads_bodiless h hb, error_bind]

/-- With an empty pipe a query takes out of the mailbox what it returns. -/
theorem content_query {r : Option Msg} (hp : s.mailboxPipe = [])
    (hq : s.mailboxQuery a = .ok (s', r)) :
    s.mailbox.content a = r.toList ++ s'.mailbox.content a := by
  rw [mailboxQuery, hp, mailboxReads, ok_bind] at hq
  obtain ⟨⟨b, r'⟩, hquery, hq⟩ := bind_eq_ok.1 hq
  cases hq
  have hcontent := (Mailbox.query_content hquery a).1
  rwa [if_pos rfl] at hcontent

/-! ## The mailbox drain -/

/-- `check_for_mailbox_messages` at the end of a round that leads to the
connected state. -/
theorem check_finish (rex : Str → Str → Bool) (c : Cid) (n : Nat) (hk : Quiet k)
    (hz : k.state ≠ .zombie) (haddr : k.address = some a) (ha : a ≠ .empty) :
    ((s.setClient c k).checkForMailboxMessages c >>= finish rex (n + 1) c (some .connected)) = (do
      let (s, r) ← s.mailboxQuery a
      match r with
      | none => .ok (s.setClient c { k with state := .connected })
      | some m => loop rex (n + 1) c (s.setClient c { k with
          state := .connected, msg := some m, nextEvent := some .mailboxMessage })) := by
  rw [check_eq (k := k) (by simp) hz haddr ha, mailboxQuery_setClient]
  cases s.mailboxQuery a with
  | error f => rfl
  | ok p =>
    obtain ⟨s₁, r⟩ := p
    cases r with
    | none =>
      have hmsg : ({ k with msg := none } : Client) = k := by rw [← hk.msg]
      simp only [Except.map, ok_bind, setClient_setClient, hmsg]
      rw [finish_quiet_eq (k := k) (by simp) hk.nextEvent hk.exception, setClient_setClient]
      rfl
    | some m =>
      simp only [Except.map, ok_bind, setClient_setClient]
      rw [finish_next (k := { k with msg := some m, nextEvent := some .mailboxMessage })
        (by simp) rfl (by simp) hk.exception, setClient_setClient]
      rfl

/-- The loop from a mailbox message event, with nothing on its way to the mailbox
engine: by induction on how much is in the mailbox. -/
theorem loop_ends (rex : Str → Str → Bool) (m : Msg) (ho : Open s c k a) (h : Queues ok s)
    (hp : s.mailboxPipe = []) (ha : a ≠ .empty) : ∃ s', Ends (fun n => loop rex n c
      (s.setClient c { k with msg := some m, nextEvent := some .mailboxMessage })) (.ok s') := by
  have hz : k.state ≠ .zombie := by rw [ho.state]; simp
  have hstate : ({ k with state := .connected } : Client) = k := by rw [← ho.state]
  induction hlen : (s.mailbox.content a).length using Nat.strong_induction_on generalizing s m with
  | _ len ih =>
    generalize hd : (s.enter c .mailboxMessage).deliver c k .mailboxDeliver m = d
    have hopen : Open d c k a := by rw [← hd]; exact ho.frame rfl rfl rfl
    have hqueues : Queues ok d := by rw [← hd]; exact h.frame rfl (fun _ => rfl) rfl
    have hpipe : d.mailboxPipe = [] := by rw [← hd]; exact hp
    have hnone : ¬Bodiless d := by
      rintro ⟨p, hmem, -⟩
      rw [hpipe] at hmem
      cases hmem
    have hround : ∀ n, loop rex (n + 2) c
        (s.setClient c { k with msg := some m, nextEvent := some .mailboxMessage }) = (do
          let (d, r) ← d.mailboxQuery a
          match r with
          | none => .ok (d.setClient c k)
          | some m => loop rex (n + 1) c (d.setClient c { k with
              msg := some m, nextEvent := some .mailboxMessage })) := by
      intro n
      have hcheck := check_finish (s := d) rex c n ho.quiet hz ho.address ha
      rw [setClient_self hopen.ctx, hstate, ← ho.state] at hcheck
      rw [loop_mailbox_round ho, hd, ← ho.state, hcheck]
    obtain ⟨d₁, r, hquery, hpipe₁⟩ := mailboxQuery_ok hqueues hnone a
    have hcontent := content_query hpipe hquery
    cases r with
    | none =>
      refine ⟨d₁.setClient c k, .succ (.succ (.always fun n => ?_))⟩
      rw [hround, hquery]
      rfl
    | some m' =>
      have hless : (d₁.mailbox.content a).length < len := by
        have hsame : d.mailbox = s.mailbox := by rw [← hd]; rfl
        rw [hsame] at hcontent
        rw [← hlen, hcontent]
        simp
      obtain ⟨s', n, hend⟩ : ∃ s', Ends (fun n => loop rex n c (d₁.setClient c { k with
          msg := some m', nextEvent := some .mailboxMessage })) (.ok s') :=
        ih _ hless m' ((mailboxQuery_only hquery).open hopen) (queues_query hqueues hquery) hpipe₁
          rfl
      refine ⟨s', .succ (.succ ⟨n, fun n' hn => ?_⟩)⟩
      dsimp only
      rw [hround, hquery]
      exact hend (n' + 1) (Nat.le_succ_of_le hn)

/-- The round ends if the mailbox engine can read what is on its way. -/
theorem check_ends (rex : Str → Str → Bool) (hk : Quiet k) (hz : k.state ≠ .zombie)
    (haddr : k.address = some a)
    (ho : Open (s.setClient c { k with state := .connected }) c { k with state := .connected } a)
    (h : Queues ok s) (hb : a = .empty ∨ ¬Bodiless s) :
    ∃ s', Ends (fun n => (s.setClient c k).checkForMailboxMessages c >>=
      finish rex n c (some .connected)) (.ok s') := by
  by_cases ha : a = .empty
  · have hctx : (s.setClient c k).ctx c = some k := by simp
    refine ⟨s.setClient c { k with state := .connected }, .succ (.always fun n => ?_)⟩
    rw [check_anonymous hctx (ha ▸ haddr), ok_bind]
    rw [finish_quiet_eq hctx hk.nextEvent hk.exception, setClient_setClient]
    rfl
  · obtain ⟨s₁, r, hquery, hpipe⟩ := mailboxQuery_ok h (hb.resolve_left ha) a
    cases r with
    | none =>
      refine ⟨s₁.setClient c { k with state := .connected }, .succ (.always fun n => ?_)⟩
      rw [check_finish rex c _ hk hz haddr ha, hquery]
      rfl
    | some m =>
      have hquery' := mailboxQuery_setClient s c { k with state := .connected } a
      rw [hquery] at hquery'
      have hopen := (mailboxQuery_only hquery').open ho
      have hqueues : Queues ok (s₁.setClient c { k with state := .connected }) :=
        (queues_query h hquery).frame rfl (fun _ => rfl) rfl
      obtain ⟨s', n, hend⟩ := loop_ends rex m hopen hqueues hpipe ha
      refine ⟨s', .succ ⟨n, fun n' hn => ?_⟩⟩
      dsimp only
      rw [check_finish rex c _ hk hz haddr ha, hquery]
      have hloop := hend (n' + 1) (Nat.le_succ_of_le hn)
      rw [setClient_setClient] at hloop
      exact hloop

/-- It does not if a message without content is among it. -/
theorem check_halts (rex : Str → Str → Bool) (c : Cid) (hk : Quiet k) (hz : k.state ≠ .zombie)
    (haddr : k.address = some a) (h : Queues ok s) (ha : a ≠ .empty) (hb : Bodiless s) :
    Ends (fun n => (s.setClient c k).checkForMailboxMessages c >>=
      finish rex n c (some .connected)) (.error .assertion) := by
  refine .succ (.always fun n => ?_)
  rw [check_finish rex c _ hk hz haddr ha, mailboxQuery_bodiless h hb, error_bind]

/-! ### A message for a mailbox whose client is there -/

/-- The round of a mailbox message event. -/
theorem execute_mailbox_round (ho : Open s c k a) {r : Except Fault Server}
    (h : Ends (fun n =>
      (((s.enter c .mailboxMessage).deliver c k .mailboxDeliver m).setClient c
        k).checkForMailboxMessages c >>= finish rex n c (some .connected)) r) :
    Ends (fun n => execute rex n c .mailboxMessage (s.setClient c { k with msg := some m })) r := by
  refine .succ (h.congr fun n => ?_)
  have hctx : ((s.enter c .mailboxMessage).deliver c k .mailboxDeliver m).ctx c = some k := ho.ctx
  rw [execute, modifyClient_of (k := { k with msg := some m }) (by simp), setClient_setClient,
    ok_bind, loop_mailbox_round ho, setClient_self hctx]

theorem mailbox_ends (rex : Str → Str → Bool) (m : Msg) (ho : Open s c k a) (h : Queues ok s)
    (hb : a = .empty ∨ ¬Bodiless s) :
    ∃ s', Ends (fun n => execute rex n c .mailboxMessage
      (s.setClient c { k with msg := some m })) (.ok s') := by
  have hz : k.state ≠ .zombie := by rw [ho.state]; simp
  have hstate : ({ k with state := .connected } : Client) = k := by rw [← ho.state]
  have hctx : ((s.enter c .mailboxMessage).deliver c k .mailboxDeliver m).ctx c = some k := ho.ctx
  have hopen : Open ((s.enter c .mailboxMessage).deliver c k .mailboxDeliver m) c k a :=
    ho.frame rfl rfl rfl
  have hqueues : Queues ok ((s.enter c .mailboxMessage).deliver c k .mailboxDeliver m) :=
    h.frame rfl (fun _ => rfl) rfl
  obtain ⟨s', hend⟩ := check_ends rex ho.quiet hz ho.address
    (by rw [hstate, setClient_self hctx]; exact hopen) hqueues hb
  exact ⟨s', execute_mailbox_round ho hend⟩

theorem mailbox_halts (rex : Str → Str → Bool) (m : Msg) (ho : Open s c k a) (h : Queues ok s)
    (ha : a ≠ .empty) (hb : Bodiless s) :
    Ends (fun n => execute rex n c .mailboxMessage (s.setClient c { k with msg := some m }))
      (.error .assertion) := by
  have hz : k.state ≠ .zombie := by rw [ho.state]; simp
  have hqueues : Queues ok ((s.enter c .mailboxMessage).deliver c k .mailboxDeliver m) :=
    h.frame rfl (fun _ => rfl) rfl
  exact execute_mailbox_round ho (check_halts rex c ho.quiet hz ho.address hqueues ha hb)

/-! ## Services -/

/-- The dispatch of one message returns, with two rounds of fuel for the client. -/
theorem dispatch_ends (rex : Str → Str → Bool) (ho : OffersOpen s name) (m : Msg) :
    ∃ s' b, ∀ n, s.serviceDispatchMessage rex (execute rex (n + 2)) name m = .ok (s', b) := by
  unfold serviceDispatchMessage
  dsimp only
  split
  · exact ⟨_, _, fun n => rfl⟩
  · rename_i offers o hs
    have hmem : o ∈ (s.service name).offers.items := CursorList.mem_of_seek hs
    obtain ⟨t, a, ht⟩ := ho o hmem
    have hopen : Open ((s.setService name ((s.service name).setOffers offers)).log
        (.dispatched name (s.service name).offers.items o m)) o.client t a :=
      ht.frame rfl rfl rfl
    obtain ⟨s₁, hs₁⟩ : ∃ s₁, ∀ n, execute rex (n + 2) o.client .serviceMessage
        (((s.setService name ((s.service name).setOffers offers)).log
          (.dispatched name (s.service name).offers.items o m)).setClient o.client
            { t with msg := some m }) = .ok s₁ := ⟨_, fun n => execute_deliver_eq hopen rfl⟩
    refine ⟨s₁.setService name ((s₁.service name).setOffers (s₁.service name).offers.moveEnd), true,
      fun n => ?_⟩
    rw [client_of (k := t) (by simpa using ht.ctx), ok_bind, if_neg (by rw [ht.quiet.msg]; simp),
      log_setClient, sendEvent, client_of (k := { t with msg := some m }) (by simp), ok_bind,
      if_neg (by rw [ht.state]; simp), hs₁, ok_bind]

/-- How many messages a scan that is at `r` has to look at. -/
def ahead (q : Msgq) : Option Msg → Nat
  | none => 0
  | some _ => q.queue.post.length + 1

theorem ahead_next (q : Msgq) : ahead q.next.1 q.next.2 ≤ q.queue.post.length := by
  unfold Msgq.next CursorList.next
  cases q.queue.post with
  | nil => exact Nat.le_refl _
  | cons m ms => exact Nat.le_refl _

/-- A message is taken out at the cursor, and none after it. -/
theorem dequeueCursor_ends {q : Msgq} (cfg : MsgqCfg) (hq : q.Accounted) :
    ∃ q', q.dequeueCursor cfg = .ok q' ∧ q'.queue.post.length ≤ q.queue.post.length := by
  obtain ⟨x, w, hcall, -⟩ := call_cases (x := ⟨cfg, q⟩) (k := .dequeueCursor) hq trivial
  obtain ⟨q', hdeq, -⟩ := bind_eq_ok.1 hcall
  refine ⟨q', hdeq, ?_⟩
  dsimp only at hdeq
  cases hb : q.queue.back with
  | cons m ms => rw [Msgq.dequeueCursor_queue hb hdeq]
  | nil =>
    -- the first message is taken out
    unfold Msgq.dequeueCursor at hdeq
    rw [hb] at hdeq
    obtain ⟨⟨q₁, r⟩, hdeq, hr⟩ := bind_eq_ok.1 hdeq
    cases hr
    unfold Msgq.dequeue CursorList.popFirst at hdeq
    rw [hb] at hdeq
    dsimp only at hdeq
    split at hdeq
    · cases hdeq
      exact Nat.le_refl _
    · rename_i queue m hpop
      obtain ⟨q₂, hd, hdeq⟩ := bind_eq_ok.1 hdeq
      cases hdeq
      rw [Msgq.dequeued_items hd, ← show _ = queue from congrArg Prod.fst hpop]
      simp

/-- The scan of a queue ends with the queue. -/
theorem scan_ends (rex : Str → Str → Bool) (n : Nat) {l : Nat} {r : Option Msg}
    (ho : OffersOpen s name) (h : Queues ok s) (hl : ahead (s.service name).queue r ≤ l) :
    ∃ s', serviceDispatchLoop rex (execute rex (n + 2)) name l r s = .ok s' := by
  induction l generalizing s r with
  | zero =>
    cases r with
    | none => exact ⟨s, rfl⟩
    | some m => cases hl
  | succ l ih =>
    cases r with
    | none => exact ⟨s, rfl⟩
    | some m =>
      obtain ⟨s₁, b, heq⟩ := dispatch_ends rex (s := s.link m) (ho.frame (.refl _) rfl rfl rfl) m
      have hd := dispatch_ok (s := s.link m) (ho.frame (.refl _) rfl rfl rfl) (heq 0)
      have hlink : Queues ok (s.link m) := h.frame rfl (fun _ => rfl) rfl
      have hqueues := queues_dispatched hlink hd
      obtain ⟨hperm, hqueue⟩ := dispatched_service hd
      have hsame := dispatched_same hd
      have hpost : (s₁.service name).queue.queue.post.length ≤ l := by
        rw [hqueue]
        exact Nat.le_of_succ_le_succ hl
      -- the rest of the loop, however the queue has changed
      have hrest : ∀ (s₂ : Server) (q : Msgq), SameClients s₁ s₂ →
          (s₂.service name).offers = (s₁.service name).offers → Queues ok s₂ →
            (queue ok).Reachable ⟨s₂.serviceCfg, q⟩ → q.queue.post.length ≤ l →
              ∃ s', serviceDispatchLoop rex (execute rex (n + 2)) name l q.next.2
                (s₂.setService name ((s₂.service name).setQueue q.next.1)) = .ok s' := by
        intro s₂ q hs₂ hoff h₂ hq hlen
        have hs := ((link_same s m).trans hsame).trans hs₂
        refine ih (ho.frame ?_ hs.ctx hs.clients hs.addresses)
          (h₂.setQueue (reachable_call hq (l := .next) rfl (by simp))) ?_
        · rw [service_setService, Service.setQueue_offers, hoff]
          exact hperm
        · rw [service_setService, Service.setQueue_queue]
          exact Nat.le_trans (ahead_next q) hlen
      have hunlink : Queues ok (s₁.unlink m) := hqueues.frame rfl (fun _ => rfl) rfl
      have hunlinked : SameClients s₁ (s₁.unlink m) := ⟨rfl, rfl, rfl, rfl, rfl, rfl, rfl, rfl⟩
      rw [serviceDispatchLoop, heq n, ok_bind]
      cases b with
      | false => exact hrest (s₁.unlink m) _ hunlinked rfl hunlink (hqueues.services name) hpost
      | true =>
        obtain ⟨q, hdeq, hless⟩ := dequeueCursor_ends s₁.serviceCfg (hqueues.service name)
        have hq : (queue ok).Reachable ⟨s₁.serviceCfg, q⟩ :=
          reachable_call (hqueues.services name) (l := .dequeueCursor) (w := false)
            (by simp [Held.call, hdeq, ok_bind]) (by simp)
        have hv : ((s₁.setService name ((s₁.service name).setQueue q)).unlink m).service name =
            (s₁.service name).setQueue q := service_setService s₁ name _
        have hleft : Queues ok ((s₁.setService name ((s₁.service name).setQueue q)).unlink m) :=
          (hqueues.setQueue hq).frame rfl (fun _ => rfl) rfl
        obtain ⟨s', hend⟩ := hrest ((s₁.setService name ((s₁.service name).setQueue q)).unlink m) q
          ⟨rfl, rfl, rfl, rfl, rfl, rfl, rfl, rfl⟩ (by rw [hv]; rfl) hleft hq
          (Nat.le_trans hless hpost)
        refine ⟨s', ?_⟩
        dsimp only
        rw [if_pos rfl, hdeq, ok_bind, ok_bind]
        rw [hv] at hend ⊢
        exact hend

/-- `dispatch_the_service` ends. -/
theorem dispatchService_ends (rex : Str → Str → Bool) (ho : OffersOpen s s.message.address)
    (h : Queues ok s) :
    ∃ s', Ends (fun n => s.dispatchTheService rex (execute rex n) n) (.ok s') := by
  have hmono : ∀ n, Le Fault.fuel (s.dispatchTheService rex (execute rex n) n)
      (s.dispatchTheService rex (execute rex (n + 1)) (n + 1)) := fun n =>
    serviceDispatch_mono (fun c e s => execute_mono rex n c e s) n _ _
  suffices hend : ∃ n s', s.dispatchTheService rex (execute rex n) n = .ok s' by
    obtain ⟨n, s', hend⟩ := hend
    exact ⟨s', .of_eq hmono hend (by simp)⟩
  unfold dispatchTheService serviceDispatch
  dsimp only
  have hreq : ∀ name', (s.serviceRequire s.message.address).service name' = s.service name' :=
    service_serviceRequire s s.message.address
  split
  · exact ⟨0, _, rfl⟩
  · generalize hq : (s.serviceRequire s.message.address).service s.message.address = v
    have hqueues : Queues ok (s.serviceRequire s.message.address) :=
      h.frame rfl (fun name' => by rw [hreq]) rfl
    have hfirst := reachable_call (hqueues.services s.message.address) (l := .first) rfl (by simp)
    rw [hq] at hfirst
    obtain ⟨s', hend⟩ := scan_ends rex (ahead v.queue.first.1 v.queue.first.2)
      (l := ahead v.queue.first.1 v.queue.first.2 + 2)
      (s := (s.serviceRequire s.message.address).setService s.message.address
        (v.setQueue v.queue.first.1)) (r := v.queue.first.2)
      (ho.frame (by rw [service_setService, ← hq, hreq]; exact .refl _) rfl rfl rfl)
      (hq ▸ hqueues.setQueue hfirst) (by rw [service_setService]; exact Nat.le_add_right _ 2)
    exact ⟨_, s', hend⟩

end
end Malamute.L3
