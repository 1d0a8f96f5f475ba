import Malamute.L3Server.Posted
import Malamute.L2Queue.Calls

/-!
# The queues of the broker, over all runs

Every service queue and every mailbox is what some sequence of calls has made of
a new queue (`queues_inductive`), so what holds of all sequences of calls holds
of them: `queue_accounts`. No action of the server touches a queue in another
way, and a delivery copies the content of a message.
-/
namespace Malamute.L3
open Malamute.Core Malamute.Core.BoundedQueues Malamute.L1 Malamute.L2 Server

/-- Every queue of the broker has come about by calls. -/
structure Queues (ok : MsgqCfg → MsgqCfg → Prop) (s : Server) : Prop where
  services : ∀ name, (queue ok).Reachable ⟨s.serviceCfg, (s.service name).queue⟩
  mailboxes : ∀ a, (queue ok).Reachable ⟨s.mailbox.queueCfg, s.mailbox.require a⟩

/-- The configurations of the broker change as `ok` allows. -/
def Configures (ok : MsgqCfg → MsgqCfg → Prop) (s : Server) : Label → Prop
  | .configure service mailbox => ok s.serviceCfg service ∧ ok s.mailbox.queueCfg mailbox
  | _ => True

section
variable {rex : Str → Str → Bool} {ok : MsgqCfg → MsgqCfg → Prop} {s s' : Server} {c : Cid}
  {k : Client} {a name : Str} {m : Msg}

/-- One more call. -/
theorem reachable_call {x x' : Held} {l : Call} {w : Bool} (h : (queue ok).Reachable x)
    (hcall : x.call l = .ok (x', w)) (hl : ∀ cfg, l ≠ .configure cfg) :
    (queue ok).Reachable x' :=
  h.step ⟨⟨w, hcall⟩, fun cfg hcfg => absurd hcfg (hl cfg)⟩

theorem reachable_configure {cfg cfg' : MsgqCfg} {q : Msgq} (h : (queue ok).Reachable ⟨cfg, q⟩)
    (hok : ok cfg cfg') : (queue ok).Reachable ⟨cfg', q⟩ :=
  h.step (l := .configure cfg') ⟨⟨false, rfl⟩, fun _ hcfg => Call.configure.inj hcfg ▸ hok⟩

theorem queues_new (ok : MsgqCfg → MsgqCfg → Prop) : Queues ok .new where
  services _ := .initial rfl
  mailboxes _ := .initial rfl

theorem Queues.frame (h : Queues ok s) (h1 : s'.serviceCfg = s.serviceCfg)
    (h2 : ∀ name, (s'.service name).queue = (s.service name).queue)
    (h3 : s'.mailbox = s.mailbox) : Queues ok s' where
  services name := by
    rw [h1, h2]
    exact h.services name
  mailboxes a := by
    rw [h3]
    exact h.mailboxes a

/-- One queue is replaced by what a call has made of it. -/
theorem Queues.setQueue (h : Queues ok s) {q : Msgq}
    (hq : (queue ok).Reachable ⟨s.serviceCfg, q⟩) :
    Queues ok (s.setService name ((s.service name).setQueue q)) where
  services name' := by
    by_cases hn : name' = name
    · rw [hn, service_setService]
      exact hq
    · rw [service_setService_ne hn]
      exact h.services name'
  mailboxes := h.mailboxes

/-! ## Mailboxes -/

theorem queues_read (h : Queues ok s) (hread : s.mailboxRead = .ok s') : Queues ok s' := by
  unfold mailboxRead at hread
  split at hread
  · cases hread
    exact h
  · rename_i a m pipe _
    obtain ⟨⟨b, v⟩, hstore, hread⟩ := bind_eq_ok.1 hread
    obtain ⟨⟨q, v'⟩, henq, hstore⟩ := bind_eq_ok.1 hstore
    cases hstore
    have hq : (queue ok).Reachable ⟨s.mailbox.queueCfg, q⟩ :=
      reachable_call (h.mailboxes a) (l := .enqueue m) (w := v = .queued true)
        (by simp [Held.call, henq, ok_bind]) (by simp)
    have hset : Queues ok (s.setMailbox { s.mailbox with
        mailboxes := s.mailbox.mailboxes.set a q } pipe) := by
      refine ⟨h.services, fun a' => ?_⟩
      rw [setMailbox_mailbox, Mailbox.require_set]
      split
      · exact hq
      · exact h.mailboxes a'
    cases v with
    | queued w =>
      cases hread
      exact hset
    | refused =>
      cases hread
      exact hset.frame rfl (fun _ => rfl) rfl

theorem queues_reads {pipe : List (Str × Msg)} (h : Queues ok s)
    (hread : mailboxReads pipe s = .ok s') : Queues ok s' := by
  induction pipe generalizing s with
  | nil =>
    cases hread
    exact h
  | cons p pipe ih =>
    obtain ⟨s₁, h1, h2⟩ := bind_eq_ok.1 hread
    exact ih (queues_read h h1) h2

theorem queues_query {r : Option Msg} (h : Queues ok s) (hq : s.mailboxQuery a = .ok (s', r)) :
    Queues ok s' := by
  obtain ⟨s₁, hread, hq⟩ := bind_eq_ok.1 hq
  obtain ⟨⟨b, m⟩, hquery, hq⟩ := bind_eq_ok.1 hq
  cases hq
  have h₁ := queues_reads h hread
  unfold Mailbox.query at hquery
  split at hquery
  · cases hquery
    exact h₁.frame rfl (fun _ => rfl) rfl
  · rename_i l hl
    obtain ⟨⟨q, m⟩, hdeq, hquery⟩ := bind_eq_ok.1 hquery
    cases hquery
    have hreq : s₁.mailbox.require a = l := by rw [Mailbox.require, hl]; rfl
    have hold := h₁.mailboxes a
    rw [hreq] at hold
    have hnew : (queue ok).Reachable ⟨s₁.mailbox.queueCfg, q⟩ :=
      reachable_call hold (l := .dequeue) (w := false) (by simp [Held.call, hdeq, ok_bind])
        (by simp)
    refine ⟨h₁.services, fun a' => ?_⟩
    rw [setMailbox_mailbox, Mailbox.require_set]
    split
    · exact hnew
    · exact h₁.mailboxes a'

theorem queues_drain (h : Queues ok s) (hd : Drain c k a s s') : Queues ok s' := by
  induction hd with
  | anonymous _ => exact h
  | empty _ hq => exact queues_query h hq
  | next _ hq _ ih => exact ih ((queues_query h hq).frame rfl (fun _ => rfl) rfl)

theorem queues_mailed (h : Queues ok s) (hm : Mailed c a s s') : Queues ok s' := by
  cases hm with
  | direct _ _ hd =>
    refine queues_drain ?_ hd
    exact h.frame rfl (fun _ => rfl) rfl
  | stored _ => exact h.frame rfl (fun _ => rfl) rfl

/-! ## Services -/

theorem queues_dispatched {b : Bool} (h : Queues ok s) (hd : Dispatched rex name m s s' b) :
    Queues ok s' := by
  have hqueue : ∀ name', (s'.service name').queue = (s.service name').queue := by
    intro name'
    by_cases hn : name' = name
    · rw [hn, (dispatched_service hd).2]
    · rw [dispatched_service_ne hd hn]
  cases hd with
  | none _ => exact h.frame rfl hqueue rfl
  | some _ _ => exact h.frame rfl hqueue rfl

theorem queues_requested (h : Queues ok s) (hm : Requested rex c a s s') : Queues ok s' := by
  have hreq : Queues ok (s.requesting c a) :=
    h.frame rfl (fun name => by rw [service_requesting]) rfl
  have henq : ∀ {s₁ : Server} {q : Msgq} {v : Verdict}, Queues ok s₁ →
      (s₁.service s.message.address).queue.enqueue s₁.serviceCfg (s.messageFrom a) = .ok (q, v) →
      Queues ok (s₁.setService s.message.address
        ((s₁.service s.message.address).setQueue q)) := by
    intro s₁ q v h₁ hcall
    refine h₁.setQueue (reachable_call (h₁.services s.message.address)
      (l := .enqueue (s.messageFrom a)) (w := v = .queued true) ?_ (by simp))
    simp [Held.call, hcall, ok_bind]
  cases hm with
  | dispatched hd => exact queues_dispatched hreq hd
  | queued hd hcall => exact henq (queues_dispatched hreq hd) hcall
  | refused hd hcall =>
    exact (henq (queues_dispatched hreq hd) hcall).frame rfl (fun _ => rfl) rfl

theorem queues_scan {mo : Option Msg} (hscan : Scan rex name mo s s') (h : Queues ok s) :
    Queues ok s' := by
  have hnext : ∀ {s₁ : Server} {q : Msgq} {m : Msg}, Queues ok s₁ →
      (queue ok).Reachable ⟨s₁.serviceCfg, q⟩ →
      Queues ok ((s₁.unlink m).setService name ((s₁.service name).setQueue q.next.1)) := by
    intro s₁ q m h₁ hq
    have hunlink : Queues ok (s₁.unlink m) := h₁.frame rfl (fun _ => rfl) rfl
    exact hunlink.setQueue (reachable_call hq (l := .next) rfl (by simp))
  have hlink : ∀ {s : Server} (m : Msg), Queues ok s → Queues ok (s.link m) :=
    fun _ h => h.frame rfl (fun _ => rfl) rfl
  induction hscan with
  | done => exact h
  | skip hd _ ih =>
    have h₁ := queues_dispatched (hlink _ h) hd
    exact ih (hnext h₁ (h₁.services name))
  | @take m s s₁ s' q hd hdeq _ ih =>
    have h₁ := queues_dispatched (hlink m h) hd
    refine ih (hnext h₁ (reachable_call (h₁.services name) (l := .dequeueCursor) (w := false)
      ?_ (by simp)))
    simp [Held.call, hdeq, ok_bind]

theorem queues_leave (h : Queues ok s) (c : Cid) (k : Client) (a : Str) :
    Queues ok (s.leave c k a) :=
  h.frame rfl (unmoved_leave s c k a).queues rfl

theorem queues_enter (h : Queues ok s) (c : Cid) (e : Event) : Queues ok (s.enter c e) :=
  h.frame rfl (fun _ => rfl) rfl

theorem queues_evicted (h : Queues ok s) (hev : Evicted a s s') : Queues ok s' := by
  cases hev with
  | nobody _ => exact h
  | holder _ _ _ => exact queues_leave (queues_enter h _ _) _ _ _

theorem queues_answer (h : Queues ok s) (c : Cid) (k : Client) (i : Id) :
    Queues ok (s.answer c k i) := h.frame rfl (fun _ => rfl) rfl

theorem queues_setStatus (h : Queues ok s) (n : UInt16) : Queues ok (s.setStatus n) :=
  h.frame rfl (fun _ => rfl) rfl

theorem queues_fail (h : Queues ok s) (c : Cid) (k : Client) (a : Str) :
    Queues ok (s.fail c k a) :=
  queues_leave (queues_answer (queues_setStatus (queues_enter h c .exception) failed) c k .error)
    c k a

/-! ## All steps -/

theorem queues_handled {e : Event} (h : Queues ok s) (hh : Handled rex s c e s') :
    Queues ok s' := by
  have henter : ∀ e, Queues ok (s.enter c e) := queues_enter h c
  cases hh with
  | @opened k s₁ _ _ _ hev hd =>
    have h₁ := queues_evicted (henter _) hev
    have hreg : Queues ok (s₁.register c k s.message.address) := by
      rw [register_eq]
      exact h₁.frame rfl (fun _ => rfl) rfl
    exact queues_drain hreg hd
  | mailed _ hm => exact queues_mailed (henter _) hm
  | requested _ hm => exact queues_requested (henter _) hm
  | @offered k a s₁ s' _ hs₁ hscan =>
    have h₁ : Queues ok s₁ := by
      rw [hs₁]
      refine (henter .serviceOffer).frame rfl (fun name => ?_) rfl
      rw [service_offering]
      split <;> rfl
    have hfirst := reachable_call (h₁.services s.message.address) (l := .first) rfl (by simp)
    exact queues_scan hscan (h₁.setQueue hfirst)
  | unwritten _ _ => exact queues_fail (henter _) _ _ _
  | confirmed _ => exact queues_fail (henter _) _ _ _
  | closed _ => exact queues_leave (queues_answer (henter _) _ _ _) _ _ _
  | expired _ => exact queues_leave (henter _) _ _ _
  | invalid _ _ =>
    exact queues_leave (queues_answer (queues_setStatus (henter _) _) _ _ _) _ _ _
  | _ => exact h.frame rfl (fun _ => rfl) rfl

theorem queues_required {p : Proto} {rest : List Frame} {key : Key} {s₁ : Server} (h : Queues ok s)
    (hreq : (s.received p rest).clientRequire key = (c, s₁)) : Queues ok s₁ := by
  rcases clientRequire_cases hreq with ⟨-, rfl⟩ | ⟨-, -, rfl⟩
  · exact h.frame rfl (fun _ => rfl) rfl
  · exact h.frame rfl (fun _ => rfl) rfl

theorem queues_received {parts : List Frame} (h : Queues ok s) (hrecv : Received rex s parts s') :
    Queues ok s' := by
  cases hrecv with
  | interrupted _ => exact h.frame rfl (fun _ => rfl) rfl
  | ignored _ => exact queues_required h rfl
  | handled _ hreq hh =>
    refine queues_handled ?_ hh
    exact (queues_required h hreq).frame rfl (fun _ => rfl) rfl

theorem queueCfg_reads {pipe : List (Str × Msg)} (hread : mailboxReads pipe s = .ok s') :
    s'.mailbox.queueCfg = s.mailbox.queueCfg := by
  induction pipe generalizing s with
  | nil =>
    cases hread
    rfl
  | cons p pipe ih =>
    obtain ⟨s₁, h1, h2⟩ := bind_eq_ok.1 hread
    refine (ih h2).trans ?_
    unfold mailboxRead at h1
    split at h1
    · cases h1
      rfl
    · obtain ⟨⟨b, v⟩, hstore, h1⟩ := bind_eq_ok.1 h1
      obtain ⟨⟨q, v'⟩, -, hstore⟩ := bind_eq_ok.1 hstore
      cases hstore
      cases v <;> cases h1 <;> rfl

theorem queues_moved {l : Label} (h : Queues ok s) (hok : Configures ok s l)
    (hm : Moved rex s l s') : Queues ok s' := by
  cases hm with
  | router _ _ hrecv => exact queues_received h hrecv
  | more _ hrecv => exact queues_received h hrecv
  | expired _ _ _ hh => exact queues_handled h hh
  | acked _ _ _ _ =>
    unfold Server.put
    split <;> exact h.frame rfl (fun _ => rfl) rfl
  | mailbox _ hread => exact queues_read h hread
  | @configured service mailbox s₁ _ hreads =>
    have hcfg : Queues ok { s with serviceCfg := service } :=
      ⟨fun name => reachable_configure (h.services name) hok.1, h.mailboxes⟩
    have h₁ := queues_reads hcfg hreads
    refine ⟨h₁.services, fun a => reachable_configure (h₁.mailboxes a) ?_⟩
    rw [queueCfg_reads hreads]
    exact hok.2
  | _ => exact h.frame rfl (fun _ => rfl) rfl

/-- **Every queue of the broker has come about by calls.** -/
theorem queues_inductive (rex : Str → Str → Bool) (ok : MsgqCfg → MsgqCfg → Prop) :
    ((broker rex).within (Configures ok)).Inductive fun s => Regular s ∧ Queues ok s := by
  refine ((regular_inductive rex).within _).strengthen (Q := Queues ok) ?_ ?_
  · rintro s rfl
    exact queues_new ok
  · intro s l s' hr _ h hstep
    exact queues_moved h hstep.1 (moved_of_step hr.reg hr.wired hstep.2)

/-! ## The accounts -/

/-- A removal takes one message out and its bytes off. -/
theorem removal_of_call {x x' : Held} {l : Call} {w : Bool} (hx : x.queue.Accounted)
    (hl : l = .dequeue ∨ l = .dequeueCursor) (h : x.call l = .ok (x', w)) :
    x'.queue.items = x.queue.items ∨ ∃ pre m post, x.queue.items = pre ++ m :: post ∧
      x'.queue.items = pre ++ post ∧ x'.queue.messagesSize + m.bytes = x.queue.messagesSize := by
  have hsize : x.queue.messagesSize = x.bytes := hx.size
  cases called_of_call hx h with
  | accepted => simp at hl
  | refused => exact .inl rfl
  | removed _ hitems hleft hless _ =>
    exact .inr ⟨_, _, _, hitems, hleft, hless.trans hsize.symm⟩
  | moved hitems _ _ _ => exact .inl hitems
  | configured => exact .inl rfl

/-- **The byte count of a queue never drifts.** Whatever is called, in any order and
under any configurations: the count is that of the messages in the queue, a removal
takes off bytes that are in it, and with a limit that is not lowered the count stays
within it. The queues of the broker are of this kind in every reachable state. -/
theorem queue_accounts (rex : Str → Str → Bool) :
    (∀ ok x, (queue ok).Reachable x → x.queue.messagesSize = x.bytes ∧
      (∀ m ∈ x.queue.items, m.bytes ≤ x.queue.messagesSize) ∧
      (∀ l, l.HasContent → ∃ x' w, x.call l = .ok (x', w)) ∧
      ∀ l x' w, l = .dequeue ∨ l = .dequeueCursor → x.call l = .ok (x', w) →
        x'.queue.items = x.queue.items ∨ ∃ pre m post, x.queue.items = pre ++ m :: post ∧
          x'.queue.items = pre ++ post ∧
          x'.queue.messagesSize + m.bytes = x.queue.messagesSize) ∧
    (∀ x, (queue Raised).Reachable x → Fits x.cfg.limit x.queue.messagesSize) ∧
    ∀ ok s, ((broker rex).within (Configures ok)).Reachable s → Queues ok s := by
  refine ⟨fun ok x hx => ?_, fun x hx => (within_limit.reachable x hx).2,
    fun ok s hs => ((queues_inductive rex ok).reachable s hs).2⟩
  have hacc := (accounted_inductive ok).reachable x hx
  refine ⟨hacc.size, fun m hm => hacc.le hm, fun l hl => ?_, fun l x' w hl h =>
    removal_of_call hacc hl h⟩
  obtain ⟨x', w, hcall, -⟩ := call_cases hacc hl
  exact ⟨x', w, hcall⟩

/-- The request that waits has one byte. -/
theorem queue_accounts_serviceRun :
    ∃ s, Server.new.steps (fun p x => decide (p = x)) (fun _ _ => True) 20 serviceRun = some s ∧
      (s.service (.ofBytes [115])).queue.items.length = 1 ∧
      (s.service (.ofBytes [115])).queue.messagesSize =
        load Msg.bytes (s.service (.ofBytes [115])).queue.items := by
  have hrun : ((Server.new.steps (fun p x => decide (p = x)) (fun _ _ => True) 20 serviceRun).any
      fun s => (s.service (.ofBytes [115])).queue.items.length = 1) = true := by decide +kernel
  obtain ⟨s, hs, hp⟩ := (Option.any_eq_true _ _).1 hrun
  have hreach : ((broker fun p x => decide (p = x)).within
      (Configures fun _ _ => True)).Reachable s :=
    (reachable_of_steps hs).weaken fun _ l _ => by cases l <;> simp [Configures]
  obtain ⟨hcalls, -, hqueues⟩ := queue_accounts fun p x => decide (p = x)
  exact ⟨s, hs, of_decide_eq_true hp,
    (hcalls _ _ ((hqueues _ s hreach).services (.ofBytes [115]))).1⟩

end
end Malamute.L3
