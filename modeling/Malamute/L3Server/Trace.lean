import Malamute.L3Server.Invariant

/-!
# The trace only grows

An event that is handled is the first thing its handling adds
(`handled_trace`); a step adds to the end (`moved_trace`), and so does a run.
-/
namespace Malamute.L3
open Malamute.Core Malamute.L1 Malamute.L2 Server

variable {rex : Str → Str → Bool} {s s' : Server} {c : Cid} {k : Client} {a : Str}

/-- An observation about a reply, or about messages between clients. -/
def Obs.Talk : Obs → Prop
  | .event _ _ | .sent _ _ _ _ | .mailed _ _ | .requested _ _ | .dispatched _ _ _ _ => True
  | .dropped _ _ => True
  | _ => False

/-- The trace grows, by observations of one kind. -/
def Grows (P : Obs → Prop) (s s' : Server) : Prop := ∃ t, s'.trace = s.trace ++ t ∧ ∀ o ∈ t, P o

section
variable {P : Obs → Prop}

theorem Grows.trans {s₁ : Server} (h : Grows P s s₁) (h' : Grows P s₁ s') : Grows P s s' := by
  obtain ⟨t, ht, hp⟩ := h
  obtain ⟨t', ht', hp'⟩ := h'
  refine ⟨t ++ t', by rw [ht', ht, List.append_assoc], fun o ho => ?_⟩
  exact (List.mem_append.1 ho).elim (hp o) (hp' o)

theorem Grows.mono {Q : Obs → Prop} (h : Grows P s s') (hPQ : ∀ o, P o → Q o) : Grows Q s s' := by
  obtain ⟨t, ht, hp⟩ := h
  exact ⟨t, ht, fun o ho => hPQ o (hp o ho)⟩

theorem Grows.trace (h : Grows P s s') : s.trace <+: s'.trace := by
  obtain ⟨t, ht, -⟩ := h
  exact ⟨t, ht.symm⟩

theorem grows_same (h : s'.trace = s.trace) : Grows P s s' := ⟨[], by simpa using h, by simp⟩

theorem grows_one {o : Obs} (h : s'.trace = s.trace ++ [o]) (ho : P o) : Grows P s s' :=
  ⟨[o], h, List.forall_mem_singleton.2 ho⟩

/-- A part of what has been added is of the kind. -/
theorem Grows.part {s₁ s₂ : Server} (h : Grows P s s') (h₁ : s.trace <+: s₁.trace)
    (h₂ : s₁.trace <+: s₂.trace) (h₃ : s₂.trace <+: s'.trace) : Grows P s₁ s₂ := by
  obtain ⟨t, ht, hp⟩ := h
  obtain ⟨u, hu⟩ := h₁
  obtain ⟨v, hv⟩ := h₂
  refine ⟨v, hv.symm, fun o ho => hp o ?_⟩
  rw [← hv, ← hu, ht, List.append_assoc, List.prefix_append_right_inj] at h₃
  exact h₃.subset (List.mem_append_right _ ho)

/-- What has been added at once is of the kind. -/
theorem Grows.mem (h : Grows P s s') {t : List Obs} (ht : s.trace ++ t <+: s'.trace) :
    ∀ o ∈ t, P o := by
  obtain ⟨t', ht', hp⟩ := h
  rw [ht', List.prefix_append_right_inj] at ht
  exact fun o ho => hp o (ht.subset ho)

theorem Server.MailboxOnly.grows (h : MailboxOnly s s') (hp : ∀ b m, P (.dropped b m)) :
    Grows P s s' := by
  obtain ⟨b, pipe, refs, ms, rfl⟩ := h
  refine ⟨_, rfl, fun o ho => ?_⟩
  obtain ⟨p, -, rfl⟩ := List.mem_map.1 ho
  exact hp _ _

end

/-! ## Messages between clients -/

/-- Holds of what a message between clients leaves in the trace. -/
structure Relayed (P : Obs → Prop) : Prop where
  event : ∀ c e, P (.event c e)
  delivered : ∀ c a (p : Proto) key hand id,
    id = .streamDeliver ∨ id = .mailboxDeliver ∨ id = .serviceDeliver →
      P (.sent c a (p.setId id key).wire hand)
  mailed : ∀ c m, P (.mailed c m)
  requested : ∀ c m, P (.requested c m)
  dispatched : ∀ name os o m, P (.dispatched name os o m)
  dropped : ∀ b m, P (.dropped b m)

theorem Relayed.mono {P Q : Obs → Prop} (h : Relayed P) (hPQ : ∀ o, P o → Q o) : Relayed Q where
  event c e := hPQ _ (h.event c e)
  delivered c a p key hand id hid := hPQ _ (h.delivered c a p key hand id hid)
  mailed c m := hPQ _ (h.mailed c m)
  requested c m := hPQ _ (h.requested c m)
  dispatched name os o m := hPQ _ (h.dispatched name os o m)
  dropped b m := hPQ _ (h.dropped b m)

theorem relayed_talk : Relayed Obs.Talk :=
  ⟨fun _ _ => trivial, fun _ _ _ _ _ _ _ => trivial, fun _ _ => trivial, fun _ _ => trivial,
    fun _ _ _ _ => trivial, fun _ _ => trivial⟩

section
variable {P : Obs → Prop} (hP : Relayed P)
include hP

theorem Relayed.deliver (s : Server) (c : Cid) (k : Client) (e : Event) (m : Msg) {id : Id}
    (hid : id = .streamDeliver ∨ id = .mailboxDeliver ∨ id = .serviceDeliver) :
    Grows P s ((s.enter c e).deliver c k id m) := by
  have henter : Grows P s (s.enter c e) := grows_one rfl (hP.event c e)
  exact henter.trans (grows_one rfl (hP.delivered _ _ _ _ _ _ hid))

theorem Relayed.drain (h : Drain c k a s s') : Grows P s s' := by
  induction h with
  | anonymous _ => exact grows_same rfl
  | empty _ hq => exact (mailboxQuery_only hq).grows hP.dropped
  | next _ hq _ ih =>
    exact (((mailboxQuery_only hq).grows hP.dropped).trans
      (hP.deliver _ c k .mailboxMessage _ (.inr (.inl rfl)))).trans ih

theorem Relayed.dispatch {name : Str} {m : Msg} {b : Bool} (h : Dispatched rex name m s s' b) :
    Grows P s s' := by
  cases h with
  | none _ => exact grows_same rfl
  | @some offers o t _ _ =>
    have hlog : Grows P s (s.log (.dispatched name (s.service name).offers.items o m)) :=
      grows_one rfl (hP.dispatched _ _ _ _)
    exact (hlog.trans (hP.deliver _ o.client t .serviceMessage m (.inr (.inr rfl)))).trans
      (grows_same rfl)

theorem Relayed.scan {name : Str} {m : Option Msg} (h : Scan rex name m s s') : Grows P s s' := by
  induction h with
  | done => exact grows_same rfl
  | @skip m s _ _ hd _ ih =>
    have hlink : Grows P s (s.link m) := grows_same rfl
    exact ((hlink.trans (hP.dispatch hd)).trans (grows_same rfl)).trans ih
  | @take m s _ _ _ hd _ _ ih =>
    have hlink : Grows P s (s.link m) := grows_same rfl
    exact ((hlink.trans (hP.dispatch hd)).trans (grows_same rfl)).trans ih

theorem Relayed.mail (h : Mailed c a s s') : Grows P s s' := by
  have hnew : Grows P s (s.mailing c a) := grows_one rfl (hP.mailed _ _)
  cases h with
  | @direct t target _ _ _ hd =>
    exact (hnew.trans (hP.deliver _ target t .mailboxMessage _ (.inr (.inl rfl)))).trans
      (hP.drain hd)
  | stored _ => exact hnew.trans (grows_same rfl)

theorem Relayed.request (h : Requested rex c a s s') : Grows P s s' := by
  have hreq : Grows P s (s.requesting c a) := grows_one rfl (hP.requested _ _)
  cases h with
  | dispatched hd => exact hreq.trans (hP.dispatch hd)
  | queued hd _ => exact (hreq.trans (hP.dispatch hd)).trans (grows_same rfl)
  | refused hd _ => exact (hreq.trans (hP.dispatch hd)).trans (grows_one rfl (hP.dropped _ _))

end

/-! ## Events and steps -/

theorem leave_trace (s : Server) (c : Cid) (k : Client) (a : Str) :
    s.trace <+: (s.leave c k a).trace := List.prefix_append ..

theorem evicted_trace (h : Evicted a s s') : s.trace <+: s'.trace := by
  cases h with
  | nobody _ => exact List.prefix_rfl
  | @holder old t _ _ _ =>
    have henter : s.trace <+: (s.enter old .expired).trace := List.prefix_append ..
    exact henter.trans (leave_trace ..)

/-- The event comes first. -/
theorem handled_trace {e : Event} (h : Handled rex s c e s') :
    s.trace ++ [.event c e] <+: s'.trace := by
  have henter : s.trace ++ [.event c e] = (s.enter c e).trace := rfl
  -- an observation before the answer
  have hlog : ∀ (tr : List Obs) (o₁ o₂ : Obs), tr <+: tr ++ [o₁] ++ [o₂] := fun tr o₁ o₂ =>
    (List.prefix_append tr [o₁]).trans (List.prefix_append ..)
  have hans : ∀ (s₁ : Server) (k : Client) (a : Str) (id : Id),
      s₁.trace <+: ((s₁.answer c k id).leave c k a).trace := fun s₁ k a id =>
    hlog s₁.trace _ _
  have hfail : ∀ (s₁ : Server) (k : Client) (a : Str), s₁.trace <+: (s₁.fail c k a).trace :=
    fun s₁ k a => (hlog s₁.trace (.event c .exception) _).trans (List.prefix_append ..)
  rw [henter]
  cases h with
  | opened _ _ hev hd =>
    refine ((evicted_trace hev).trans ?_).trans (relayed_talk.drain hd).trace
    rw [register_eq]
    exact List.prefix_append ..
  | departed _ _ => exact List.prefix_rfl
  | unopened _ _ _ => exact List.prefix_append ..
  | wrote _ => exact List.prefix_append ..
  | read _ => exact hlog ..
  | cancelled _ => exact hlog ..
  | published _ _ => exact List.prefix_append ..
  | unwritten _ _ => exact hfail ..
  | mailed _ hm => exact (relayed_talk.mail hm).trace
  | requested _ hm => exact (relayed_talk.request hm).trace
  | offered _ hs hscan =>
    subst hs
    refine List.IsPrefix.trans ?_ (relayed_talk.scan hscan).trace
    exact hlog ..
  | confirmed _ => exact hfail ..
  | credited _ => exact List.prefix_rfl
  | pinged _ => exact List.prefix_append ..
  | closed _ => exact hans ..
  | expired _ => exact leave_trace ..
  | @invalid k a _ _ _ => exact hans ((s.enter c e).setStatus commandInvalid) k a .error

theorem clientRequire_trace {key : Key} {s₁ : Server} (h : s.clientRequire key = (c, s₁)) :
    s₁.trace = s.trace := by
  rcases clientRequire_cases h with ⟨-, rfl⟩ | ⟨-, -, rfl⟩ <;> rfl

/-- The message that is read comes before its event. -/
theorem heard_trace {key : Key} {s₁ : Server} {frames : List Frame} {p : Proto} {e : Event}
    (h : s.clientRequire key = (c, s₁)) (hh : Handled rex (s₁.hear c frames p) c e s') :
    s.trace ++ [.received c ((s₁.ctx c).bind (·.address)) frames p.wire, .event c e] <+:
      s'.trace := by
  have htr := handled_trace hh
  rw [hear_trace, clientRequire_trace h, List.append_assoc] at htr
  exact htr

theorem received_trace {parts : List Frame} (h : Received rex s parts s') :
    s.trace <+: s'.trace := by
  cases h with
  | interrupted _ => exact List.prefix_rfl
  | @ignored p rest _ =>
    have htr : ((s.received p rest).clientRequire (p.routingId.getD [])).2.trace = s.trace :=
      clientRequire_trace (s := s.received p rest) rfl
    exact htr ▸ List.prefix_rfl
  | @handled p rest c s₁ _ _ hreq hh =>
    have htr := heard_trace hreq hh
    exact (List.prefix_append ..).trans htr

theorem put_trace (s : Server) (c : Cid) (k : Client) : (s.put c k).trace = s.trace := by
  unfold Server.put
  by_cases hz : k.refcount - 1 = 0 ∧ k.state = .zombie
  · rw [if_pos hz]; rfl
  · rw [if_neg hz]; rfl

theorem moved_trace {l : Label} (h : Moved rex s l s') : s.trace <+: s'.trace := by
  cases h with
  | router _ _ h => exact received_trace h
  | more _ h => exact received_trace h
  | expired _ _ _ h => exact (List.prefix_append ..).trans (handled_trace h)
  | @acked name st c up k _ _ _ _ =>
    exact ⟨[], (List.append_nil _).trans (put_trace (s.popStream name st up) c k).symm⟩
  | discarded _ _ _ _ _ => exact List.prefix_rfl
  | @delivered name st c m up k a _ _ _ _ =>
    exact (relayed_talk.deliver (s.popStream name st up) c k .streamMessage m (.inl rfl)).trace
  | command _ _ => exact List.prefix_rfl
  | message _ _ => exact List.prefix_append ..
  | mailbox _ hread =>
    exact ((mailboxRead_only hread).grows (P := Obs.Talk) fun _ _ => trivial).trace
  | configured _ hreads =>
    have hgrows := (mailboxReads_only hreads).grows (P := Obs.Talk) fun _ _ => trivial
    exact hgrows.trace

theorem run_trace {ls : List Label} (hr : Regular s) (h : (broker rex).Run s ls s') :
    s.trace <+: s'.trace := by
  induction h with
  | nil => exact List.prefix_rfl
  | snoc hrun hstep ih =>
    have hreg := (regular_inductive rex).run hr hrun
    exact ih.trans (moved_trace (moved_of_step hreg.reg hreg.wired hstep))

end Malamute.L3
