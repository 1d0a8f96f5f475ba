import Malamute.L3Server.Registry

/-!
# What the parts of a handler leave alone

`MailboxOnly`: a mailbox query reads what the pipe holds, and touches nothing
but the mailbox, the pipe and reference counts. `SameClients`: mailboxes,
services and deliveries have no effect on the clients, on the address table
and on the streams. `dispatched_service`: a dispatch may move one offer to the
end, and changes nothing else of the services.
-/
namespace Malamute.L3
open Malamute.Core Malamute.L1 Malamute.L2

namespace Server
variable {rex : Str → Str → Bool} {s s' : Server} {c : Cid} {k : Client}

/-! ## Mailbox queries -/

/-- What reading the mailbox pipe may change: the mailbox, the pipe, reference
counts; it may report dropped messages. -/
def MailboxOnly (s s' : Server) : Prop :=
  ∃ (b : Mailbox) (pipe : List (Str × Msg)) (refs : Nat → Int) (ms : List (Str × Msg)), s' = { s with
    mailbox := b, mailboxPipe := pipe, refs := refs,
    trace := s.trace ++ ms.map fun p => .dropped (.mailbox p.1) p.2 }

theorem MailboxOnly.refl (s : Server) : MailboxOnly s s :=
  ⟨s.mailbox, s.mailboxPipe, s.refs, [], by simp⟩

theorem MailboxOnly.trans {s₁ s₂ s₃ : Server} (h1 : MailboxOnly s₁ s₂) (h2 : MailboxOnly s₂ s₃) :
    MailboxOnly s₁ s₃ := by
  obtain ⟨_, _, _, ms, rfl⟩ := h1
  obtain ⟨b, pipe, refs, ms', rfl⟩ := h2
  exact ⟨b, pipe, refs, ms ++ ms', by simp⟩

theorem mailboxRead_only (h : s.mailboxRead = .ok s') : MailboxOnly s s' := by
  unfold mailboxRead at h
  split at h
  · cases h; exact .refl s
  · rename_i a m pipe _
    obtain ⟨⟨b, v⟩, -, h⟩ := bind_eq_ok.1 h
    cases v with
    | queued w => cases h; exact ⟨b, pipe, s.refs, [], by simp [setMailbox]⟩
    | refused => cases h; exact ⟨b, pipe, _, [(a, m)], rfl⟩

theorem mailboxReads_only {pipe : List (Str × Msg)} (h : mailboxReads pipe s = .ok s') :
    MailboxOnly s s' := by
  induction pipe generalizing s with
  | nil => cases h; exact .refl _
  | cons p pipe ih =>
    obtain ⟨s₁, h1, h2⟩ := bind_eq_ok.1 h
    exact (mailboxRead_only h1).trans (ih h2)

theorem mailboxQuery_only {a : Str} {r : Option Msg} (h : s.mailboxQuery a = .ok (s', r)) :
    MailboxOnly s s' := by
  obtain ⟨s₁, h1, h⟩ := bind_eq_ok.1 h
  obtain ⟨⟨b, m⟩, h2, h⟩ := bind_eq_ok.1 h
  cases h
  exact (mailboxReads_only h1).trans ⟨b, s₁.mailboxPipe, s₁.refs, [], by simp [setMailbox]⟩

theorem MailboxOnly.open (h : MailboxOnly s s') {a : Str} (ho : Open s c k a) : Open s' c k a := by
  obtain ⟨b, pipe, refs, ms, rfl⟩ := h
  exact ho.frame rfl rfl rfl

/-! ## Services -/

theorem setService_setService (s : Server) (name : Str) (v w : Service) :
    (s.setService name v).setService name w = s.setService name w := by
  simp only [setService, Table.set_set]

@[simp] theorem service_setService (s : Server) (name : Str) (v : Service) :
    (s.setService name v).service name = v := by
  simp [service]

theorem service_frame {s' : Server} (h : s'.services = s.services) (name : Str) :
    s'.service name = s.service name := by
  rw [service, h]; rfl

/-- A dispatch may move one offer to the end, and changes nothing else of the
service. -/
theorem dispatched_service {name : Str} {m : Msg} {b : Bool} (h : Dispatched rex name m s s' b) :
    (s'.service name).offers.items.Perm (s.service name).offers.items ∧
      (s'.service name).queue = (s.service name).queue := by
  cases h with
  | none hs =>
    have hi := CursorList.items_seek (fun o => rex o.pattern m.subject)
      (s.service name).offers.reset
    rw [hs] at hi
    simp only [service_setService, Service.setOffers_offers, Service.setOffers_queue, and_true]
    rw [hi]; exact .refl _
  | some hs ht =>
    rename_i offers o t
    obtain ⟨pre, suf, hp, -, -, rfl⟩ := CursorList.seek_some hs
    simp only [service_setService, Service.setOffers_offers, Service.setOffers_queue, and_true]
    rw [CursorList.items_moveEnd _ rfl]
    have hi : (s.service name).offers.items = pre ++ o :: suf := hp
    rw [hi]
    simp only [CursorList.reset, List.append_nil, List.reverse_reverse, List.append_assoc]
    exact List.Perm.append_left pre (List.perm_append_comm : (suf ++ [o]).Perm ([o] ++ suf))

end Server

/-! ## Clients and streams -/

open Server

structure SameClients (s s' : Server) : Prop where
  ctx : s'.ctx = s.ctx
  clients : s'.clients = s.clients
  zombies : s'.zombies = s.zombies
  addresses : s'.addresses = s.addresses
  streams : s'.streams = s.streams
  clientId : s'.clientId = s.clientId
  rest : s'.rest = s.rest
  running : s'.running = s.running

theorem SameClients.refl (s : Server) : SameClients s s := ⟨rfl, rfl, rfl, rfl, rfl, rfl, rfl, rfl⟩

theorem SameClients.trans {s₁ s₂ s₃ : Server} (h : SameClients s₁ s₂) (h' : SameClients s₂ s₃) :
    SameClients s₁ s₃ where
  ctx := h'.ctx.trans h.ctx
  clients := h'.clients.trans h.clients
  zombies := h'.zombies.trans h.zombies
  addresses := h'.addresses.trans h.addresses
  streams := h'.streams.trans h.streams
  clientId := h'.clientId.trans h.clientId
  rest := h'.rest.trans h.rest
  running := h'.running.trans h.running

section Same
variable {rex : Str → Str → Bool} {s s' : Server} {c : Cid} {k : Client} {a name : Str}

theorem Open.same (h : Open s c k a) (hs : SameClients s s') : Open s' c k a :=
  h.frame hs.ctx hs.clients hs.addresses

theorem Server.MailboxOnly.same (h : MailboxOnly s s') : SameClients s s' := by
  obtain ⟨b, pipe, refs, ms, rfl⟩ := h
  exact ⟨rfl, rfl, rfl, rfl, rfl, rfl, rfl, rfl⟩

theorem delivered_same (s : Server) (c : Cid) (k : Client) (e : Event) (id : Id) (m : Msg) :
    SameClients s ((s.enter c e).deliver c k id m) := ⟨rfl, rfl, rfl, rfl, rfl, rfl, rfl, rfl⟩

theorem drain_same (h : Drain c k a s s') : SameClients s s' := by
  induction h with
  | anonymous _ => exact .refl _
  | empty _ hq => exact (mailboxQuery_only hq).same
  | next _ hq _ ih => exact ((mailboxQuery_only hq).same.trans (delivered_same ..)).trans ih

theorem dispatched_same {m : Msg} {b : Bool} (h : Dispatched rex name m s s' b) :
    SameClients s s' := by
  cases h <;> exact ⟨rfl, rfl, rfl, rfl, rfl, rfl, rfl, rfl⟩

theorem setService_same (s : Server) (m : Msg) (name : Str) (v : Service) :
    SameClients s ((s.unlink m).setService name v) := ⟨rfl, rfl, rfl, rfl, rfl, rfl, rfl, rfl⟩

theorem link_same (s : Server) (m : Msg) : SameClients s (s.link m) :=
  ⟨rfl, rfl, rfl, rfl, rfl, rfl, rfl, rfl⟩

theorem scan_same {m : Option Msg} (h : Scan rex name m s s') : SameClients s s' := by
  induction h with
  | done => exact .refl _
  | @skip m s s₁ s' hd _ ih =>
    exact (((link_same s m).trans (dispatched_same hd)).trans (setService_same ..)).trans ih
  | @take m s s₁ s' queue hd _ _ ih =>
    exact (((link_same s m).trans (dispatched_same hd)).trans (setService_same ..)).trans ih

theorem mailed_same (h : Mailed c a s s') : SameClients s s' := by
  cases h with
  | @direct t target _ _ _ hd =>
    have hnew : SameClients s (s.mailing c a) := ⟨rfl, rfl, rfl, rfl, rfl, rfl, rfl, rfl⟩
    exact (hnew.trans (delivered_same ..)).trans (drain_same hd)
  | stored _ => exact ⟨rfl, rfl, rfl, rfl, rfl, rfl, rfl, rfl⟩

theorem requested_same (h : Requested rex c a s s') : SameClients s s' := by
  have hreq : SameClients s (s.requesting c a) := ⟨rfl, rfl, rfl, rfl, rfl, rfl, rfl, rfl⟩
  cases h with
  | dispatched hd => exact hreq.trans (dispatched_same hd)
  | @queued s₁ queue w hd _ =>
    have hq : ∀ v, SameClients s₁ (s₁.setService s.message.address v) :=
      fun v => ⟨rfl, rfl, rfl, rfl, rfl, rfl, rfl, rfl⟩
    exact (hreq.trans (dispatched_same hd)).trans (hq _)
  | @refused s₁ queue hd _ =>
    have hq : ∀ v, SameClients s₁ (((s₁.setService s.message.address v).unlink
        (s.messageFrom a)).log (.dropped (.service s.message.address) (s.messageFrom a))) :=
      fun v => ⟨rfl, rfl, rfl, rfl, rfl, rfl, rfl, rfl⟩
    exact (hreq.trans (dispatched_same hd)).trans (hq _)

end Same
end Malamute.L3
