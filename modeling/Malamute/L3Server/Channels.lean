import Malamute.Core.Log
import Malamute.L3Server.Routing

/-!
# What becomes of a message

A message that the broker has read may be made into one of its own, which goes to a stream, into
a mailbox or to a service. Two messages that go the same way are handed out in the order in which
they were made.

* `minted_inductive`: messages are numbered in the order in which they are made.
* `delivery_minted`: every delivery is one of them, and `sender_told`: its sender has told the
  broker its address and its stream.
* `line_step`, `stream_step`: what a step hands out of a mailbox or service, and to the reader of
  a stream, and what waits there after it.
-/
namespace Malamute.L3
open Malamute.Core Malamute.L1 Malamute.L2 Server

/-- The message that is made, and for whom. -/
def Obs.made : Obs → Option (Cid × Msg)
  | .published c _ m | .mailed c m | .requested c m => some (c, m)
  | _ => none

/-- It was made from the message `w`. -/
def Obs.Spells (w : Wire) : Obs → Prop
  | .published _ _ m => ∃ body, w = .streamSend m.subject body ∧ m.content = some body
  | .mailed _ m => ∃ tracker timeout body,
      w = .mailboxSend m.address m.subject tracker timeout body ∧ m.content = some body
  | .requested _ m => ∃ tracker timeout body,
      w = .serviceSend m.address m.subject tracker timeout body ∧ m.content = some body
  | _ => False

/-- The delivery `v` hands out what was made. -/
def Obs.Hands (v : Wire) : Obs → Prop
  | .published _ name m => ∃ content, v = .streamDeliver name m.sender m.subject content ∧
      ∀ body, m.content = some body → content = body
  | .mailed _ m => ∃ tracker, v = Post.frame m tracker .mailbox
  | .requested _ m => ∃ tracker, v = Post.frame m tracker .service
  | _ => False

/-- The delivery `v` carries what was said in `w`: the subject and the content, and the address
of a mailbox or service. -/
def Conveys : Wire → Wire → Prop
  | .streamSend subject content, .streamDeliver _ _ subject' content' =>
    subject' = subject ∧ content' = content
  | .mailboxSend address subject _ _ content, .mailboxDeliver _ address' subject' _ content' =>
    address' = address ∧ subject' = subject ∧ content' = content
  | .serviceSend address subject _ _ content, .serviceDeliver _ address' subject' _ content' =>
    address' = address ∧ subject' = subject ∧ content' = content
  | _, _ => False

/-- What has been made. -/
def makings (t : List Obs) : List Obs := t.filter (·.made.isSome)

structure Mints (os : List Obs) (s s' : Server) : Prop where
  trace : ∃ t, s'.trace = s.trace ++ t ∧ makings t = os
  messageId : s'.messageId = s.messageId + os.length

/-- Messages are numbered in the order in which they are made. -/
structure Minted (s : Server) : Prop where
  dated : ∀ o ∈ s.trace, ∀ c m, o.made = some (c, m) → m.mid < s.messageId
  sorted : (makings s.trace).Pairwise fun o o' => ∀ c m c' m', o.made = some (c, m) →
    o'.made = some (c', m') → m.mid < m'.mid

/-- The messages that have been made. -/
def newMessages (t : List Obs) : List Msg := t.filterMap fun o => o.made.map Prod.snd

/-- A delivery: to whom, what, and of which message. -/
def Obs.handed : Obs → Option (Cid × Wire × Msg)
  | .sent c _ (some v) (some m) => if delivers v then some (c, v, m) else none
  | _ => none

/-- The line that a delivery comes from. -/
def lineOf : Wire → Option Line
  | .mailboxDeliver _ address _ _ _ => some (.mailbox address)
  | .serviceDeliver _ address subject _ _ => some (.service address subject)
  | _ => none

/-- The stream that a delivery comes from. -/
def streamed : Wire → Option Str
  | .streamDeliver name _ _ _ => some name
  | _ => none

/-- The address that a delivery gives for its sender. -/
def senderOf : Wire → Option Str
  | .streamDeliver _ sender _ _ => some sender
  | .mailboxDeliver sender _ _ _ _ => some sender
  | .serviceDeliver sender _ _ _ _ => some sender
  | _ => none

/-- What the sender of a delivery has told the broker: its address, and that it writes to the
stream. -/
def credentials : Wire → List Wire
  | .streamDeliver name sender _ _ => [.connectionOpen sender, .streamWrite name]
  | .mailboxDeliver sender _ _ _ _ => [.connectionOpen sender]
  | .serviceDeliver sender _ _ _ _ => [.connectionOpen sender]
  | _ => []

/-- The same of what is made. -/
def Obs.credentials : Obs → List Wire
  | .published _ name m => [.connectionOpen m.sender, .streamWrite name]
  | .mailed _ m | .requested _ m => [.connectionOpen m.sender]
  | _ => []

/-- What is handed out of the line `l`. -/
def handedFrom (l : Line) (t : List Obs) : List Msg :=
  t.filterMap fun o => o.handed.bind fun x => if lineOf x.2.1 = some l then some x.2.2 else none

/-- What a step hands out to the routing id `key` of the stream `name`. -/
def handedTo (s s' : Server) (key : Key) (name : Str) (t : List Obs) : List Msg :=
  t.filterMap fun o => o.handed.bind fun x =>
    if keyOf s s' x.1 = some key ∧ streamed x.2.1 = some name then some x.2.2 else none

/-- The messages of the stream `name` that wait for the routing id `key`. -/
def waitingAt (s : Server) (key : Key) (name : Str) : List Msg :=
  (s.clients.get key).elim [] fun c => waitingFor c (s.stream name)

/-- No routing id changes hands: it may only go to a new context. -/
structure Keyed (s s' : Server) : Prop where
  made : ∀ key c k, s'.ctx c = some k → s.clientId ≤ c → k.hashkey = key →
    c = s.clientId ∧ s.clients.get key = none
  stands : ∀ key c, Stands s' key c →
    Stands s key c ∨ c = s.clientId ∧ s.clients.get key = none

section
variable {rex : Str → Str → Bool} {s s' : Server} {c d : Cid} {k : Client} {a name : Str} {m : Msg}
  {o : Obs} {os os' : List Obs} {e : Event} {i : Id} {v w : Wire} {t : List Obs} {key : Key}

/-! ## What a step makes -/

theorem Mints.trans {s₁ : Server} (h : Mints os s s₁) (h' : Mints os' s₁ s') :
    Mints (os ++ os') s s' := by
  obtain ⟨⟨t, ht, rfl⟩, hid⟩ := h
  obtain ⟨⟨t', ht', rfl⟩, hid'⟩ := h'
  refine ⟨⟨t ++ t', by rw [ht', ht, List.append_assoc], List.filter_append ..⟩, ?_⟩
  rw [hid', hid, List.length_append, Nat.add_assoc]

theorem Mints.still {s₁ : Server} (h : Mints os s s₁) (h' : Mints [] s₁ s') : Mints os s s' := by
  have hboth := h.trans h'
  rwa [List.append_nil] at hboth

theorem mints_same (ht : s'.trace = s.trace) (hid : s'.messageId = s.messageId) : Mints [] s s' :=
  ⟨⟨[], by rw [ht, List.append_nil], rfl⟩, hid⟩

theorem mints_log (ht : s'.trace = s.trace ++ [o]) (ho : o.made = none)
    (hid : s'.messageId = s.messageId) : Mints [] s s' :=
  ⟨⟨[o], ht, by simp [makings, ho]⟩, hid⟩

theorem mints_one (ht : s'.trace = s.trace ++ [o]) (ho : o.made = some (c, m))
    (hid : s'.messageId = s.messageId + 1) : Mints [o] s s' :=
  ⟨⟨[o], ht, by simp [makings, ho]⟩, hid⟩

theorem mints_deliver (s : Server) (c : Cid) (k : Client) (e : Event) (m : Msg) :
    Mints [] s ((s.enter c e).deliver c k i m) := by
  have henter : Mints [] s (s.enter c e) := mints_log rfl rfl rfl
  exact henter.still (mints_log rfl rfl rfl)

theorem mints_mailboxOnly (h : MailboxOnly s s') : Mints [] s s' := by
  obtain ⟨b, pipe, refs, ms, rfl⟩ := h
  refine ⟨⟨_, rfl, List.filter_eq_nil_iff.2 fun o ho => ?_⟩, rfl⟩
  obtain ⟨p, -, rfl⟩ := List.mem_map.1 ho
  simp [Obs.made]

theorem mints_drain (h : Drain c k a s s') : Mints [] s s' := by
  induction h with
  | anonymous _ => exact mints_same rfl rfl
  | empty _ hq => exact mints_mailboxOnly (mailboxQuery_only hq)
  | next _ hq _ ih =>
    have hread := mints_mailboxOnly (mailboxQuery_only hq)
    exact (hread.still (mints_deliver _ c k .mailboxMessage _)).still ih

theorem mints_dispatched {b : Bool} (h : Dispatched rex name m s s' b) : Mints [] s s' := by
  cases h with
  | none _ => exact mints_same rfl rfl
  | @some offers o t _ _ =>
    have hlog : Mints [] s (s.log (.dispatched name (s.service name).offers.items o m)) :=
      mints_log rfl rfl rfl
    have hsent := hlog.still (mints_deliver (i := .serviceDeliver) _ o.client t .serviceMessage m)
    exact hsent.still (mints_same rfl rfl)

theorem mints_scan {mo : Option Msg} (h : Scan rex name mo s s') : Mints [] s s' := by
  induction h with
  | done => exact mints_same rfl rfl
  | @skip m s _ _ hd _ ih =>
    have hlink : Mints [] s (s.link m) := mints_same rfl rfl
    refine (hlink.still (mints_dispatched hd)).still (.still ?_ ih)
    exact mints_same rfl rfl
  | @take m s _ _ _ hd _ _ ih =>
    have hlink : Mints [] s (s.link m) := mints_same rfl rfl
    refine (hlink.still (mints_dispatched hd)).still (.still ?_ ih)
    exact mints_same rfl rfl

theorem mints_leave (s : Server) (c : Cid) (k : Client) (a : Str) : Mints [] s (s.leave c k a) :=
  mints_log (o := .left c k.readers) rfl rfl rfl

theorem mints_fail (s : Server) (c : Cid) (k : Client) (a : Str) : Mints [] s (s.fail c k a) := by
  have henter : Mints [] s (s.enter c .exception) := mints_log rfl rfl rfl
  have herror : Mints [] (s.enter c .exception)
      (((s.enter c .exception).setStatus failed).answer c k .error) := mints_log rfl rfl rfl
  exact (henter.still herror).still (mints_leave ..)

theorem mints_evicted (h : Evicted a s s') : Mints [] s s' := by
  cases h with
  | nobody _ => exact mints_same rfl rfl
  | @holder old t _ _ _ =>
    have henter : Mints [] s (s.enter old .expired) := mints_log rfl rfl rfl
    exact henter.still (mints_leave ..)

theorem mints_mailed (h : Mailed c a s s') : Mints [.mailed c (s.messageFrom a)] s s' := by
  have hnew : Mints [.mailed c (s.messageFrom a)] s (s.mailing c a) := mints_one rfl rfl rfl
  cases h with
  | @direct t target _ _ _ hd =>
    exact (hnew.still (mints_deliver _ target t .mailboxMessage _)).still (mints_drain hd)
  | stored _ => exact hnew.still (mints_same rfl rfl)

theorem mints_requested (h : Requested rex c a s s') :
    Mints [.requested c (s.messageFrom a)] s s' := by
  have hnew : Mints [.requested c (s.messageFrom a)] s (s.requesting c a) := mints_one rfl rfl rfl
  cases h with
  | dispatched hd => exact hnew.still (mints_dispatched hd)
  | queued hd _ => exact (hnew.still (mints_dispatched hd)).still (mints_same rfl rfl)
  | refused hd _ => exact (hnew.still (mints_dispatched hd)).still (mints_log rfl rfl rfl)

theorem heardAs_streamSend (h : heardAs w = .streamSend) :
    ∃ subject body, w = .streamSend subject body := by
  cases w with
  | streamSend subject body => exact ⟨subject, body, rfl⟩
  | _ => cases h

theorem heardAs_mailboxSend (h : heardAs w = .mailboxSend) :
    ∃ address subject tracker timeout body, w = .mailboxSend address subject tracker timeout body := by
  cases w with
  | mailboxSend address subject tracker timeout body => exact ⟨_, _, _, _, _, rfl⟩
  | _ => cases h

theorem heardAs_serviceSend (h : heardAs w = .serviceSend) :
    ∃ address subject tracker timeout body, w = .serviceSend address subject tracker timeout body := by
  cases w with
  | serviceSend address subject tracker timeout body => exact ⟨_, _, _, _, _, rfl⟩
  | _ => cases h

/-- **What the handling of an event makes**: nothing, or one message of the broker. -/
theorem mints_handled (h : Handled rex s c e s') : Mints [] s s' ∨
    e ≠ .expired ∧ ∃ o m, Mints [o] s s' ∧ o.made = some (c, m) ∧ m.mid = s.messageId ∧
      ∀ w p, s.message = w.load p → e = heardAs w → o.Spells w := by
  have henter : ∀ e, Mints [] s (s.enter c e) := fun e => mints_log rfl rfl rfl
  have hset : ∀ e n, Mints [] s ((s.enter c e).setStatus n) := fun e n =>
    (henter e).still (mints_same rfl rfl)
  have hreply : ∀ {s₁ : Server} (k : Client) (i : Id), Mints [] s s₁ →
      Mints [] s (s₁.answer c k i) := fun k i h => h.still (mints_log rfl rfl rfl)
  cases h with
  | @opened k s₁ _ _ _ hev hd =>
    have hreg : Mints [] s₁ (s₁.register c k s.message.address) := by
      rw [register_eq]
      exact mints_log rfl rfl rfl
    exact .inl ((((henter _).still (mints_evicted hev)).still hreg).still (mints_drain hd))
  | departed _ _ => exact .inl ((henter _).still (mints_same rfl rfl))
  | unopened _ _ _ => exact .inl (hreply _ _ (hset _ _))
  | @wrote k a _ => exact .inl (hreply k _ ((henter _).still (mints_same rfl rfl)))
  | @read k a _ => exact .inl (hreply k _ ((henter _).still (mints_log rfl rfl rfl)))
  | @cancelled k a _ => exact .inl (hreply k _ ((henter _).still (mints_log rfl rfl rfl)))
  | @published k a name _ _ =>
    refine .inr ⟨by simp, _, _, (henter _).trans (mints_one rfl rfl rfl), rfl, rfl, ?_⟩
    intro w p hp he
    obtain ⟨subject, body, rfl⟩ := heardAs_streamSend he.symm
    refine ⟨body, ?_, ?_⟩ <;> rw [enter_message, hp] <;> rfl
  | unwritten _ _ => exact .inl ((henter _).still (mints_fail ..))
  | mailed _ hm =>
    refine .inr ⟨by simp, _, _, (henter _).trans (mints_mailed hm), rfl, rfl, ?_⟩
    intro w p hp he
    obtain ⟨address, subject, tracker, timeout, body, rfl⟩ := heardAs_mailboxSend he.symm
    refine ⟨tracker, timeout, body, ?_, ?_⟩ <;> rw [messageFrom, enter_message, hp] <;> rfl
  | requested _ hm =>
    refine .inr ⟨by simp, _, _, (henter _).trans (mints_requested hm), rfl, rfl, ?_⟩
    intro w p hp he
    obtain ⟨address, subject, tracker, timeout, body, rfl⟩ := heardAs_serviceSend he.symm
    refine ⟨tracker, timeout, body, ?_, ?_⟩ <;> rw [messageFrom, enter_message, hp] <;> rfl
  | @offered k a s₁ _ _ hs₁ hscan =>
    subst hs₁
    have hlog : Mints [] (s.enter c .serviceOffer) ((s.enter c .serviceOffer).log
        (.offered c s.message.address ⟨s.offerId, s.message.pattern, c⟩)) := mints_log rfl rfl rfl
    have hoffer : Mints [] (s.enter c .serviceOffer) ((s.enter c .serviceOffer).offering c k) :=
      hlog.still (mints_log rfl rfl rfl)
    refine .inl (((henter _).still hoffer).still (.still ?_ (mints_scan hscan)))
    exact mints_same rfl rfl
  | confirmed _ => exact .inl ((henter _).still (mints_fail ..))
  | credited _ => exact .inl (henter _)
  | pinged _ => exact .inl (hreply _ _ (henter _))
  | closed _ => exact .inl ((hreply _ _ (henter _)).still (mints_leave ..))
  | expired _ => exact .inl ((henter _).still (mints_leave ..))
  | @invalid k a _ _ _ => exact .inl ((hreply k _ (hset e commandInvalid)).still (mints_leave ..))

theorem mints_put (s : Server) (c : Cid) (k : Client) : Mints [] s (s.put c k) := by
  refine mints_same (put_trace ..) ?_
  unfold put
  split <;> rfl

theorem mints_inner {l : Label} (hm : Moved rex s l s') (hl : l.inner = true) : Mints [] s s' := by
  cases hm with
  | router _ _ _ => cases hl
  | more _ _ => cases hl
  | expired _ _ _ hh =>
    exact (mints_handled hh).resolve_right fun h => h.1 rfl
  | @acked name st d up k _ _ _ hd =>
    have hpop : Mints [] s (s.popStream name st up) := mints_same rfl rfl
    exact hpop.still (mints_put ..)
  | discarded _ _ _ _ _ => exact mints_same rfl rfl
  | @delivered name st c m up k a _ _ _ _ =>
    have hpop : Mints [] s (s.popStream name st up) := mints_same rfl rfl
    exact hpop.still (mints_deliver _ c k .streamMessage m)
  | command _ _ => exact mints_same rfl rfl
  | message _ _ => exact mints_log rfl rfl rfl
  | mailbox _ hread => exact mints_mailboxOnly (mailboxRead_only hread)
  | @configured service mailbox s₁ _ hreads =>
    have hread := mints_mailboxOnly (mailboxReads_only hreads)
    have hcfg : Mints [] s { s with serviceCfg := service } := mints_same rfl rfl
    exact (hcfg.still hread).still (mints_same rfl rfl)

theorem Heeded.mints {s₁ : Server} (h : Heeded rex s key w d s₁ s') : Mints [] s s' ∨
    ∃ o m, Mints [o] s s' ∧ o.made = some (d, m) ∧ m.mid = s.messageId ∧ o.Spells w := by
  obtain ⟨holder, htrace⟩ := h.trace
  obtain ⟨p, hp⟩ := h.message
  have hread : Mints [] s s₁ := mints_log htrace rfl h.messageId
  rcases mints_handled h.handled with hm | ⟨-, o, m, hm, ho, hid, hspells⟩
  · exact .inl (hread.still hm)
  · exact .inr ⟨o, m, hread.trans hm, ho, hid.trans h.messageId, hspells w p hp rfl⟩

/-- A step makes at most one message, and gives it the next number. -/
theorem mints_moved {l : Label} (hm : Moved rex s l s') : Mints [] s s' ∨
    ∃ o c m, Mints [o] s s' ∧ o.made = some (c, m) ∧ m.mid = s.messageId := by
  have hread : ∀ {parts : List Frame}, Received rex s parts s' → Mints [] s s' ∨
      ∃ o c m, Mints [o] s s' ∧ o.made = some (c, m) ∧ m.mid = s.messageId := by
    intro parts h
    have hrequire : ∀ {s₀ : Server} {key : Key} {c : Cid} {s₁ : Server},
        s₀.clientRequire key = (c, s₁) → Mints [] s₀ s₁ := by
      intro s₀ key c s₁ h
      rcases clientRequire_cases h with ⟨-, rfl⟩ | ⟨-, -, rfl⟩ <;> exact mints_same rfl rfl
    have hin : ∀ p rest, Mints [] s (s.received p rest) := fun p rest => mints_same rfl rfl
    cases h with
    | interrupted _ => exact .inl (mints_same rfl rfl)
    | @ignored p rest _ => exact .inl ((hin p rest).still (hrequire rfl))
    | @handled p rest c s₁ _ _ hreq hh =>
      have hheard : Mints [] s (s₁.hear c parts.tail p) :=
        ((hin p rest).still (hrequire hreq)).still (mints_log rfl rfl rfl)
      rcases mints_handled hh with hm | ⟨-, o, m, hm, ho, hid, -⟩
      · exact .inl (hheard.still hm)
      · exact .inr ⟨o, c, m, hheard.trans hm, ho, hid.trans hheard.messageId⟩
  cases hl : l.inner with
  | true => exact .inl (mints_inner hm hl)
  | false =>
    cases hm with
    | router _ _ h => exact hread h
    | more _ h => exact hread h
    | _ => cases hl

/-! ## The numbers of the messages -/

theorem mem_makings : o ∈ makings t ↔ o ∈ t ∧ ∃ c m, o.made = some (c, m) := by
  simp [makings, List.mem_filter, Option.isSome_iff_exists]

theorem mem_newMessages (h : m ∈ newMessages t) : ∃ o ∈ t, ∃ c, o.made = some (c, m) := by
  obtain ⟨o, ho, hm⟩ := List.mem_filterMap.1 h
  obtain ⟨⟨c, m'⟩, hmade, rfl⟩ := Option.map_eq_some_iff.1 hm
  exact ⟨o, ho, c, hmade⟩

theorem newMessages_length (t : List Obs) : (newMessages t).length = (makings t).length := by
  rw [newMessages, makings, List.length_filterMap_eq_countP, List.countP_eq_length_filter]
  simp

theorem makings_append (t t' : List Obs) : makings (t ++ t') = makings t ++ makings t' :=
  List.filter_append ..

theorem minted_moved {l : Label} (h : Minted s) (hm : Moved rex s l s') : Minted s' := by
  rcases mints_moved hm with ⟨⟨t, ht, hnone⟩, hid⟩ | ⟨o, c, m, ⟨⟨t, ht, hone⟩, hid⟩, ho, hmid⟩
  · refine ⟨fun x hx d y hy => ?_, ?_⟩
    · rw [ht] at hx
      rcases List.mem_append.1 hx with hx | hx
      · rw [hid]
        exact h.dated x hx d y hy
      · have hin : x ∈ makings t := mem_makings.2 ⟨hx, d, y, hy⟩
        rw [hnone] at hin
        cases hin
    · rw [ht, makings_append, hnone, List.append_nil]
      exact h.sorted
  · refine ⟨fun x hx d y hy => ?_, ?_⟩
    · rw [hid]
      rw [ht] at hx
      rcases List.mem_append.1 hx with hx | hx
      · exact Nat.lt_succ_of_lt (h.dated x hx d y hy)
      · have hin : x ∈ makings t := mem_makings.2 ⟨hx, d, y, hy⟩
        rw [hone, List.mem_singleton] at hin
        subst hin
        cases ho.symm.trans hy
        rw [hmid]
        exact Nat.lt_succ_self _
    · rw [ht, makings_append, hone]
      refine List.pairwise_append.2 ⟨h.sorted, List.pairwise_singleton .., ?_⟩
      intro x hx x' hx' d y d' y' hy hy'
      obtain rfl := List.mem_singleton.1 hx'
      cases ho.symm.trans hy'
      rw [hmid]
      exact h.dated x (mem_makings.1 hx).1 d y hy

theorem minted_inductive (rex : Str → Str → Bool) :
    (broker rex).Inductive fun s => Regular s ∧ Minted s := by
  refine (regular_inductive rex).strengthen (Q := Minted) (fun s h => ?_) fun s l s' hr _ h hst =>
    minted_moved h (moved_of_step hr.reg hr.wired hst)
  rw [show s = .new from h]
  exact ⟨fun o ho => absurd ho List.not_mem_nil, .nil⟩

/-! ## Deliveries -/

theorem conveys_of_hands (hw : o.Spells w) (hv : o.Hands v) : Conveys w v := by
  cases o with
  | published c name m =>
    obtain ⟨body, rfl, hbody⟩ := hw
    obtain ⟨content, rfl, hcontent⟩ := hv
    exact ⟨rfl, hcontent body hbody⟩
  | mailed c m =>
    obtain ⟨tracker, timeout, body, rfl, hbody⟩ := hw
    obtain ⟨tracker', rfl⟩ := hv
    exact ⟨rfl, rfl, by rw [hbody]; rfl⟩
  | requested c m =>
    obtain ⟨tracker, timeout, body, rfl, hbody⟩ := hw
    obtain ⟨tracker', rfl⟩ := hv
    exact ⟨rfl, rfl, by rw [hbody]; rfl⟩
  | _ => exact hw.elim

theorem credentials_of_hands (hv : o.Hands v) : credentials v = o.credentials := by
  cases o with
  | published d name m =>
    obtain ⟨content, rfl, -⟩ := hv
    rfl
  | mailed d m =>
    obtain ⟨tracker, rfl⟩ := hv
    rfl
  | requested d m =>
    obtain ⟨tracker, rfl⟩ := hv
    rfl
  | _ => exact hv.elim

theorem mem_credentials (h : w ∈ o.credentials) :
    (∃ a, w = .connectionOpen a) ∨ ∃ name, w = .streamWrite name := by
  cases o with
  | published d name m => exact (List.mem_pair.1 h).imp (⟨_, ·⟩) (⟨_, ·⟩)
  | mailed d m => exact .inl ⟨_, List.mem_singleton.1 h⟩
  | requested d m => exact .inl ⟨_, List.mem_singleton.1 h⟩
  | _ => cases h

/-- What a delivery gives for its sender, and for its stream, is among them. -/
theorem senderOf_conveyed (h : Conveys w v) :
    ∃ a, senderOf v = some a ∧ .connectionOpen a ∈ credentials v := by
  cases w <;> cases v <;> first | exact h.elim | exact ⟨_, rfl, List.mem_cons_self⟩

theorem streamed_credentials (h : streamed v = some name) : .streamWrite name ∈ credentials v := by
  cases v with
  | streamDeliver n sender subject content =>
    cases h
    exact List.mem_pair.2 (.inr rfl)
  | _ => cases h

/-- The sender of a message has opened its connection with the address it is sent from, and it
has asked to write to the stream. -/
theorem sender_told (h : (broker rex).Reachable s) (ho : o ∈ s.trace)
    (hm : o.made = some (c, m)) (hw : w ∈ o.credentials) : Says s.trace c w := by
  obtain ⟨t₁, t₂, hs⟩ := List.append_of_mem ho
  have htold := told_reachable h t₁ o t₂ hs
  rw [hs]
  cases o with
  | published d name m' =>
    cases hm
    rcases List.mem_pair.1 hw with rfl | rfl
    · exact htold.1.append _
    · exact htold.2.append _
  | mailed d m' =>
    cases hm
    rw [List.mem_singleton.1 hw]
    exact Says.append htold _
  | requested d m' =>
    cases hm
    rw [List.mem_singleton.1 hw]
    exact Says.append htold _
  | _ => cases hm

/-- **Every delivery hands out a message that has been made.** -/
theorem delivery_minted (h : (broker rex).Reachable s) {holder : Option Str} {hand : Option Msg}
    (hmem : .sent c holder (some v) hand ∈ s.trace) (hv : delivers v = true) :
    ∃ o d m, hand = some m ∧ o ∈ s.trace ∧ o.made = some (d, m) ∧ o.Hands v := by
  obtain ⟨t₁, t₂, hs⟩ := List.append_of_mem hmem
  have hf := ((honest_inductive rex).reachable s h).2.faithful
  have hlater : ∀ {o : Obs}, o ∈ t₁ → o ∈ s.trace := fun ho => by
    rw [hs]
    exact List.mem_append_left _ ho
  have hpost : ∀ {k : Post}, v.id = k.deliverId → ∃ d m trk, hand = some m ∧
      k.obs d m ∈ s.trace ∧ v = k.frame m trk := by
    intro k hid
    obtain ⟨m, hm, hw, a, frames, d, x, hmade⟩ := hf.delivered k _ _ _ _ _ _ hs hid
    exact ⟨d, m, _, hm, hlater (hmade.subset (by simp)), hw⟩
  cases v with
  | streamDeliver name sender subject content =>
    have hvouched := ((streamed_inductive rex).reachable s h).2.vouched
    obtain ⟨m, targets, hm, hfwd, -, rfl, rfl, hcontent⟩ := hvouched t₁ _ t₂ hs
    obtain ⟨u, u', hu, d, hpub, -⟩ := hvouched.of_mem (hlater hfwd)
    refine ⟨.published d name m, d, m, hm, ?_, rfl, content, rfl, hcontent⟩
    rw [hu]
    exact List.mem_append_left _ hpub
  | mailboxDeliver sender address subject tracker content =>
    obtain ⟨d, m, trk, hm, hmade, hw⟩ := hpost (k := .mailbox) rfl
    exact ⟨.mailed d m, d, m, hm, hmade, rfl, trk, hw⟩
  | serviceDeliver sender address subject tracker content =>
    obtain ⟨d, m, trk, hm, hmade, hw⟩ := hpost (k := .service) rfl
    exact ⟨.requested d m, d, m, hm, hmade, rfl, trk, hw⟩
  | _ => cases hv

theorem mem_handed (h : o.handed = some (c, v, m)) : ∃ holder, o = .sent c holder (some v) (some m) ∧
    delivers v = true := by
  cases o with
  | sent d holder w hand =>
    cases w with
    | none => cases h
    | some w =>
      cases hand with
      | none => cases h
      | some x =>
        simp only [Obs.handed] at h
        split at h
        · rename_i hv
          cases h
          exact ⟨holder, rfl, hv⟩
        · cases h
  | _ => cases h

/-! ## Mailboxes and services -/

theorem handed_change (h : (broker rex).Reachable s) (ho : o ∈ s.trace)
    (hh : o.handed = some (c, v, m)) {l : Line} (hl : lineOf v = some l) :
    o.change = some (.leaves, l, m) := by
  obtain ⟨holder, rfl, hv⟩ := mem_handed hh
  cases v with
  | mailboxDeliver sender address subject tracker content =>
    cases hl
    obtain ⟨t₁, t₂, hs⟩ := List.append_of_mem ho
    rw [mailbox_holder h hs]
    rfl
  | serviceDeliver sender address subject tracker content =>
    cases hl
    obtain ⟨x, d, m', hm, -, hmade, hhands⟩ := delivery_minted h ho hv
    cases hm
    cases x with
    | requested d' m' =>
      cases hmade
      obtain ⟨trk, htrk⟩ := hhands
      cases htrk
      rfl
    | published d' name m' =>
      obtain ⟨content', hw, -⟩ := hhands
      cases hw
    | mailed d' m' =>
      obtain ⟨trk, htrk⟩ := hhands
      cases htrk
    | _ => cases hmade
  | _ => cases hl

theorem changes_filterMap (ch : Change) (l : Line) (t : List Obs) :
    changes ch l (t.filterMap Obs.change) = t.filterMap fun o =>
      o.change.bind fun x => if x.1 = ch ∧ x.2.1 = l then some x.2.2 else none := by
  induction t with
  | nil => rfl
  | cons o t ih =>
    cases ho : o.change with
    | none => rw [List.filterMap_cons_none ho, ih, List.filterMap_cons_none (by rw [ho]; rfl)]
    | some x =>
      obtain ⟨ch', l', m⟩ := x
      rw [List.filterMap_cons_some ho, changes_cons, ih, List.filterMap_cons, ho]
      by_cases hx : ch' = ch ∧ l' = l <;> simp [hx]

theorem handedFrom_leaves (h : (broker rex).Reachable s) (ht : ∀ o ∈ t, o ∈ s.trace) (l : Line) :
    (handedFrom l t).Sublist (changes .leaves l (t.filterMap Obs.change)) := by
  rw [changes_filterMap]
  refine Log.filterMap_sublist fun o ho m hm => ?_
  obtain ⟨⟨c, v, m'⟩, hh, hl⟩ := Option.bind_eq_some_iff.1 hm
  split at hl
  · rename_i hline
    cases hl
    rw [handed_change h (ht o ho) hh hline]
    simp
  · cases hl

theorem joins_new (l : Line) (t : List Obs) :
    (changes .joins l (t.filterMap Obs.change)).Sublist (newMessages t) := by
  rw [changes_filterMap]
  refine Log.filterMap_sublist fun o _ m hm => ?_
  obtain ⟨⟨ch, l', m'⟩, ho, hl⟩ := Option.bind_eq_some_iff.1 hm
  split at hl
  · rename_i hch
    obtain ⟨rfl, -⟩ := hch
    cases hl
    unfold Obs.change at ho
    split at ho
    · cases ho
      rfl
    · cases ho
      rfl
    · cases ho
    · cases ho
    · split at ho
      · obtain ⟨a, -, ha⟩ := Option.map_eq_some_iff.1 ho
        cases ha
      · split at ho <;> cases ho
    · cases ho
  · cases hl

/-- **What comes out of a mailbox or service comes in the order in which it waits.** -/
theorem line_step (h : (broker rex).Reachable s) (h' : (broker rex).Reachable s')
    (ht : s'.trace = s.trace ++ t) (l : Line) :
    (handedFrom l t ++ s'.waiting l).Sublist (s.waiting l ++ newMessages t) := by
  have hb := ((posted_inductive rex).reachable s h).2.kept.books l
  have hb' := ((posted_inductive rex).reachable s' h').2.kept.books l
  rw [sentTo_append ht, refusedBy_append ht, deliveredFrom_append ht] at hb'
  have hin : ∀ o ∈ t, o ∈ s'.trace := fun o ho => by
    rw [ht]
    exact List.mem_append_right _ ho
  exact (((handedFrom_leaves h' hin l).append (.refl _)).trans (hb.since hb')).trans
    ((List.Sublist.refl _).append (joins_new l t))

/-! ## Streams -/

theorem keyed_inner {l : Label} (hm : Moved rex s l s') (hl : l.inner = true) (hr' : Reg s') :
    Keyed s s' where
  made key c k hk hle _ := by
    have hlt := hr'.fresh c k hk
    rw [clientId_inner hm hl] at hlt
    exact absurd hlt (Nat.not_lt.2 hle)
  stands key c hc := .inl (stands_inner hm hl hc)

theorem Heeded.keyed {s₁ : Server} {key : Key} (hr : Reg s) (hr' : Reg s')
    (h : Heeded rex s key w d s₁ s') : Keyed s s' where
  made key' c k hk hle hkey := by
    have hlt := hr'.fresh c k hk
    rw [handled_clientId h.handled] at hlt
    rcases h.context with ⟨-, -, hid⟩ | ⟨rfl, hctx, hid, hnone⟩
    · rw [hid] at hlt
      exact absurd hlt (Nat.not_lt.2 hle)
    · rw [hid] at hlt
      obtain rfl := Nat.le_antisymm (Nat.le_of_lt_succ hlt) hle
      have hfresh : s₁.ctx s.clientId = some (.fresh key) := by rw [hctx, Function.update_self]
      have hsame : k.hashkey = key := handled_key h.handled hfresh rfl hk
      rw [← hkey, hsame]
      exact ⟨rfl, hnone⟩
  stands key' c hc := by
    rcases h.stands hr hc with ⟨-, hst⟩ | ⟨rfl, rfl⟩
    · exact .inl hst
    · rcases h.context with ⟨hst, -, -⟩ | ⟨rfl, -, -, hnone⟩
      · exact .inl hst
      · exact .inr ⟨rfl, hnone⟩

theorem Stands.there (h : Stands s key c) (hr : Reg s) : stageOf s c ≠ .gone := by
  obtain ⟨k, hk, hz, -⟩ := h
  cases hr.phase c k hk with
  | start hs _ => simp [stageOf, hk, hs.state]
  | opened a ho => simp [stageOf_open ho]
  | zombie hs _ _ => exact absurd hs hz

/-- For a context that is not there yet nothing waits. -/
theorem waitingFor_fresh (hw : Wired s) (name : Str) :
    waitingFor s.clientId (s.stream name) = [] := by
  refine List.filterMap_eq_nil_iff.2 fun x hx => ?_
  cases x with
  | ack c => rfl
  | deliver c m =>
    refine if_neg fun hc => ?_
    subst hc
    cases hst : s.streams.get name with
    | none =>
      rw [stream, hst] at hx
      cases hx
    | some st =>
      rw [stream_of_get hst] at hx
      exact absurd (hw.named name st _ hst (.deliver m hx)).1 (Nat.lt_irrefl _)

/-- Whom a step may send to at `key`: one context, for which waits what waits at `key`. -/
structure Attends (s s' : Server) (key : Key) (name : Str) (c : Cid) : Prop where
  there : stageOf s c ≠ .gone
  before : waitingAt s key name = waitingFor c (s.stream name)
  after : waitingAt s' key name = [] ∨
    stageOf s' c ≠ .gone ∧ waitingAt s' key name = waitingFor c (s'.stream name)
  only : ∀ d, stageOf s d ≠ .gone → keyOf s s' d = some key → d = c

theorem Keyed.attends (hk : Keyed s s') (hr : Regular s) (hr' : Reg s') (key : Key) (name : Str) :
    ∃ c, Attends s s' key name c := by
  have hstand : ∀ d, stageOf s d ≠ .gone → keyOf s s' d = some key →
      Stands s key d ∨ d = s.clientId ∧ s.clients.get key = none := by
    intro d hd hkey
    unfold keyOf at hkey
    cases hx : s.ctx d with
    | some k =>
      rw [hx] at hkey
      refine .inl ⟨k, hx, fun hz => hd (by simp [stageOf, hx, hz]), Option.some.inj hkey⟩
    | none =>
      rw [hx, Option.none_or] at hkey
      obtain ⟨k, hx', hkey⟩ := Option.map_eq_some_iff.1 hkey
      refine .inr (hk.made key d k hx' (Nat.le_of_not_lt fun hlt => hd ?_) hkey)
      simp [stageOf, hx, hlt]
  have hafter : ∀ c', s'.clients.get key = some c' →
      (Stands s key c' ∨ c' = s.clientId ∧ s.clients.get key = none) ∧ stageOf s' c' ≠ .gone := by
    intro c' hget
    have hst := stands_of_hashed hr' hget
    exact ⟨hk.stands key c' hst, hst.there hr'⟩
  cases hget : s.clients.get key with
  | some c =>
    have hst := stands_of_hashed hr.reg hget
    have hsame : ∀ d, Stands s key d ∨ d = s.clientId ∧ s.clients.get key = none → d = c := by
      intro d hd
      rcases hd with hd | ⟨-, hnone⟩
      · exact Option.some.inj ((hd.hashed hr.reg).symm.trans hget)
      · cases hnone.symm.trans hget
    refine ⟨c, hst.there hr.reg, by simp [waitingAt, hget], ?_, fun d hd hkey => hsame d (hstand d hd hkey)⟩
    cases hget' : s'.clients.get key with
    | none => exact .inl (by simp [waitingAt, hget'])
    | some c' =>
      obtain ⟨hc', hthere⟩ := hafter c' hget'
      obtain rfl := hsame c' hc'
      exact .inr ⟨hthere, by simp [waitingAt, hget']⟩
  | none =>
    have hnew : ∀ d, Stands s key d ∨ d = s.clientId ∧ s.clients.get key = none →
        d = s.clientId := by
      intro d hd
      rcases hd with hd | ⟨hd, -⟩
      · cases (hd.hashed hr.reg).symm.trans hget
      · exact hd
    have hfree : s.ctx s.clientId = none := by
      cases hx : s.ctx s.clientId with
      | none => rfl
      | some k => exact absurd (hr.reg.fresh _ k hx) (Nat.lt_irrefl _)
    refine ⟨s.clientId, by simp [stageOf, hfree], ?_, ?_, fun d hd hkey => hnew d (hstand d hd hkey)⟩
    · rw [waitingFor_fresh hr.wired]
      simp [waitingAt, hget]
    · cases hget' : s'.clients.get key with
      | none => exact .inl (by simp [waitingAt, hget'])
      | some c' =>
        obtain ⟨hc', hthere⟩ := hafter c' hget'
        obtain rfl := hnew c' hc'
        exact .inr ⟨hthere, by simp [waitingAt, hget']⟩

theorem published_new (name : Str) (t : List Obs) :
    (publishedOn name t).Sublist (newMessages t) := by
  refine Log.filterMap_sublist fun o _ m hm => ?_
  cases o with
  | published c n x =>
    simp only at hm
    split at hm
    · cases hm
      rfl
    · cases hm
  | _ => cases hm

theorem handedTo_streamed (honly : ∀ d holder w hand, .sent d holder w hand ∈ t →
    keyOf s s' d = some key → d = c) : (handedTo s s' key name t).Sublist (streamedTo c name t) := by
  refine Log.filterMap_sublist fun o ho m hm => ?_
  obtain ⟨⟨d, v, m'⟩, hh, hm⟩ := Option.bind_eq_some_iff.1 hm
  split at hm
  · rename_i hkey
    obtain ⟨hkey, hname⟩ := hkey
    cases hm
    obtain ⟨holder, rfl, -⟩ := mem_handed hh
    obtain rfl := honly _ _ _ _ ho hkey
    cases v with
    | streamDeliver n sender subject content =>
      cases hname
      exact if_pos ⟨rfl, rfl⟩
    | _ => cases hname
  · cases hm

/-- **What a reader is sent of a stream comes in the order in which it was published.** -/
theorem stream_step (h : (broker rex).Reachable s) (h' : (broker rex).Reachable s')
    (hk : Keyed s s') (ht : s'.trace = s.trace ++ t)
    (hsent : ∀ d holder w hand, .sent d holder w hand ∈ t → stageOf s d ≠ .gone) (key : Key)
    (name : Str) {β : Type} {R : β → β → Prop} (hR : ∀ y, R y y) (f : Msg → β) {before : List β}
    (hin : (before ++ (waitingAt s key name).map f ++ (unread (s.stream name)).map f ++
      (newMessages t).map f).Pairwise R) :
    (before ++ (handedTo s s' key name t).map f ++ (waitingAt s' key name).map f ++
      (unread (s'.stream name)).map f).Pairwise R := by
  obtain ⟨hr, hst⟩ := (streamed_inductive rex).reachable s h
  obtain ⟨hr', hst'⟩ := (streamed_inductive rex).reachable s' h'
  obtain ⟨c, hthere, hbefore, hafter, honly⟩ := hk.attends hr hr'.reg key name
  obtain ⟨r, hf, hrest⟩ := hst.passed c name
  obtain ⟨r', hf', hrest'⟩ := hst'.passed c name
  -- what was forwarded to the context of `key`, and what was read to do so
  have hflow : waitingFor c (s.stream name) ++ forwardedTo c name t =
      streamedTo c name t ++ r' := by
    rw [ht, forwardedTo_append, streamedTo_append, hf, hrest hthere, List.append_assoc,
      List.append_assoc] at hf'
    exact List.append_cancel_left hf'
  have hread : unread (s.stream name) ++ publishedOn name t =
      (forwardedOn name t).map Prod.fst ++ unread (s'.stream name) := by
    have hkept := hst'.piped.kept name
    rw [ht, publishedOn_append, forwardedOn_append, hst.piped.kept name, List.map_append,
      List.append_assoc, List.append_assoc] at hkept
    exact List.append_cancel_left hkept
  have hleft : (waitingAt s' key name).Sublist r' := by
    rcases hafter with hnil | ⟨hthere', hafter⟩
    · rw [hnil]
      exact List.nil_sublist _
    · rw [hafter, ← hrest' hthere']
  rw [hbefore] at hin
  have hpublished := hin.sublist ((List.Sublist.refl _).append ((published_new name t).map f))
  rw [List.append_assoc _ _ ((publishedOn name t).map f), ← List.map_append, hread,
    List.map_append, List.map_map, ← List.append_assoc] at hpublished
  have hcopies : (before ++ (waitingFor c (s.stream name)).map f ++
      (forwardedOn name t).flatMap (fun x => (x.2.filter (· = c)).map fun _ => f x.1) ++
      (unread (s'.stream name)).map f).Pairwise R := by
    refine Log.pairwise_copies hR (fun x _ y hy => ?_) hpublished
    obtain ⟨-, -, rfl⟩ := List.mem_map.1 hy
    rfl
  have hforwarded : (forwardedOn name t).flatMap
      (fun x => (x.2.filter (· = c)).map fun _ => f x.1) = (forwardedTo c name t).map f := by
    simp [forwardedTo, List.map_flatMap]
  rw [hforwarded, List.append_assoc before, ← List.map_append, hflow, List.map_append,
    ← List.append_assoc before] at hcopies
  have hhanded : (handedTo s s' key name t).Sublist (streamedTo c name t) :=
    handedTo_streamed fun d holder w hand ho => honly d (hsent d holder w hand ho)
  exact hcopies.sublist ((((List.Sublist.refl _).append (hhanded.map f)).append
    (hleft.map f)).append (.refl _))

/-! ## What waits has been made -/

theorem waiting_made (h : (broker rex).Reachable s) {l : Line} (hm : m ∈ s.waiting l) :
    ∃ o ∈ s.trace, ∃ c, o.made = some (c, m) := by
  have hb := ((posted_inductive rex).reachable s h).2.kept.books l
  rcases mem_sentTo (hb.mem_sent (.inr hm)).1 with ⟨c, hc, -⟩ | ⟨c, hc, -⟩
  · exact ⟨_, hc, c, rfl⟩
  · exact ⟨_, hc, c, rfl⟩

theorem publishedOn_made (hm : m ∈ publishedOn name t) : ∃ o ∈ t, ∃ c, o.made = some (c, m) := by
  obtain ⟨o, ho, hpub⟩ := List.mem_filterMap.1 hm
  cases o with
  | published c n x =>
    simp only at hpub
    split at hpub
    · cases hpub
      exact ⟨_, ho, c, rfl⟩
    · cases hpub
  | _ => cases hpub

theorem unread_made (h : (broker rex).Reachable s) (hm : m ∈ unread (s.stream name)) :
    ∃ o ∈ s.trace, ∃ c, o.made = some (c, m) := by
  have hkept := ((streamed_inductive rex).reachable s h).2.piped.kept name
  have hpub : m ∈ publishedOn name s.trace := by
    rw [hkept]
    exact List.mem_append_right _ hm
  exact publishedOn_made hpub

theorem waitingAt_made (h : (broker rex).Reachable s) (hm : m ∈ waitingAt s key name) :
    ∃ o ∈ s.trace, ∃ c, o.made = some (c, m) := by
  obtain ⟨hr, hs⟩ := (streamed_inductive rex).reachable s h
  cases hget : s.clients.get key with
  | none =>
    rw [waitingAt, hget] at hm
    cases hm
  | some c =>
    rw [waitingAt, hget] at hm
    obtain ⟨r, hf, hrest⟩ := hs.passed c name
    have hin : m ∈ forwardedTo c name s.trace := by
      rw [hf, hrest ((stands_of_hashed hr.reg hget).there hr.reg)]
      exact List.mem_append_right _ hm
    obtain ⟨targets, hfwd, -⟩ := mem_forwardedTo.1 hin
    have hpub : m ∈ publishedOn name s.trace := by
      rw [hs.piped.kept name]
      exact List.mem_append_left _ (List.mem_map.2 ⟨_, mem_forwardedOn.2 hfwd, rfl⟩)
    exact publishedOn_made hpub

end
end Malamute.L3
