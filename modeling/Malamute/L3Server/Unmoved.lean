import Malamute.L3Server.Services

/-!
# Steps that leave the lines alone

`Unmoved s s'`: no message between clients has been read, queued, refused or
delivered. Most of what clients ask for is of this kind. `Passage` sorts the
events of a client by what they mean for those messages (`passage_of_handled`),
and `unmoved_stream` says that streams are another matter altogether.
-/
namespace Malamute.L3
open Malamute.Core Malamute.L1 Malamute.L2 Server

/-- An observation about no message between clients. -/
def Obs.Aside : Obs → Prop
  | .received _ _ _ _ | .mailed _ _ | .requested _ _ | .dropped _ _ => False
  | .sent _ _ (some w) _ => w.id ≠ .mailboxDeliver ∧ w.id ≠ .serviceDeliver
  | _ => True

/-- Nothing that concerns the lines has happened, but that clients and offers
may have gone. -/
structure Unmoved (s s' : Server) : Prop where
  waiting : ∀ l, s'.waiting l = s.waiting l
  messageId : s.messageId ≤ s'.messageId
  trace : ∃ t, s'.trace = s.trace ++ t ∧ ∀ o ∈ t, o.Aside
  addresses : ∀ a c, s'.addresses.get a = some c → s.addresses.get a = some c
  queues : ∀ name, (s'.service name).queue = (s.service name).queue
  offers : ∀ name, ∀ o ∈ (s'.service name).offers.items, o ∈ (s.service name).offers.items
  served : ∀ rex, Served rex s → Served rex s'

/-- What handling an event means for the messages between clients. -/
inductive Passage (rex : Str → Str → Bool) (s : Server) (c : Cid) : Event → Server → Prop where
  | aside {e : Event} {s' : Server} : Unmoved s s' → s'.message.tracker = s.message.tracker →
      Passage rex s c e s'
  | opened {k : Client} {a : Str} {s₁ s' : Server} : Unmoved s s₁ →
      s₁.message.tracker = s.message.tracker → Drain c (k.opened a) a (s₁.register c k a) s' →
      Passage rex s c .connectionOpen s'
  | mailed {k : Client} {a : Str} {s' : Server} : Open s c k a →
      Mailed c a (s.enter c .mailboxSend) s' → Passage rex s c .mailboxSend s'
  | requested {k : Client} {a : Str} {s' : Server} : Open s c k a →
      Requested rex c a (s.enter c .serviceSend) s' → Passage rex s c .serviceSend s'
  | offered {k : Client} {s₁ s' : Server} : s₁ = (s.enter c .serviceOffer).offering c k →
      Scan rex s.message.address (s₁.service s.message.address).queue.first.2
        (s₁.setService s.message.address ((s₁.service s.message.address).setQueue
          (s₁.service s.message.address).queue.first.1)) s' →
      Passage rex s c .serviceOffer s'

section
variable {rex : Str → Str → Bool} {s s' : Server} {c : Cid} {k : Client} {a : Str}

theorem Obs.Aside.change {o : Obs} (h : o.Aside) : o.change = none := by
  cases o with
  | sent c holder w hand =>
    cases w with
    | none => rfl
    | some w => cases hand <;> simp [Obs.change, h.1, h.2]
  | _ => first | rfl | exact h.elim

theorem aside_sent (c : Cid) (holder : Option Str) (p : Proto) {i : Id} (key : Frame)
    (hand : Option Msg) (h1 : i ≠ .mailboxDeliver) (h2 : i ≠ .serviceDeliver) :
    (Obs.sent c holder (p.setId i key).wire hand).Aside := by
  obtain ⟨w, hw, rfl⟩ := wire_setId p i key
  rw [hw]
  exact ⟨h1, h2⟩

/-- A delivery leaves the tracker of the message object alone. -/
theorem delivery_tracker (s : Server) (key : Key) (id : Id) (m : Msg) :
    (s.delivery key id m).tracker = s.message.tracker := by
  unfold delivery Msg.setProto
  split <;> rfl

theorem Unmoved.changes (h : Unmoved s s') :
    ∃ t, s'.trace = s.trace ++ t ∧ t.filterMap Obs.change = [] := by
  obtain ⟨t, ht, ha⟩ := h.trace
  exact ⟨t, ht, List.filterMap_eq_nil_iff.2 fun o ho => (ha o ho).change⟩

theorem Unmoved.trans {s₁ : Server} (h : Unmoved s s₁) (h' : Unmoved s₁ s') : Unmoved s s' where
  waiting l := (h'.waiting l).trans (h.waiting l)
  messageId := Nat.le_trans h.messageId h'.messageId
  trace := by
    obtain ⟨t, ht, ha⟩ := h.trace
    obtain ⟨t', ht', ha'⟩ := h'.trace
    refine ⟨t ++ t', by rw [ht', ht, List.append_assoc], fun o ho => ?_⟩
    exact (List.mem_append.1 ho).elim (ha o) (ha' o)
  addresses a c ha := h.addresses a c (h'.addresses a c ha)
  queues name := (h'.queues name).trans (h.queues name)
  offers name o ho := h.offers name o (h'.offers name o ho)
  served _ hs := h'.served _ (h.served _ hs)

/-! ## The pieces -/

theorem Unmoved.quiet (h1 : s'.mailbox = s.mailbox) (h2 : s'.mailboxPipe = s.mailboxPipe)
    (h3 : s'.services = s.services) (h4 : s'.addresses = s.addresses)
    (h5 : s'.messageId = s.messageId) (h6 : s'.trace = s.trace) : Unmoved s s' where
  waiting := waiting_of_fields h1 h2 h3
  messageId := Nat.le_of_eq h5.symm
  trace := ⟨[], by simpa using h6, by simp⟩
  addresses a c ha := by rwa [h4] at ha
  queues name := by rw [service_frame h3]
  offers name o ho := by rwa [service_frame h3] at ho
  served rex hs := hs.plain (.of_services h3) (grows_same h6)

theorem unmoved_log (s : Server) {o : Obs} (ho : o.Aside) (hp : o.Plain) :
    Unmoved s (s.log o) where
  waiting := waiting_of_fields rfl rfl rfl
  messageId := Nat.le_refl _
  trace := ⟨[o], rfl, List.forall_mem_singleton.2 ho⟩
  addresses _ _ ha := ha
  queues _ := rfl
  offers _ _ ho := ho
  served _ hs := hs.plain (.refl _) (growsPlain_log s hp)

theorem unmoved_enter (s : Server) (c : Cid) (e : Event) : Unmoved s (s.enter c e) :=
  unmoved_log s (o := .event c e) trivial trivial

theorem unmoved_answer (s : Server) (c : Cid) (k : Client) {i : Id} (h1 : i ≠ .mailboxDeliver)
    (h2 : i ≠ .serviceDeliver) : Unmoved s (s.answer c k i) := by
  have hlog := unmoved_log s (aside_sent c k.address s.message k.hashkey s.hand h1 h2)
    (plain_sent c k.address s.message k.hashkey s.hand h2)
  exact hlog.trans (.quiet rfl rfl rfl rfl rfl rfl)

theorem unmoved_leave (s : Server) (c : Cid) (k : Client) (a : Str) :
    Unmoved s (s.leave c k a) := by
  have hservice : ∀ name, (s.leave c k a).service name = ((s.service name).withdraw c) := by
    intro name
    rw [← service_withdrawOffers]
    exact service_frame rfl name
  refine ⟨?_, Nat.le_refl _, ⟨[.left c k.readers], rfl, List.forall_mem_singleton.2 trivial⟩,
    ?_, ?_, ?_, fun rex hs => served_leave hs c k a⟩
  · intro l
    cases l with
    | mailbox b => rfl
    | service name subject =>
      simp only [waiting, hservice]
      rfl
  · intro b d hb
    by_cases ha : a = .empty
    · simpa [leave, ha] using hb
    · simp only [leave, bury_addresses, deregister_addresses, ha, if_false, Table.get_del] at hb
      split at hb
      · cases hb
      · exact hb
  · intro name
    rw [hservice]
    rfl
  · intro name o ho
    rw [hservice] at ho
    exact (mem_withdraw.1 ho).1

theorem unmoved_fail (s : Server) (c : Cid) (k : Client) (a : Str) : Unmoved s (s.fail c k a) := by
  have hstatus : Unmoved (s.enter c .exception) ((s.enter c .exception).setStatus failed) :=
    .quiet rfl rfl rfl rfl rfl rfl
  exact (((unmoved_enter s c .exception).trans hstatus).trans
    (unmoved_answer _ c k (by simp) (by simp))).trans (unmoved_leave _ c k a)

theorem unmoved_evicted (h : Evicted a s s') :
    Unmoved s s' ∧ s'.message.tracker = s.message.tracker := by
  cases h with
  | nobody _ => exact ⟨.quiet rfl rfl rfl rfl rfl rfl, rfl⟩
  | @holder old t _ _ _ =>
    exact ⟨(unmoved_enter s old .expired).trans (unmoved_leave _ old t a), rfl⟩

/-! ## Events -/

/-- **Only CONNECTION OPEN, MAILBOX SEND, SERVICE SEND and SERVICE OFFER concern
the messages between clients.** -/
theorem passage_of_handled {e : Event} (h : Handled rex s c e s') : Passage rex s c e s' := by
  have henter := fun e => unmoved_enter s c e
  have hquiet : ∀ {s₁ s₂ : Server}, s₂.mailbox = s₁.mailbox → s₂.mailboxPipe = s₁.mailboxPipe →
      s₂.services = s₁.services → s₂.addresses = s₁.addresses → s₂.messageId = s₁.messageId →
      s₂.trace = s₁.trace → Unmoved s₁ s₂ := .quiet
  have hans : ∀ (s : Server) (k : Client) {id : Id}, id ≠ .mailboxDeliver → id ≠ .serviceDeliver →
      Unmoved s (s.answer c k id) := fun s k _ h1 h2 => unmoved_answer s c k h1 h2
  have hset : ∀ e n, Unmoved s ((s.enter c e).setStatus n) := fun e n =>
    (henter e).trans (hquiet rfl rfl rfl rfl rfl rfl)
  cases h with
  | @opened k s₁ _ _ _ hev hd =>
    obtain ⟨hu, ht⟩ := unmoved_evicted hev
    exact .opened ((henter _).trans hu) ht hd
  | @departed k _ _ => exact .aside ((henter _).trans (hquiet rfl rfl rfl rfl rfl rfl)) rfl
  | @unopened k _ _ _ _ =>
    exact .aside ((hset e commandInvalid).trans (hans _ k (by simp) (by simp))) rfl
  | @wrote k a _ =>
    refine .aside ((henter .streamWrite).trans (.trans ?_ (hans _ k (by simp) (by simp)))) rfl
    exact hquiet rfl rfl rfl rfl rfl rfl
  | @read k a _ =>
    refine .aside ((henter .streamRead).trans (.trans (.trans ?_ (unmoved_log _
      (o := .subscribed c s.message.stream s.message.pattern) trivial trivial))
        (hans _ k (by simp) (by simp)))) rfl
    exact hquiet rfl rfl rfl rfl rfl rfl
  | @cancelled k a _ =>
    refine .aside ((henter .streamCancel).trans (.trans (.trans ?_
      (unmoved_log _ (o := .cancelled c s.message.stream) trivial trivial))
        (hans _ k (by simp) (by simp)))) rfl
    exact hquiet rfl rfl rfl rfl rfl rfl
  | @published k a name _ _ =>
    refine .aside ((henter .streamSend).trans ⟨waiting_of_fields rfl rfl rfl, Nat.le_succ _,
      ⟨[.published c name _], rfl, List.forall_mem_singleton.2 trivial⟩, fun _ _ ha => ha,
      fun _ => rfl, fun _ _ ho => ho, ?_⟩) rfl
    exact fun rex hs => hs.plain (.of_services rfl) ⟨[_], rfl, by simp [Obs.Plain]⟩
  | @unwritten k a _ _ => exact .aside ((henter _).trans (unmoved_fail _ c k a)) rfl
  | mailed ho hm => exact .mailed ho hm
  | requested ho hm => exact .requested ho hm
  | offered _ hs₁ hscan => exact .offered hs₁ hscan
  | @confirmed k a _ => exact .aside ((henter _).trans (unmoved_fail _ c k a)) rfl
  | credited _ => exact .aside (henter _) rfl
  | @pinged k a _ => exact .aside ((henter _).trans (hans _ k (by simp) (by simp))) rfl
  | @closed k a _ =>
    exact .aside ((henter _).trans
      ((hans _ k (by simp) (by simp)).trans (unmoved_leave _ c k a))) rfl
  | @expired k a _ => exact .aside ((henter _).trans (unmoved_leave _ c k a)) rfl
  | @invalid k a _ _ _ =>
    exact .aside ((hset e commandInvalid).trans
      ((hans _ k (by simp) (by simp)).trans (unmoved_leave _ c k a))) rfl

theorem unmoved_clientRequire {key : Key} {s₁ : Server} (h : s.clientRequire key = (c, s₁)) :
    Unmoved s s₁ := by
  rcases clientRequire_cases h with ⟨-, rfl⟩ | ⟨-, -, rfl⟩ <;> exact .quiet rfl rfl rfl rfl rfl rfl

/-! ## Streams -/

/-- A step of a stream engine, or of the server reading from one. -/
def Label.stream : Label → Bool
  | .traffic _ | .command _ | .message _ => true
  | _ => false

theorem unmoved_stream {l : Label} (h : Moved rex s l s') (hl : l.stream = true) :
    Unmoved s s' ∧ s'.message.tracker = s.message.tracker := by
  have hpop : ∀ name st up, Unmoved s (s.popStream name st up) := fun _ _ _ =>
    .quiet rfl rfl rfl rfl rfl rfl
  cases h with
  | @acked name st c up k _ _ _ _ =>
    have hput : Unmoved (s.popStream name st up) ((s.popStream name st up).put c k) ∧
        ((s.popStream name st up).put c k).message.tracker = s.message.tracker := by
      unfold Server.put
      split <;> exact ⟨.quiet rfl rfl rfl rfl rfl rfl, rfl⟩
    exact ⟨(hpop name st up).trans hput.1, hput.2⟩
  | discarded _ _ _ _ _ => exact ⟨.quiet rfl rfl rfl rfl rfl rfl, rfl⟩
  | @delivered name st c m up k a _ _ _ _ =>
    have hsent := aside_sent c k.address (m.setProto s.message) (i := .streamDeliver) k.hashkey
      (some m) (by simp) (by simp)
    have hdel : Unmoved ((s.popStream name st up).enter c .streamMessage)
        (((s.popStream name st up).enter c .streamMessage).deliver c k .streamDeliver m) :=
      ⟨waiting_of_fields rfl rfl rfl, Nat.le_refl _, ⟨[_], rfl, List.forall_mem_singleton.2 hsent⟩,
        fun _ _ ha => ha, fun _ => rfl, fun _ _ ho => ho, fun rex hs => hs.plain (.of_services rfl)
          ⟨[_], rfl, List.forall_mem_singleton.2 (plain_sent c k.address (m.setProto s.message)
            k.hashkey (some m) (by simp))⟩⟩
    exact ⟨((hpop name st up).trans (unmoved_enter _ c .streamMessage)).trans hdel,
      delivery_tracker ((s.popStream name st up).enter c .streamMessage) k.hashkey .streamDeliver m⟩
  | command _ _ => exact ⟨.quiet rfl rfl rfl rfl rfl rfl, rfl⟩
  | @message name st st' m targets _ _ =>
    refine ⟨.trans ?_ (unmoved_log _ (o := .forwarded name m targets) trivial trivial), rfl⟩
    exact .quiet rfl rfl rfl rfl rfl rfl
  | _ => cases hl

end
end Malamute.L3
