import Malamute.L3Server.Conversation
import Malamute.L3Server.Subscriptions
import Malamute.L3Server.Delivered

/-!
# Streams, from the publisher to the readers

A message travels from the STREAM SEND through the message pipe of an engine, the selectors,
and the message pipe back, to a STREAM DELIVER for each client that a selector names.

* `stream_conserved`: nothing is lost, repeated or reordered on the way, in any interleaving:
  what was published is what has been forwarded and what the engine has still to read; what was
  forwarded to a client that is there is what it was sent and what waits for it.
* `stream_authentic`: every STREAM DELIVER goes back to the STREAM SEND of another client, and
  to a STREAM READ of the client with a pattern that its subject matches.
-/
namespace Malamute.L3
open Malamute.Core Malamute.L1 Malamute.L2 Server

/-- What was published on the stream `name`. -/
def publishedOn (name : Str) (t : List Obs) : List Msg :=
  t.filterMap fun
  | .published _ n m => if n = name then some m else none
  | _ => none

/-- The copies for `c` of what the engine of `name` has forwarded, one for each selector. -/
def forwardedTo (c : Cid) (name : Str) (t : List Obs) : List Msg :=
  (forwardedOn name t).flatMap fun x => (x.2.filter (· = c)).map fun _ => x.1

/-- The messages that `c` was sent as those of the stream `name`. -/
def streamedTo (c : Cid) (name : Str) (t : List Obs) : List Msg :=
  t.filterMap fun
  | .sent d _ (some (.streamDeliver stream _ _ _)) (some m) =>
    if d = c ∧ stream = name then some m else none
  | _ => none

def Issue.message? : Issue → Option Msg
  | .message _ m => some m
  | .command _ => none

/-- The messages that the engine has not read. -/
def unread (st : Stream) : List Msg := st.pending.filterMap Issue.message?

def deliverTo (c : Cid) : Traffic → Option Msg
  | .deliver d m => if d = c then some m else none
  | .ack _ => none

/-- The messages for `c` that the server has not read. -/
def waitingFor (c : Cid) (st : Stream) : List Msg := st.up.filterMap (deliverTo c)

/-- The observation is not about a message on a stream. -/
def Obs.Calm : Obs → Prop
  | .sent _ _ w _ => w.map Wire.id ≠ some .streamDeliver
  | .published _ _ _ | .forwarded _ _ _ => False
  | _ => True

/-- What comes before an observation about a message on a stream. -/
def Obs.Vouched (rex : Str → Str → Bool) (t : List Obs) : Obs → Prop
  | .published c n m => m.address = n ∧ ∃ t₀ frames body,
      t = t₀ ++ [.received c (some m.sender) frames (some (.streamSend m.subject body)),
        .event c .streamSend] ∧
      ∀ v, decode frames = some v → v = .streamSend m.subject body ∧ m.content = some body
  | .forwarded n m targets => ∃ d, .published d n m ∈ t ∧
      ∀ c ∈ targets, c ≠ d ∧ ∃ p, .subscribed c n p ∈ t ∧ rex p m.subject = true
  | .sent c _ (some (.streamDeliver n sender subject content)) hand => ∃ m targets,
      hand = some m ∧ .forwarded n m targets ∈ t ∧ c ∈ targets ∧ sender = m.sender ∧
      subject = m.subject ∧ ∀ body, m.content = some body → content = body
  | _ => True

/-- No message on a stream moves. -/
structure Calm (s s' : Server) : Prop where
  grows : Grows Obs.Calm s s'
  up : ∀ name, (s'.stream name).up = (s.stream name).up

/-- What the pipes to the engines hold, and what the engines know, is on record. -/
structure Piped (s : Server) : Prop where
  kept : ∀ name, publishedOn name s.trace =
    (forwardedOn name s.trace).map Prod.fst ++ unread (s.stream name)
  posted : ∀ d name m, .message d m ∈ (s.stream name).pending → .published d name m ∈ s.trace
  listed : ∀ c name p, Holds (s.stream name).selectors c p ∨
    .command (.compile c p) ∈ (s.stream name).pending → .subscribed c name p ∈ s.trace

/-- What was forwarded to a client that is there has been sent to it, or waits for it. -/
def Passed (s : Server) : Prop := ∀ c name, ∃ r,
  forwardedTo c name s.trace = streamedTo c name s.trace ++ r ∧
    (stageOf s c ≠ .gone → r = waitingFor c (s.stream name))

structure Streamed (rex : Str → Str → Bool) (s : Server) : Prop where
  piped : Piped s
  passed : Passed s
  vouched : Justified (Obs.Vouched rex) s.trace

section
variable {rex : Str → Str → Bool} {s s' : Server} {c d : Cid} {k : Client} {a name : Str} {m : Msg}
  {t t' : List Obs} {e : Event} {i : Id}

/-! ## Steps that move no message -/

theorem Calm.trans {s₁ : Server} (h : Calm s s₁) (h' : Calm s₁ s') : Calm s s' :=
  ⟨h.grows.trans h'.grows, fun name => (h'.up name).trans (h.up name)⟩

theorem calm_grows (h : Grows Obs.Calm s s') (hst : s'.streams = s.streams) : Calm s s' :=
  ⟨h, fun name => congrArg Stream.up (stream_of_streams hst name)⟩

theorem calm_same (ht : s'.trace = s.trace) (hst : s'.streams = s.streams) : Calm s s' :=
  calm_grows (grows_same ht) hst

theorem calm_log {o : Obs} (ht : s'.trace = s.trace ++ [o]) (ho : o.Calm)
    (hst : s'.streams = s.streams) : Calm s s' := calm_grows (grows_one ht ho) hst

theorem calm_sent (c : Cid) (holder : Option Str) (p : Proto) (key : Frame) (hand : Option Msg)
    (h : i ≠ .streamDeliver) : (Obs.sent c holder (p.setId i key).wire hand).Calm := by
  obtain ⟨w, hw, rfl⟩ := wire_setId p i key
  rw [hw]
  exact fun heq => h (Option.some.inj heq)

theorem calm_enter (s : Server) (c : Cid) (e : Event) : Calm s (s.enter c e) :=
  calm_log rfl trivial rfl

theorem calm_answer (s : Server) (c : Cid) (k : Client) (h : i ≠ .streamDeliver) :
    Calm s (s.answer c k i) := calm_log rfl (calm_sent _ _ _ _ _ h) rfl

theorem calm_deliver (s : Server) (c : Cid) (k : Client) (e : Event) (m : Msg)
    (h : i ≠ .streamDeliver) : Calm s ((s.enter c e).deliver c k i m) :=
  (calm_enter s c e).trans (calm_log rfl (calm_sent _ _ _ _ _ h) rfl)

theorem calm_mailboxOnly (h : MailboxOnly s s') : Calm s s' :=
  calm_grows (h.grows fun _ _ => trivial) h.same.streams

theorem calm_drain (h : Drain c k a s s') : Calm s s' := by
  induction h with
  | anonymous _ => exact calm_same rfl rfl
  | empty _ hq => exact calm_mailboxOnly (mailboxQuery_only hq)
  | next _ hq _ ih =>
    have hread := calm_mailboxOnly (mailboxQuery_only hq)
    exact (hread.trans (calm_deliver _ c k .mailboxMessage _ (by simp))).trans ih

theorem calm_dispatched {b : Bool} (h : Dispatched rex name m s s' b) : Calm s s' := by
  cases h with
  | none _ => exact calm_same rfl rfl
  | @some offers o t _ _ =>
    have hlog : Calm s (s.log (.dispatched name (s.service name).offers.items o m)) :=
      calm_log rfl trivial rfl
    exact (hlog.trans (calm_deliver _ o.client t .serviceMessage m (by simp))).trans
      (calm_same rfl rfl)

theorem calm_scan {mo : Option Msg} (h : Scan rex name mo s s') : Calm s s' := by
  induction h with
  | done => exact calm_same rfl rfl
  | @skip m s _ _ hd _ ih =>
    have hlink : Calm s (s.link m) := calm_same rfl rfl
    refine (hlink.trans (calm_dispatched hd)).trans (.trans ?_ ih)
    exact calm_same rfl rfl
  | @take m s _ _ _ hd _ _ ih =>
    have hlink : Calm s (s.link m) := calm_same rfl rfl
    refine (hlink.trans (calm_dispatched hd)).trans (.trans ?_ ih)
    exact calm_same rfl rfl

theorem calm_mailed (h : Mailed c a s s') : Calm s s' := by
  have hnew : Calm s (s.mailing c a) := calm_log rfl trivial rfl
  cases h with
  | @direct t target _ _ _ hd =>
    exact (hnew.trans (calm_deliver _ target t .mailboxMessage _ (by simp))).trans (calm_drain hd)
  | stored _ => exact hnew.trans (calm_same rfl rfl)

theorem calm_requested (h : Requested rex c a s s') : Calm s s' := by
  have hreq : Calm s (s.requesting c a) := calm_log rfl trivial rfl
  cases h with
  | dispatched hd => exact hreq.trans (calm_dispatched hd)
  | queued hd _ => exact (hreq.trans (calm_dispatched hd)).trans (calm_same rfl rfl)
  | refused hd _ => exact (hreq.trans (calm_dispatched hd)).trans (calm_log rfl trivial rfl)

/-- A command is written. -/
theorem up_pushStream (s : Server) (n : Str) (x : Issue) (name : Str) :
    ((s.pushStream n x).stream name).up = (s.stream name).up := by
  unfold stream
  rw [pushStream_streams, Table.get_modify]
  split
  · rename_i h
    rw [h]
    cases s.streams.get n <;> rfl
  · rfl

theorem up_cancelReaders (s : Server) (c : Cid) (readers : List Str) (name : Str) :
    ((s.cancelReaders c readers).stream name).up = (s.stream name).up := by
  induction readers generalizing s with
  | nil => rfl
  | cons r readers ih =>
    rw [← up_pushStream s r (.command (.cancel c)) name]
    exact ih (s.pushStream r (.command (.cancel c)))

theorem calm_leave (s : Server) (c : Cid) (k : Client) (a : Str) : Calm s (s.leave c k a) :=
  ⟨grows_one (o := .left c k.readers) rfl trivial, up_cancelReaders s c k.readers⟩

theorem calm_fail (s : Server) (c : Cid) (k : Client) (a : Str) : Calm s (s.fail c k a) := by
  have hset : Calm (s.enter c .exception) ((s.enter c .exception).setStatus failed) :=
    calm_same rfl rfl
  exact (((calm_enter s c .exception).trans hset).trans (calm_answer _ c k (by simp))).trans
    (calm_leave ..)

theorem calm_evicted (h : Evicted a s s') : Calm s s' := by
  cases h with
  | nobody _ => exact calm_same rfl rfl
  | holder _ _ _ => exact (calm_enter ..).trans (calm_leave ..)

/-- **What an event does to the messages on streams**: nothing, or one is published. -/
theorem calm_handled (h : Handled rex s c e s') : Calm s s' ∨
    ∃ k a name, Open s c k a ∧ k.writer = some name ∧ e = .streamSend ∧
      s' = (s.enter c .streamSend).publish c a name := by
  have henter := fun e => calm_enter s c e
  have hset : ∀ e n, Calm s ((s.enter c e).setStatus n) := fun e n =>
    (henter e).trans (calm_same rfl rfl)
  have hreply : ∀ {s₁ : Server} (k : Client) {i : Id}, i ≠ .streamDeliver → Calm s s₁ →
      Calm s (s₁.answer c k i) := fun k _ hi h => h.trans (calm_answer _ c k hi)
  -- a command for the engine of a stream that may be new
  have hrequired : ∀ (s : Server) (n : Str), Calm s (s.streamRequire n) := fun s n =>
    ⟨grows_same rfl, fun name => congrArg Stream.up (stream_streamRequire s n name)⟩
  have hpush : ∀ (s : Server) (n : Str) (x : Issue), Calm s (s.pushStream n x) := fun s n x =>
    ⟨grows_same rfl, up_pushStream s n x⟩
  cases h with
  | @opened k s₁ _ _ _ hev hd =>
    have hreg : Calm s₁ (s₁.register c k s.message.address) := by
      rw [register_eq]
      exact calm_log rfl (calm_sent _ _ _ _ _ (by simp)) rfl
    exact .inl ((((henter _).trans (calm_evicted hev)).trans hreg).trans (calm_drain hd))
  | departed _ _ => exact .inl ((henter _).trans (calm_same rfl rfl))
  | unopened _ _ _ => exact .inl (hreply _ (by simp) (hset _ _))
  | @wrote k a _ =>
    have hst := (henter .streamWrite).trans (hrequired _ s.message.stream)
    exact .inl (hreply k (by simp) (hst.trans (calm_same rfl rfl)))
  | @read k a _ =>
    have hst := ((henter .streamRead).trans (hrequired _ s.message.stream)).trans
      (hpush _ s.message.stream (.command (.compile c s.message.pattern)))
    exact .inl (hreply k (by simp) (hst.trans (calm_log rfl trivial rfl)))
  | @cancelled k a _ =>
    have hst := ((henter .streamCancel).trans (hrequired _ s.message.stream)).trans
      (hpush _ s.message.stream (.command (.cancel c)))
    exact .inl (hreply k (by simp) (hst.trans (calm_log rfl trivial rfl)))
  | published ho hwr => exact .inr ⟨_, _, _, ho, hwr, rfl, rfl⟩
  | unwritten _ _ => exact .inl ((henter _).trans (calm_fail ..))
  | mailed _ hm => exact .inl ((henter _).trans (calm_mailed hm))
  | requested _ hm => exact .inl ((henter _).trans (calm_requested hm))
  | @offered k a s₁ _ _ hs₁ hscan =>
    subst hs₁
    have hlog : Calm (s.enter c .serviceOffer) ((s.enter c .serviceOffer).log
        (.offered c s.message.address ⟨s.offerId, s.message.pattern, c⟩)) :=
      calm_log rfl trivial rfl
    have hoffer : Calm (s.enter c .serviceOffer) ((s.enter c .serviceOffer).offering c k) :=
      hlog.trans (calm_log rfl (calm_sent _ _ _ _ _ (by simp)) rfl)
    refine .inl (((henter _).trans hoffer).trans (.trans ?_ (calm_scan hscan)))
    exact calm_same rfl rfl
  | confirmed _ => exact .inl ((henter _).trans (calm_fail ..))
  | credited _ => exact .inl (henter _)
  | pinged _ => exact .inl (hreply _ (by simp) (henter _))
  | closed _ => exact .inl ((hreply _ (by simp) (henter _)).trans (calm_leave ..))
  | expired _ => exact .inl ((henter _).trans (calm_leave ..))
  | @invalid k a _ _ _ =>
    exact .inl ((hreply k (by simp) (hset e commandInvalid)).trans (calm_leave ..))

/-! ## The trace -/

theorem vouched_calm {o : Obs} (h : o.Calm) (t : List Obs) : o.Vouched rex t := by
  cases o with
  | sent c holder w hand =>
    cases w with
    | none => trivial
    | some w =>
      cases w with
      | streamDeliver n sender subject content => exact absurd rfl h
      | _ => trivial
  | published c n m => exact h.elim
  | forwarded n m targets => exact h.elim
  | _ => trivial

theorem streamedTo_append (c : Cid) (name : Str) (t t' : List Obs) :
    streamedTo c name (t ++ t') = streamedTo c name t ++ streamedTo c name t' :=
  List.filterMap_append

theorem forwardedTo_append (c : Cid) (name : Str) (t t' : List Obs) :
    forwardedTo c name (t ++ t') = forwardedTo c name t ++ forwardedTo c name t' := by
  rw [forwardedTo, forwardedOn_append, List.flatMap_append]
  rfl

theorem mem_forwardedTo : m ∈ forwardedTo c name t ↔
    ∃ targets, .forwarded name m targets ∈ t ∧ c ∈ targets := by
  simp only [forwardedTo, List.mem_flatMap, Prod.exists, mem_forwardedOn, List.mem_map,
    List.mem_filter, decide_eq_true_eq]
  constructor
  · rintro ⟨m', targets, hf, d, ⟨hd, rfl⟩, rfl⟩
    exact ⟨targets, hf, hd⟩
  · rintro ⟨targets, hf, hc⟩
    exact ⟨m, targets, hf, c, ⟨hc, rfl⟩, rfl⟩

theorem forwardedTo_ours (h : ∀ o ∈ t, o.Ours) : forwardedTo c name t = [] := by
  rw [forwardedTo, forwardedOn_ours h]
  rfl

theorem streamedTo_calm (h : ∀ o ∈ t, o.Calm) : streamedTo c name t = [] := by
  refine List.filterMap_eq_nil_iff.2 fun o ho => ?_
  have hcalm := h o ho
  cases o with
  | sent d holder w hand =>
    cases w with
    | none => rfl
    | some w =>
      cases w with
      | streamDeliver n sender subject content => exact absurd rfl hcalm
      | _ => rfl
  | _ => rfl

/-- The messages in what was written are those that were published. -/
theorem written_messages (name : Str) (t : List Obs) :
    (written name t).filterMap Issue.message? = publishedOn name t := by
  induction t with
  | nil => rfl
  | cons o t ih =>
    rw [written_cons, List.filterMap_append, ih]
    cases o with
    | published c n m => by_cases hn : n = name <;> simp [Obs.issues, publishedOn, hn, Issue.message?]
    | subscribed c n p => by_cases hn : n = name <;> simp [Obs.issues, publishedOn, hn, Issue.message?]
    | cancelled c n => by_cases hn : n = name <;> simp [Obs.issues, publishedOn, hn, Issue.message?]
    | left c readers =>
      have hnone : (Obs.issues name (.left c readers)).filterMap Issue.message? = [] := by
        refine List.filterMap_eq_nil_iff.2 fun i hi => ?_
        obtain ⟨-, -, rfl⟩ := List.mem_map.1 hi
        rfl
      rw [hnone]
      rfl
    | _ => rfl

theorem mem_written_message (h : .message d m ∈ written name t) : .published d name m ∈ t := by
  obtain ⟨w₁, w₂, hw⟩ := List.append_of_mem h
  obtain ⟨t₁, t₂, rfl, -⟩ := written_split hw
  simp

theorem publishedOn_append (name : Str) (t t' : List Obs) :
    publishedOn name (t ++ t') = publishedOn name t ++ publishedOn name t' :=
  List.filterMap_append

/-! ## Reading a STREAM SEND -/

/-- `c`, whose address is `a` and who writes to `name`, has sent a STREAM SEND. -/
structure Posting (s s₁ : Server) (c : Cid) (a name : Str) : Prop where
  calm : Calm s (s₁.enter c .streamSend)
  heard : ∃ t₀ frames body, (s₁.enter c .streamSend).trace = t₀ ++
      [.received c (some a) frames (some (.streamSend s₁.message.subject body)),
        .event c .streamSend] ∧
    ∀ v, decode frames = some v →
      v = .streamSend s₁.message.subject body ∧ s₁.message.content = some body
  wired : ∃ st, s₁.streams.get name = some st

theorem calm_received (hw : Wired s) {parts : List Frame} (h : Received rex s parts s') :
    Calm s s' ∨ ∃ c a name s₁, Posting s s₁ c a name ∧
      s' = (s₁.enter c .streamSend).publish c a name := by
  have hin : ∀ p rest, Calm s (s.received p rest) := fun p rest => calm_same rfl rfl
  have hrequire : ∀ {s : Server} {key : Key} {c : Cid} {s₁ : Server},
      s.clientRequire key = (c, s₁) → Calm s s₁ := by
    intro s key c s₁ h
    rcases clientRequire_cases h with ⟨-, rfl⟩ | ⟨-, -, rfl⟩ <;> exact calm_same rfl rfl
  cases h with
  | interrupted _ => exact .inl (calm_same rfl rfl)
  | @ignored p rest _ => exact .inl ((hin p rest).trans (hrequire rfl))
  | @handled p rest c s₁ _ hrecv hreq hh =>
    have hheard : Calm s (s₁.hear c parts.tail p) :=
      ((hin p rest).trans (hrequire hreq)).trans (calm_log rfl trivial rfl)
    rcases calm_handled hh with hcalm | ⟨k, a, name, ho, hwr, he, rfl⟩
    · exact .inl (hheard.trans hcalm)
    · have hmessage : (s₁.hear c parts.tail p).message = p := by
        rcases clientRequire_cases hreq with ⟨-, rfl⟩ | ⟨-, -, rfl⟩ <;> rfl
      have hw₀ : Wired (s.received p rest) := hw.frame rfl rfl rfl
      have hw₁ : Wired (s₁.hear c parts.tail p) := (hw₀.clientRequire hreq).frame rfl rfl rfl
      have hholder : (s₁.ctx c).bind (·.address) = some a := by
        rw [show s₁.ctx c = some k from ho.ctx]
        exact ho.address
      have hid : Id.ofCode p.id = some .streamSend := by
        unfold protocolEvent at he
        split at he <;> first | assumption | cases he
      have hwire : p.wire = some (.streamSend p.subject (p.content.getD [[]])) := by
        unfold Proto.wire
        rw [hid]
        rfl
      refine .inr ⟨c, a, name, _, ⟨hheard.trans (calm_enter ..), ⟨s₁.trace, parts.tail,
        p.content.getD [[]], ?_, fun v hv => ?_⟩, hw₁.writers c k name ho.ctx hwr⟩, rfl⟩
      · rw [enter_trace, hear_trace, hholder, hmessage, hwire, List.append_assoc]
        rfl
      · cases parts with
        | nil => cases hrecv
        | cons rid frames =>
          obtain rfl : v = _ := (Option.some.inj ((wire_of_decode hv hrecv).symm.trans hwire))
          have hc := recv_content hv hrecv (by simp [Wire.id, layout])
          rw [hmessage]
          exact ⟨rfl, by rw [hc]; rfl⟩

/-! ## The pipes to the engines -/

theorem Piped.wrote (h : Piped s) (hw : Wrote s s') : Piped s' := by
  obtain ⟨t, ht, hours, hst, -, -⟩ := hw.grows
  refine ⟨fun name => ?_, fun d name m hm => ?_, fun c name p hp => ?_⟩
  · rw [ht, publishedOn_append, forwardedOn_append, forwardedOn_ours hours, List.append_nil,
      h.kept, unread, unread, (hst name).2, List.filterMap_append, written_messages,
      List.append_assoc]
  · rw [(hst name).2] at hm
    rw [ht]
    rcases List.mem_append.1 hm with hm | hm
    · exact List.mem_append_left _ (h.posted d name m hm)
    · exact List.mem_append_right _ (mem_written_message hm)
  · rw [(hst name).1, (hst name).2] at hp
    rw [ht]
    rcases hp with hp | hp
    · exact List.mem_append_left _ (h.listed c name p (.inl hp))
    · rcases List.mem_append.1 hp with hp | hp
      · exact List.mem_append_left _ (h.listed c name p (.inr hp))
      · exact List.mem_append_right _ (mem_written_compile hp)

/-- An engine reads a command. -/
theorem Piped.command {st st' : Stream} (h : Piped s) (hst : s.streams.get name = some st)
    (hcmd : st.handleCommand = some st') (hd : Distinct st.selectors) :
    Piped (s.setStreams (s.streams.set name st')) := by
  have hs : s.stream name = st := stream_of_get hst
  have hset : (s.setStreams (s.streams.set name st')).streams = s.streams.set name st' := rfl
  obtain ⟨x, pre, post, hpend, -, hpend', hsel, -⟩ := Stream.handleCommand_cases hcmd
  have hsub : ∀ i, i ∈ st'.pending → i ∈ st.pending := by
    intro i hi
    rw [hpend'] at hi
    rw [hpend]
    rcases List.mem_append.1 hi with hi | hi
    · exact List.mem_append_left _ hi
    · exact List.mem_append_right _ (List.mem_cons_of_mem _ hi)
  refine ⟨fun name' => ?_, fun d name' m hm => ?_, fun c name' p hp => ?_⟩
  · rw [stream_of_set hset, setStreams_trace, h.kept]
    by_cases hn : name' = name
    · have hmsg : Issue.message? (.command x) = none := rfl
      rw [if_pos hn, hn, hs, unread, unread, hpend, hpend', List.filterMap_append,
        List.filterMap_append, List.filterMap_cons_none hmsg]
    · rw [if_neg hn]
  · rw [stream_of_set hset] at hm
    by_cases hn : name' = name
    · rw [if_pos hn] at hm
      rw [hn]
      exact h.posted d name m (by rw [hs]; exact hsub _ hm)
    · rw [if_neg hn] at hm
      exact h.posted d name' m hm
  · rw [stream_of_set hset] at hp
    by_cases hn : name' = name
    · rw [if_pos hn] at hp
      rw [hn]
      have hold := h.listed c name p
      rw [hs] at hold
      rcases hp with hp | hp
      · rw [hsel] at hp
        have hx : .command x ∈ st.pending := by
          rw [hpend]
          simp
        cases x with
        | compile d q =>
          rcases (holds_compile ..).1 hp with hp | ⟨rfl, rfl⟩
          · exact hold (.inl hp)
          · exact hold (.inr hx)
        | cancel d => exact hold (.inl ((holds_cancel hd ..).1 hp).1)
      · exact hold (.inr (hsub _ hp))
    · rw [if_neg hn] at hp
      exact h.listed c name' p hp

/-- An engine reads a message and forwards it. -/
theorem Piped.message {st st' : Stream} {targets : List Cid} (h : Piped s)
    (hst : s.streams.get name = some st) (hmsg : st.handleMessage rex = some (st', m, targets))
    (htr : s'.trace = s.trace ++ [.forwarded name m targets])
    (hset : s'.streams = s.streams.set name st') : Piped s' := by
  have hs : s.stream name = st := stream_of_get hst
  obtain ⟨sender, pre, post, hpend, hpre, -, hpend', hsel, -⟩ := Stream.handleMessage_cases hmsg
  have hsub : ∀ i, i ∈ st'.pending → i ∈ st.pending := by
    intro i hi
    rw [hpend'] at hi
    rw [hpend]
    rcases List.mem_append.1 hi with hi | hi
    · exact List.mem_append_left _ hi
    · exact List.mem_append_right _ (List.mem_cons_of_mem _ hi)
  have hunread : unread st = m :: unread st' := by
    have hnone : pre.filterMap Issue.message? = [] := by
      refine List.filterMap_eq_nil_iff.2 fun i hi => ?_
      have hcmd := hpre i hi
      cases i with
      | command x => rfl
      | message d m => cases hcmd
    rw [unread, unread, hpend, hpend', List.filterMap_append, List.filterMap_append, hnone]
    rfl
  refine ⟨fun name' => ?_, fun d name' m' hm => ?_, fun c name' p hp => ?_⟩
  · have hpub : publishedOn name' s'.trace = publishedOn name' s.trace := by
      rw [htr, publishedOn_append]
      exact List.append_nil _
    rw [stream_of_set hset, hpub, h.kept, htr, forwardedOn_append, List.map_append]
    by_cases hn : name' = name
    · have hone : forwardedOn name [.forwarded name m targets] = [(m, targets)] := by
        simp [forwardedOn]
      rw [if_pos hn, hn, hs, hunread, hone, List.append_assoc]
      rfl
    · have hn' : name ≠ name' := fun h => hn h.symm
      have hnone : forwardedOn name' [.forwarded name m targets] = [] := by
        simp [forwardedOn, hn']
      rw [if_neg hn, hnone, List.map_nil, List.append_nil]
  · rw [stream_of_set hset] at hm
    rw [htr]
    refine List.mem_append_left _ ?_
    by_cases hn : name' = name
    · rw [if_pos hn] at hm
      rw [hn]
      exact h.posted d name m' (by rw [hs]; exact hsub _ hm)
    · rw [if_neg hn] at hm
      exact h.posted d name' m' hm
  · rw [stream_of_set hset] at hp
    rw [htr]
    refine List.mem_append_left _ ?_
    by_cases hn : name' = name
    · rw [if_pos hn, hsel] at hp
      rw [hn]
      refine h.listed c name p ?_
      rw [hs]
      exact hp.imp id (hsub _)
    · rw [if_neg hn] at hp
      exact h.listed c name' p hp

/-! ## The pipes from the engines -/

/-- A client that is gone does not come back. -/
theorem gone_moved {l : Label} (hr : Reg s) (h : Moved rex s l s') (hc : stageOf s c = .gone) :
    stageOf s' c = .gone := by
  obtain ⟨t, -, hrun⟩ := freely_moved hr h c
  have hclosed := Monitor.run_closed (M := talk c) (P := fun q => q = (.gone, [])) ?_
    (by rw [hc]) hrun
  · exact congrArg Prod.fst hclosed
  · rintro q o q' rfl hnext
    by_cases ho : o.client? = some c
    · rw [next_self ho] at hnext
      cases hnext
    · rw [next_other ho] at hnext
      exact (Option.some.inj hnext).symm

theorem deliverTo_self (c : Cid) (m : Msg) : deliverTo c (.deliver c m) = some m := if_pos rfl

theorem deliverTo_other (h : c ≠ d) (m : Msg) : deliverTo d (.deliver c m) = none := if_neg h

/-- The copies of one message. -/
theorem forwardedTo_one (c : Cid) (name : Str) (m : Msg) (targets : List Cid) :
    forwardedTo c name [.forwarded name m targets] =
      (targets.map (.deliver · m)).filterMap (deliverTo c) := by
  have hone : forwardedOn name [.forwarded name m targets] = [(m, targets)] := by
    simp [forwardedOn]
  rw [forwardedTo, hone, List.flatMap_singleton, List.filterMap_map]
  clear hone
  induction targets with
  | nil => rfl
  | cons d targets ih =>
    by_cases hd : d = c
    · simpa [hd, deliverTo] using ih
    · simpa [hd, deliverTo] using ih

/-- Nothing is forwarded or delivered. -/
theorem Passed.still (h : Passed s) (ht : s'.trace = s.trace ++ t) (hours : ∀ o ∈ t, o.Ours)
    (hsent : ∀ c name, streamedTo c name t = [])
    (hup : ∀ name c, stageOf s' c ≠ .gone →
      waitingFor c (s'.stream name) = waitingFor c (s.stream name))
    (hgone : ∀ c, stageOf s c = .gone → stageOf s' c = .gone) : Passed s' := by
  intro c name
  obtain ⟨r, hf, hr⟩ := h c name
  refine ⟨r, ?_, fun hc => ?_⟩
  · rw [ht, forwardedTo_append, forwardedTo_ours hours, streamedTo_append, hsent,
      List.append_nil, List.append_nil, hf]
  · rw [hup name c hc]
    exact hr fun hs => hc (hgone c hs)

theorem Calm.ours {o : Obs} (h : o.Calm) : o.Ours := by
  cases o with
  | forwarded n m targets => exact h.elim
  | _ => trivial

theorem Streamed.calm (h : Streamed rex s) (hw : Wrote s s') (hc : Calm s s')
    (hgone : ∀ c, stageOf s c = .gone → stageOf s' c = .gone) : Streamed rex s' := by
  obtain ⟨t, ht, hcalm⟩ := hc.grows
  refine ⟨h.piped.wrote hw, h.passed.still ht (fun o ho => Calm.ours (hcalm o ho))
    (fun c name => streamedTo_calm hcalm) (fun name c _ => ?_) hgone, ?_⟩
  · rw [waitingFor, waitingFor, hc.up]
  · rw [ht]
    exact h.vouched.append fun o ho t => vouched_calm (hcalm o ho) t

theorem Streamed.publish {s₁ : Server} (h : Streamed rex s) (hp : Posting s s₁ c a name)
    (hw : Wrote s ((s₁.enter c .streamSend).publish c a name))
    (hgone : ∀ d, stageOf s d = .gone →
      stageOf ((s₁.enter c .streamSend).publish c a name) d = .gone) :
    Streamed rex ((s₁.enter c .streamSend).publish c a name) := by
  obtain ⟨t, ht, hcalm⟩ := hp.calm.grows
  obtain ⟨t₀, frames, body, hheard, hread⟩ := hp.heard
  obtain ⟨m, hm, hmsg⟩ : ∃ m : Msg, ((s₁.enter c .streamSend).publish c a name).trace =
      (s₁.enter c .streamSend).trace ++ [.published c name m] ∧
      (m.address = name ∧ m.sender = a ∧ m.subject = s₁.message.subject ∧
        m.content = s₁.message.content) := ⟨_, rfl, rfl, rfl, rfl, rfl⟩
  obtain ⟨haddr, hsender, hsubject, hcontent⟩ := hmsg
  have htrace : ((s₁.enter c .streamSend).publish c a name).trace =
      s.trace ++ (t ++ [.published c name m]) := by
    rw [hm, ht, List.append_assoc]
  refine ⟨h.piped.wrote hw, h.passed.still htrace ?_ (fun d n => ?_) (fun n d _ => ?_) hgone, ?_⟩
  · intro o ho
    rcases List.mem_append.1 ho with ho | ho
    · exact Calm.ours (hcalm o ho)
    · rw [List.mem_singleton.1 ho]
      trivial
  · rw [streamedTo_append, streamedTo_calm hcalm]
    rfl
  · rw [waitingFor, waitingFor, ← hp.calm.up n]
    exact congrArg (List.filterMap _) (up_pushStream _ name _ n)
  · rw [hm]
    refine Justified.snoc ?_ ⟨haddr, t₀, frames, body, ?_, fun v hv => ?_⟩
    · rw [ht]
      exact h.vouched.append fun o ho t => vouched_calm (hcalm o ho) t
    · rw [hheard, hsender, hsubject]
    · rw [hsubject, hcontent]
      exact hread v hv

/-- The server reads an item of traffic that is for nobody, or for a client that is gone. -/
theorem Streamed.skip {st : Stream} {x : Traffic} {up : List Traffic} (h : Streamed rex s)
    (hst : s.streams.get name = some st) (hx : st.up = x :: up) (hw : Wrote s s')
    (ht : s'.trace = s.trace) (hset : s'.streams = s.streams.set name { st with up := up })
    (hfor : ∀ c, stageOf s' c ≠ .gone → deliverTo c x = none)
    (hgone : ∀ c, stageOf s c = .gone → stageOf s' c = .gone) : Streamed rex s' := by
  refine ⟨h.piped.wrote hw, h.passed.still (t := []) (by rw [ht, List.append_nil]) (by simp)
    (fun c n => rfl) (fun n c hc => ?_) hgone, by rw [ht]; exact h.vouched⟩
  rw [stream_of_set hset]
  by_cases hn : n = name
  · rw [if_pos hn, hn, stream_of_get hst, waitingFor, waitingFor, hx,
      List.filterMap_cons_none (hfor c hc)]
  · rw [if_neg hn]

/-- The frame of a delivery. -/
theorem stream_wire (s : Server) (key : Key) (m : Msg) :
    (s.delivery key .streamDeliver m).wire = some (.streamDeliver m.address m.sender m.subject
      (m.content.getD (s.message.content.getD [[]]))) := by
  unfold delivery Msg.setProto
  cases hm : m.content <;> simp [Proto.wire, Proto.setId, Proto.setStr]

/-- The server delivers a message. -/
theorem Streamed.deliver {st : Stream} {up : List Traffic} (h : Streamed rex s)
    (hst : s.streams.get name = some st) (hx : st.up = .deliver c m :: up) (ho : Open s c k a)
    (hw : Wrote s s')
    (hs' : s' = ((s.popStream name st up).enter c .streamMessage).deliver c k .streamDeliver m)
    (hgone : ∀ c, stageOf s c = .gone → stageOf s' c = .gone) : Streamed rex s' := by
  have hs : s.stream name = st := stream_of_get hst
  have hset : s'.streams = s.streams.set name { st with up := up } := by
    rw [hs']
    rfl
  obtain ⟨body, htr, hbody⟩ : ∃ body, s'.trace = s.trace ++ [.event c .streamMessage,
      .sent c k.address (some (.streamDeliver m.address m.sender m.subject body)) (some m)] ∧
      ∀ b, m.content = some b → body = b := by
    refine ⟨m.content.getD (s.message.content.getD [[]]), ?_, fun b hb => ?_⟩
    · rw [hs', deliver_trace, stream_wire, enter_trace, List.append_assoc]
      rfl
    · rw [hb]
      rfl
  -- the message has been forwarded to `c`, and so it was published on this stream
  obtain ⟨r, hf, hr⟩ := h.passed c name
  have hthere : stageOf s c ≠ .gone := by
    rw [stageOf_open ho]
    simp
  have hwaiting : r = m :: waitingFor c { st with up := up } := by
    rw [hr hthere, hs, waitingFor, hx, List.filterMap_cons_some (deliverTo_self c m)]
    rfl
  have hmem : m ∈ forwardedTo c name s.trace := by
    rw [hf, hwaiting]
    simp
  obtain ⟨targets, hfwd, hc⟩ := mem_forwardedTo.1 hmem
  have haddr : m.address = name := by
    obtain ⟨t₁, t₂, ht, d, hpub, -⟩ := h.vouched.of_mem hfwd
    have hv := h.vouched
    rw [ht] at hv
    obtain ⟨-, -, -, haddr, -⟩ := hv.before.of_mem hpub
    exact haddr
  refine ⟨h.piped.wrote hw, fun d n => ?_, ?_⟩
  · have hours : ∀ o ∈ [Obs.event c .streamMessage, .sent c k.address (some (.streamDeliver m.address
        m.sender m.subject body)) (some m)], o.Ours := by
      intro o ho
      rcases List.mem_pair.1 ho with rfl | rfl <;> trivial
    rw [htr, forwardedTo_append, forwardedTo_ours hours, List.append_nil, streamedTo_append,
      stream_of_set hset]
    by_cases hcopy : c = d ∧ m.address = n
    · obtain ⟨rfl, rfl⟩ := hcopy
      rw [← haddr] at hf
      refine ⟨waitingFor c { st with up := up }, ?_, fun _ => ?_⟩
      · rw [hf, hwaiting, List.append_assoc]
        simp [streamedTo]
      · rw [if_pos haddr]
    · have hnone : streamedTo d n [.event c .streamMessage, .sent c k.address
          (some (.streamDeliver m.address m.sender m.subject body)) (some m)] = [] := by
        simp [streamedTo, hcopy]
      obtain ⟨r', hf', hr'⟩ := h.passed d n
      rw [hnone, List.append_nil]
      refine ⟨r', hf', fun hd => ?_⟩
      rw [hr' fun hs => hd (hgone d hs)]
      by_cases hn : n = name
      · have hcd : c ≠ d := fun hcd => hcopy ⟨hcd, haddr.trans hn.symm⟩
        rw [if_pos hn, hn, hs, waitingFor, hx, List.filterMap_cons_none (deliverTo_other hcd m)]
        rfl
      · rw [if_neg hn]
  · rw [htr, List.append_cons]
    have hevent := h.vouched.snoc (vouched_calm (o := .event c .streamMessage) trivial s.trace)
    refine hevent.snoc ⟨m, targets, rfl, ?_, hc, rfl, rfl, hbody⟩
    rw [haddr]
    exact List.mem_append_left _ hfwd

/-- An engine reads a command: it may acknowledge it. -/
theorem Streamed.command {st st' : Stream} (h : Streamed rex s)
    (hst : s.streams.get name = some st) (hcmd : st.handleCommand = some st')
    (hd : Distinct st.selectors) : Streamed rex (s.setStreams (s.streams.set name st')) := by
  have hset : (s.setStreams (s.streams.set name st')).streams = s.streams.set name st' := rfl
  obtain ⟨x, -, -, -, -, -, -, hup⟩ := Stream.handleCommand_cases hcmd
  refine ⟨h.piped.command hst hcmd hd, h.passed.still (t := []) (by simp) (by simp)
    (fun c n => rfl) (fun n c _ => ?_) (fun c hc => hc), h.vouched⟩
  rw [stream_of_set hset]
  by_cases hn : n = name
  · rw [if_pos hn, hn, stream_of_get hst, waitingFor, waitingFor, hup, List.filterMap_append]
    cases x with
    | compile d p => exact List.append_nil _
    | cancel d => exact List.append_nil _
  · rw [if_neg hn]

/-- An engine forwards a message. -/
theorem Streamed.message {st st' : Stream} {targets : List Cid} (h : Streamed rex s)
    (hst : s.streams.get name = some st) (hmsg : st.handleMessage rex = some (st', m, targets))
    (hs' : s' = (((s.setStreams (s.streams.set name st')).linkTimes m targets.length).unlink m).log
      (.forwarded name m targets)) : Streamed rex s' := by
  have hs : s.stream name = st := stream_of_get hst
  have htr : s'.trace = s.trace ++ [.forwarded name m targets] := by
    rw [hs']
    rfl
  have hset : s'.streams = s.streams.set name st' := by
    rw [hs']
    rfl
  have hstage : ∀ c, stageOf s' c = stageOf s c := by
    intro c
    rw [hs']
    exact stageOf_frame rfl rfl
  obtain ⟨d, pre, post, hpend, -, htargets, -, -, hup⟩ := Stream.handleMessage_cases hmsg
  refine ⟨h.piped.message hst hmsg htr hset, fun c n => ?_, ?_⟩
  · obtain ⟨r, hf, hr⟩ := h.passed c n
    rw [htr, forwardedTo_append, streamedTo_append, stream_of_set hset, hstage,
      show streamedTo c n [.forwarded name m targets] = [] from rfl, List.append_nil]
    by_cases hn : n = name
    · refine ⟨r ++ forwardedTo c name [.forwarded name m targets], ?_, fun hc => ?_⟩
      · rw [hn] at hf ⊢
        rw [hf, List.append_assoc]
      · rw [if_pos hn, hr hc, hn, hs, waitingFor, waitingFor, hup, List.filterMap_append,
          forwardedTo_one]
    · have hn' : name ≠ n := fun h => hn h.symm
      have hnone : forwardedTo c n [.forwarded name m targets] = [] := by
        simp [forwardedTo, forwardedOn, hn']
      rw [if_neg hn, hnone, List.append_nil]
      exact ⟨r, hf, hr⟩
  · rw [htr]
    refine h.vouched.snoc ⟨d, h.piped.posted d name m ?_, fun c hc => ?_⟩
    · rw [hs, hpend]
      simp
    · rw [htargets] at hc
      obtain ⟨hne, p, hp, hrex⟩ := mem_receivers.1 hc
      exact ⟨hne, p, h.piped.listed c name p (.inl (by rw [hs]; exact hp)), hrex⟩

/-! ## Runs -/

theorem piped_new : Piped .new where
  kept _ := rfl
  posted _ _ _ h := by cases h
  listed c _ p h := by
    rcases h with h | h
    · exact absurd h (holds_nil c p)
    · cases h

theorem streamed_new (rex : Str → Str → Bool) : Streamed rex .new where
  piped := piped_new
  passed _ _ := ⟨[], rfl, fun _ => rfl⟩
  vouched := .nil

theorem streamed_moved {l : Label} (hr : Regular s) (h : Streamed rex s) (hm : Moved rex s l s') :
    Streamed rex s' := by
  have hgone : ∀ c, stageOf s c = .gone → stageOf s' c = .gone := fun c =>
    gone_moved hr.reg hm
  cases hl : l.engine with
  | true =>
    cases hm with
    | command hst hcmd => exact h.command hst hcmd (hr.wired.distinct _ _ hst)
    | message hst hmsg => exact h.message hst hmsg rfl
    | _ => cases hl
  | false =>
    have hw := wrote_moved hr.wired hm hl
    have hrecv : ∀ {parts : List Frame}, Received rex s parts s' → Streamed rex s' := by
      intro parts hrecv
      rcases calm_received hr.wired hrecv with hc | ⟨c, a, name, s₁, hp, rfl⟩
      · exact h.calm hw hc hgone
      · exact h.publish hp hw hgone
    cases hm with
    | router _ _ h => exact hrecv h
    | more _ h => exact hrecv h
    | expired _ _ _ hh =>
      rcases calm_handled hh with hc | ⟨k, a, name, -, -, he, -⟩
      · exact h.calm hw hc hgone
      · cases he
    | @acked name st c up k _ hst hx _ =>
      refine h.skip hst hx hw (put_trace ..) ?_ (fun _ _ => rfl) hgone
      unfold Server.put
      split <;> rfl
    | @discarded name st c m up k _ hst hx hk hz =>
      refine h.skip hst hx hw rfl rfl (fun d hd => deliverTo_other (fun hcd => hd ?_) m) hgone
      rw [← hcd]
      exact hgone c (by simp [stageOf, hk, hz])
    | delivered _ hst hx ho => exact h.deliver hst hx ho hw rfl hgone
    | command _ _ => cases hl
    | message _ _ => cases hl
    | mailbox _ hread => exact h.calm hw (calm_mailboxOnly (mailboxRead_only hread)) hgone
    | @configured service mailbox s₁ _ hreads =>
      have hcfg : Calm s { s with serviceCfg := service } := calm_same rfl rfl
      have hread := hcfg.trans (calm_mailboxOnly (mailboxReads_only hreads))
      exact h.calm hw (hread.trans (calm_same rfl rfl)) hgone

theorem streamed_inductive (rex : Str → Str → Bool) :
    (broker rex).Inductive fun s => Regular s ∧ Streamed rex s := by
  refine (regular_inductive rex).strengthen (Q := Streamed rex) ?_ ?_
  · rintro s rfl
    exact streamed_new rex
  · intro s l s' hr _ h hstep
    exact streamed_moved hr h (moved_of_step hr.reg hr.wired hstep)

/-- **Streams lose, repeat and reorder nothing.** In every reachable state, for every stream and
in any interleaving: the messages published on it are, in order, those that its engine has
forwarded and those that it has not read yet; and the copies forwarded to a client are, in order,
those that it was sent and, as long as it is there, those that wait in the pipe for it. -/
theorem stream_conserved (h : (broker rex).Reachable s) (name : Str) :
    publishedOn name s.trace =
      (forwardedOn name s.trace).map Prod.fst ++ unread (s.stream name) ∧
    ∀ c, streamedTo c name s.trace <+: forwardedTo c name s.trace ∧
      (stageOf s c ≠ .gone → forwardedTo c name s.trace =
        streamedTo c name s.trace ++ waitingFor c (s.stream name)) := by
  have hs := ((streamed_inductive rex).reachable s h).2
  refine ⟨hs.piped.kept name, fun c => ?_⟩
  obtain ⟨r, hf, hr⟩ := hs.passed c name
  exact ⟨⟨r, hf.symm⟩, fun hc => by rw [hf, hr hc]⟩

/-- One message has been delivered, another has not been read. -/
theorem stream_conserved_delivers : ∃ s, (broker fun _ _ => true).Reachable s ∧
    streamedTo 0 weather s.trace = [firstSend] ∧ (unread (s.stream weather)).length = 1 ∧
    publishedOn weather s.trace =
      (forwardedOn weather s.trace).map Prod.fst ++ unread (s.stream weather) ∧
    forwardedTo 0 weather s.trace =
      streamedTo 0 weather s.trace ++ waitingFor 0 (s.stream weather) := by
  have hrun : ((Server.new.steps (fun _ _ => true) (fun _ _ => True) 20
      (readRun [.command weather, .message weather, .traffic weather,
        .request [2] (.streamSend .empty [[8]])])).any fun s =>
      streamedTo 0 weather s.trace = [firstSend] ∧ (unread (s.stream weather)).length = 1 ∧
        stageOf s 0 ≠ .gone) = true := by decide +kernel
  obtain ⟨s, hs, hp⟩ := (Option.any_eq_true _ _).1 hrun
  obtain ⟨hsent, hone, hthere⟩ := of_decide_eq_true hp
  have hr := (reachable_of_steps hs).of_within
  obtain ⟨hkept, hpassed⟩ := stream_conserved hr weather
  exact ⟨s, hr, hsent, hone, hkept, (hpassed 0).2 hthere⟩

end
end Malamute.L3
