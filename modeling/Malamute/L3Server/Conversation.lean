import Malamute.Core.Monitor
import Malamute.L1Codec.Read
import Malamute.L3Server.Answers

/-!
# The conversation with one client

`talk c` is a monitor of the trace that looks at client `c`: what it has asked for, and what
the server does about it. Each message is a transition of its own kind, which calls for a fixed
list of observations (`Stage.script`): the command is executed with the arguments of the
message, exactly one reply is sent or none, and after a refusal the client leaves. The arguments
are those that the message object holds once the message is read: those of the frames, if every
field is there. Between two messages there may be a delivery or an expiry, and nothing else; the
expiry may come before the first message, since a malformed one makes a context as well. Once the
client has left there is nothing at all.

* `session_protocol`: the broker conforms to `talk c` for every client, and the monitor's state
  is that of the context.
-/
namespace Malamute.L3
open Malamute.Core Malamute.L1 Malamute.L2 Server

/-- Where a client is, with its address and the stream that it writes to. -/
inductive Stage where
  | unopened
  | opened (address : Str) (writer : Option Str)
  | gone
  deriving DecidableEq

def Stage.address : Stage → Option Str
  | .opened a _ => some a
  | _ => none

/-- What has to be observed next. -/
inductive Expect where
  /-- the event of the message `w` -/
  | heard (w : Option Wire)
  /-- the event of a request that a service hands out, of an exception -/
  | served | raised
  /-- the OK of CONNECTION OPEN; any other frame -/
  | opened (address : Str)
  | sent (i : Id)
  | subscribed (stream pattern : Str)
  | cancelled (stream : Str)
  | offered (service pattern : Str)
  | published (stream subject : Str) (content : List Frame)
  | mailed (address subject tracker : Str) (timeout : UInt32) (content : List Frame)
  | requested (address subject tracker : Str) (timeout : UInt32) (content : List Frame)
  | left
  deriving DecidableEq

/-- The stage, and what has to be observed before the next message. -/
abbrev Talk := Stage × List Expect

/-- The event of a message. -/
def asked (w : Option Wire) : Event := w.elim .terminate heardAs

/-- **What a message calls for.** -/
def Stage.script (w : Option Wire) : Stage → Option Talk
  | .unopened =>
    match w with
    | some (.connectionOpen a) => some (.unopened, [.opened a])
    | _ => some (.unopened, [.sent .error])
  | .opened a n =>
    match w with
    | some (.streamWrite stream) => some (.opened a (some stream), [.sent .ok])
    | some (.streamRead stream pattern) =>
      some (.opened a n, [.subscribed stream pattern, .sent .ok])
    | some (.streamCancel stream) => some (.opened a n, [.cancelled stream, .sent .ok])
    | some (.streamSend subject content) =>
      match n with
      | some stream => some (.opened a n, [.published stream subject content])
      | none => some (.opened a n, [.raised, .sent .error, .left])
    | some (.mailboxSend address subject tracker timeout content) =>
      some (.opened a n, [.mailed address subject tracker timeout content])
    | some (.serviceSend address subject tracker timeout content) =>
      some (.opened a n, [.requested address subject tracker timeout content])
    | some (.serviceOffer service pattern) =>
      some (.opened a n, [.offered service pattern, .sent .ok])
    | some (.confirm _ _ _) => some (.opened a n, [.raised, .sent .error, .left])
    | some (.credit _) => some (.opened a n, [])
    | some .connectionPing => some (.opened a n, [.sent .connectionPong])
    | some .connectionClose => some (.opened a n, [.sent .ok, .left])
    | _ => some (.opened a n, [.sent .error, .left])
  | .gone => none

/-- The message of a MAILBOX SEND or SERVICE SEND with these arguments. -/
def Carries (m : Msg) (address subject tracker : Str) (timeout : UInt32) (content : List Frame) :
    Prop :=
  m.address = address ∧ m.subject = subject ∧ m.tracker = some tracker ∧ m.timeout = timeout ∧
    m.content.getD [[]] = content

instance (m : Msg) (address subject tracker : Str) (timeout : UInt32) (content : List Frame) :
    Decidable (Carries m address subject tracker timeout content) :=
  inferInstanceAs (Decidable (_ ∧ _))

/-- What is expected is observed. -/
def Expect.meets (q : Stage) (o : Obs) : Expect → Option Talk
  | .heard w =>
    match o with
    | .event _ e => if e = asked w then q.script w else none
    | _ => none
  | .served =>
    match o with
    | .event _ e => if e = .serviceMessage then some (q, [.sent .serviceDeliver]) else none
    | _ => none
  | .raised =>
    match o with
    | .event _ e => if e = .exception then some (q, []) else none
    | _ => none
  | .opened a =>
    match o with
    | .sent _ holder w _ =>
      if holder = some a ∧ w.map Wire.id = some .ok then some (.opened a none, []) else none
    | _ => none
  | .sent i =>
    match o with
    | .sent _ holder w _ =>
      if holder = q.address ∧ w.map Wire.id = some i then some (q, []) else none
    | _ => none
  | .subscribed stream pattern =>
    match o with
    | .subscribed _ n p => if n = stream ∧ p = pattern then some (q, []) else none
    | _ => none
  | .cancelled stream =>
    match o with
    | .cancelled _ n => if n = stream then some (q, []) else none
    | _ => none
  | .offered service pattern =>
    match o with
    | .offered _ n offer => if n = service ∧ offer.pattern = pattern then some (q, []) else none
    | _ => none
  | .published stream subject content =>
    match o with
    | .published _ n m =>
      if n = stream ∧ m.subject = subject ∧ m.content.getD [[]] = content ∧
        some m.sender = q.address then some (q, []) else none
    | _ => none
  | .mailed address subject tracker timeout content =>
    match o with
    | .mailed _ m =>
      if Carries m address subject tracker timeout content ∧ some m.sender = q.address then
        some (q, [])
      else none
    | _ => none
  | .requested address subject tracker timeout content =>
    match o with
    | .requested _ m =>
      if Carries m address subject tracker timeout content ∧ some m.sender = q.address then
        some (q, [])
      else none
    | _ => none
  | .left =>
    match o with
    | .left _ _ => some (.gone, [])
    | _ => none

/-- What may come when nothing is expected. A message whose fields are all there is heard as it
was sent. -/
def Stage.idle (q : Stage) (o : Obs) : Option Talk :=
  match q, o with
  | .gone, _ => none
  | q, .received _ holder frames w =>
    if holder = q.address ∧ (decode frames = none ∨ decode frames = w) then some (q, [.heard w])
    else none
  | .unopened, .event _ e => if e = .expired then some (.gone, []) else none
  | .opened a n, .event _ e =>
    if e = .expired then some (.opened a n, [.left])
    else if e = .streamMessage then some (.opened a n, [.sent .streamDeliver])
    else if e = .mailboxMessage then some (.opened a n, [.sent .mailboxDeliver])
    else none
  | .opened a n, .dispatched _ _ _ _ => some (.opened a n, [.served])
  | _, _ => none

def Talk.next : Talk → Obs → Option Talk
  | (q, []), o => q.idle o
  | (q, x :: todo), o => (x.meets q o).map fun r => (r.1, r.2 ++ todo)

/-- The client an observation is about. A stream engine forwards to the clients that it knows,
whatever has become of them. -/
def Obs.client? : Obs → Option Cid
  | .received c _ _ _ | .event c _ | .sent c _ _ _ | .published c _ _ | .mailed c _
  | .requested c _ | .subscribed c _ _ | .cancelled c _ | .offered c _ _ | .left c _ => some c
  | .dispatched _ _ offer _ => some offer.client
  | .dropped _ _ | .forwarded _ _ _ => none

/-- The conversation with client `c`. -/
def talk (c : Cid) : Monitor Talk Obs where
  start := (.unopened, [])
  next q o := if o.client? = some c then q.next o else some q

/-- The stage of a context. -/
def stageOf (s : Server) (c : Cid) : Stage :=
  match s.ctx c with
  | none => if c < s.clientId then .gone else .unopened
  | some k =>
    match k.state with
    | .start => .unopened
    | .connected => .opened (k.address.getD .empty) k.writer
    | _ => .gone

/-- Between `s` and `s'` the monitor of `d` goes from `q` to `q'`. -/
def Talked (d : Cid) (q : Talk) (s s' : Server) (q' : Talk) : Prop :=
  ∃ t, s'.trace = s.trace ++ t ∧ (talk d).run q t = some q'

/-- Nothing is expected of any client, before and after. -/
def Freely (s s' : Server) : Prop := ∀ d, Talked d (stageOf s d, []) s s' (stageOf s' d, [])

/-- The monitor of `c` goes from `q` to `q'`, and nothing is expected of another client. -/
structure Spoken (c : Cid) (q : Talk) (s s' : Server) (q' : Talk) : Prop where
  self : Talked c q s s' q'
  others : ∀ d, d ≠ c → Talked d (stageOf s d, []) s s' (stageOf s' d, [])

section
variable {rex : Str → Str → Bool} {s s' : Server} {c d : Cid} {k : Client} {a : Str} {e : Event}
  {q q' : Talk} {o : Obs} {m : Msg}

theorem next_self (h : o.client? = some d) : (talk d).next q o = q.next o := if_pos h

theorem next_other (h : o.client? ≠ some d) : (talk d).next q o = some q := if_neg h

theorem Talked.trans {s₁ : Server} {q₁ : Talk} (h : Talked d q s s₁ q₁)
    (h' : Talked d q₁ s₁ s' q') : Talked d q s s' q' := by
  obtain ⟨t, ht, hq⟩ := h
  obtain ⟨t', ht', hq'⟩ := h'
  refine ⟨t ++ t', by rw [ht', ht, List.append_assoc], ?_⟩
  rw [Monitor.run_append, hq, Option.bind_some, hq']

theorem talked_same (h : s'.trace = s.trace) : Talked d q s s' q :=
  ⟨[], by rw [h, List.append_nil], rfl⟩

theorem talked_one (h : s'.trace = s.trace ++ [o]) (ho : (talk d).next q o = some q') :
    Talked d q s s' q' :=
  ⟨[o], h, by rw [Monitor.run_cons, ho]; rfl⟩

theorem Freely.trans {s₁ : Server} (h : Freely s s₁) (h' : Freely s₁ s') : Freely s s' :=
  fun d => (h d).trans (h' d)

theorem Spoken.trans {s₁ : Server} {q₁ : Talk} (h : Spoken c q s s₁ q₁)
    (h' : Spoken c q₁ s₁ s' q') : Spoken c q s s' q' :=
  ⟨h.self.trans h'.self, fun d hd => (h.others d hd).trans (h'.others d hd)⟩

theorem Freely.spoken (h : Freely s s') (c : Cid) : Spoken c (stageOf s c, []) s s' (stageOf s' c, []) :=
  ⟨h c, fun d _ => h d⟩

theorem Spoken.freely (h : Spoken c (stageOf s c, []) s s' (stageOf s' c, [])) : Freely s s' := by
  intro d
  by_cases hd : d = c
  · rw [hd]
    exact h.self
  · exact h.others d hd

/-! ## Stages -/

theorem stageOf_start (hk : s.ctx c = some k) (hs : k.state = .start) :
    stageOf s c = .unopened := by
  simp [stageOf, hk, hs]

theorem stageOf_connected {j : Client} (hj : s.ctx c = some j) (hs : j.state = .connected)
    (ha : j.address = some a) : stageOf s c = .opened a j.writer := by
  simp [stageOf, hj, hs, ha]

theorem stageOf_open (h : Open s c k a) : stageOf s c = .opened a k.writer :=
  stageOf_connected h.ctx h.state h.address

theorem stageOf_frame (hx : s'.ctx d = s.ctx d) (hid : s'.clientId = s.clientId) :
    stageOf s' d = stageOf s d := by
  rw [stageOf, stageOf, hx, hid]

theorem stageOf_setClient (s : Server) (h : d ≠ c) : stageOf (s.setClient c k) d = stageOf s d :=
  stageOf_frame (by rw [setClient_ctx, Function.update_of_ne h]) rfl

/-- A context that is terminated. -/
theorem stageOf_bury (hr : Reg s) (hk : ∃ j, s.ctx c = some j) : stageOf (s.bury c k) c = .gone := by
  obtain ⟨j, hj⟩ := hk
  have hlt := hr.fresh c j hj
  by_cases hz : k.refcount = 0
  · simp [stageOf, hz, hlt]
  · simp [stageOf, hz]

/-! ## One observation -/

theorem freely_same (ht : s'.trace = s.trace) (hx : s'.ctx = s.ctx)
    (hid : s'.clientId = s.clientId) : Freely s s' := by
  intro d
  rw [stageOf_frame (congrFun hx d) hid]
  exact talked_same ht

theorem spoken_same (ht : s'.trace = s.trace) (hst : ∀ d, d ≠ c → stageOf s' d = stageOf s d) :
    Spoken c q s s' q := by
  refine ⟨talked_same ht, fun d hd => ?_⟩
  rw [hst d hd]
  exact talked_same ht

/-- Something about `c`. -/
theorem spoken_one (ht : s'.trace = s.trace ++ [o]) (ho : o.client? = some c)
    (hn : q.next o = some q') (hst : ∀ d, d ≠ c → stageOf s' d = stageOf s d) :
    Spoken c q s s' q' := by
  refine ⟨talked_one ht ((next_self ho).trans hn), fun d hd => ?_⟩
  rw [hst d hd]
  refine talked_one ht (next_other ?_)
  rw [ho]
  exact fun h => hd (Option.some.inj h).symm

theorem spoken_log (ht : s'.trace = s.trace ++ [o]) (ho : o.client? = some c)
    (hn : q.next o = some q') (hx : s'.ctx = s.ctx) (hid : s'.clientId = s.clientId) :
    Spoken c q s s' q' :=
  spoken_one ht ho hn fun d _ => stageOf_frame (congrFun hx d) hid

/-- Something about nobody. -/
theorem freely_nobody (ht : s'.trace = s.trace ++ [o]) (ho : o.client? = none)
    (hx : s'.ctx = s.ctx) (hid : s'.clientId = s.clientId) : Freely s s' := by
  intro d
  rw [stageOf_frame (congrFun hx d) hid]
  exact talked_one ht (next_other (by rw [ho]; simp))

theorem spoken_enter (h : q.next (.event c e) = some q') : Spoken c q s (s.enter c e) q' :=
  spoken_log rfl rfl h rfl rfl

/-- The frame that is expected is sent. -/
theorem next_sent {st : Stage} {todo : List Expect} {holder : Option Str} {p : Proto} {i : Id}
    {key : Frame} {hand : Option Msg} (ha : holder = st.address) :
    Talk.next (st, .sent i :: todo) (.sent c holder (p.setId i key).wire hand) =
      some (st, todo) := by
  obtain ⟨w, hw, hi⟩ := wire_setId p i key
  simp [Talk.next, Expect.meets, hw, hi, ha]

theorem spoken_answer {st : Stage} {todo : List Expect} {i : Id} (ha : k.address = st.address) :
    Spoken c (st, .sent i :: todo) s (s.answer c k i) (st, todo) :=
  spoken_log rfl rfl (next_sent ha) rfl rfl

/-! ## Deliveries -/

/-- A message is delivered to an open client. -/
theorem spoken_deliver {st : Stage} {todo : List Expect} {i : Id} (ha : k.address = st.address)
    (he : q.next (.event c e) = some (st, .sent i :: todo)) :
    Spoken c q s ((s.enter c e).deliver c k i m) (st, todo) :=
  (spoken_enter he).trans (spoken_log rfl rfl (next_sent ha) rfl rfl)

theorem freely_deliver {i : Id} (ho : Open s c k a)
    (he : Talk.next (.opened a k.writer, []) (.event c e) =
      some (.opened a k.writer, [.sent i])) :
    Freely s ((s.enter c e).deliver c k i m) := by
  have h : Spoken c (.opened a k.writer, []) s ((s.enter c e).deliver c k i m)
      (.opened a k.writer, []) := spoken_deliver ho.address he
  rw [← stageOf_open ho] at h
  exact h.freely

theorem freely_mailboxOnly (h : MailboxOnly s s') : Freely s s' := by
  have hsame := h.same
  intro d
  obtain ⟨t, ht, hp⟩ := h.grows (P := fun o => o.client? = none) fun _ _ => rfl
  rw [stageOf_frame (congrFun hsame.ctx d) hsame.clientId]
  exact ⟨t, ht, Monitor.run_still fun o ho => next_other (by rw [hp o ho]; simp)⟩

theorem freely_drain (ho : Open s c k a) (h : Drain c k a s s') : Freely s s' := by
  induction h with
  | anonymous _ => exact freely_same rfl rfl rfl
  | empty _ hq => exact freely_mailboxOnly (mailboxQuery_only hq)
  | next _ hq _ ih =>
    have honly := mailboxQuery_only hq
    have ho₁ := ho.same honly.same
    exact ((freely_mailboxOnly honly).trans (freely_deliver ho₁ rfl)).trans (ih (ho₁.same (delivered_same ..)))

theorem freely_dispatched {name : Str} {b : Bool} (hr : Reg s)
    (h : Dispatched rex name m s s' b) : Freely s s' := by
  cases h with
  | none _ => exact freely_same rfl rfl rfl
  | @some offers o t hseek ht =>
    obtain ⟨pre, suf, hp, -, -, rfl⟩ := CursorList.seek_some hseek
    have hitems : (s.service name).offers.items = pre ++ o :: suf := hp
    have hmem : o ∈ (s.service name).offers.items := by
      rw [hitems]
      simp
    obtain ⟨j, a, ho⟩ := hr.offers name o hmem
    cases ho.ctx.symm.trans ht
    have hst := stageOf_open ho
    have hlog : Spoken o.client (.opened a t.writer, []) s
        (s.log (.dispatched name (s.service name).offers.items o m))
        (.opened a t.writer, [.served]) := spoken_log rfl rfl rfl rfl rfl
    have hserved : Spoken o.client (.opened a t.writer, [.served])
        (s.log (.dispatched name (s.service name).offers.items o m)) (((s.log (.dispatched name
          (s.service name).offers.items o m)).enter o.client .serviceMessage).deliver o.client t
            .serviceDeliver m) (.opened a t.writer, []) := spoken_deliver ho.address rfl
    have h := hlog.trans hserved
    rw [← hst] at h
    exact h.freely.trans (freely_same rfl rfl rfl)

theorem freely_scan {name : Str} {mo : Option Msg} (hr : Reg s) (h : Scan rex name mo s s') :
    Freely s s' := by
  induction h with
  | done => exact freely_same rfl rfl rfl
  | @skip m s s₁ s' hd _ ih =>
    have hlink : Reg (s.link m) := hr.same (link_same s m) (.of_services rfl)
    have hr₁ : Reg s₁ := hlink.same (dispatched_same hd) (dispatched_offers hd)
    have hq : SameOffers s₁ ((s₁.unlink m).setService name _) :=
      sameOffers_setQueue (s₁.unlink m) name (s₁.service name).queue.next.1
    have hlinked : Freely s (s.link m) := freely_same rfl rfl rfl
    have htaken : Freely s₁ ((s₁.unlink m).setService name
        ((s₁.service name).setQueue (s₁.service name).queue.next.1)) := freely_same rfl rfl rfl
    exact ((hlinked.trans (freely_dispatched hlink hd)).trans htaken).trans
      (ih (hr₁.same (setService_same ..) hq))
  | @take m s s₁ s' queue hd _ _ ih =>
    have hlink : Reg (s.link m) := hr.same (link_same s m) (.of_services rfl)
    have hr₁ : Reg s₁ := hlink.same (dispatched_same hd) (dispatched_offers hd)
    have hq : SameOffers s₁ ((s₁.unlink m).setService name _) :=
      sameOffers_setQueue (s₁.unlink m) name queue.next.1
    have hlinked : Freely s (s.link m) := freely_same rfl rfl rfl
    have htaken : Freely s₁ ((s₁.unlink m).setService name
        ((s₁.service name).setQueue queue.next.1)) := freely_same rfl rfl rfl
    exact ((hlinked.trans (freely_dispatched hlink hd)).trans htaken).trans
      (ih (hr₁.same (setService_same ..) hq))

/-! ## The end -/

theorem spoken_leave (s : Server) (c : Cid) (k : Client) (a : Str) (st : Stage) :
    Spoken c (st, [.left]) s (s.leave c k a) (.gone, []) := by
  refine spoken_one (o := .left c k.readers) rfl rfl rfl fun d hd => ?_
  exact stageOf_frame (leave_ctx_ne hd a) rfl

theorem stageOf_leave (hr : Reg s) (ho : Open s c k a) : stageOf (s.leave c k a) c = .gone := by
  have hlt := hr.fresh c k ho.ctx
  unfold leave
  by_cases hz : (k.deregistered a).refcount = 0
  · simp [stageOf, hz, hlt]
  · simp [stageOf, hz]

/-- An event that calls for a departure. -/
theorem spoken_fail (ho : Open s c k a) {n : Option Str} :
    Spoken c (.opened a n, [.raised, .sent .error, .left]) s (s.fail c k a) (.gone, []) := by
  have henter : Spoken c (.opened a n, [.raised, .sent .error, .left]) s (s.enter c .exception)
      (.opened a n, [.sent .error, .left]) := spoken_enter rfl
  have hset : Spoken c (.opened a n, [.sent .error, .left]) (s.enter c .exception)
      ((s.enter c .exception).setStatus failed) (.opened a n, [.sent .error, .left]) :=
    spoken_same rfl fun d _ => stageOf_frame rfl rfl
  exact ((henter.trans hset).trans (spoken_answer ho.address)).trans (spoken_leave ..)

theorem freely_evicted (hr : Reg s) (h : Evicted a s s') : Freely s s' := by
  cases h with
  | nobody _ => exact freely_same rfl rfl rfl
  | @holder old t _ _ ho =>
    have hr₁ : Reg (s.enter old .expired) := hr.frame rfl rfl rfl rfl hr.offers
    have ho₁ : Open (s.enter old .expired) old t a := ho.frame rfl rfl rfl
    have henter : Spoken old (.opened a t.writer, []) s (s.enter old .expired)
        (.opened a t.writer, [.left]) := spoken_enter rfl
    have h := henter.trans (spoken_leave _ old t a _)
    rw [← stageOf_open ho, ← stageOf_leave hr₁ ho₁] at h
    exact h.freely

/-- Whoever is expired to make room is not `c`. -/
theorem spoken_evicted (hr : Reg s) (hk : s.ctx c = some k) (hs : k.state = .start)
    (h : Evicted a s s') : Spoken c q s s' q := by
  refine ⟨?_, fun d _ => freely_evicted hr h d⟩
  cases h with
  | nobody _ => exact talked_same rfl
  | @holder old t _ _ ho =>
    have hne : old ≠ c := by
      intro hold
      rw [hold] at ho
      cases (ho.connected_of hk).symm.trans hs
    refine ⟨[.event old .expired, .left old t.readers], ?_, Monitor.run_still fun o hm => ?_⟩
    · exact List.append_assoc s.trace [.event old .expired] [.left old t.readers]
    · refine next_other fun hc => hne ?_
      rcases List.mem_pair.1 hm with rfl | rfl <;> exact Option.some.inj hc

/-! ## Messages -/

theorem asked_wire (p : Proto) : asked p.wire = protocolEvent p := by
  unfold asked Proto.wire protocolEvent
  cases Id.ofCode p.id with
  | none => rfl
  | some i => cases i <;> rfl

/-- The frame that an event is the event of. -/
def Event.frame (p : Proto) : Event → Option Wire
  | .connectionOpen => some (.connectionOpen p.address)
  | .streamWrite => some (.streamWrite p.stream)
  | .streamRead => some (.streamRead p.stream p.pattern)
  | .streamCancel => some (.streamCancel p.stream)
  | .streamSend => some (.streamSend p.subject (p.content.getD [[]]))
  | .mailboxSend => some (.mailboxSend p.address p.subject p.tracker p.timeout (p.content.getD [[]]))
  | .serviceSend => some (.serviceSend p.address p.subject p.tracker p.timeout (p.content.getD [[]]))
  | .serviceOffer => some (.serviceOffer p.address p.pattern)
  | .confirm => some (.confirm p.tracker p.statusCode p.statusReason)
  | .credit => some (.credit p.amount)
  | .connectionPing => some .connectionPing
  | .connectionClose => some .connectionClose
  | _ => none

theorem wire_asked {p : Proto} {w : Wire} (h : (asked p.wire).frame p = some w) :
    p.wire = some w := by
  rw [asked_wire] at h
  unfold protocolEvent at h
  unfold Proto.wire
  cases hid : Id.ofCode p.id with
  | none =>
    rw [hid] at h
    cases h
  | some i =>
    rw [hid] at h
    cases i <;> first | exact h | cases h

/-- What the start state answers with ERROR. -/
theorem script_unopened {w : Option Wire}
    (h : startState (asked w) = ([.signalCommandInvalid, .send .error], none)) :
    Stage.script w .unopened = some (.unopened, [.sent .error]) := by
  cases w with
  | none => rfl
  | some w => cases w <;> first | rfl | cases h

/-- What the connected state answers with ERROR. -/
theorem script_invalid {w : Option Wire} {n : Option Str}
    (h : connectedState (asked w) =
      ([.signalCommandInvalid, .send .error, .deregisterTheClient, .terminate], none)) :
    Stage.script w (.opened a n) = some (.opened a n, [.sent .error, .left]) := by
  cases w with
  | none => rfl
  | some w => cases w <;> first | rfl | cases h

/-- The event of a message begins its script. -/
theorem next_heard {w : Option Wire} {st : Stage} {r : Talk} (he : e = asked w)
    (h : st.script w = some r) : Talk.next (st, [.heard w]) (.event c e) = some r := by
  simp [Talk.next, Expect.meets, he, h]

/-- An open client is heard. -/
theorem spoken_asked (ho : Open s c k a) (he : e = asked s.message.wire) {r : Talk}
    (hr : Stage.script s.message.wire (.opened a k.writer) = some r) :
    Spoken c (stageOf s c, [.heard s.message.wire]) s (s.enter c e) r := by
  rw [stageOf_open ho]
  exact spoken_enter (next_heard he hr)

/-- The message `w` of an open client is heard; its script is `r`. -/
theorem spoken_script {w : Wire} (ho : Open s c k a) (hw : s.message.wire = some w) {r : Talk}
    (hr : Stage.script (some w) (.opened a k.writer) = some r) :
    Spoken c (stageOf s c, [.heard s.message.wire]) s (s.enter c (heardAs w)) r :=
  spoken_asked ho (by rw [hw]; rfl) (by rw [hw]; exact hr)

/-- An action is logged and answered. -/
theorem spoken_logged {st : Stage} {x : Expect} {i : Id} {todo : List Expect} {s₁ : Server}
    (ht : s₁.trace = s.trace ++ [o]) (ho : o.client? = some c)
    (hx : x.meets st o = some (st, [])) (ha : k.address = st.address)
    (hst : ∀ d, d ≠ c → stageOf s₁ d = stageOf s d) :
    Spoken c (st, x :: .sent i :: todo) s (s₁.answer c k i) (st, todo) := by
  have hlog : Spoken c (st, x :: .sent i :: todo) s s₁ (st, .sent i :: todo) :=
    spoken_one ht ho (by simp [Talk.next, hx]) hst
  exact hlog.trans (spoken_answer ha)

theorem Spoken.final {st : Stage} (h : Spoken c q s s' (st, [])) (hst : stageOf s' c = st) :
    Spoken c q s s' (stageOf s' c, []) := by
  rw [hst]
  exact h

/-- What comes after an open client has been served concerns others as well. -/
theorem Spoken.freely_after {s₁ : Server} (h : Spoken c q s s₁ (.opened a k.writer, []))
    (ho : Open s₁ c k a) (hf : Freely s₁ s') (hx : SameClients s₁ s') :
    Spoken c q s s' (.opened a k.writer, []) := by
  have h' := hf.spoken c
  rw [stageOf_open ho, stageOf_open (ho.same hx)] at h'
  exact h.trans h'

theorem messageFrom_carries (s : Server) (a : Str) : Carries (s.messageFrom a) s.message.address
    s.message.subject s.message.tracker s.message.timeout (s.message.content.getD [[]]) :=
  ⟨rfl, rfl, rfl, rfl, rfl⟩

@[simp] theorem messageFrom_sender (s : Server) (a : Str) : (s.messageFrom a).sender = a := rfl

theorem spoken_write (hr : Reg s) (ho : Open s c k a) (h : Mailed c a s s') :
    Spoken c (.opened a k.writer, [.mailed s.message.address s.message.subject s.message.tracker
      s.message.timeout (s.message.content.getD [[]])]) s s' (.opened a k.writer, []) := by
  have hmailing : Spoken c (.opened a k.writer, [.mailed s.message.address s.message.subject
      s.message.tracker s.message.timeout (s.message.content.getD [[]])]) s (s.mailing c a)
      (.opened a k.writer, []) :=
    spoken_log (o := .mailed c (s.messageFrom a)) rfl rfl
      (by simp [Talk.next, Expect.meets, Stage.address, messageFrom_carries]) rfl rfl
  have ho₁ : Open (s.mailing c a) c k a := ho.frame rfl rfl rfl
  cases h with
  | @direct t target s' hreg ht hd =>
    obtain ⟨-, j, hj⟩ := hr.registered _ _ hreg
    cases hj.ctx.symm.trans ht
    have hopen : Open (s.mailing c a) target t s.message.address := hj.frame rfl rfl rfl
    exact hmailing.freely_after ho₁ ((freely_deliver hopen rfl).trans
      (freely_drain (hopen.same (delivered_same ..)) hd)) ((delivered_same ..).trans (drain_same hd))
  | stored _ =>
    exact hmailing.freely_after ho₁ (freely_same rfl rfl rfl)
      ⟨rfl, rfl, rfl, rfl, rfl, rfl, rfl, rfl⟩

theorem spoken_request (hr : Reg s) (ho : Open s c k a) (h : Requested rex c a s s') :
    Spoken c (.opened a k.writer, [.requested s.message.address s.message.subject
      s.message.tracker s.message.timeout (s.message.content.getD [[]])]) s s'
      (.opened a k.writer, []) := by
  have hrequesting : Spoken c (.opened a k.writer, [.requested s.message.address s.message.subject
      s.message.tracker s.message.timeout (s.message.content.getD [[]])]) s (s.requesting c a)
      (.opened a k.writer, []) :=
    spoken_log (o := .requested c (s.messageFrom a)) rfl rfl
      (by simp [Talk.next, Expect.meets, Stage.address, messageFrom_carries]) rfl rfl
  have ho₁ : Open (s.requesting c a) c k a := ho.frame rfl rfl rfl
  have hr₁ : Reg (s.requesting c a) :=
    hr.same ⟨rfl, rfl, rfl, rfl, rfl, rfl, rfl, rfl⟩ (requesting_offers s c a)
  cases h with
  | dispatched hd => exact hrequesting.freely_after ho₁ (freely_dispatched hr₁ hd) (dispatched_same hd)
  | @queued s₁ queue w hd _ =>
    have hq : Freely s₁ (s₁.setService s.message.address
        ((s₁.service s.message.address).setQueue queue)) := freely_same rfl rfl rfl
    exact hrequesting.freely_after ho₁ ((freely_dispatched hr₁ hd).trans hq)
      ((dispatched_same hd).trans ⟨rfl, rfl, rfl, rfl, rfl, rfl, rfl, rfl⟩)
  | @refused s₁ queue hd _ =>
    have hq : Freely s₁ (((s₁.setService s.message.address
        ((s₁.service s.message.address).setQueue queue)).unlink (s.messageFrom a)).log
          (.dropped (.service s.message.address) (s.messageFrom a))) :=
      freely_nobody (o := .dropped (.service s.message.address) (s.messageFrom a)) rfl rfl rfl rfl
    exact hrequesting.freely_after ho₁ ((freely_dispatched hr₁ hd).trans hq)
      ((dispatched_same hd).trans ⟨rfl, rfl, rfl, rfl, rfl, rfl, rfl, rfl⟩)

/-- CONNECTION OPEN. -/
theorem spoken_opened {s₁ : Server} (hr : Reg s) (hk : s.ctx c = some k) (hs : k.state = .start)
    (hev : Evicted s.message.address (s.enter c .connectionOpen) s₁)
    (hd : Drain c (k.opened s.message.address) s.message.address
      (s₁.register c k s.message.address) s')
    (hw : s.message.wire = some (.connectionOpen s.message.address)) :
    Spoken c (stageOf s c, [.heard s.message.wire]) s s' (stageOf s' c, []) := by
  have hr₀ : Reg (s.enter c .connectionOpen) := hr.frame rfl rfl rfl rfl hr.offers
  obtain ⟨⟨hq, -, -, -, hwr, -⟩, hh⟩ := hr.start_of hk hs
  have hopen : Open (s₁.register c k s.message.address) c (k.opened s.message.address)
      s.message.address := open_register hq (hev.hashed hk hs hh)
  have henter : Spoken c (stageOf s c, [.heard s.message.wire]) s (s.enter c .connectionOpen)
      (.unopened, [.opened s.message.address]) := by
    rw [stageOf_start hk hs, hw]
    exact spoken_enter (next_heard rfl rfl)
  have hreg : Spoken c (.unopened, [.opened s.message.address]) s₁
      (s₁.register c k s.message.address) (.opened s.message.address none, []) := by
    obtain ⟨w, hwi, hi⟩ := wire_setId (s₁.message.setStatusCode success) .ok k.hashkey
    refine spoken_one (o := .sent c (some s.message.address)
      ((s₁.message.setStatusCode success).setId .ok k.hashkey).wire s₁.hand) ?_ rfl ?_
      fun d hd => ?_
    · rw [register_eq]
    · simp [Talk.next, Expect.meets, hwi, hi]
    · rw [register_eq]
      exact stageOf_frame (Function.update_of_ne hd ..) rfl
  have hstage : stageOf (s₁.register c k s.message.address) c =
      .opened s.message.address none := by
    rw [stageOf_open hopen]
    exact congrArg _ hwr
  have hdrain := (freely_drain hopen hd).spoken c
  rw [hstage] at hdrain
  exact ((henter.trans (spoken_evicted hr₀ hk hs hev)).trans hreg).trans hdrain

/-- Any other message before it. -/
theorem spoken_unopened (hr : Reg s) (hk : s.ctx c = some k) (hs : k.state = .start)
    (hc : startState e = ([.signalCommandInvalid, .send .error], none))
    (he : e = asked s.message.wire) :
    Spoken c (stageOf s c, [.heard s.message.wire]) s
      (((s.enter c e).setStatus commandInvalid).answer c k .error)
      (stageOf (((s.enter c e).setStatus commandInvalid).answer c k .error) c, []) := by
  have henter : Spoken c (stageOf s c, [.heard s.message.wire]) s (s.enter c e)
      (.unopened, [.sent .error]) := by
    rw [stageOf_start hk hs]
    exact spoken_enter (next_heard he (script_unopened (he ▸ hc)))
  have hset : Spoken c (.unopened, [.sent .error]) (s.enter c e)
      ((s.enter c e).setStatus commandInvalid) (.unopened, [.sent .error]) :=
    spoken_same rfl fun d _ => stageOf_frame rfl rfl
  have hlast : stageOf (((s.enter c e).setStatus commandInvalid).answer c k .error) c =
      .unopened := stageOf_start hk hs
  rw [hlast]
  exact (henter.trans hset).trans (spoken_answer (hr.start_of hk hs).1.address)

/-- A command that is logged, as `x` expects, and answered. -/
theorem spoken_answered {w : Wire} {x : Expect} {i : Id} {s₁ : Server} (ho : Open s c k a)
    (hw : s.message.wire = some w)
    (hr : Stage.script (some w) (.opened a k.writer) = some (.opened a k.writer, [x, .sent i]))
    (ht : s₁.trace = (s.enter c (heardAs w)).trace ++ [o]) (hc : o.client? = some c)
    (hx : x.meets (.opened a k.writer) o = some (.opened a k.writer, []))
    (hst : ∀ d, d ≠ c → stageOf s₁ d = stageOf (s.enter c (heardAs w)) d)
    (hlast : stageOf (s₁.answer c k i) c = .opened a k.writer) :
    Spoken c (stageOf s c, [.heard s.message.wire]) s (s₁.answer c k i)
      (stageOf (s₁.answer c k i) c, []) :=
  ((spoken_script ho hw hr).trans (spoken_logged ht hc hx ho.address hst)).final hlast

/-- A command that raises the exception. -/
theorem spoken_failing (w : Wire) (hreg : Reg s) (ho : Open s c k a) (hw : s.message.wire = some w)
    (hr : Stage.script (some w) (.opened a k.writer) =
      some (.opened a k.writer, [.raised, .sent .error, .left])) :
    Spoken c (stageOf s c, [.heard s.message.wire]) s ((s.enter c (heardAs w)).fail c k a)
      (stageOf ((s.enter c (heardAs w)).fail c k a) c, []) := by
  have ho₁ : Open (s.enter c (heardAs w)) c k a := ho.frame rfl rfl rfl
  exact ((spoken_script ho hw hr).trans (spoken_fail ho₁)).final
    (stageOf_leave (hreg.frame rfl rfl rfl rfl hreg.offers) (ho.frame rfl rfl rfl))

/-- An OFFER is listed and answered, and then the requests that wait are looked through. -/
theorem spoken_offered {s₁ : Server} (hr : Reg s) (ho : Open s c k a)
    (hs₁ : s₁ = (s.enter c .serviceOffer).offering c k)
    (hscan : Scan rex s.message.address (s₁.service s.message.address).queue.first.2
      (s₁.setService s.message.address ((s₁.service s.message.address).setQueue
        (s₁.service s.message.address).queue.first.1)) s')
    (hw : s.message.wire = some (.serviceOffer s.message.address s.message.pattern)) :
    Spoken c (stageOf s c, [.heard s.message.wire]) s s' (stageOf s' c, []) := by
  have hr₀ : Reg (s.enter c .serviceOffer) := hr.frame rfl rfl rfl rfl hr.offers
  have hreg : Reg s₁ := by
    rw [hs₁]
    exact hr₀.offering (ho.frame rfl rfl rfl)
  have ho₁ : Open s₁ c k a := by
    rw [hs₁]
    exact ho.frame rfl rfl rfl
  have hlisted : Spoken c (stageOf s c, [.heard s.message.wire]) s s₁ (.opened a k.writer, []) := by
    have hlast : stageOf s₁ c = .opened a k.writer := stageOf_open ho₁
    rw [← hlast]
    rw [hs₁] at hlast ⊢
    exact spoken_answered (o := .offered c s.message.address ⟨s.offerId, s.message.pattern, c⟩) ho hw
      rfl rfl rfl (by simp [Expect.meets]) (fun d hd => stageOf_frame rfl rfl) hlast
  have hfirst : Freely s₁ (s₁.setService s.message.address
      ((s₁.service s.message.address).setQueue
        (s₁.service s.message.address).queue.first.1)) := freely_same rfl rfl rfl
  have hsame : SameClients s₁ (s₁.setService s.message.address
      ((s₁.service s.message.address).setQueue
        (s₁.service s.message.address).queue.first.1)) :=
    ⟨rfl, rfl, rfl, rfl, rfl, rfl, rfl, rfl⟩
  have hscanned := freely_scan (hreg.same hsame (sameOffers_setQueue _ _ _)) hscan
  have hlast := hsame.trans (scan_same hscan)
  exact (hlisted.freely_after ho₁ (hfirst.trans hscanned) hlast).final
    (stageOf_open (ho₁.same hlast))

/-- **The answer to a message is the one that its script calls for.** -/
theorem spoken_handled (hr : Reg s) (h : Handled rex s c e s') (he : e = asked s.message.wire)
    (hx : e ≠ .expired) : Spoken c (stageOf s c, [.heard s.message.wire]) s s' (stageOf s' c, []) := by
  have hwire : ∀ {w : Wire}, e.frame s.message = some w → s.message.wire = some w :=
    fun hf => wire_asked (he ▸ hf)
  have hr₁ : ∀ e, Reg (s.enter c e) := fun e => hr.frame rfl rfl rfl rfl hr.offers
  cases h with
  | opened hk hs hev hd => exact spoken_opened hr hk hs hev hd (hwire rfl)
  | departed hk hs => exact absurd rfl hx
  | unopened hk hs hc => exact spoken_unopened hr hk hs hc he
  | @wrote k a ho =>
    have henter := spoken_script ho (hwire rfl)
      (r := (.opened a (some s.message.stream), [.sent .ok])) rfl
    have hset : Spoken c (.opened a (some s.message.stream), [.sent .ok]) (s.enter c .streamWrite)
        ((((s.enter c .streamWrite).streamRequire s.message.stream).setClient c
          { k with writer := some s.message.stream }).setStatus success)
        (.opened a (some s.message.stream), [.sent .ok]) :=
      spoken_same rfl fun d hd => stageOf_frame (Function.update_of_ne hd ..) rfl
    exact ((henter.trans hset).trans (spoken_answer ho.address)).final
      (stageOf_connected (j := { k with writer := some s.message.stream })
        (Function.update_self ..) ho.state ho.address)
  | @read k a ho =>
    exact spoken_answered (o := .subscribed c s.message.stream s.message.pattern) ho (hwire rfl) rfl
      rfl rfl (by simp [Expect.meets]) (fun d hd => stageOf_frame (Function.update_of_ne hd ..) rfl)
      (stageOf_connected (j := k.reading s.message.stream) (Function.update_self ..) ho.state
        ho.address)
  | @cancelled k a ho =>
    exact spoken_answered (o := .cancelled c s.message.stream) ho (hwire rfl) rfl rfl rfl
      (by simp [Expect.meets]) (fun d hd => stageOf_frame (Function.update_of_ne hd ..) rfl)
      (stageOf_connected (j := { k with readers := k.readers.tail }) (Function.update_self ..)
        ho.state ho.address)
  | @published k a name ho hwr =>
    have henter := spoken_script ho (hwire rfl) (r := (.opened a k.writer,
      [.published name s.message.subject (s.message.content.getD [[]])])) (by rw [hwr]; rfl)
    have hdo : Spoken c (.opened a k.writer,
        [.published name s.message.subject (s.message.content.getD [[]])])
        (s.enter c .streamSend) ((s.enter c .streamSend).publish c a name)
        (.opened a k.writer, []) :=
      spoken_log (o := .published c name _) rfl rfl
        (by simp [Talk.next, Expect.meets, Stage.address]) rfl rfl
    exact (henter.trans hdo).final (stageOf_connected ho.ctx ho.state ho.address)
  | unwritten ho hwr =>
    exact spoken_failing (.streamSend _ _) hr ho (hwire rfl) (by rw [hwr]; rfl)
  | @mailed k a s' ho hm =>
    have ho₁ : Open (s.enter c .mailboxSend) c k a := ho.frame rfl rfl rfl
    exact ((spoken_script ho (hwire rfl) rfl).trans (spoken_write (hr₁ _) ho₁ hm)).final
      (stageOf_open (ho₁.same (mailed_same hm)))
  | @requested k a s' ho hm =>
    have ho₁ : Open (s.enter c .serviceSend) c k a := ho.frame rfl rfl rfl
    exact ((spoken_script ho (hwire rfl) rfl).trans (spoken_request (hr₁ _) ho₁ hm)).final
      (stageOf_open (ho₁.same (requested_same hm)))
  | offered ho hs₁ hscan => exact spoken_offered hr ho hs₁ hscan (hwire rfl)
  | confirmed ho => exact spoken_failing (.confirm _ _ _) hr ho (hwire rfl) rfl
  | @credited k a ho =>
    have henter := spoken_script ho (hwire rfl) (r := (.opened a k.writer, [])) rfl
    exact henter.final (stageOf_connected ho.ctx ho.state ho.address)
  | @pinged k a ho =>
    have henter := spoken_script ho (hwire rfl) (r := (.opened a k.writer, [.sent .connectionPong]))
      rfl
    exact (henter.trans (spoken_answer ho.address)).final
      (stageOf_connected ho.ctx ho.state ho.address)
  | @closed k a ho =>
    have henter := spoken_script ho (hwire rfl) (r := (.opened a k.writer, [.sent .ok, .left])) rfl
    exact ((henter.trans (spoken_answer ho.address)).trans (spoken_leave ..)).final
      (stageOf_leave (hr.frame rfl rfl rfl rfl hr.offers) (ho.frame rfl rfl rfl))
  | expired ho => exact absurd rfl hx
  | @invalid k a _ ho hc =>
    have henter := spoken_asked ho he (r := (.opened a k.writer, [.sent .error, .left]))
      (script_invalid (he ▸ hc))
    have hset : Spoken c (.opened a k.writer, [.sent .error, .left]) (s.enter c e)
        ((s.enter c e).setStatus commandInvalid) (.opened a k.writer, [.sent .error, .left]) :=
      spoken_same rfl fun d _ => stageOf_frame rfl rfl
    exact (((henter.trans hset).trans (spoken_answer ho.address)).trans (spoken_leave ..)).final
      (stageOf_leave (hr.frame rfl rfl rfl rfl hr.offers) (ho.frame rfl rfl rfl))

/-- A client expires. -/
theorem freely_expired (hr : Reg s) (h : Handled rex s c .expired s') : Freely s s' := by
  have hr₁ : Reg (s.enter c .expired) := hr.frame rfl rfl rfl rfl hr.offers
  suffices hs : Spoken c (stageOf s c, []) s s' (stageOf s' c, []) from hs.freely
  cases h with
  | @departed k hk hs =>
    rw [stageOf_start hk hs]
    have henter : Spoken c (.unopened, []) s (s.enter c .expired) (.gone, []) := spoken_enter rfl
    have hbury : Spoken c (.gone, []) (s.enter c .expired)
        (((s.enter c .expired).setStatus success).bury c k) (.gone, []) :=
      spoken_same rfl fun d hd => stageOf_frame (Function.update_of_ne hd ..) rfl
    exact (henter.trans hbury).final
      (stageOf_bury (s := (s.enter c .expired).setStatus success)
        (hr.frame rfl rfl rfl rfl hr.offers) ⟨k, hk⟩)
  | unopened _ _ hc => cases hc
  | @expired k a ho =>
    rw [stageOf_open ho]
    have henter : Spoken c (.opened a k.writer, []) s (s.enter c .expired)
        (.opened a k.writer, [.left]) := spoken_enter rfl
    exact (henter.trans (spoken_leave ..)).final (stageOf_leave hr₁ (ho.frame rfl rfl rfl))
  | invalid _ hc => cases hc

/-! ## Steps -/

theorem freely_clientRequire (hr : Reg s) {key : Key} {s₁ : Server}
    (h : s.clientRequire key = (c, s₁)) : Freely s s₁ := by
  rcases clientRequire_cases h with ⟨-, rfl⟩ | ⟨-, rfl, rfl⟩
  · exact freely_same rfl rfl rfl
  · intro d
    have hst : stageOf (s.clientNew key) d = stageOf s d := by
      rw [clientNew_eq]
      by_cases hd : d = s.clientId
      · have hnone : s.ctx s.clientId = none := by
          cases hk : s.ctx s.clientId with
          | none => rfl
          | some k => exact absurd (hr.fresh _ _ hk) (Nat.lt_irrefl _)
        simp [stageOf, hd, hnone, Client.fresh]
      · have hlt : d < s.clientId + 1 ↔ d < s.clientId :=
          ⟨fun h => Nat.lt_of_le_of_ne (Nat.le_of_lt_succ h) hd, Nat.lt_succ_of_lt⟩
        simp [stageOf, Function.update_of_ne hd, hlt]
    rw [hst]
    exact talked_same rfl

/-- A message whose fields are all there is read as it was sent. -/
theorem decode_heard {p q : Proto} {parts rest : List Frame} (h : recv p parts = (q, .ok, rest)) :
    decode parts.tail = none ∨ decode parts.tail = q.wire := by
  cases parts with
  | nil => exact .inl rfl
  | cons rid frames =>
    cases hd : decode frames with
    | none => exact .inl hd
    | some w => exact .inr (hd.trans (wire_of_decode hd h).symm)

/-- A message is read. -/
theorem spoken_hear (hr : Reg s) (hk : s.ctx c = some k) (hz : k.state ≠ .zombie)
    {frames : List Frame} {p : Proto} (hp : decode frames = none ∨ decode frames = p.wire) :
    Spoken c (stageOf s c, []) s (s.hear c frames p) (stageOf s c, [.heard p.wire]) := by
  refine spoken_log (o := .received c ((s.ctx c).bind (·.address)) frames p.wire) rfl rfl ?_ rfl rfl
  rcases hr.state_cases hk with hs | hs | hs
  · simp [stageOf_start hk hs, Talk.next, Stage.idle, Stage.address, hk, hp,
      (hr.start_of hk hs).1.address]
  · obtain ⟨a, ho⟩ := hr.open_of hk hs
    simp [stageOf_open ho, Talk.next, Stage.idle, Stage.address, hk, hp, ho.address]
  · exact absurd hs hz

theorem freely_received (hr : Reg s) {parts : List Frame} (h : Received rex s parts s') :
    Freely s s' := by
  have hin : ∀ p rest, Freely s (s.received p rest) := fun p rest => freely_same rfl rfl rfl
  cases h with
  | interrupted _ => exact freely_same rfl rfl rfl
  | @ignored p rest _ =>
    exact (hin p rest).trans (freely_clientRequire (reg_received hr p rest) rfl)
  | @handled p rest c s₁ _ hrecv hreq hh =>
    have hr₀ := reg_received hr p rest
    obtain ⟨hr₁, k, hk, hz⟩ := reg_clientRequire hr₀ hreq
    have hmessage : (s₁.hear c parts.tail p).message = p := by
      rcases clientRequire_cases hreq with ⟨-, rfl⟩ | ⟨-, -, rfl⟩ <;> rfl
    have hx : protocolEvent p ≠ .expired := by
      unfold protocolEvent
      split <;> simp
    have hhandled := spoken_handled (reg_hear hr₁ c parts.tail p) hh
      (by rw [hmessage, asked_wire]) hx
    rw [hmessage] at hhandled
    have hst : stageOf (s₁.hear c parts.tail p) c = stageOf s₁ c := stageOf_frame rfl rfl
    rw [hst] at hhandled
    exact ((hin p rest).trans (freely_clientRequire hr₀ hreq)).trans
      ((spoken_hear hr₁ hk hz (decode_heard hrecv)).trans hhandled).freely

/-- **Between two steps nothing is expected.** -/
theorem freely_moved {l : Label} (hr : Reg s) (h : Moved rex s l s') : Freely s s' := by
  have hpop : ∀ name st up, Freely s (s.popStream name st up) :=
    fun name st up => freely_same rfl rfl rfl
  cases h with
  | router _ _ h => exact freely_received hr h
  | more _ h => exact freely_received hr h
  | expired _ _ _ h => exact freely_expired hr h
  | @acked name st c up k _ _ _ hk =>
    refine (hpop name st up).trans fun d => ?_
    have hlt := hr.fresh c k hk
    have hst : stageOf ((s.popStream name st up).put c k) d = stageOf (s.popStream name st up) d := by
      unfold Server.put
      split
      · rename_i hz
        by_cases hd : d = c
        · rw [hd]
          simp [stageOf, hk, hz.2, popStream, hlt]
        · exact stageOf_frame (Function.update_of_ne hd ..) rfl
      · by_cases hd : d = c
        · rw [hd]
          simp [stageOf, hk, popStream]
        · exact stageOf_setClient _ hd
    rw [hst]
    exact talked_same (put_trace ..)
  | @discarded name st c m up k _ _ _ _ _ =>
    exact (hpop name st up).trans (freely_same rfl rfl rfl)
  | @delivered name st c m up k a _ _ _ ho =>
    exact (hpop name st up).trans (freely_deliver (ho.frame rfl rfl rfl) rfl)
  | command _ _ => exact freely_same rfl rfl rfl
  | @message name st st' m targets _ _ =>
    exact freely_nobody (o := .forwarded name m targets) rfl rfl rfl rfl
  | mailbox _ hread => exact freely_mailboxOnly (mailboxRead_only hread)
  | @configured service mailbox s₁ _ hreads =>
    have hcfg : Freely s { s with serviceCfg := service } := freely_same rfl rfl rfl
    exact (hcfg.trans (freely_mailboxOnly (mailboxReads_only hreads))).trans
      (freely_same rfl rfl rfl)

/-- **The session protocol.** In every run, what the broker does for each client is one
conversation that `talk` accepts: every message is executed with the arguments that the message
object holds once it is read, which are those of its frames if every field is there, and answered
as its script says, by exactly one OK, ERROR or PONG or by nothing, under the address the client
has opened with; deliveries come between two messages to a client that has opened; before its
first message a client may expire, and nothing else; and nothing comes after it has left. Between
two steps nothing is outstanding, and the stage of the conversation is that of the client's
context. -/
theorem session_protocol (h : (broker rex).Reachable s) (c : Cid) :
    (talk c).run (.unopened, []) s.trace = some (stageOf s c, []) := by
  refine Monitor.conforms (M := talk c) (f := Server.trace) (g := fun s => (stageOf s c, []))
    (regular_inductive rex) (fun s hs => ?_) (fun s l s' hreg hst => ?_) h
  · rw [show s = .new from hs]
    rfl
  · exact freely_moved hreg.reg (moved_of_step hreg.reg hreg.wired hst) c

/-- A client opens, writes to a stream, publishes, confirms a message and is gone. -/
theorem session_protocol_refused : ∃ s : Server, (broker fun _ _ => true).Reachable s ∧
    (talk 0).run (.unopened, []) s.trace = some (.gone, []) := by
  have h : ((Server.new.steps (fun _ _ => true) (fun _ _ => True) 20
      ([.connectionOpen .empty, .streamWrite .empty, .streamSend .empty [],
        .confirm .empty 200 .empty].map (.request [1]))).any fun s =>
          stageOf s 0 = .gone) = true := by decide +kernel
  obtain ⟨s, hs, hP⟩ := (Option.any_eq_true _ _).1 h
  have hr := (reachable_of_steps hs).of_within
  refine ⟨s, hr, ?_⟩
  rw [session_protocol hr 0, of_decide_eq_true hP]

end
end Malamute.L3
