import Malamute.L3Server.Watched

/-!
# References to messages

`held s i` is in how many places message `i` is: mailboxes and the pipe to
them, service queues, the pipes of the streams in both directions, and the
slots of the clients. `L` is a list of references that local variables hold.

`Transfer` is what may happen to references, whoever does it: a new message is
made, a message that is held is linked, a local reference is given up, or
references move from one place to another. `Exact` says that the counts are
right; it is kept by every transfer, and a count that is zero stays zero.
-/
namespace Malamute.L3
open Malamute.Core Malamute.L1 Malamute.L2

/-- How often message `i` occurs. -/
def copies (i : Nat) (ms : List Msg) : Nat := ms.countP fun m => m.mid = i

@[simp] theorem copies_nil (i : Nat) : copies i [] = 0 := rfl

@[simp] theorem copies_cons (i : Nat) (m : Msg) (ms : List Msg) :
    copies i (m :: ms) = (if m.mid = i then 1 else 0) + copies i ms := by
  unfold copies
  rw [List.countP_cons, Nat.add_comm]
  simp

@[simp] theorem copies_append (i : Nat) (ms ns : List Msg) :
    copies i (ms ++ ns) = copies i ms + copies i ns := List.countP_append

/-! ## Places -/

def issueMessages : Issue → List Msg
  | .message _ m => [m]
  | .command _ => []

def trafficMessages : Traffic → List Msg
  | .deliver _ m => [m]
  | .ack _ => []

/-- The messages in the pipes of a stream, in both directions. -/
def streamMessages (st : Stream) : List Msg :=
  st.pending.flatMap issueMessages ++ st.up.flatMap trafficMessages

/-- The message in the slot of a context. -/
def slotOf (x : Option Client) : List Msg := (x.bind (·.msg)).toList

def mailboxHeld (b : Mailbox) (i : Nat) : Nat := b.mailboxes.sum fun q => copies i q.items

def servicesHeld (t : Table Str Service) (i : Nat) : Nat := t.sum fun v => copies i v.queue.items

def streamsHeld (t : Table Str Stream) (i : Nat) : Nat := t.sum fun st => copies i (streamMessages st)

/-- The slots of the contexts below `n`. -/
def slotsHeld (ctx : Cid → Option Client) (n : Nat) (i : Nat) : Nat :=
  ((List.range n).map fun c => copies i (slotOf (ctx c))).sum

/-- In how many places message `i` is. -/
def held (s : Server) (i : Nat) : Nat :=
  mailboxHeld s.mailbox i + copies i (s.mailboxPipe.map Prod.snd) + servicesHeld s.services i +
    streamsHeld s.streams i + slotsHeld s.ctx s.clientId i

/-- With the local references. -/
def holders (L : List Msg) (s : Server) (i : Nat) : Nat := held s i + copies i L

/-! ## Transfers -/

/-- One operation on references. -/
inductive Transfer (L : List Msg) (s : Server) : List Msg → Server → Prop where
  /-- references change places, if anything -/
  | move {L' : List Msg} {s' : Server} : s'.refs = s.refs → s'.messageId = s.messageId →
      (∀ i, holders L' s' i = holders L s i) → Transfer L s L' s'
  /-- `mlm_msg_new` -/
  | create {m : Msg} : m.mid = s.messageId → Transfer L s (m :: L) (s.newMsg m)
  /-- `mlm_msg_link`, of a message that somebody holds -/
  | link {m : Msg} : 0 < holders L s m.mid → Transfer L s (m :: L) (s.link m)
  /-- `mlm_msg_unlink`, of a local reference -/
  | unlink {m : Msg} {L' : List Msg} : L = m :: L' → Transfer L s L' (s.unlink m)

/-- The counts are right, and nobody holds a message that has not been made. -/
structure Exact (L : List Msg) (s : Server) : Prop where
  counted : ∀ i, s.refs i = holders L s i
  fresh : ∀ i, s.messageId ≤ i → holders L s i = 0

theorem exact_new : Exact [] .new := by
  refine ⟨fun i => ?_, fun i _ => ?_⟩
  · simp [Server.new, holders, held, mailboxHeld, servicesHeld, streamsHeld, slotsHeld, Mailbox.new]
  · simp [Server.new, holders, held, mailboxHeld, servicesHeld, streamsHeld, slotsHeld, Mailbox.new]

section
variable {L L' : List Msg} {s s' : Server} {i : Nat}

theorem holders_newMsg (m : Msg) : holders (m :: L) (s.newMsg m) i =
    holders L s i + if m.mid = i then 1 else 0 := by
  unfold holders
  rw [copies_cons]
  have hheld : held (s.newMsg m) i = held s i := rfl
  omega

theorem holders_link (m : Msg) : holders (m :: L) (s.link m) i =
    holders L s i + if m.mid = i then 1 else 0 := by
  unfold holders
  rw [copies_cons]
  have hheld : held (s.link m) i = held s i := rfl
  omega

theorem holders_unlink (m : Msg) : holders (m :: L) s i =
    holders L (s.unlink m) i + if m.mid = i then 1 else 0 := by
  unfold holders
  rw [copies_cons]
  have hheld : held (s.unlink m) i = held s i := rfl
  omega

/-- **The counts stay right.** -/
theorem exact_transfer (h : Transfer L s L' s') (hx : Exact L s) : Exact L' s' := by
  cases h with
  | move hrefs hid hmove =>
    refine ⟨fun i => ?_, fun i hi => ?_⟩
    · rw [hrefs, hmove]
      exact hx.counted i
    · rw [hmove]
      exact hx.fresh i (hid ▸ hi)
  | @create m hm =>
    refine ⟨fun i => ?_, fun i hi => ?_⟩
    · rw [holders_newMsg, Server.newMsg_refs, hm]
      have hfresh := hx.fresh s.messageId (Nat.le_refl _)
      by_cases hi : i = s.messageId
      · subst hi
        rw [Function.update_self, if_pos rfl, hfresh]
        rfl
      · rw [Function.update_of_ne hi, if_neg (Ne.symm hi), Nat.add_zero]
        exact hx.counted i
    · rw [Server.newMsg_messageId] at hi
      rw [holders_newMsg, if_neg (by omega), Nat.add_zero]
      exact hx.fresh i (by omega)
  | @link m hm =>
    refine ⟨fun i => ?_, fun i hi => ?_⟩
    · rw [holders_link, Server.link_refs]
      have hcount := hx.counted i
      by_cases hi : m.mid = i
      · subst hi
        rw [Function.update_self, if_pos rfl, hcount]
        rfl
      · rw [Function.update_of_ne (Ne.symm hi), if_neg hi, Nat.add_zero]
        exact hcount
    · rw [Server.link_messageId] at hi
      have hfresh := hx.fresh i hi
      rw [holders_link, hfresh]
      by_cases hmid : m.mid = i
      · subst hmid
        omega
      · rw [if_neg hmid]
  | @unlink m L' hL =>
    subst hL
    refine ⟨fun i => ?_, fun i hi => ?_⟩
    · have hcount := hx.counted i
      rw [holders_unlink] at hcount
      rw [Server.unlink_refs]
      by_cases hi : m.mid = i
      · subst hi
        rw [if_pos rfl] at hcount
        rw [Function.update_self, hcount]
        push_cast
        omega
      · rw [if_neg hi, Nat.add_zero] at hcount
        rw [Function.update_of_ne (Ne.symm hi)]
        exact hcount
    · rw [Server.unlink_messageId] at hi
      have hfresh := hx.fresh i hi
      rw [holders_unlink] at hfresh
      omega

/-- A message that nobody holds any more is never held again. -/
theorem dead_transfer (h : Transfer L s L' s') (hi : i < s.messageId) (hd : holders L s i = 0) :
    i < s'.messageId ∧ holders L' s' i = 0 := by
  cases h with
  | move hrefs hid hmove => exact ⟨hid ▸ hi, by rw [hmove, hd]⟩
  | @create m hm =>
    refine ⟨Nat.lt_succ_of_lt hi, ?_⟩
    rw [holders_newMsg, hd, if_neg (by omega)]
  | @link m hm =>
    refine ⟨hi, ?_⟩
    have hmid : m.mid ≠ i := by
      rintro rfl
      omega
    rw [holders_link, hd, if_neg hmid]
  | @unlink m L' hL =>
    subst hL
    refine ⟨hi, ?_⟩
    rw [holders_unlink] at hd
    omega

end

/-! ## What the operations do to the places -/

section
variable {ctx : Cid → Option Client} {n i : Nat} {c : Cid} {x : Option Client}

/-- A context changes, but not its slot. -/
theorem slotsHeld_same (h : slotOf x = slotOf (ctx c)) :
    slotsHeld (Function.update ctx c x) n i = slotsHeld ctx n i := by
  unfold slotsHeld
  congr 1
  refine List.map_congr_left fun d _ => ?_
  by_cases hd : d = c
  · rw [hd, Function.update_self, h]
  · rw [Function.update_of_ne hd]

theorem slotsHeld_update (hc : c < n) :
    slotsHeld (Function.update ctx c x) n i + copies i (slotOf (ctx c)) =
      slotsHeld ctx n i + copies i (slotOf x) := by
  unfold slotsHeld
  induction n with
  | zero => exact absurd hc (Nat.not_lt_zero c)
  | succ n ih =>
    simp only [List.range_succ, List.map_append, List.map_cons, List.map_nil, List.sum_append,
      List.sum_cons, List.sum_nil, Nat.add_zero]
    rcases Nat.lt_succ_iff_lt_or_eq.1 hc with hlt | rfl
    · have hrest := ih hlt
      rw [Function.update_of_ne (Nat.ne_of_gt hlt)]
      omega
    · have hsame : (List.range c).map (fun d => copies i (slotOf (Function.update ctx c x d))) =
          (List.range c).map fun d => copies i (slotOf (ctx d)) := by
        refine List.map_congr_left fun d hd => ?_
        rw [Function.update_of_ne (Nat.ne_of_lt (List.mem_range.1 hd))]
      rw [hsame, Function.update_self]
      omega

theorem slotsHeld_succ (h : slotOf x = []) :
    slotsHeld (Function.update ctx n x) (n + 1) i = slotsHeld ctx n i := by
  have hsame : (List.range n).map (fun d => copies i (slotOf (Function.update ctx n x d))) =
      (List.range n).map fun d => copies i (slotOf (ctx d)) := by
    refine List.map_congr_left fun d hd => ?_
    rw [Function.update_of_ne (Nat.ne_of_lt (List.mem_range.1 hd))]
  simp only [slotsHeld, List.range_succ, List.map_append, hsame, List.map_cons, List.map_nil,
    Function.update_self, h, copies_nil, List.sum_append, List.sum_cons, List.sum_nil, Nat.add_zero]

variable {s : Server} {name : Str} {v : Service} {st st' : Stream}

theorem held_setClient_same {k : Client} (h : slotOf (some k) = slotOf (s.ctx c)) :
    held (s.setClient c k) i = held s i := by
  have hslots := slotsHeld_same (n := s.clientId) (i := i) h
  exact congrArg (mailboxHeld s.mailbox i + copies i (s.mailboxPipe.map Prod.snd) + servicesHeld s.services i +
    streamsHeld s.streams i + ·) hslots

theorem held_setClient {k : Client} (hc : c < s.clientId) :
    held (s.setClient c k) i + copies i (slotOf (s.ctx c)) =
      held s i + copies i (slotOf (some k)) := by
  have hslots : slotsHeld (Function.update s.ctx c (some k)) s.clientId i +
      copies i (slotOf (s.ctx c)) = slotsHeld s.ctx s.clientId i + copies i (slotOf (some k)) :=
    slotsHeld_update hc
  have hheld : held (s.setClient c k) i = mailboxHeld s.mailbox i + copies i (s.mailboxPipe.map Prod.snd) +
      servicesHeld s.services i + streamsHeld s.streams i +
        slotsHeld (Function.update s.ctx c (some k)) s.clientId i := rfl
  rw [hheld, held]
  omega

theorem held_freeClient (h : slotOf (s.ctx c) = []) : held (s.freeClient c) i = held s i := by
  have hslots := slotsHeld_same (x := none) (n := s.clientId) (i := i) (Eq.symm h)
  exact congrArg (mailboxHeld s.mailbox i + copies i (s.mailboxPipe.map Prod.snd) +
    servicesHeld s.services i + streamsHeld s.streams i + ·) hslots

theorem held_setService (s : Server) (name : Str) (v : Service) (i : Nat) :
    held (s.setService name v) i + copies i (s.service name).queue.items =
      held s i + copies i v.queue.items := by
  have hsum : (s.services.set name v).sum (fun v => copies i v.queue.items) +
      copies i (s.service name).queue.items =
        s.services.sum (fun v => copies i v.queue.items) + copies i v.queue.items :=
    s.services.sum_set_getD name v (f := fun v => copies i v.queue.items) rfl
  have hheld : held (s.setService name v) i = mailboxHeld s.mailbox i + copies i (s.mailboxPipe.map Prod.snd) +
      servicesHeld (s.services.set name v) i + streamsHeld s.streams i + slotsHeld s.ctx s.clientId i := rfl
  rw [hheld, held, servicesHeld, servicesHeld]
  omega

theorem held_setService_same (h : v.queue.items = (s.service name).queue.items) :
    held (s.setService name v) i = held s i := by
  have hset := held_setService s name v i
  rw [h] at hset
  omega

theorem held_setOffers (s : Server) (name : Str) (offers : CursorList Offer) :
    held (s.setService name ((s.service name).setOffers offers)) i = held s i :=
  held_setService_same (v := (s.service name).setOffers offers) (by rfl)

theorem held_serviceRequire (s : Server) (name : Str) : held (s.serviceRequire name) i = held s i := by
  have hsum : servicesHeld (s.services.ensure name .new) i = servicesHeld s.services i :=
    s.services.sum_ensure name rfl
  exact congrArg (mailboxHeld s.mailbox i + copies i (s.mailboxPipe.map Prod.snd) + · +
    streamsHeld s.streams i + slotsHeld s.ctx s.clientId i) hsum

theorem held_withdrawOffers (s : Server) (c : Cid) : held (s.withdrawOffers c) i = held s i := by
  have hsum : servicesHeld (s.services.map (Service.withdraw c)) i = servicesHeld s.services i :=
    s.services.sum_map (Service.withdraw c) fun v => copies i v.queue.items
  exact congrArg (mailboxHeld s.mailbox i + copies i (s.mailboxPipe.map Prod.snd) + · +
    streamsHeld s.streams i + slotsHeld s.ctx s.clientId i) hsum

theorem held_setStreams (st' : Stream) (h : s.streams.get name = some st) :
    held (s.setStreams (s.streams.set name st')) i + copies i (streamMessages st) =
      held s i + copies i (streamMessages st') := by
  have hsum : streamsHeld (s.streams.set name st') i + copies i (streamMessages st) =
      streamsHeld s.streams i + copies i (streamMessages st') :=
    s.streams.sum_set_of_get (fun st => copies i (streamMessages st)) st' h
  have hheld : held (s.setStreams (s.streams.set name st')) i =
      mailboxHeld s.mailbox i + copies i (s.mailboxPipe.map Prod.snd) + servicesHeld s.services i +
        streamsHeld (s.streams.set name st') i + slotsHeld s.ctx s.clientId i := rfl
  rw [hheld, held]
  omega

theorem held_setStreams_same (h : s.streams.get name = some st)
    (hsame : copies i (streamMessages st') = copies i (streamMessages st)) :
    held (s.setStreams (s.streams.set name st')) i = held s i := by
  have hset := held_setStreams st' (i := i) h
  omega

theorem held_streamRequire (s : Server) (name : Str) : held (s.streamRequire name) i = held s i := by
  have hsum : streamsHeld (s.streams.ensure name .new) i = streamsHeld s.streams i :=
    s.streams.sum_ensure name rfl
  exact congrArg (mailboxHeld s.mailbox i + copies i (s.mailboxPipe.map Prod.snd) + servicesHeld s.services i +
    · + slotsHeld s.ctx s.clientId i) hsum

@[simp] theorem copies_push (st : Stream) (is : Issue) :
    copies i (streamMessages (st.push is)) = copies i (streamMessages st) + copies i (issueMessages is) := by
  simp only [streamMessages, Stream.push, List.flatMap_append, List.flatMap_cons, List.flatMap_nil,
    copies_append, copies_nil]
  omega

theorem held_pushStream_message (h : s.streams.get name = some st) (d : Cid) (m : Msg) :
    held (s.pushStream name (.message d m)) i = held s i + copies i [m] := by
  have hpush : s.pushStream name (.message d m) =
      s.setStreams (s.streams.set name (st.push (.message d m))) := by
    rw [Server.pushStream, Table.modify_of_get h]
    rfl
  have hset := held_setStreams (st.push (.message d m)) (i := i) h
  rw [copies_push] at hset
  rw [hpush]
  simp only [issueMessages] at hset
  omega

/-- A command on a pipe is not a reference. -/
theorem streamsHeld_command (t : Table Str Stream) (name : Str) (k : Command) :
    streamsHeld (t.modify name (·.push (.command k))) i = streamsHeld t i := by
  cases h : t.get name with
  | none => simp [Table.modify, h]
  | some st =>
    rw [Table.modify_of_get h]
    have hsum : streamsHeld (t.set name (st.push (.command k))) i + copies i (streamMessages st) =
        streamsHeld t i + copies i (streamMessages (st.push (.command k))) :=
      t.sum_set_of_get (fun st => copies i (streamMessages st)) _ h
    rw [copies_push] at hsum
    simp only [issueMessages, copies_nil] at hsum
    omega

theorem held_pushStream_command (s : Server) (name : Str) (k : Command) :
    held (s.pushStream name (.command k)) i = held s i := by
  have hsum := streamsHeld_command (i := i) s.streams name k
  exact congrArg (mailboxHeld s.mailbox i + copies i (s.mailboxPipe.map Prod.snd) + servicesHeld s.services i +
    · + slotsHeld s.ctx s.clientId i) hsum

theorem held_cancelReaders (s : Server) (c : Cid) (readers : List Str) :
    held (s.cancelReaders c readers) i = held s i := by
  have hsum : ∀ t : Table Str Stream, streamsHeld
      (readers.foldl (fun t name => t.modify name (·.push (.command (.cancel c)))) t) i =
        streamsHeld t i := by
    induction readers with
    | nil => exact fun t => rfl
    | cons name readers ih =>
      intro t
      rw [List.foldl_cons, ih, streamsHeld_command]
  exact congrArg (mailboxHeld s.mailbox i + copies i (s.mailboxPipe.map Prod.snd) + servicesHeld s.services i +
    · + slotsHeld s.ctx s.clientId i) (hsum s.streams)

/-! ## Mailboxes -/

theorem held_setMailbox (s : Server) (b : Mailbox) (pipe : List (Str × Msg)) :
    held (s.setMailbox b pipe) i + (mailboxHeld s.mailbox i + copies i (s.mailboxPipe.map Prod.snd)) =
      held s i + (mailboxHeld b i + copies i (pipe.map Prod.snd)) := by
  have hheld : held (s.setMailbox b pipe) i = mailboxHeld b i + copies i (pipe.map Prod.snd) +
      servicesHeld s.services i + streamsHeld s.streams i + slotsHeld s.ctx s.clientId i := rfl
  rw [hheld, held]
  omega

variable {b b' : Mailbox} {a : Str} {m : Msg}

theorem mailboxHeld_set (b : Mailbox) (a : Str) (q : Msgq) :
    mailboxHeld { b with mailboxes := b.mailboxes.set a q } i + copies i (b.content a) =
      mailboxHeld b i + copies i q.items :=
  b.mailboxes.sum_set_getD a q (f := fun q => copies i q.items) rfl

theorem mailboxHeld_store {r : Verdict} (h : b.store a m = .ok (b', r)) :
    mailboxHeld b' i = mailboxHeld b i + if r = .refused then 0 else copies i [m] := by
  obtain ⟨⟨q, r'⟩, he, h⟩ := bind_eq_ok.1 h
  cases h
  have hset := mailboxHeld_set (i := i) b a q
  rcases Msgq.enqueue_cases he with ⟨w, rfl, hi⟩ | ⟨rfl, rfl⟩
  · rw [hi, copies_append] at hset
    have hc : b.content a = (b.require a).items := rfl
    rw [hc] at hset
    rw [if_neg (by simp)]
    omega
  · have hc : b.content a = (b.require a).items := rfl
    rw [hc] at hset
    rw [if_pos rfl]
    omega

theorem mailboxHeld_query {r : Option Msg} (h : b.query a = .ok (b', r)) :
    mailboxHeld b' i + copies i r.toList = mailboxHeld b i := by
  unfold Mailbox.query at h
  split at h
  · cases h
    rfl
  · rename_i q hg
    obtain ⟨⟨q', r'⟩, hd, h⟩ := bind_eq_ok.1 h
    cases h
    have hset := mailboxHeld_set (i := i) b a q'
    have hc : b.content a = q.items := by simp [Mailbox.content, Mailbox.require, hg]
    rw [hc] at hset
    rcases Msgq.dequeue_cases hd with ⟨rfl, rfl, hn⟩ | ⟨m, rfl, hm⟩
    · rw [Option.toList_none, copies_nil]
      omega
    · rw [hm, copies_cons] at hset
      rw [Option.toList_some, copies_cons, copies_nil]
      omega

end
end Malamute.L3
