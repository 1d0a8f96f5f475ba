import Malamute.L3Server.Trace
import Malamute.L2Engine.Order

/-!
# What the server writes to the streams

`written name t`: the commands and messages that the server has written to the
stream `name`, as the trace `t` tells them. `Wrote s s'`: what has been added to
the pipes between `s` and `s'` is what the trace says.

`wrote_handled`, `wrote_moved`: all steps but those of the engines are of this
kind.
-/
namespace Malamute.L3
open Malamute.Core Malamute.L1 Malamute.L2 Server

/-- What an observation says was written to the stream `name`. -/
def Obs.issues (name : Str) : Obs → List Issue
  | .subscribed c n p => if n = name then [.command (.compile c p)] else []
  | .cancelled c n => if n = name then [.command (.cancel c)] else []
  | .left c readers => (readers.filter (· = name)).map fun _ => .command (.cancel c)
  | .published c n m => if n = name then [.message c m] else []
  | _ => []

def written (name : Str) (t : List Obs) : List Issue := t.flatMap (Obs.issues name)

def Obs.publication : Obs → Option Msg
  | .published _ _ m => some m
  | _ => none

/-- The observation is not one of a stream engine. -/
def Obs.Ours : Obs → Prop
  | .forwarded _ _ _ => False
  | _ => True

/-- The stream called `name`. -/
def Server.stream (s : Server) (name : Str) : Stream := (s.streams.get name).getD .new

/-- The server has written to the streams what the trace says, and stored
messages that are new. -/
structure Wrote (s s' : Server) : Prop where
  messageId : s.messageId ≤ s'.messageId
  grows : ∃ t, s'.trace = s.trace ++ t ∧ (∀ o ∈ t, o.Ours) ∧
    (∀ name, (s'.stream name).selectors = (s.stream name).selectors ∧
      (s'.stream name).pending = (s.stream name).pending ++ written name t) ∧
    (t.filterMap Obs.publication).Nodup ∧
    ∀ m ∈ t.filterMap Obs.publication, s.messageId ≤ m.mid ∧ m.mid < s'.messageId

section
variable {rex : Str → Str → Bool} {s s' : Server} {c : Cid} {k : Client} {a name : Str} {m : Msg}

theorem written_append (name : Str) (t t' : List Obs) :
    written name (t ++ t') = written name t ++ written name t' := List.flatMap_append

theorem written_cons (name : Str) (o : Obs) (t : List Obs) :
    written name (o :: t) = o.issues name ++ written name t := List.flatMap_cons

theorem stream_of_streams (h : s'.streams = s.streams) (name : Str) :
    s'.stream name = s.stream name := by rw [stream, stream, h]

theorem stream_of_get {st : Stream} (h : s.streams.get name = some st) : s.stream name = st := by
  rw [stream, h]
  rfl

/-! ## Composing -/

theorem Wrote.trans {s₁ : Server} (h : Wrote s s₁) (h' : Wrote s₁ s') : Wrote s s' := by
  obtain ⟨t, ht, hours, hst, hnd, hm⟩ := h.grows
  obtain ⟨t', ht', hours', hst', hnd', hm'⟩ := h'.grows
  have hid := h.messageId
  have hid' := h'.messageId
  refine ⟨Nat.le_trans hid hid', t ++ t', by rw [ht', ht, List.append_assoc], ?_, ?_, ?_, ?_⟩
  · intro o ho
    exact (List.mem_append.1 ho).elim (hours o) (hours' o)
  · intro name
    refine ⟨(hst' name).1.trans (hst name).1, ?_⟩
    rw [(hst' name).2, (hst name).2, written_append, List.append_assoc]
  · rw [List.filterMap_append]
    refine List.nodup_append.2 ⟨hnd, hnd', ?_⟩
    rintro x hx y hy rfl
    have := hm x hx
    have := hm' x hy
    omega
  · intro m hmem
    rw [List.filterMap_append] at hmem
    rcases List.mem_append.1 hmem with hmem | hmem
    · have := hm m hmem
      omega
    · have := hm' m hmem
      omega

/-- Nothing is written. -/
theorem wrote_talk (h : Grows Obs.Talk s s') (hst : s'.streams = s.streams)
    (hid : s.messageId ≤ s'.messageId) : Wrote s s' := by
  obtain ⟨t, ht, htalk⟩ := h
  have hpub : t.filterMap Obs.publication = [] := by
    refine List.filterMap_eq_nil_iff.2 fun o ho => ?_
    have := htalk o ho
    cases o <;> first | rfl | exact this.elim
  refine ⟨hid, t, ht, ?_, ?_, by rw [hpub]; exact .nil, by simp [hpub]⟩
  · intro o ho
    have hot := htalk o ho
    cases o with
    | forwarded n m targets => exact hot.elim
    | _ => trivial
  · intro name
    have hnone : written name t = [] := by
      refine List.flatMap_eq_nil_iff.2 fun o ho => ?_
      have := htalk o ho
      cases o <;> first | rfl | exact this.elim
    rw [stream_of_streams hst, hnone]
    exact ⟨rfl, (List.append_nil _).symm⟩

theorem wrote_same (ht : s'.trace = s.trace) (hst : s'.streams = s.streams)
    (hid : s.messageId ≤ s'.messageId) : Wrote s s' := wrote_talk (grows_same ht) hst hid

/-- One observation. -/
theorem wrote_one {o : Obs} (ht : s'.trace = s.trace ++ [o]) (ho : o.Ours)
    (hst : ∀ name, (s'.stream name).selectors = (s.stream name).selectors ∧
      (s'.stream name).pending = (s.stream name).pending ++ o.issues name)
    (hid : s.messageId ≤ s'.messageId)
    (hp : ∀ m, o.publication = some m → s.messageId ≤ m.mid ∧ m.mid < s'.messageId) :
    Wrote s s' := by
  refine ⟨hid, [o], ht, List.forall_mem_singleton.2 ho, ?_, ?_, ?_⟩
  · intro name
    rw [written_cons, show written name [] = [] from rfl, List.append_nil]
    exact hst name
  · cases h : o.publication <;> simp [h]
  · intro m hm
    obtain ⟨o', ho', hpub⟩ := List.mem_filterMap.1 hm
    rw [List.mem_singleton.1 ho'] at hpub
    exact hp m hpub

/-- One observation of one item, written to one stream. -/
theorem wrote_item {o : Obs} {i : Issue} {n : Str} (ht : s'.trace = s.trace ++ [o]) (ho : o.Ours)
    (hi : ∀ name', o.issues name' = if n = name' then [i] else [])
    (hst : ∀ name', s'.stream name' =
      if name' = n then (s.stream name').push i else s.stream name')
    (hid : s.messageId ≤ s'.messageId)
    (hp : ∀ m, o.publication = some m → s.messageId ≤ m.mid ∧ m.mid < s'.messageId) :
    Wrote s s' := by
  refine wrote_one ht ho (fun name' => ?_) hid hp
  rw [hst, hi]
  by_cases hn : n = name'
  · rw [if_pos hn, if_pos hn.symm]
    exact ⟨rfl, rfl⟩
  · rw [if_neg hn, if_neg fun h => hn h.symm]
    exact ⟨rfl, (List.append_nil _).symm⟩

/-! ## Writing to one stream -/

theorem stream_streamRequire (s : Server) (name name' : Str) :
    (s.streamRequire name).stream name' = s.stream name' := by
  unfold stream
  rw [streamRequire_streams, Table.get_ensure]
  split
  · rename_i h
    rw [h]
    rfl
  · rfl

theorem stream_pushStream (h : ∃ st, s.streams.get name = some st) (i : Issue) (name' : Str) :
    (s.pushStream name i).stream name' =
      if name' = name then (s.stream name').push i else s.stream name' := by
  obtain ⟨st, hst⟩ := h
  unfold stream
  rw [pushStream_streams, Table.get_modify]
  split
  · rename_i h
    rw [h, hst]
    rfl
  · rfl

/-- CANCELs of `c` to all its readers. -/
theorem stream_cancelReaders {readers : List Str}
    (h : ∀ name ∈ readers, ∃ st, s.streams.get name = some st) (name : Str) :
    ((s.cancelReaders c readers).stream name).selectors = (s.stream name).selectors ∧
      ((s.cancelReaders c readers).stream name).pending =
        (s.stream name).pending ++ (Obs.left c readers).issues name := by
  induction readers generalizing s with
  | nil => exact ⟨rfl, (List.append_nil _).symm⟩
  | cons r readers ih =>
    have hr := h r List.mem_cons_self
    have hrest := ih (s := s.pushStream r (.command (.cancel c))) fun n hn =>
      pushStream_exists (h n (List.mem_cons_of_mem _ hn)) r _
    have hstep : s.cancelReaders c (r :: readers) =
        (s.pushStream r (.command (.cancel c))).cancelReaders c readers := rfl
    rw [hstep, hrest.1, hrest.2, stream_pushStream hr]
    by_cases hn : r = name
    · simp [Obs.issues, Stream.push, hn]
    · have hn' : name ≠ r := fun h => hn h.symm
      simp [Obs.issues, hn, hn']

theorem wrote_leave (hw : Wired s) (ho : Open s c k a) : Wrote s (s.leave c k a) := by
  refine wrote_one (o := .left c k.readers) rfl trivial ?_ (Nat.le_refl _) (by simp [Obs.publication])
  have hst := stream_cancelReaders (c := c) (hw.readers c k ho.ctx)
  exact hst

/-! ## Message identities -/

theorem drain_messageId (h : Drain c k a s s') : s'.messageId = s.messageId := by
  have honly : ∀ {s s' : Server}, MailboxOnly s s' → s'.messageId = s.messageId := by
    rintro s s' ⟨b, pipe, refs, ms, rfl⟩
    rfl
  induction h with
  | anonymous _ => rfl
  | empty _ hq => exact honly (mailboxQuery_only hq)
  | next _ hq _ ih =>
    have h₁ := honly (mailboxQuery_only hq)
    exact ih.trans h₁

theorem dispatched_id {b : Bool} (h : Dispatched rex name m s s' b) :
    s'.messageId = s.messageId := by
  cases h <;> rfl

theorem scan_messageId {mo : Option Msg} (h : Scan rex name mo s s') :
    s'.messageId = s.messageId := by
  induction h with
  | done => rfl
  | skip hd _ ih =>
    have h₁ := dispatched_id hd
    exact ih.trans h₁
  | take hd _ _ ih =>
    have h₁ := dispatched_id hd
    exact ih.trans h₁

theorem mailed_messageId (h : Mailed c a s s') : s.messageId ≤ s'.messageId := by
  cases h with
  | direct _ _ hd =>
    rw [drain_messageId hd]
    exact Nat.le_succ _
  | stored _ => exact Nat.le_succ _

theorem requested_messageId (h : Requested rex c a s s') : s.messageId ≤ s'.messageId := by
  have hreq : (s.requesting c a).messageId = s.messageId + 1 := rfl
  cases h with
  | dispatched hd =>
    rw [dispatched_id hd, hreq]
    exact Nat.le_succ _
  | @queued s₁ _ _ hd _ =>
    show s.messageId ≤ s₁.messageId
    rw [dispatched_id hd, hreq]
    exact Nat.le_succ _
  | @refused s₁ _ hd _ =>
    show s.messageId ≤ s₁.messageId
    rw [dispatched_id hd, hreq]
    exact Nat.le_succ _

/-! ## Events -/

theorem wrote_enter (s : Server) (c : Cid) (e : Event) : Wrote s (s.enter c e) :=
  wrote_talk (grows_one rfl trivial) rfl (Nat.le_refl _)

theorem wrote_answer (s : Server) (c : Cid) (k : Client) (id : Id) : Wrote s (s.answer c k id) :=
  wrote_talk (grows_one rfl trivial) rfl (Nat.le_refl _)

theorem wrote_fail (hw : Wired s) (ho : Open s c k a) : Wrote s (s.fail c k a) := by
  have hset : Wrote (s.enter c .exception) ((s.enter c .exception).setStatus failed) :=
    wrote_same rfl rfl (Nat.le_refl _)
  have hstatus : Wrote s (((s.enter c .exception).setStatus failed).answer c k .error) :=
    ((wrote_enter s c .exception).trans hset).trans (wrote_answer _ c k .error)
  have hw₁ : Wired (((s.enter c .exception).setStatus failed).answer c k .error) :=
    hw.frame rfl rfl rfl
  exact hstatus.trans (wrote_leave hw₁ (ho.frame rfl rfl rfl))

theorem wrote_evicted (hw : Wired s) (h : Evicted a s s') : Wrote s s' := by
  cases h with
  | nobody _ => exact wrote_same rfl rfl (Nat.le_refl _)
  | @holder old t _ _ ho =>
    have hw₁ : Wired (s.enter old .expired) := hw.frame rfl rfl rfl
    exact (wrote_enter s old .expired).trans (wrote_leave hw₁ (ho.frame rfl rfl rfl))

/-- **What the server writes is on record.** -/
theorem wrote_handled {e : Event} (hw : Wired s) (h : Handled rex s c e s') : Wrote s s' := by
  have henter := fun e => wrote_enter s c e
  have hreply : ∀ {s₁ : Server} (k : Client) (id : Id), Wrote s s₁ → Wrote s (s₁.answer c k id) :=
    fun k id h => h.trans (wrote_answer _ c k id)
  have hset : ∀ e n, Wrote s ((s.enter c e).setStatus n) := fun e n =>
    (henter e).trans (wrote_same rfl rfl (Nat.le_refl _))
  have hrequired : ∀ e, ∃ st,
      ((s.enter c e).streamRequire s.message.stream).streams.get s.message.stream = some st := by
    intro e
    rw [streamRequire_streams, Table.get_ensure, if_pos rfl]
    exact ⟨_, rfl⟩
  cases h with
  | @opened k s₁ _ _ _ hev hd =>
    have hw₁ : Wired (s.enter c .connectionOpen) := hw.frame rfl rfl rfl
    have hreg : Wrote s₁ (s₁.register c k s.message.address) := by
      rw [register_eq]
      exact wrote_talk (grows_one rfl trivial) rfl (Nat.le_refl _)
    have hdrain := wrote_talk (relayed_talk.drain hd) (drain_same hd).streams
      (Nat.le_of_eq (drain_messageId hd).symm)
    exact (((henter _).trans (wrote_evicted hw₁ hev)).trans hreg).trans hdrain
  | departed _ _ => exact (henter _).trans (wrote_same rfl rfl (Nat.le_refl _))
  | unopened _ _ _ => exact hreply _ _ (hset _ _)
  | @wrote k a _ =>
    refine hreply k .ok ((henter .streamWrite).trans ⟨Nat.le_refl _, [], by simp, by simp, ?_,
      by simp, by simp⟩)
    intro name
    have hst := stream_streamRequire (s.enter c .streamWrite) s.message.stream name
    exact ⟨congrArg Stream.selectors hst, by
      rw [show written name [] = [] from rfl, List.append_nil]
      exact congrArg Stream.pending hst⟩
  | @read k a _ =>
    refine hreply k .ok ((henter .streamRead).trans (wrote_item (n := s.message.stream)
      (o := .subscribed c s.message.stream s.message.pattern)
      (i := .command (.compile c s.message.pattern)) rfl trivial (fun _ => rfl) (fun name => ?_)
      (Nat.le_refl _) (by simp [Obs.publication])))
    have hst := stream_pushStream (hrequired .streamRead)
      (.command (.compile c s.message.pattern)) name
    rw [stream_streamRequire] at hst
    exact hst
  | @cancelled k a _ =>
    refine hreply k .ok ((henter .streamCancel).trans (wrote_item (n := s.message.stream)
      (o := .cancelled c s.message.stream) (i := .command (.cancel c)) rfl trivial
      (fun _ => rfl) (fun name => ?_) (Nat.le_refl _) (by simp [Obs.publication])))
    have hst := stream_pushStream (hrequired .streamCancel) (.command (.cancel c)) name
    rw [stream_streamRequire] at hst
    exact hst
  | @published k a name ho hwr =>
    have hname : ∃ st, (s.enter c .streamSend).streams.get name = some st :=
      hw.writers c k name ho.ctx hwr
    refine (henter .streamSend).trans (wrote_item (n := name) (o := .published c name _)
      (i := .message c _) rfl trivial (fun _ => rfl) (stream_pushStream hname _)
      (Nat.le_succ _) ?_)
    intro m hm
    cases hm
    exact ⟨Nat.le_refl _, Nat.lt_succ_self _⟩
  | unwritten ho _ =>
    have hw₁ : Wired (s.enter c .streamSend) := hw.frame rfl rfl rfl
    exact (henter _).trans (wrote_fail hw₁ (ho.frame rfl rfl rfl))
  | mailed _ hm =>
    exact (henter _).trans (wrote_talk (relayed_talk.mail hm) (mailed_same hm).streams
      (mailed_messageId hm))
  | requested _ hm =>
    exact (henter _).trans (wrote_talk (relayed_talk.request hm) (requested_same hm).streams
      (requested_messageId hm))
  | @offered k a s₁ _ _ hs₁ hscan =>
    subst hs₁
    have hoffer : Wrote (s.enter c .serviceOffer) ((s.enter c .serviceOffer).offering c k) := by
      have hlog : Wrote (s.enter c .serviceOffer) ((s.enter c .serviceOffer).log
          (.offered c s.message.address ⟨s.offerId, s.message.pattern, c⟩)) :=
        wrote_one rfl trivial (fun name => ⟨rfl, (List.append_nil _).symm⟩) (Nat.le_refl _)
          (by simp [Obs.publication])
      exact hlog.trans (wrote_talk (grows_one rfl trivial) rfl (Nat.le_refl _))
    generalize (s.enter c .serviceOffer).offering c k = s₀ at hscan hoffer
    have hscanned := wrote_talk (relayed_talk.scan hscan) (scan_same hscan).streams
      (Nat.le_of_eq (scan_messageId hscan).symm)
    refine ((henter _).trans hoffer).trans (.trans ?_ hscanned)
    exact wrote_same rfl rfl (Nat.le_refl _)
  | confirmed ho =>
    have hw₁ : Wired (s.enter c .confirm) := hw.frame rfl rfl rfl
    exact (henter _).trans (wrote_fail hw₁ (ho.frame rfl rfl rfl))
  | credited _ => exact henter _
  | pinged _ => exact hreply _ _ (henter _)
  | @closed k a ho =>
    have hw₁ : Wired ((s.enter c .connectionClose).answer c k .ok) := hw.frame rfl rfl rfl
    exact (hreply k .ok (henter _)).trans (wrote_leave hw₁ (ho.frame rfl rfl rfl))
  | expired ho =>
    have hw₁ : Wired (s.enter c .expired) := hw.frame rfl rfl rfl
    exact (henter _).trans (wrote_leave hw₁ (ho.frame rfl rfl rfl))
  | @invalid k a _ ho _ =>
    have hw₁ : Wired (((s.enter c e).setStatus commandInvalid).answer c k .error) :=
      hw.frame rfl rfl rfl
    exact (hreply k .error (hset e commandInvalid)).trans (wrote_leave hw₁ (ho.frame rfl rfl rfl))

/-! ## Steps -/

theorem wrote_received (hw : Wired s) {parts : List Frame} (h : Received rex s parts s') :
    Wrote s s' := by
  have hin : ∀ p rest, Wrote s (s.received p rest) := fun p rest =>
    wrote_same rfl rfl (Nat.le_refl _)
  have hrequire : ∀ {s : Server} {key : Key} {c : Cid} {s₁ : Server},
      s.clientRequire key = (c, s₁) → Wrote s s₁ := by
    intro s key c s₁ h
    rcases clientRequire_cases h with ⟨-, rfl⟩ | ⟨-, -, rfl⟩ <;>
      exact wrote_same rfl rfl (Nat.le_refl _)
  cases h with
  | interrupted _ => exact wrote_same rfl rfl (Nat.le_refl _)
  | @ignored p rest _ => exact (hin p rest).trans (hrequire rfl)
  | @handled p rest c s₁ _ _ hreq hh =>
    have hheard : Wrote s₁ (s₁.hear c parts.tail p) :=
      wrote_one rfl trivial (fun name => ⟨rfl, (List.append_nil _).symm⟩) (Nat.le_refl _)
        (by simp [Obs.publication])
    have hw₀ : Wired (s.received p rest) := hw.frame rfl rfl rfl
    have hw₁ : Wired (s₁.hear c parts.tail p) := (hw₀.clientRequire hreq).frame rfl rfl rfl
    exact (((hin p rest).trans (hrequire hreq)).trans hheard).trans (wrote_handled hw₁ hh)

/-- The server reads an item from a stream. -/
theorem wrote_popStream {st : Stream} (h : s.streams.get name = some st) (up : List Traffic) :
    Wrote s (s.popStream name st up) := by
  refine ⟨Nat.le_refl _, [], by simp [popStream], by simp, ?_, by simp, by simp⟩
  intro name'
  rw [show written name' [] = [] from rfl, List.append_nil]
  unfold stream popStream
  rw [setStreams_streams, Table.get_set]
  by_cases hn : name' = name
  · rw [if_pos hn, hn, h]
    exact ⟨rfl, rfl⟩
  · rw [if_neg hn]
    exact ⟨rfl, rfl⟩

/-- A step of a stream engine. -/
def Label.engine : Label → Bool
  | .command _ | .message _ => true
  | _ => false

theorem wrote_moved {l : Label} (hw : Wired s) (h : Moved rex s l s') (hl : l.engine = false) :
    Wrote s s' := by
  have honly : ∀ {s s' : Server}, MailboxOnly s s' → Wrote s s' := by
    intro s s' h
    refine wrote_talk (h.grows fun _ _ => trivial) h.same.streams ?_
    obtain ⟨b, pipe, refs, ms, rfl⟩ := h
    exact Nat.le_refl _
  cases h with
  | router _ _ hrecv => exact wrote_received hw hrecv
  | more _ hrecv => exact wrote_received hw hrecv
  | expired _ _ _ hh => exact wrote_handled hw hh
  | @acked name st c up k _ hst _ _ =>
    refine (wrote_popStream hst up).trans (wrote_same (put_trace ..) ?_ ?_)
    · unfold Server.put
      split <;> rfl
    · unfold Server.put
      split <;> exact Nat.le_refl _
  | @discarded name st c m up k _ hst _ _ _ =>
    exact (wrote_popStream hst up).trans (wrote_same rfl rfl (Nat.le_refl _))
  | @delivered name st c m up k a _ hst _ _ =>
    exact (wrote_popStream hst up).trans
      (wrote_talk (relayed_talk.deliver _ c k .streamMessage m (.inl rfl)) rfl (Nat.le_refl _))
  | command _ _ => cases hl
  | message _ _ => cases hl
  | mailbox _ hread => exact honly (mailboxRead_only hread)
  | @configured service mailbox s₁ _ hreads =>
    have hcfg : Wrote s { s with serviceCfg := service } := wrote_same rfl rfl (Nat.le_refl _)
    exact (hcfg.trans (honly (mailboxReads_only hreads))).trans
      (wrote_same rfl rfl (Nat.le_refl _))

end
end Malamute.L3
