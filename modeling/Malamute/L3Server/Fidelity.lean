import Malamute.L3Server.Posted
import Malamute.L1Codec.Read

/-!
# What is delivered, and what was sent

A message is stored in full when it is sent, and written into the message
object when it is delivered, but for its tracker: `mlm_msg_set_proto` writes the
sender, the address, the subject and the content. The frame that goes out
carries the tracker that is in the object, which is the one that the server has
read last, in a message of any client.

`Faithful` says so of a trace: every message between clients was made from a
message that its sender has sent (`made`, `carried`), and what is delivered is
that message with `lastTracker` (`delivered`).
-/
namespace Malamute.L3
open Malamute.Core Malamute.L1 Malamute.L2 Server

/-- The messages that go to one client: of MAILBOX SEND, of SERVICE SEND. -/
inductive Post where
  | mailbox | service

namespace Post

def event : Post → Event
  | mailbox => .mailboxSend
  | service => .serviceSend

/-- What making the message leaves in the trace. -/
def obs : Post → Cid → Msg → Obs
  | mailbox => .mailed
  | service => .requested

def deliverId : Post → Id
  | mailbox => .mailboxDeliver
  | service => .serviceDeliver

/-- What is to be delivered when a client with address `a` sends `w`. -/
def delivery (a : Str) : Post → Wire → Option Wire
  | mailbox, .mailboxSend address subject tracker _ content =>
    some (.mailboxDeliver a address subject tracker content)
  | service, .serviceSend address subject tracker _ content =>
    some (.serviceDeliver a address subject tracker content)
  | _, _ => none

/-- The delivery of `m`, with the tracker `trk`. -/
def frame (m : Msg) (trk : Str) : Post → Wire
  | mailbox => .mailboxDeliver m.sender m.address m.subject trk (m.content.getD [[]])
  | service => .serviceDeliver m.sender m.address m.subject trk (m.content.getD [[]])

end Post

/-- The tracker that the server has read last. -/
def lastTracker (t : List Obs) : Str :=
  t.foldl (fun trk o => match o with
    | .received _ _ _ (some w) => w.tracker.getD trk
    | _ => trk) .empty

/-- Message `m` was made from `frames`, which a client with address `a` sent. -/
def Made (t : List Obs) (k : Post) (m : Msg) (a : Str) (frames : List Frame) : Prop :=
  ∃ c w, [.received c (some a) frames w, .event c k.event, k.obs c m] <:+: t

structure Faithful (t : List Obs) : Prop where
  /-- what is read is what the frames say, if they are complete -/
  read : ∀ c a frames w v, .received c a frames w ∈ t → decode frames = some v → w = some v
  made : ∀ (k : Post) c m, k.obs c m ∈ t → ∃ a frames, Made t k m a frames
  carried : ∀ (k : Post) c m a frames w,
    [.received c (some a) frames w, .event c k.event, k.obs c m] <:+: t →
    ∃ v trk, w = some v ∧ v.tracker = some trk ∧ k.delivery a v = some (k.frame m trk)
  delivered : ∀ (k : Post) t₁ c holder w hand t₂, t = t₁ ++ .sent c holder (some w) hand :: t₂ →
    w.id = k.deliverId →
    ∃ m, hand = some m ∧ w = k.frame m (lastTracker t₁) ∧ ∃ a frames, Made t₁ k m a frames

structure Honest (s : Server) : Prop where
  tracker : s.message.tracker = lastTracker s.trace
  faithful : Faithful s.trace

/-- The event that is handled belongs to the message read last. -/
structure Heard (s : Server) (c : Cid) (e : Event) : Prop where
  event : protocolEvent s.message = e
  trace : ∃ t frames,
    s.trace = t ++ [.received c ((s.ctx c).bind (·.address)) frames s.message.wire]

section
variable {rex : Str → Str → Bool} {s s' : Server} {c : Cid} {k : Post} {a : Str} {m : Msg}
  {t t' : List Obs} {o : Obs}

/-! ## Traces -/

theorem lastTracker_snoc (t : List Obs) (o : Obs) : lastTracker (t ++ [o]) = match o with
    | .received _ _ _ (some w) => w.tracker.getD (lastTracker t)
    | _ => lastTracker t := by
  rw [lastTracker, List.foldl_append]
  rfl

theorem Made.append {frames : List Frame} (h : Made t k m a frames) (t' : List Obs) :
    Made (t ++ t') k m a frames := by
  obtain ⟨c, w, hin⟩ := h
  exact ⟨c, w, hin.trans (List.prefix_append ..).isInfix⟩

theorem faithful_nil : Faithful [] where
  read c a frames w v h := by cases h
  made k c m h := by cases h
  carried k c m a frames w h := by cases List.infix_nil.1 h
  delivered k t₁ c holder w hand t₂ h := by cases t₁ <;> cases h

/-- Three observations in a row, in a trace that has grown by one. -/
theorem infix_snoc {x y z : Obs} (h : [x, y, z] <:+: t ++ [o]) :
    [x, y, z] <:+: t ∨ (z = o ∧ ∃ t₀, t = t₀ ++ [x, y]) := by
  rw [List.infix_concat_iff] at h
  rcases h with ⟨t₀, ht⟩ | h
  · right
    have ht : (t₀ ++ [x, y]) ++ [z] = t ++ [o] := by
      rw [← ht]
      simp
    obtain ⟨ht, hz⟩ := List.append_inj' ht rfl
    exact ⟨(List.cons.inj hz).1, t₀, ht.symm⟩
  · exact .inl h

/-- Only the last observation has to be looked at. -/
theorem Faithful.snoc (h : Faithful t)
    (hread : ∀ c a frames w v, o = .received c a frames w → decode frames = some v → w = some v)
    (hmade : ∀ (k : Post) c m, o = k.obs c m → ∃ t₀ a frames v trk,
      t = t₀ ++ [.received c (some a) frames (some v), .event c k.event] ∧
        v.tracker = some trk ∧ k.delivery a v = some (k.frame m trk))
    (hsent : ∀ (k : Post) c holder w hand, o = .sent c holder (some w) hand → w.id = k.deliverId →
      ∃ m, hand = some m ∧ w = k.frame m (lastTracker t) ∧ ∃ a frames, Made t k m a frames) :
    Faithful (t ++ [o]) where
  read c a frames w v hmem hd := by
    rcases List.mem_append.1 hmem with hmem | hmem
    · exact h.read c a frames w v hmem hd
    · exact hread c a frames w v (List.mem_singleton.1 hmem).symm hd
  made k c m hmem := by
    rcases List.mem_append.1 hmem with hmem | hmem
    · obtain ⟨a, frames, hm⟩ := h.made k c m hmem
      exact ⟨a, frames, hm.append _⟩
    · have ho := (List.mem_singleton.1 hmem).symm
      obtain ⟨t₀, a, frames, v, trk, rfl, -, -⟩ := hmade k c m ho
      refine ⟨a, frames, c, some v, t₀, [], ?_⟩
      rw [ho]
      simp
  carried k c m a frames w hin := by
    rcases infix_snoc hin with hin | ⟨ho, t₀, ht⟩
    · exact h.carried k c m a frames w hin
    · obtain ⟨t₁, a', frames', v, trk, ht', htrk, hd⟩ := hmade k c m ho.symm
      obtain ⟨-, hlast⟩ := List.append_inj' (ht.symm.trans ht') rfl
      simp only [List.cons.injEq, Obs.received.injEq, Option.some.injEq] at hlast
      obtain ⟨⟨-, rfl, -, rfl⟩, -⟩ := hlast
      exact ⟨v, trk, rfl, htrk, hd⟩
  delivered k t₁ c holder w hand t₂ hsplit hid := by
    rcases List.eq_nil_or_concat t₂ with rfl | ⟨t₂, o', rfl⟩
    · obtain ⟨rfl, hlast⟩ := List.append_inj' hsplit rfl
      exact hsent k c holder w hand (List.cons.inj hlast).1 hid
    · rw [List.concat_eq_append, ← List.cons_append, ← List.append_assoc] at hsplit
      exact h.delivered k t₁ c holder w hand t₂ (List.append_inj' hsplit rfl).1 hid

/-! ## Growing -/

theorem honest_new : Honest .new := ⟨rfl, faithful_nil⟩

/-- An observation about no message between clients, or a refusal. -/
theorem Honest.log (h : Honest s) (ho : o.Aside ∨ ∃ b m, o = .dropped b m) : Honest (s.log o) := by
  have hobs : ∀ (k : Post) c m, o ≠ k.obs c m := by
    rintro k c m rfl
    rcases ho with ho | ⟨b, m', ho⟩ <;> cases k <;> cases ho
  have hreceived : ∀ c a frames w, o ≠ .received c a frames w := by
    rintro c a frames w rfl
    rcases ho with ho | ⟨b, m', ho⟩ <;> cases ho
  refine ⟨?_, h.faithful.snoc ?_ ?_ ?_⟩
  · rw [log_message, h.tracker, log_trace, lastTracker_snoc]
    split
    · exact absurd rfl (hreceived _ _ _ _)
    · rfl
  · rintro c a frames w v rfl
    exact absurd rfl (hreceived c a frames w)
  · rintro k c m rfl
    exact absurd rfl (hobs k c m)
  · rintro k c holder w hand rfl hid
    rcases ho with ho | ⟨b, m', ho⟩
    · cases k with
      | mailbox => exact absurd hid ho.1
      | service => exact absurd hid ho.2
    · cases ho

theorem Honest.frame (h : Honest s) (ht : s'.trace = s.trace)
    (hm : s'.message.tracker = s.message.tracker) : Honest s' :=
  ⟨by rw [hm, ht, h.tracker], by rw [ht]; exact h.faithful⟩

theorem Honest.grow (h : Honest s) (ht : s'.trace = s.trace ++ t)
    (ho : ∀ o ∈ t, o.Aside ∨ ∃ b m, o = .dropped b m)
    (hm : s'.message.tracker = s.message.tracker) : Honest s' := by
  induction t generalizing s with
  | nil => exact h.frame (by simpa using ht) hm
  | cons o t ih =>
    refine ih (h.log (ho o List.mem_cons_self)) ?_ (fun o' ho' => ho o' (List.mem_cons_of_mem _ ho'))
      hm
    rw [ht, log_trace, List.append_assoc, List.singleton_append]

theorem Honest.unmoved (h : Honest s) (hu : Unmoved s s')
    (hm : s'.message.tracker = s.message.tracker) : Honest s' := by
  obtain ⟨t, ht, ha⟩ := hu.trace
  exact h.grow ht (fun o ho => .inl (ha o ho)) hm

theorem Honest.enter (h : Honest s) (c : Cid) (e : Event) : Honest (s.enter c e) :=
  h.unmoved (unmoved_enter s c e) rfl

theorem Honest.mailboxOnly (h : Honest s) (ho : MailboxOnly s s') : Honest s' := by
  obtain ⟨b, pipe, refs, ms, rfl⟩ := ho
  refine h.grow rfl (fun o ho => .inr ?_) rfl
  obtain ⟨p, -, rfl⟩ := List.mem_map.1 ho
  exact ⟨_, _, rfl⟩

/-- A message is read. -/
theorem Honest.heard (h : Honest s) {p : Proto} {parts rest : List Frame} {s₁ : Server}
    (hrecv : recv s.message parts = (p, .ok, rest))
    (hreq : (s.received p rest).clientRequire (p.routingId.getD []) = (c, s₁)) :
    Honest (s₁.hear c parts.tail p) ∧ Heard (s₁.hear c parts.tail p) c (protocolEvent p) := by
  have hkeep : s₁.message = p ∧ s₁.trace = s.trace := by
    rcases clientRequire_cases hreq with ⟨-, rfl⟩ | ⟨-, -, rfl⟩ <;> exact ⟨rfl, rfl⟩
  obtain ⟨hmessage, htrace⟩ := hkeep
  have htracker : lastTracker (s.trace ++
      [.received c ((s₁.ctx c).bind (·.address)) parts.tail p.wire]) = p.tracker := by
    rw [lastTracker_snoc]
    split
    · rename_i heq
      simp only [Obs.received.injEq] at heq
      obtain ⟨-, -, -, hw⟩ := heq
      rcases recv_tracker hrecv with hp | ⟨-, w, hw', htrk⟩
      · rename_i w
        cases htw : w.tracker with
        | none => rw [Option.getD_none, ← h.tracker, hp]
        | some trk => exact tracker_wire hw htw
      · cases hw.symm.trans hw'
        rw [htrk]
        rfl
    · rename_i hno
      rcases recv_tracker hrecv with hp | ⟨-, w, hw', -⟩
      · rw [← h.tracker, hp]
      · exact absurd (by rw [hw']) (hno _ _ _ w)
  refine ⟨⟨?_, ?_⟩, ?_, s.trace, parts.tail, ?_⟩
  · rw [hear_message, hear_trace, hmessage, htrace, htracker]
  · rw [hear_trace, htrace]
    refine h.faithful.snoc ?_ ?_ ?_
    · rintro c' a' frames w v heq hd
      simp only [Obs.received.injEq] at heq
      obtain ⟨-, -, rfl, rfl⟩ := heq
      match parts with
      | [] => cases hrecv
      | rid :: frames => exact wire_of_decode hd hrecv
    · rintro k c' m' heq
      cases k <;> cases heq
    · rintro k c' holder w hand heq
      cases heq
  · rw [hear_message, hmessage]
  · rw [hear_trace, hear_ctx, hear_message, htrace, hmessage]

/-! ## Making and delivering messages -/

/-- The message that is read is the message that is made. -/
theorem made_of_heard {j : Client} (hh : Heard s c k.event) (ho : Open s c j a) :
    ∃ t₀ frames v trk,
      (s.enter c k.event).trace = t₀ ++ [.received c (some a) frames (some v), .event c k.event] ∧
      v.tracker = some trk ∧ k.delivery a v = some (k.frame (s.messageFrom a) trk) := by
  obtain ⟨he, t₀, frames, ht⟩ := hh
  have hholder : (s.ctx c).bind (·.address) = some a := by
    rw [ho.ctx]
    exact ho.address
  have hid : Id.ofCode s.message.id = some (match k with
      | .mailbox => .mailboxSend
      | .service => .serviceSend) := by
    unfold protocolEvent at he
    split at he <;> cases k <;> first | assumption | cases he
  rw [hholder] at ht
  have hentered : (s.enter c k.event).trace =
      t₀ ++ [.received c (some a) frames s.message.wire, .event c k.event] := by
    rw [enter_trace, ht, List.append_assoc]
    rfl
  rw [hentered]
  refine ⟨t₀, frames, ?_⟩
  unfold Proto.wire
  rw [hid]
  cases k <;> exact ⟨_, _, rfl, rfl, rfl⟩

/-- A message is made. -/
theorem Honest.make {j : Client} (h : Honest (s.enter c k.event)) (hh : Heard s c k.event)
    (ho : Open s c j a) : Honest ((s.enter c k.event).log (k.obs c (s.messageFrom a))) := by
  obtain ⟨t₀, frames, v, trk, ht, htrk, hd⟩ := made_of_heard hh ho
  refine ⟨?_, h.faithful.snoc ?_ ?_ ?_⟩
  · rw [log_message, h.tracker, log_trace, lastTracker_snoc]
    cases k <;> rfl
  · rintro c' a' frames' w v' heq
    cases k <;> cases heq
  · intro k' c' m' heq
    obtain ⟨rfl, rfl, rfl⟩ : k' = k ∧ c' = c ∧ m' = s.messageFrom a := by
      cases k <;> cases k' <;> cases heq <;> exact ⟨rfl, rfl, rfl⟩
    exact ⟨t₀, a, frames, v, trk, ht, htrk, hd⟩
  · rintro k' c' holder w hand heq
    cases k <;> cases heq

/-- What `get_message_to_deliver` and `send` write. -/
theorem delivery_wire (s : Server) (key : Key)
    (hc : m.content ≠ none ∨ s.message.content = none) :
    (s.delivery key k.deliverId m).wire = some (k.frame m s.message.tracker) := by
  unfold delivery Msg.setProto
  cases hm : m.content with
  | none =>
    have hs := hc.resolve_left (fun h => h hm)
    cases k <;> simp [Proto.wire, Proto.setId, Proto.setStr, Post.deliverId, Post.frame, hm, hs]
  | some content =>
    cases k <;> simp [Proto.wire, Proto.setId, Proto.setStr, Post.deliverId, Post.frame, hm]

/-- **A message that was made is delivered**, with the tracker that is there. -/
theorem Honest.deliver {d : Cid} {j : Client} (h : Honest s) (hm : ∃ c, k.obs c m ∈ s.trace)
    (hc : m.content ≠ none ∨ s.message.content = none) :
    Honest (s.deliver d j k.deliverId m) := by
  refine ⟨?_, ?_⟩
  · rw [deliver_message, delivery_tracker, h.tracker, deliver_trace, lastTracker_snoc]
  · rw [deliver_trace, delivery_wire s j.hashkey hc]
    refine h.faithful.snoc ?_ ?_ ?_
    · rintro c' a' frames w v heq
      cases heq
    · rintro k' c' m' heq
      cases k' <;> cases heq
    · intro k' c' holder w hand heq hid
      simp only [Obs.sent.injEq, Option.some.injEq] at heq
      obtain ⟨-, -, rfl, rfl⟩ := heq
      obtain rfl : k' = k := by
        cases k <;> cases k' <;> first | rfl | cases hid
      obtain ⟨c, hmem⟩ := hm
      exact ⟨m, rfl, by rw [h.tracker], h.faithful.made k' c m hmem⟩

end
end Malamute.L3
