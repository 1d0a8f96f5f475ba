import Mathlib.Algebra.GroupWithZero.Nat
import Malamute.L1Codec.Proto
import Malamute.Core.CursorList
import Malamute.Core.Partial

/-!
# Messages and bounded queues (`src/src/mlm_msg.c`, `src/src/mlm_msgq.c`)

An `mlm_msg_t` is shared by reference; `mid` is its identity, and the reference
counts are kept where the references are (the server state). An `mlm_msgq_t`
is a cursor list with the byte count of its messages. The limits are read
through a pointer to a configuration that others may change, so the operations
take it as an argument.

`mlm_msgq_enqueue` and the removals ask for the content size, which is an
assertion failure for a message without content.
-/
namespace Malamute.L2
open Malamute.Core Malamute.L1

/-- How an actor of the broker can stop inside a handler. `fuel` is not a
fault of the code: the model ran out of steps. -/
inductive Fault where
  | fuel
  /-- a failed `assert` -/
  | assertion
  /-- a NULL pointer is dereferenced -/
  | nullPointer
  /-- a client context is used after it was freed -/
  | freed
  deriving DecidableEq, Repr

/-! ## Messages -/

/-- mirrors src/src/mlm_msg.c:24-32; `timeout` stands for the expiry time,
which nothing reads. -/
structure Msg where
  mid : Nat
  sender : Str
  address : Str
  subject : Str
  tracker : Option Str
  timeout : UInt32
  content : Option (List Frame)
  deriving DecidableEq

namespace Msg

/-- mirrors src/src/mlm_msg.c:113-127: the tracker is not stored -/
def setProto (m : Msg) (p : Proto) : Proto :=
  let p := p.setStr .sender m.sender
  let p := p.setStr .address m.address
  let p := p.setStr .subject m.subject
  match m.content with
  | none => p
  | some c => { p with content := some c }

/-- `zmsg_content_size (mlm_msg_content (msg))`: the bytes of all frames. -/
def contentSize (m : Msg) : Except Fault Nat :=
  match m.content with
  | none => .error .assertion
  | some c => .ok (c.map List.length).sum

end Msg

/-! ## Queues -/

/-- `(size_t) -1` -/
def sizeMax : Nat := 2 ^ 64 - 1

/-- mirrors src/src/mlm_msgq.c:34-39 -/
structure MsgqCfg where
  sizeWarn : Nat
  sizeLimit : Nat
  deriving DecidableEq

/-- mirrors src/src/mlm_msgq.c:159-177 -/
def MsgqCfg.new : MsgqCfg := ⟨sizeMax, sizeMax⟩

/-- mirrors src/src/mlm_msgq.c:24-31 -/
structure Msgq where
  queue : CursorList Msg
  messagesSize : Nat
  warned : Bool

/-- What `mlm_msgq_enqueue` did with the message. -/
inductive Verdict where
  /-- in the queue; `warning` if the soft limit was reported -/
  | queued (warning : Bool)
  /-- over the limit: the reference is dropped -/
  | refused
  deriving DecidableEq

namespace Msgq

/-- mirrors src/src/mlm_msgq.c:44-57 -/
def new : Msgq := ⟨.empty, 0, false⟩

/-- The messages in the queue, oldest first. -/
def items (q : Msgq) : List Msg := q.queue.items

/-- `a - b` on `size_t`. -/
def sizeSub (a b : Nat) : Nat := if b ≤ a then a - b else a + 2 ^ 64 - b

/-- mirrors src/src/mlm_msgq.c:95-116 -/
def enqueue (cfg : MsgqCfg) (q : Msgq) (m : Msg) : Except Fault (Msgq × Verdict) := do
  let size ← m.contentSize
  if cfg.sizeLimit = sizeMax ∨ q.messagesSize + size ≤ cfg.sizeLimit then
    let total := q.messagesSize + size
    let warning := !q.warned && cfg.sizeWarn ≠ sizeMax && cfg.sizeWarn < total
    .ok (⟨q.queue.addEnd m, total, q.warned || warning⟩, .queued warning)
  else .ok (q, .refused)

/-- mirrors src/src/mlm_msgq.c:118-131, after the list operation -/
def dequeued (cfg : MsgqCfg) (q : Msgq) (queue : CursorList Msg) (m : Msg) : Except Fault Msgq := do
  let size ← m.contentSize
  let total := sizeSub q.messagesSize size
  .ok ⟨queue, total, if total ≤ cfg.sizeWarn / 2 then false else q.warned⟩

/-- mirrors src/src/mlm_msgq.c:134-138 -/
def dequeue (cfg : MsgqCfg) (q : Msgq) : Except Fault (Msgq × Option Msg) :=
  match q.queue.popFirst with
  | (_, none) => .ok (q, none)
  | (queue, some m) => do
    let q ← dequeued cfg q queue m
    .ok (q, some m)

/-- With the cursor before the first message, `zlistx_cursor` is NULL and
`zlistx_detach` takes the first message. mirrors src/src/mlm_msgq.c:141-145 -/
def dequeueCursor (cfg : MsgqCfg) (q : Msgq) : Except Fault Msgq :=
  match q.queue.back with
  | [] => do
    let (q, _) ← q.dequeue cfg
    .ok q
  | m :: _ => dequeued cfg q q.queue.deleteCursor m

/-- mirrors src/src/mlm_msgq.c:147-151 -/
def first (q : Msgq) : Msgq × Option Msg :=
  ({ q with queue := q.queue.first.1 }, q.queue.first.2)

/-- mirrors src/src/mlm_msgq.c:153-157 -/
def next (q : Msgq) : Msgq × Option Msg :=
  ({ q with queue := q.queue.next.1 }, q.queue.next.2)

/-! ## What the operations do to the messages -/

@[simp] theorem items_new : new.items = [] := rfl

@[simp] theorem items_first (q : Msgq) : q.first.1.items = q.items := by simp [first, items]

@[simp] theorem items_next (q : Msgq) : q.next.1.items = q.items := by simp [next, items]

/-- An enqueue appends the message or leaves the queue as it is. -/
theorem enqueue_cases {cfg : MsgqCfg} {q q' : Msgq} {m : Msg} {v : Verdict}
    (h : q.enqueue cfg m = .ok (q', v)) :
    (∃ w, v = .queued w ∧ q'.items = q.items ++ [m]) ∨ (v = .refused ∧ q' = q) := by
  obtain ⟨size, -, h⟩ := bind_eq_ok.1 h
  split at h
  · cases h; exact .inl ⟨_, rfl, by simp [items]⟩
  · cases h; exact .inr ⟨rfl, rfl⟩

theorem dequeued_items {cfg : MsgqCfg} {q q' : Msgq} {l : CursorList Msg} {m : Msg}
    (h : q.dequeued cfg l m = .ok q') : q'.queue = l := by
  obtain ⟨size, -, h⟩ := bind_eq_ok.1 h
  cases h; rfl

/-- A dequeue takes the oldest message. -/
theorem dequeue_cases {cfg : MsgqCfg} {q q' : Msgq} {r : Option Msg}
    (h : q.dequeue cfg = .ok (q', r)) :
    (r = none ∧ q' = q ∧ q.items = []) ∨ (∃ m, r = some m ∧ q.items = m :: q'.items) := by
  obtain ⟨h1, h2⟩ := CursorList.popFirst_items q.queue
  unfold dequeue at h
  split at h
  · rename_i l hp
    rw [hp] at h2
    cases h
    exact .inl ⟨rfl, rfl, List.head?_eq_none_iff.1 h2.symm⟩
  · rename_i l m hp
    rw [hp] at h1 h2
    obtain ⟨q'', hd, h⟩ := bind_eq_ok.1 h
    cases h
    refine .inr ⟨m, rfl, ?_⟩
    simp only [items, dequeued_items hd, h1]
    cases hi : q.queue.items with
    | nil => rw [hi] at h2; cases h2
    | cons x xs => rw [hi] at h2; cases h2; rfl

/-- Removing at the cursor takes the message the scan is at and nothing else. -/
theorem dequeueCursor_queue {cfg : MsgqCfg} {q q' : Msgq} {m : Msg} {ms : List Msg}
    (hb : q.queue.back = m :: ms) (h : q.dequeueCursor cfg = .ok q') :
    q'.queue = ⟨ms, q.queue.post⟩ := by
  unfold dequeueCursor at h
  rw [hb] at h
  rw [dequeued_items h]
  simp [CursorList.deleteCursor, hb]

/-! ## What comes out has content -/

theorem dequeued_content {cfg : MsgqCfg} {q q' : Msgq} {l : CursorList Msg} {m : Msg}
    (h : q.dequeued cfg l m = .ok q') : m.content ≠ none := by
  obtain ⟨size, hs, -⟩ := bind_eq_ok.1 h
  intro hn
  simp [Msg.contentSize, hn] at hs

theorem dequeue_content {cfg : MsgqCfg} {q q' : Msgq} {m : Msg}
    (h : q.dequeue cfg = .ok (q', some m)) : m.content ≠ none := by
  unfold dequeue at h
  split at h
  · cases h
  · obtain ⟨q'', hd, h⟩ := bind_eq_ok.1 h
    cases h
    exact dequeued_content hd

theorem dequeueCursor_content {cfg : MsgqCfg} {q q' : Msgq} {m : Msg} {ms : List Msg}
    (hb : q.queue.back = m :: ms) (h : q.dequeueCursor cfg = .ok q') : m.content ≠ none := by
  unfold dequeueCursor at h
  rw [hb] at h
  exact dequeued_content h

end Msgq
end Malamute.L2
