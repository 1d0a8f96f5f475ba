import Malamute.L2Queue.Mailbox
import Malamute.Core.BoundedQueues

/-!
# The mailbox engine refines a map of bounded queues

The engine counts the bytes of each queue as messages come and go; `Accounted`
says that the count is right, which is what makes its test against the limit the
test on the bytes held. The bytes counted are all in memory, so that the sums
stay below 2^64 and are those of `Nat`.

`refines_bounded` is about every sequence of commands. The one way to leave the
abstract queues is a message without content, whose size cannot be asked for.
-/
namespace Malamute.L2
open Malamute.Core Malamute.Core.BoundedQueues Malamute.L1

/-- The bytes of the content. -/
def Msg.bytes (m : Msg) : Nat := ((m.content.getD []).map List.length).sum

theorem Msg.contentSize_eq {m : Msg} (h : m.content ≠ none) : m.contentSize = .ok m.bytes := by
  unfold contentSize bytes
  cases hc : m.content with
  | none => exact absurd hc h
  | some c => rfl

/-- The limit in force. -/
def MsgqCfg.limit (cfg : MsgqCfg) : Option Nat :=
  if cfg.sizeLimit = sizeMax then none else some cfg.sizeLimit

theorem MsgqCfg.fits_iff (cfg : MsgqCfg) (n : Nat) :
    Fits cfg.limit n ↔ cfg.sizeLimit = sizeMax ∨ n ≤ cfg.sizeLimit := by
  unfold limit
  by_cases h : cfg.sizeLimit = sizeMax <;> simp [h, Fits]

/-! ## One queue -/

namespace Msgq

/-- The byte count is that of the messages in the queue, which all have content. -/
structure Accounted (q : Msgq) : Prop where
  size : q.messagesSize = load Msg.bytes q.items
  content : ∀ m ∈ q.items, m.content ≠ none

theorem accounted_new : new.Accounted := ⟨rfl, fun m hm => by cases hm⟩

theorem Accounted.accept {cfg : MsgqCfg} {q : Msgq} {m : Msg} (h : q.Accounted)
    (hm : m.content ≠ none) (hfits : Fits cfg.limit (load Msg.bytes q.items + m.bytes)) :
    ∃ q' w, q.enqueue cfg m = .ok (q', .queued w) ∧ q'.items = q.items ++ [m] ∧ q'.Accounted := by
  rw [MsgqCfg.fits_iff, ← h.size] at hfits
  unfold enqueue
  rw [Msg.contentSize_eq hm, ok_bind, if_pos hfits]
  refine ⟨_, _, rfl, by simp [items], ?_, ?_⟩
  · have hsize := h.size
    simp only [items, CursorList.items_addEnd, load_append, load_cons, load_nil] at hsize ⊢
    omega
  · intro x hx
    simp only [items, CursorList.items_addEnd, List.mem_append, List.mem_singleton] at hx
    rcases hx with hx | rfl
    · exact h.content x hx
    · exact hm

theorem Accounted.refuse {cfg : MsgqCfg} {q : Msgq} {m : Msg} (h : q.Accounted)
    (hm : m.content ≠ none) (hfits : ¬ Fits cfg.limit (load Msg.bytes q.items + m.bytes)) :
    q.enqueue cfg m = .ok (q, .refused) := by
  rw [MsgqCfg.fits_iff, ← h.size] at hfits
  unfold enqueue
  rw [Msg.contentSize_eq hm, ok_bind, if_neg hfits]

/-- The bytes of the oldest message are in the count, so that the subtraction
does not wrap. -/
theorem Accounted.dequeue {q : Msgq} (h : q.Accounted) (cfg : MsgqCfg) :
    ∃ q', q.dequeue cfg = .ok (q', q.items.head?) ∧ q'.items = q.items.tail ∧ q'.Accounted := by
  obtain ⟨hitems, hhead⟩ := CursorList.popFirst_items q.queue
  unfold Msgq.dequeue
  cases hp : q.queue.popFirst with
  | mk l r =>
    rw [hp] at hitems hhead
    change r = q.items.head? at hhead
    change l.items = q.items.tail at hitems
    cases r with
    | none =>
      have hnil : q.items = [] := List.head?_eq_none_iff.1 hhead.symm
      exact ⟨q, by rw [hnil]; rfl, by rw [hnil]; rfl, h⟩
    | some m =>
      have hcons : q.items = m :: q.items.tail := List.eq_cons_of_mem_head? hhead.symm
      have hm : m.content ≠ none := h.content m (by rw [hcons]; exact List.mem_cons_self)
      have hsize := h.size
      rw [hcons, load_cons] at hsize
      have hsub : sizeSub q.messagesSize m.bytes = load Msg.bytes q.items.tail := by
        unfold sizeSub
        rw [if_pos (by omega)]
        omega
      simp only [dequeued, Msg.contentSize_eq hm, ok_bind, hsub]
      have hout : ∀ w, (⟨l, load Msg.bytes q.items.tail, w⟩ : Msgq).items = q.items.tail :=
        fun _ => hitems
      refine ⟨_, by rw [← hhead], hout _, ?_, ?_⟩
      · change load Msg.bytes q.items.tail = load Msg.bytes l.items
        rw [hitems]
      · intro x hx
        change x ∈ l.items at hx
        rw [hitems] at hx
        exact h.content x (List.mem_of_mem_tail hx)

end Msgq

/-! ## The engine -/

namespace Mailbox

/-- What the engine is told over its command pipe. -/
inductive Command where
  | store (address : Str) (m : Msg)
  | query (address : Str)
  | configure (cfg : MsgqCfg)

/-- mirrors src/src/mlm_mailbox_bounded.c:72-134. A STORE is not answered; the
verdict is what becomes of the message. -/
def handleCommand (b : Mailbox) : Command → Except Fault (Mailbox × QueueReply Msg)
  | .store address m => do
    let (b, verdict) ← b.store address m
    .ok (b, if verdict = .refused then .refused else .accepted)
  | .query address => do
    let (b, m) ← b.query address
    .ok (b, .answer m)
  | .configure cfg => .ok (b.configure cfg, .changed)

/-- The commands in order, with one verdict or reply for each. -/
def run (b : Mailbox) : List Command → Except Fault (Mailbox × List (QueueReply Msg))
  | [] => .ok (b, [])
  | k :: ks => do
    let (b, reply) ← b.handleCommand k
    let (b, replies) ← b.run ks
    .ok (b, reply :: replies)

/-- A stored message has content. -/
def Command.HasContent : Command → Prop
  | .store _ m => m.content ≠ none
  | _ => True

/-- The command to the abstract queues. -/
def Command.abs : Command → QueueCommand Str Msg
  | .store a m => .store a m
  | .query a => .query a
  | .configure cfg => .limit cfg.limit

/-- The engine stands for the abstract queues. -/
structure Refines (b : Mailbox) (q : BoundedQueues Str Msg) : Prop where
  held : ∀ a, b.content a = q.held a
  limit : b.queueCfg.limit = q.limit
  accounted : ∀ a, (b.require a).Accounted

variable {b : Mailbox} {q : BoundedQueues Str Msg}

theorem refines_new : Refines new .empty := ⟨fun _ => rfl, rfl, fun _ => Msgq.accounted_new⟩

theorem require_set (b : Mailbox) (a : Str) (l : Msgq) (a' : Str) :
    ({ b with mailboxes := b.mailboxes.set a l } : Mailbox).require a' =
      if a' = a then l else b.require a' := by
  unfold require
  rw [Table.get_set]
  split <;> rfl

/-- One queue is replaced. -/
theorem Refines.set (h : Refines b q) {a : Str} {l : Msgq} (hl : l.Accounted) :
    Refines { b with mailboxes := b.mailboxes.set a l }
      { q with held := Function.update q.held a l.items } := by
  refine ⟨fun a' => ?_, h.limit, fun a' => ?_⟩
  · rw [content_set]
    by_cases ha : a' = a
    · simp [ha]
    · simp [ha, h.held]
  · rw [require_set]
    split
    · exact hl
    · exact h.accounted a'

theorem refines_store (h : Refines b q) {a : Str} {m : Msg} (hm : m.content ≠ none) :
    ∃ b', b.handleCommand (.store a m) = .ok (b', (q.step Msg.bytes (.store a m)).2) ∧
      Refines b' (q.step Msg.bytes (.store a m)).1 := by
  have hq : (b.require a).items = q.held a := h.held a
  have hacc := h.accounted a
  by_cases hfits : Fits q.limit (load Msg.bytes (q.held a) + m.bytes)
  · rw [step_accepted hfits]
    rw [← hq, ← h.limit] at hfits
    obtain ⟨l, w, henq, hitems, hl⟩ := hacc.accept hm hfits
    refine ⟨_, by simp [handleCommand, store, henq, ok_bind]; rfl, ?_⟩
    rw [← hq, ← hitems]
    exact h.set hl
  · rw [step_refused hfits]
    rw [← hq, ← h.limit] at hfits
    have henq := hacc.refuse hm hfits
    refine ⟨_, by simp [handleCommand, store, henq, ok_bind]; rfl, ?_⟩
    have hset := h.set hacc (a := a)
    rwa [hq, Function.update_eq_self] at hset

theorem refines_query (h : Refines b q) (a : Str) :
    ∃ b', b.handleCommand (.query a) = .ok (b', (q.step Msg.bytes (.query a)).2) ∧
      Refines b' (q.step Msg.bytes (.query a)).1 := by
  have hq : (b.require a).items = q.held a := h.held a
  cases hg : b.mailboxes.get a with
  | none =>
    have hnil : q.held a = [] := by rw [← hq, require, hg]; rfl
    refine ⟨b, by simp [handleCommand, query, hg, step, hnil], ?_⟩
    have hsame : Function.update q.held a (q.held a).tail = q.held := by
      rw [hnil, List.tail_nil, ← hnil, Function.update_eq_self]
    simp only [step, hsame]
    exact h
  | some l =>
    have hr : b.require a = l := by rw [require, hg]; rfl
    obtain ⟨l', hdeq, hitems, hl'⟩ := (h.accounted a).dequeue b.queueCfg
    rw [hr] at hdeq hitems hq
    refine ⟨_, by simp [handleCommand, query, hg, hdeq, step, hq, ok_bind]; rfl, ?_⟩
    have hset := h.set hl' (a := a)
    rwa [hitems, hq] at hset

/-- One command. -/
theorem refines_step (h : Refines b q) {k : Command} (hk : k.HasContent) :
    ∃ b', b.handleCommand k = .ok (b', (q.step Msg.bytes k.abs).2) ∧
      Refines b' (q.step Msg.bytes k.abs).1 := by
  cases k with
  | store a m => exact refines_store h hk
  | query a => exact refines_query h a
  | configure cfg => exact ⟨_, rfl, h.held, rfl, h.accounted⟩

theorem refines_run (h : Refines b q) (ks : List Command) (hks : ∀ k ∈ ks, k.HasContent) :
    ∃ b', b.run ks = .ok (b', (q.run Msg.bytes (ks.map Command.abs)).2) ∧
      Refines b' (q.run Msg.bytes (ks.map Command.abs)).1 := by
  induction ks generalizing b q with
  | nil => exact ⟨b, rfl, h⟩
  | cons k ks ih =>
    obtain ⟨hk, hks⟩ := List.forall_mem_cons.1 hks
    obtain ⟨b₁, hstep, h₁⟩ := refines_step h hk
    obtain ⟨b₂, hrun, h₂⟩ := ih h₁ hks
    exact ⟨b₂, by simp [run, BoundedQueues.run, hstep, hrun, ok_bind], h₂⟩

/-- Without content there is no size to ask for. -/
theorem store_asserts (b : Mailbox) (a : Str) {m : Msg} (hm : m.content = none) :
    b.handleCommand (.store a m) = .error .assertion := by
  simp [handleCommand, store, Msgq.enqueue, Msg.contentSize, hm, error_bind]

theorem run_asserts (h : Refines b q) (ks : List Command) (hks : ¬ ∀ k ∈ ks, k.HasContent) :
    b.run ks = .error .assertion := by
  induction ks generalizing b q with
  | nil => exact absurd (List.forall_mem_nil _) hks
  | cons k ks ih =>
    by_cases hk : k.HasContent
    · obtain ⟨b₁, hstep, h₁⟩ := refines_step h hk
      have hrest := ih h₁ fun hall => hks (List.forall_mem_cons.2 ⟨hk, hall⟩)
      simp [run, hstep, hrest, ok_bind, error_bind]
    · cases k with
      | store a m =>
        have hm : m.content = none := Classical.not_not.1 hk
        simp [run, store_asserts b a hm, error_bind]
      | query a => exact absurd trivial hk
      | configure cfg => exact absurd trivial hk

/-- Every sequence of commands, from the start of the engine: the verdicts and
replies are those of the abstract queues; what was accepted for an address is
what was returned for it and what is held, in this order; and an address sees
the same when the commands for other addresses are taken out. A message without
content stops the engine. -/
theorem refines_bounded (ks : List Command) :
    ((∀ k ∈ ks, k.HasContent) → ∃ b replies, new.run ks = .ok (b, replies) ∧
      replies = (BoundedQueues.empty.run Msg.bytes (ks.map Command.abs)).2 ∧
      ∀ a, b.content a = (BoundedQueues.empty.run Msg.bytes (ks.map Command.abs)).1.held a ∧
        ((ks.map Command.abs).zip replies).flatMap (entered a) =
          ((ks.map Command.abs).zip replies).flatMap (handed a) ++ b.content a ∧
        ∃ b', new.run (ks.filter fun k => concerns a k.abs) =
            .ok (b', (((ks.map Command.abs).zip replies).filter fun p => concerns a p.1).map
              Prod.snd) ∧ b'.content a = b.content a) ∧
    ((¬ ∀ k ∈ ks, k.HasContent) → new.run ks = .error .assertion) := by
  refine ⟨fun hks => ?_, run_asserts refines_new ks⟩
  obtain ⟨b, hrun, hb⟩ := refines_run refines_new ks hks
  refine ⟨b, _, hrun, rfl, fun a => ⟨hb.held a, ?_, ?_⟩⟩
  · have hfifo := fifo Msg.bytes (.empty : BoundedQueues Str Msg) (ks.map Command.abs) a
    rw [hb.held a, ← hfifo]
    rfl
  · obtain ⟨hheld, hreplies⟩ := run_local Msg.bytes (b := (.empty : BoundedQueues Str Msg))
      (k := a) ⟨rfl, rfl⟩ (ks.map Command.abs)
    have hown : ∀ k ∈ ks.filter (fun k => concerns a k.abs), k.HasContent :=
      fun k hk => hks k (List.mem_of_mem_filter hk)
    obtain ⟨b', hrun', hb'⟩ := refines_run refines_new _ hown
    have hmap : (ks.filter fun k => concerns a k.abs).map Command.abs =
        (ks.map Command.abs).filter (concerns a) := by
      rw [List.filter_map]
      rfl
    rw [hmap] at hrun' hb'
    refine ⟨b', by rw [hrun', hreplies], ?_⟩
    rw [hb.held a, hb'.held a, hheld]

end Mailbox
end Malamute.L2
