import Malamute.L2Queue.Msgq
import Malamute.Core.Table

/-!
# The mailbox engine (`src/src/mlm_mailbox_bounded.c`)

An actor with one command pipe: STORE appends to the queue of an address,
QUERY answers with the oldest message of an address or NULL, CONFIGURE changes
the limits. `content` is the queue of an address as a list; `store_content` and
`query_content` say what one command does to the content of every address.
-/
namespace Malamute.L2
open Malamute.Core Malamute.L1

/-- mirrors src/src/mlm_mailbox_bounded.c:26-33 -/
structure Mailbox where
  mailboxes : Table Str Msgq
  queueCfg : MsgqCfg

namespace Mailbox

/-- mirrors src/src/mlm_mailbox_bounded.c:49-66 -/
def new : Mailbox := ⟨.empty, .new⟩

/-- The queue of `address`; a new one if there is none. -/
def require (b : Mailbox) (address : Str) : Msgq := (b.mailboxes.get address).getD .new

/-- mirrors src/src/mlm_mailbox_bounded.c:93-108 (STORE) -/
def store (b : Mailbox) (address : Str) (m : Msg) : Except Fault (Mailbox × Verdict) := do
  let (mailbox, verdict) ← (b.require address).enqueue b.queueCfg m
  .ok ({ b with mailboxes := b.mailboxes.set address mailbox }, verdict)

/-- mirrors src/src/mlm_mailbox_bounded.c:110-120 (QUERY) -/
def query (b : Mailbox) (address : Str) : Except Fault (Mailbox × Option Msg) :=
  match b.mailboxes.get address with
  | none => .ok (b, none)
  | some mailbox => do
    let (mailbox, m) ← mailbox.dequeue b.queueCfg
    .ok ({ b with mailboxes := b.mailboxes.set address mailbox }, m)

/-- mirrors src/src/mlm_mailbox_bounded.c:87-92 (CONFIGURE) -/
def configure (b : Mailbox) (cfg : MsgqCfg) : Mailbox := { b with queueCfg := cfg }

/-- The messages held for `address`, oldest first. -/
def content (b : Mailbox) (address : Str) : List Msg := (b.require address).items

@[simp] theorem content_new (a : Str) : new.content a = [] := rfl

@[simp] theorem content_configure (b : Mailbox) (cfg : MsgqCfg) (a : Str) :
    (b.configure cfg).content a = b.content a := rfl

theorem content_set (b : Mailbox) (a : Str) (q : Msgq) (a' : Str) :
    ({ b with mailboxes := b.mailboxes.set a q } : Mailbox).content a' =
      if a' = a then q.items else b.content a' := by
  unfold content require
  simp only [Table.get_set]
  split <;> rfl

/-- A STORE appends to one mailbox, or is refused. -/
theorem store_content {b b' : Mailbox} {a : Str} {m : Msg} {v : Verdict}
    (h : b.store a m = .ok (b', v)) (a' : Str) :
    b'.content a' = b.content a' ++ (if a' = a ∧ v ≠ .refused then [m] else []) := by
  obtain ⟨⟨q, v'⟩, he, h⟩ := bind_eq_ok.1 h
  cases h
  rw [content_set]
  by_cases ha : a' = a
  · subst ha
    rcases Msgq.enqueue_cases he with ⟨w, rfl, hi⟩ | ⟨rfl, rfl⟩
    · simp [hi, content]
    · simp [content]
  · simp [ha]

/-- A QUERY takes the oldest message of one mailbox, if there is one. -/
theorem query_content {b b' : Mailbox} {a : Str} {r : Option Msg}
    (h : b.query a = .ok (b', r)) (a' : Str) :
    b.content a' = (if a' = a then r.toList else []) ++ b'.content a' ∧
      (r = none → b.content a = []) := by
  unfold query at h
  split at h
  · rename_i hg
    cases h
    simp [content, require, hg]
  · rename_i q hg
    obtain ⟨⟨q', m⟩, hd, h⟩ := bind_eq_ok.1 h
    cases h
    have hc : b.content a = q.items := by simp [content, require, hg]
    rw [content_set]
    rcases Msgq.dequeue_cases hd with ⟨rfl, rfl, hn⟩ | ⟨m, rfl, hm⟩
    · refine ⟨?_, fun _ => by rw [hc, hn]⟩
      by_cases ha : a' = a
      · subst ha; simp [hc]
      · simp [ha]
    · refine ⟨?_, fun h => by cases h⟩
      by_cases ha : a' = a
      · subst ha; simp [hc, hm]
      · simp [ha]

theorem query_some {b b' : Mailbox} {a : Str} {m : Msg} (h : b.query a = .ok (b', some m)) :
    m.content ≠ none := by
  unfold query at h
  split at h
  · cases h
  · obtain ⟨⟨q, r⟩, hd, h⟩ := bind_eq_ok.1 h
    cases h
    exact Msgq.dequeue_content hd

end Mailbox
end Malamute.L2
