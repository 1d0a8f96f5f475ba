import Malamute.L3Server.Offers
import Malamute.Core.Ledger

/-!
# Messages that wait

A message of MAILBOX SEND or SERVICE SEND joins a line: the one of its address,
or the one of its service and subject. It leaves the line when it is delivered,
or is refused by the size limit. `Obs.change` reads these moves off the trace;
`Server.waiting` is who is in the line now.

`Kept` says that the books of every line are in order (`Core.Ledger`); the
lemmas below say how each move keeps them. `Posted` adds the two conditions
they need (nobody waits for an address while a client is registered under it,
and no message waits that an offer matches) and what is known of the offers.
-/
namespace Malamute.L3
open Malamute.Core Malamute.L1 Malamute.L2 Server

inductive Line where
  | mailbox (address : Str)
  | service (name subject : Str)
  deriving DecidableEq

inductive Change where
  | joins | refused | leaves
  deriving DecidableEq

/-- What the trace says about lines. -/
def Obs.change : Obs → Option (Change × Line × Msg)
  | .mailed _ m => some (.joins, .mailbox m.address, m)
  | .requested _ m => some (.joins, .service m.address m.subject, m)
  | .dropped (.mailbox a) m => some (.refused, .mailbox a, m)
  | .dropped (.service name) m => some (.refused, .service name m.subject, m)
  | .sent _ holder (some w) (some m) =>
    if w.id = .mailboxDeliver then holder.map fun a => (.leaves, .mailbox a, m)
    else if w.id = .serviceDeliver then some (.leaves, .service m.address m.subject, m)
    else none
  | _ => none

/-- The messages of one kind of change in one line. -/
def changes (ch : Change) (l : Line) (t : List (Change × Line × Msg)) : List Msg :=
  (t.filter fun p => p.1 = ch ∧ p.2.1 = l).map (·.2.2)

namespace Server

/-- The messages that have joined the line, in the order in which the server
processed them. -/
def sentTo (s : Server) (l : Line) : List Msg := changes .joins l (s.trace.filterMap Obs.change)

def refusedBy (s : Server) (l : Line) : List Msg :=
  changes .refused l (s.trace.filterMap Obs.change)

/-- The messages that have been delivered from the line, in order. -/
def deliveredFrom (s : Server) (l : Line) : List Msg :=
  changes .leaves l (s.trace.filterMap Obs.change)

/-- The messages that are in the line. A message is in the mailbox of its
address from the moment the server has sent the STORE command. -/
def waiting (s : Server) : Line → List Msg
  | .mailbox a => s.mailbox.content a ++ (s.mailboxPipe.filter (·.1 = a)).map (·.2)
  | .service name subject => (s.service name).queue.items.filter (·.subject = subject)

end Server

/-- The books of every line are in order. -/
structure Kept (s : Server) : Prop where
  dated : ∀ l, ∀ m ∈ s.sentTo l, m.mid < s.messageId
  books : ∀ l, Ledger (s.sentTo l) (s.refusedBy l) (s.deliveredFrom l) (s.waiting l)

/-- No message in the queue of a service is matched by one of its offers. -/
def Unmatched (rex : Str → Str → Bool) (s : Server) (name : Str) : Prop :=
  ∀ m ∈ (s.service name).queue.items, ∀ o ∈ (s.service name).offers.items,
    rex o.pattern m.subject = false

structure Posted (rex : Str → Str → Bool) (s : Server) : Prop where
  kept : Kept s
  clear : ∀ a c, s.addresses.get a = some c → s.waiting (.mailbox a) = []
  unmatched : ∀ name, Unmatched rex s name
  served : Served rex s

/-! ## Changes -/

theorem changes_append (ch : Change) (l : Line) (t t' : List (Change × Line × Msg)) :
    changes ch l (t ++ t') = changes ch l t ++ changes ch l t' := by
  simp [changes]

@[simp] theorem changes_nil (ch : Change) (l : Line) : changes ch l [] = [] := rfl

theorem changes_cons (ch ch' : Change) (l l' : Line) (m : Msg) (t : List (Change × Line × Msg)) :
    changes ch l ((ch', l', m) :: t) = (if ch' = ch ∧ l' = l then [m] else []) ++ changes ch l t := by
  by_cases h : ch' = ch ∧ l' = l <;> simp [changes, h]

/-- A reply says nothing about lines. -/
theorem change_answer (c : Cid) (holder : Option Str) (p : Proto) {id : Id} (key : Frame)
    (hand : Option Msg) (h1 : id ≠ .mailboxDeliver) (h2 : id ≠ .serviceDeliver) :
    (Obs.sent c holder (p.setId id key).wire hand).change = none := by
  obtain ⟨w, hw, rfl⟩ := wire_setId p id key
  rw [hw]
  cases hand with
  | none => rfl
  | some m => simp [Obs.change, h1, h2]

theorem change_mailboxDeliver (c : Cid) (a : Str) (s : Server) (key : Frame) (m : Msg) :
    (Obs.sent c (some a) (s.delivery key .mailboxDeliver m).wire (some m)).change =
      some (.leaves, .mailbox a, m) := by
  obtain ⟨w, hw, hid⟩ := wire_setId (m.setProto s.message) .mailboxDeliver key
  rw [delivery, hw]
  simp [Obs.change, hid]

theorem change_serviceDeliver (c : Cid) (holder : Option Str) (s : Server) (key : Frame)
    (m : Msg) : (Obs.sent c holder (s.delivery key .serviceDeliver m).wire (some m)).change =
      some (.leaves, .service m.address m.subject, m) := by
  obtain ⟨w, hw, hid⟩ := wire_setId (m.setProto s.message) .serviceDeliver key
  rw [delivery, hw]
  simp [Obs.change, hid]

section
variable {rex : Str → Str → Bool} {s s' : Server} {t : List Obs} {l : Line} {m : Msg}

theorem sentTo_append (ht : s'.trace = s.trace ++ t) (l : Line) :
    s'.sentTo l = s.sentTo l ++ changes .joins l (t.filterMap Obs.change) := by
  rw [sentTo, ht, List.filterMap_append, changes_append]
  rfl

theorem refusedBy_append (ht : s'.trace = s.trace ++ t) (l : Line) :
    s'.refusedBy l = s.refusedBy l ++ changes .refused l (t.filterMap Obs.change) := by
  rw [refusedBy, ht, List.filterMap_append, changes_append]
  rfl

theorem deliveredFrom_append (ht : s'.trace = s.trace ++ t) (l : Line) :
    s'.deliveredFrom l = s.deliveredFrom l ++ changes .leaves l (t.filterMap Obs.change) := by
  rw [deliveredFrom, ht, List.filterMap_append, changes_append]
  rfl

theorem kept_new : Kept .new where
  dated l m hm := by cases hm
  books l := by
    have hw : Server.new.waiting l = [] := by cases l <;> rfl
    rw [hw]
    exact .nil

/-- A message that has joined a line was sent. -/
theorem mem_sentTo (h : m ∈ s.sentTo l) :
    (∃ c, .mailed c m ∈ s.trace ∧ l = .mailbox m.address) ∨
      (∃ c, .requested c m ∈ s.trace ∧ l = .service m.address m.subject) := by
  simp only [sentTo, changes, List.mem_map, List.mem_filter, List.mem_filterMap,
    decide_eq_true_eq] at h
  obtain ⟨⟨ch, l', m'⟩, ⟨⟨o, hmem, ho⟩, rfl, rfl⟩, hm'⟩ := h
  have hm' : m' = m := hm'
  subst hm'
  unfold Obs.change at ho
  -- only MAILBOX SEND and SERVICE SEND join a line
  split at ho
  case h_1 c m =>
    simp only [Option.some.injEq, Prod.mk.injEq, true_and] at ho
    obtain ⟨rfl, rfl⟩ := ho
    exact .inl ⟨c, hmem, rfl⟩
  case h_2 c m =>
    simp only [Option.some.injEq, Prod.mk.injEq, true_and] at ho
    obtain ⟨rfl, rfl⟩ := ho
    exact .inr ⟨c, hmem, rfl⟩
  case h_5 =>
    split at ho
    · simp at ho
    · split at ho <;> simp at ho
  all_goals simp at ho

/-! ## How the books are kept -/

/-- Nobody moves. -/
theorem Kept.still (h : Kept s) (ht : s'.trace = s.trace ++ t) (hn : t.filterMap Obs.change = [])
    (hw : ∀ l, s'.waiting l = s.waiting l) (hid : s.messageId ≤ s'.messageId) : Kept s' where
  dated l m hm := by
    rw [sentTo_append ht, hn] at hm
    exact Nat.lt_of_lt_of_le (h.dated l m (by simpa using hm)) hid
  books l := by
    rw [sentTo_append ht, refusedBy_append ht, deliveredFrom_append ht, hn, hw]
    simpa using h.books l

/-- All moves are in one line, and its books are in order afterwards. -/
theorem Kept.move (h : Kept s) (ht : s'.trace = s.trace ++ t)
    (hn : ∀ p ∈ t.filterMap Obs.change, p.2.1 = l) (hw : ∀ l', l' ≠ l → s'.waiting l' = s.waiting l')
    (hid : s.messageId ≤ s'.messageId)
    (hd : ∀ m ∈ changes .joins l (t.filterMap Obs.change), m.mid < s'.messageId)
    (hl : Ledger (s.sentTo l ++ changes .joins l (t.filterMap Obs.change))
      (s.refusedBy l ++ changes .refused l (t.filterMap Obs.change))
      (s.deliveredFrom l ++ changes .leaves l (t.filterMap Obs.change)) (s'.waiting l)) : Kept s' := by
  have hother : ∀ ch l', l' ≠ l → changes ch l' (t.filterMap Obs.change) = [] := by
    intro ch l' hne
    simp only [changes, List.map_eq_nil_iff, List.filter_eq_nil_iff, decide_eq_true_eq]
    rintro p hp ⟨-, hpl⟩
    exact hne (hpl ▸ hn p hp)
  refine ⟨?_, ?_⟩
  · intro l' m hm
    rw [sentTo_append ht, List.mem_append] at hm
    rcases hm with hm | hm
    · exact Nat.lt_of_lt_of_le (h.dated l' m hm) hid
    · by_cases hne : l' = l
      · subst hne
        exact hd m hm
      · rw [hother _ _ hne] at hm
        cases hm
  · intro l'
    rw [sentTo_append ht, refusedBy_append ht, deliveredFrom_append ht]
    by_cases hne : l' = l
    · subst hne
      exact hl
    · rw [hother _ _ hne, hother _ _ hne, hother _ _ hne, hw l' hne]
      simpa using h.books l'

/-- A new message is in no line. -/
theorem Kept.new (h : Kept s) (hm : m.mid = s.messageId) (l : Line) : m ∉ s.sentTo l := by
  intro hmem
  have hlt := h.dated l m hmem
  omega

/-- A new message joins the line. -/
theorem Kept.put (h : Kept s) (ht : s'.trace = s.trace ++ t)
    (hn : t.filterMap Obs.change = [(.joins, l, m)]) (hm : m.mid = s.messageId)
    (hid : s'.messageId = s.messageId + 1)
    (hw : ∀ l', s'.waiting l' = s.waiting l' ++ if l' = l then [m] else []) : Kept s' := by
  refine h.move (l := l) ht (by simp [hn]) ?_ (by omega) ?_ ?_
  · intro l' hne
    simp [hw, hne]
  · simp [hn, changes_cons, hm, hid]
  · have hput := (h.books l).put (h.new hm l)
    simpa [hn, changes_cons, hw] using hput

/-- A new message is refused. -/
theorem Kept.refuse (h : Kept s) (ht : s'.trace = s.trace ++ t)
    (hn : t.filterMap Obs.change = [(.joins, l, m), (.refused, l, m)]) (hm : m.mid = s.messageId)
    (hid : s'.messageId = s.messageId + 1) (hw : ∀ l', s'.waiting l' = s.waiting l') : Kept s' := by
  refine h.move (l := l) ht (by simp [hn]) (fun l' _ => hw l') (by omega) ?_ ?_
  · simp [hn, changes_cons, hm, hid]
  · have hlose := ((h.books l).put (h.new hm l)).lose
    simpa [hn, changes_cons, hw] using hlose

/-- A new message is delivered at once, past an empty line. -/
theorem Kept.pass (h : Kept s) (ht : s'.trace = s.trace ++ t)
    (hn : t.filterMap Obs.change = [(.joins, l, m), (.leaves, l, m)]) (hm : m.mid = s.messageId)
    (hid : s'.messageId = s.messageId + 1) (hw : ∀ l', s'.waiting l' = s.waiting l')
    (hempty : s.waiting l = []) : Kept s' := by
  refine h.move (l := l) ht (by simp [hn]) (fun l' _ => hw l') (by omega) ?_ ?_
  · simp [hn, changes_cons, hm, hid]
  · have hbooks := h.books l
    rw [hempty] at hbooks
    have hpass := hbooks.pass (h.new hm l)
    simpa [hn, changes_cons, hw, hempty] using hpass

/-- The first in the line is delivered. -/
theorem Kept.take (h : Kept s) (ht : s'.trace = s.trace ++ t)
    (hn : t.filterMap Obs.change = [(.leaves, l, m)]) (hid : s'.messageId = s.messageId)
    (hw : ∀ l', s.waiting l' = (if l' = l then [m] else []) ++ s'.waiting l') : Kept s' := by
  refine h.move (l := l) ht (by simp [hn]) ?_ (by omega) ?_ ?_
  · intro l' hne
    simp [hw, hne]
  · simp [hn, changes_cons]
  · have hbooks := h.books l
    rw [hw l, if_pos rfl] at hbooks
    have htake := hbooks.take
    simpa [hn, changes_cons] using htake

/-- One that waits is refused after all. -/
theorem Kept.lose {pre post : List Msg} (h : Kept s) (ht : s'.trace = s.trace ++ t)
    (hn : t.filterMap Obs.change = [(.refused, l, m)]) (hid : s'.messageId = s.messageId)
    (hw : ∀ l', l' ≠ l → s'.waiting l' = s.waiting l') (hbefore : s.waiting l = pre ++ m :: post)
    (hafter : s'.waiting l = pre ++ post) : Kept s' := by
  refine h.move (l := l) ht (by simp [hn]) hw (by omega) ?_ ?_
  · simp [hn, changes_cons]
  · have hbooks := h.books l
    rw [hbefore] at hbooks
    have hlose := hbooks.lose
    simpa [hn, changes_cons, hafter] using hlose

end
end Malamute.L3
