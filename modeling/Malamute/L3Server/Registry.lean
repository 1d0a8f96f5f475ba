import Malamute.L3Server.Handlers

/-!
# Between two events (`Reg`)

`Reg` is what holds of the client contexts, the two hashes of clients and the
offers whenever no execution is running: every context is in one of three
phases (`Phase`), the engine's hash holds exactly the contexts that are not
zombies, the address table holds open clients under their own addresses, and
every offer is of an open client.
-/
namespace Malamute.L3
open Malamute.Core Malamute.L1 Malamute.L2

/-- A context that has not processed CONNECTION OPEN. -/
structure Unopened (k : Client) : Prop where
  quiet : Quiet k
  state : k.state = .start
  address : k.address = none
  readers : k.readers = []
  writer : k.writer = none
  refcount : k.refcount = 0

/-- The life of a context: before CONNECTION OPEN, open, terminated. -/
inductive Phase (s : Server) (c : Cid) (k : Client) : Prop where
  | start : Unopened k → s.clients.get k.hashkey = some c → Phase s c k
  | opened (a : Str) : Open s c k a → Phase s c k
  | zombie : k.state = .zombie → k.readers = [] → k.address = none ∨ k.address = some .empty →
      Phase s c k

/-- The offers of a service are of open clients. -/
def OffersOpen (s : Server) (name : Str) : Prop :=
  ∀ o ∈ (s.service name).offers.items, ∃ k a, Open s o.client k a

structure Reg (s : Server) : Prop where
  fresh : ∀ c k, s.ctx c = some k → c < s.clientId
  phase : ∀ c k, s.ctx c = some k → Phase s c k
  hashed : ∀ key c, s.clients.get key = some c →
    ∃ k, s.ctx c = some k ∧ k.hashkey = key ∧ k.state ≠ .zombie
  registered : ∀ a c, s.addresses.get a = some c → a ≠ .empty ∧ ∃ k, Open s c k a
  offers : ∀ name, OffersOpen s name

theorem reg_new : Reg .new where
  fresh c k h := by cases h
  phase c k h := by cases h
  hashed key c h := by cases h
  registered a c h := by cases h
  offers name o h := by cases h

/-- `Open` depends on the contexts and the two hashes of clients only. -/
theorem Open.frame {s s' : Server} {c : Cid} {k : Client} {a : Str} (h : Open s c k a)
    (h1 : s'.ctx = s.ctx) (h2 : s'.clients = s.clients) (h3 : s'.addresses = s.addresses) :
    Open s' c k a where
  ctx := by rw [h1]; exact h.ctx
  quiet := h.quiet
  state := h.state
  address := h.address
  hashed := by rw [h2]; exact h.hashed
  registered ha := by rw [h3]; exact h.registered ha

theorem OffersOpen.frame {s s' : Server} {name : Str} (ho : OffersOpen s name)
    (h0 : (s'.service name).offers.items.Perm (s.service name).offers.items)
    (h1 : s'.ctx = s.ctx) (h2 : s'.clients = s.clients) (h3 : s'.addresses = s.addresses) :
    OffersOpen s' name := by
  intro o hm
  obtain ⟨k, a, hk⟩ := ho o (h0.mem_iff.1 hm)
  exact ⟨k, a, hk.frame h1 h2 h3⟩

theorem Open.unique {s : Server} {c : Cid} {k k' : Client} {a a' : Str} (h : Open s c k a)
    (h' : Open s c k' a') : k = k' ∧ a = a' := by
  have hk : k = k' := Option.some.inj (h.ctx.symm.trans h'.ctx)
  refine ⟨hk, Option.some.inj ?_⟩
  rw [← h.address, hk, h'.address]

/-- The context of an open client is in the connected state. -/
theorem Open.connected_of {s : Server} {c : Cid} {k j : Client} {a : Str} (h : Open s c k a)
    (hj : s.ctx c = some j) : j.state = .connected := by
  have hk : k = j := Option.some.inj (h.ctx.symm.trans hj)
  rw [← hk, h.state]

theorem Phase.frame {s s' : Server} {c : Cid} {k : Client} (h : Phase s c k)
    (h1 : s'.ctx = s.ctx) (h2 : s'.clients = s.clients) (h3 : s'.addresses = s.addresses) :
    Phase s' c k := by
  cases h with
  | start hu hh => exact .start hu (by rw [h2]; exact hh)
  | opened a h => exact .opened a (h.frame h1 h2 h3)
  | zombie hs hr ha => exact .zombie hs hr ha

namespace Reg
variable {s : Server} (hr : Reg s) {c : Cid} {k : Client}
include hr

theorem start_of (hk : s.ctx c = some k) (hs : k.state = .start) :
    Unopened k ∧ s.clients.get k.hashkey = some c := by
  cases hr.phase c k hk with
  | start hu hh => exact ⟨hu, hh⟩
  | opened a h => rw [h.state] at hs; cases hs
  | zombie h _ _ => rw [h] at hs; cases hs

theorem open_of (hk : s.ctx c = some k) (hs : k.state = .connected) : ∃ a, Open s c k a := by
  cases hr.phase c k hk with
  | start hu => rw [hu.state] at hs; cases hs
  | opened a h => exact ⟨a, h⟩
  | zombie h _ _ => rw [h] at hs; cases hs

theorem state_cases (hk : s.ctx c = some k) :
    k.state = .start ∨ k.state = .connected ∨ k.state = .zombie := by
  cases hr.phase c k hk with
  | start hu => exact .inl hu.state
  | opened a h => exact .inr (.inl h.state)
  | zombie h _ _ => exact .inr (.inr h)

theorem frame {s' : Server} (h1 : s'.ctx = s.ctx) (h2 : s'.clients = s.clients)
    (h3 : s'.addresses = s.addresses) (h4 : s'.clientId = s.clientId)
    (h5 : ∀ name, ∀ o ∈ (s'.service name).offers.items, ∃ k a, Open s o.client k a) :
    Reg s' where
  fresh c k h := by rw [h4]; exact hr.fresh c k (by rw [← h1]; exact h)
  phase c k h := (hr.phase c k (by rw [← h1]; exact h)).frame h1 h2 h3
  hashed key c h := by
    rw [h2] at h; rw [h1]; exact hr.hashed key c h
  registered a c h := by
    rw [h3] at h
    obtain ⟨ha, k, hk⟩ := hr.registered a c h
    exact ⟨ha, k, hk.frame h1 h2 h3⟩
  offers name o ho := by
    obtain ⟨k, a, hk⟩ := h5 name o ho
    exact ⟨k, a, hk.frame h1 h2 h3⟩

end Reg
end Malamute.L3
