import Malamute.L3Server.Routing
import Malamute.L5App.Flow
import Mathlib.Data.Fintype.Defs
import Mathlib.Logic.Embedding.Basic

/-!
# Applications and their broker

A network is a number of applications, each with its actor and its pipes, one broker with its
engines, and two FIFO connections between each actor and the broker: `up i` holds what actor `i`
has written and the broker has not read, `down i` what the broker has written and the actor has
not read. Any party may go first.

The broker knows a connection by a routing id. A connection may come back under another one,
which the broker does not know, and then frames on their way in either direction may be lost.
When the broker restarts, it is a new one for all of them.
-/
namespace Malamute.L6
open Malamute.Core Malamute.L1 Malamute.L5

/-- `ι` are the applications. -/
structure Network (ι : Type) where
  peers : ι → Session
  broker : L3.Server
  /-- the routing ids -/
  keys : ι ↪ L3.Key
  up : ι → List Wire
  down : ι → List Wire

/-- What happens next. -/
inductive Move (ι : Type) where
  /-- application `i` or its actor takes a step; the actor reads no frame -/
  | act (i : ι) (t : Act)
  /-- the actor reads a frame -/
  | deliver (i : ι)
  /-- the broker reads a frame of application `i` -/
  | serve (i : ι)
  /-- a step of the broker that reads nothing from the socket -/
  | inner (l : L3.Label)
  /-- connections come back: of the frames on their way up the first `lost` are lost, of those
  on their way down all but the first `kept` -/
  | relink (keys : ι ↪ L3.Key) (lost kept : ι → Nat)
  | restart (keys : ι ↪ L3.Key) (lost kept : ι → Nat)

/-- The step reads a frame of the server. -/
def framed : Act → Bool
  | .frame _ => true
  | _ => false

namespace Network
variable {ι : Type}

def new (keys : ι ↪ L3.Key) : Network ι := ⟨fun _ => .new, .new, keys, fun _ => [], fun _ => []⟩

/-- The broker becomes `s`; what it sends goes down. -/
@[simps] def told (s : L3.Server) (k : Network ι) : Network ι :=
  { k with broker := s, down := fun i => k.down i ++ L3.outputs k.broker s (k.keys i) }

/-- The connections are those of `keys`. -/
@[simps] def relinked (keys : ι ↪ L3.Key) (lost kept : ι → Nat) (k : Network ι) : Network ι :=
  { k with keys := keys, up := fun i => (k.up i).drop (lost i),
           down := fun i => (k.down i).take (kept i) }

@[simps] def restarted (k : Network ι) : Network ι := { k with broker := .new }

/-- The broker after the step `l`. -/
def serves (rex : Str → Str → Bool) (n : Nat) (l : L3.Label) (k : Network ι) : Option L3.Server :=
  match k.broker.step rex n l with
  | some (.ok s) => some s
  | _ => none

section
variable [DecidableEq ι]

/-- Application `i` becomes `s`; what its actor has written goes up. -/
@[simps] def acted (i : ι) (s : Session) (k : Network ι) : Network ι :=
  { k with
    peers := Function.update k.peers i s
    up := Function.update k.up i
      (k.up i ++ s.actor.sent.drop (k.peers i).actor.sent.length) }

@[simps] def setUp (i : ι) (ws : List Wire) (k : Network ι) : Network ι :=
  { k with up := Function.update k.up i ws }

@[simps] def setDown (i : ι) (ws : List Wire) (k : Network ι) : Network ι :=
  { k with down := Function.update k.down i ws }

/-- One step, with fuel `n` for the broker; `none` if it is not possible or faults. -/
def step [Fintype ι] (env : L4.Env) (rex : Str → Str → Bool) (n : Nat) (k : Network ι) :
    Move ι → Option (Network ι)
  | .act i t =>
    if framed t then none else ((k.peers i).step env t).map fun s => k.acted i s
  | .deliver i =>
    match k.down i with
    | [] => none
    | w :: ws => ((k.peers i).step env (.frame w)).map fun s => (k.acted i s).setDown i ws
  | .serve i =>
    match k.up i with
    | [] => none
    | w :: ws => (k.serves rex n (.request (k.keys i) w)).map fun s => (k.told s).setUp i ws
  | .inner l => if l.inner then (k.serves rex n l).map k.told else none
  | .relink keys lost kept =>
    if ∀ i, keys i = k.keys i ∨ k.broker.clients.get (keys i) = none then
      some (k.relinked keys lost kept)
    else none
  | .restart keys lost kept => some (k.restarted.relinked keys lost kept)

end
end Network

/-- The network of the applications `ι`. -/
def network {ι : Type} [DecidableEq ι] [Fintype ι] (env : L4.Env) (rex : Str → Str → Bool) :
    LTS (Network ι) (Move ι) where
  init k := ∃ keys, k = .new keys
  step k t k' := ∃ n, k.step env rex n t = some k'

open Network

/-- **One step of the network.** -/
inductive Networked {ι : Type} [DecidableEq ι] (env : L4.Env) (rex : Str → Str → Bool)
    (k : Network ι) : Move ι → Network ι → Prop where
  | act {i : ι} {t : Act} {s : Session} : framed t = false → (session env).step (k.peers i) t s →
      Networked env rex k (.act i t) (k.acted i s)
  | deliver {i : ι} {w : Wire} {ws : List Wire} {s : Session} : k.down i = w :: ws →
      (session env).step (k.peers i) (.frame w) s →
      Networked env rex k (.deliver i) ((k.acted i s).setDown i ws)
  | serve {i : ι} {w : Wire} {ws : List Wire} {s : L3.Server} : k.up i = w :: ws →
      (L3.broker rex).step k.broker (.request (k.keys i) w) s →
      Networked env rex k (.serve i) ((k.told s).setUp i ws)
  | inner {l : L3.Label} {s : L3.Server} : l.inner = true → (L3.broker rex).step k.broker l s →
      Networked env rex k (.inner l) (k.told s)
  | relink {keys : ι ↪ L3.Key} (lost kept : ι → Nat) :
      (∀ i, keys i = k.keys i ∨ k.broker.clients.get (keys i) = none) →
      Networked env rex k (.relink keys lost kept) (k.relinked keys lost kept)
  | restart (keys : ι ↪ L3.Key) (lost kept : ι → Nat) :
      Networked env rex k (.restart keys lost kept) (k.restarted.relinked keys lost kept)

section
variable {ι : Type} {env : L4.Env} {rex : Str → Str → Bool} {k k' : Network ι} {t : Move ι}

theorem serves_step {n : Nat} {l : L3.Label} {s : L3.Server} (h : k.serves rex n l = some s) :
    (L3.broker rex).step k.broker l s := by
  unfold serves at h
  split at h
  · rename_i s' hs'
    cases h
    exact ⟨n, hs', by simp⟩
  · cases h

variable [DecidableEq ι] [Fintype ι]

theorem network_cases (h : (network env rex).step k t k') : Networked env rex k t k' := by
  obtain ⟨n, h⟩ := h
  cases t with
  | act i t =>
    simp only [Network.step] at h
    split at h
    · cases h
    · rename_i ht
      obtain ⟨s, hs, rfl⟩ := Option.map_eq_some_iff.1 h
      exact .act (by simpa using ht) hs
  | deliver i =>
    simp only [Network.step] at h
    split at h
    · cases h
    · rename_i w ws hdown
      obtain ⟨s, hs, rfl⟩ := Option.map_eq_some_iff.1 h
      exact .deliver hdown hs
  | serve i =>
    simp only [Network.step] at h
    split at h
    · cases h
    · rename_i w ws hup
      obtain ⟨s, hs, rfl⟩ := Option.map_eq_some_iff.1 h
      exact .serve hup (serves_step hs)
  | inner l =>
    simp only [Network.step] at h
    split at h
    · rename_i hl
      obtain ⟨s, hs, rfl⟩ := Option.map_eq_some_iff.1 h
      exact .inner hl (serves_step hs)
    · cases h
  | relink keys lost kept =>
    obtain ⟨hkeys, h⟩ := Option.ite_none_right_eq_some.1 h
    cases h
    exact .relink lost kept hkeys
  | restart keys lost kept =>
    cases h
    exact .restart keys lost kept

/-! ## Each party is as it is alone -/

/-- The parties are as they are in runs of their own, the broker since it was started. -/
structure Alone (env : L4.Env) (rex : Str → Str → Bool) (k : Network ι) : Prop where
  peers : ∀ i, (session env).Reachable (k.peers i)
  broker : (L3.broker rex).Reachable k.broker

theorem alone_inductive (env : L4.Env) (rex : Str → Str → Bool) :
    (network (ι := ι) env rex).Inductive (Alone env rex) where
  init k h := by
    obtain ⟨keys, rfl⟩ := h
    exact ⟨fun i => .initial rfl, .initial rfl⟩
  step k t k' h hs := by
    have hpeer : ∀ {i : ι} {t : Act} {s : Session}, (session env).step (k.peers i) t s →
        ∀ j, (session env).Reachable ((k.acted i s).peers j) := by
      intro i t s hs j
      rw [acted_peers]
      by_cases hj : j = i
      · rw [hj, Function.update_self]
        exact (h.peers i).step hs
      · rw [Function.update_of_ne hj]
        exact h.peers j
    cases network_cases hs with
    | act _ hst => exact ⟨hpeer hst, h.broker⟩
    | deliver _ hst => exact ⟨hpeer hst, h.broker⟩
    | serve _ hst => exact ⟨h.peers, h.broker.step hst⟩
    | inner _ hst => exact ⟨h.peers, h.broker.step hst⟩
    | relink _ _ _ => exact ⟨h.peers, h.broker⟩
    | restart _ _ _ => exact ⟨h.peers, .initial rfl⟩

/-! ## Computed runs -/

/-- Take the steps `ts`, with fuel `n` for the broker. -/
def Network.steps (env : L4.Env) (rex : Str → Str → Bool) (n : Nat) (ts : List (Move ι))
    (k : Network ι) : Option (Network ι) := ts.foldlM (fun k t => k.step env rex n t) k

theorem network_of_steps {n : Nat} {ts : List (Move ι)} {keys : ι ↪ L3.Key}
    (h : (Network.new keys).steps env rex n ts = some k) : (network env rex).Reachable k :=
  ⟨.new keys, ts, ⟨keys, rfl⟩, .of_foldlM (fun _ _ _ hb => ⟨n, hb⟩) h⟩

end

/-- Two applications. -/
def pair : Bool ↪ L3.Key := ⟨fun i => if i then [1] else [2], by decide⟩

/-- Application `i` calls a method that the broker answers. -/
def calling (i : Bool) (c : L4.Call) : List (Move Bool) :=
  [.act i (.call c), .act i .command, .serve i, .deliver i, .act i .read]

/-- A producer and a consumer of the stream `s`. -/
def publishing : List (Move Bool) :=
  calling true (.connect .s 1000 .s) ++ calling false (.connect .s 1000 ⟨[116], by decide⟩) ++
    calling true (.setProducer .s) ++ calling false (.setConsumer .s .s) ++
    [.inner (.command (.ofBytes [115])), .act true (.post (.streamSend (.ofBytes [115]) [[7]])),
      .act true .message, .serve true, .inner (.message (.ofBytes [115])),
      .inner (.traffic (.ofBytes [115])), .deliver false, .act false .recv]

end Malamute.L6
