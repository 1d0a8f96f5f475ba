import Malamute.L3Server.Answers
import Malamute.L4Client.Sent

/-!
# A client and its broker

`link` is one client, the broker, and the two FIFO connections between them:
`up` holds what the client has written and the broker has not read, `down` what
the broker has written and the client has not read. Any of them may go first,
other clients send what messages they like, and the engines of the broker work on.

A restart replaces the broker by a new one. Of the frames on their way up the
first ones are lost with the old connection, of those on their way down the last
ones, and the new connection may have another routing id. A broker that has
ended is one that takes no step before the restart.

A frame that a method call sends goes up with the number of the call. `history`
and `answered` are for the statements: the calls, and the frames that the broker
has executed and answered with OK.
-/
namespace Malamute.L4
open Malamute.Core Malamute.L1 Malamute.L2

structure Link where
  actor : Actor
  broker : L3.Server
  /-- the routing id of the client -/
  key : L3.Key
  up : List (Option Nat × Wire)
  down : List Wire
  history : List Call
  answered : List (Option Nat × Wire)

/-- What happens next. -/
inductive Turn where
  /-- the application calls a method or sends a message, or a timer expires -/
  | act (l : Label)
  /-- the client reads a frame -/
  | deliver
  /-- the broker reads a frame of the client -/
  | serve
  /-- another client sends `w` -/
  | peer (key : L3.Key) (w : Wire)
  /-- a step of the broker that reads nothing from the socket -/
  | inner (l : L3.Label)
  | restart (key : L3.Key) (lost kept : Nat)

/-- Everything but a frame of the server. -/
def Label.own : Label → Bool
  | .frame _ => false
  | _ => true

/-- An OK. -/
def affirms : Wire → Bool
  | .ok _ _ => true
  | _ => false

namespace Link

def new (key : L3.Key) : Link := ⟨.new, .new, key, [], [], [], []⟩

/-- The client has become `a`, and what it has written bears `tag`. -/
@[simps] def wrote (tag : Option Nat) (a : Actor) (k : Link) : Link :=
  { k with actor := a, up := k.up ++ (a.sent.drop k.actor.sent.length).map (Prod.mk tag) }

@[simps] def setHistory (history : List Call) (k : Link) : Link := { k with history := history }

/-- The client has taken the step `l` and become `a`. -/
def acted (l : Label) (a : Actor) (k : Link) : Link :=
  match l with
  | .call c => (k.wrote (some a.calls) a).setHistory (k.history ++ [c])
  | _ => k.wrote none a

/-- The broker becomes `s`, and what it sends to the client goes down. -/
@[simps] def told (s : L3.Server) (k : Link) : Link :=
  { k with broker := s, down := k.down ++ L3.outputs k.broker s k.key }

/-- The broker becomes `s` as it handles the frame `x`. -/
@[simps] def served (x : Option Nat × Wire) (s : L3.Server) (k : Link) : Link :=
  { k with answered := k.answered ++
      if (L3.outputs k.broker s k.key).any affirms then [x] else [] }

@[simps] def setUp (up : List (Option Nat × Wire)) (k : Link) : Link := { k with up := up }

@[simps] def setDown (down : List Wire) (k : Link) : Link := { k with down := down }

/-- A new broker; `lost` frames of the client do not arrive, and `kept` for it. -/
@[simps] def restarted (key : L3.Key) (lost kept : Nat) (k : Link) : Link :=
  { k with broker := .new, key := key, up := k.up.drop lost, down := k.down.take kept }

/-- The client after the step `l`. -/
def acts (env : Env) (l : Label) (k : Link) : Option Actor :=
  match k.actor.step env l with
  | some (.ok a) => some a
  | _ => none

/-- The broker after the step `l`. -/
def serves (rex : Str → Str → Bool) (n : Nat) (l : L3.Label) (k : Link) : Option L3.Server :=
  match k.broker.step rex n l with
  | some (.ok s) => some s
  | _ => none

/-- One step, with fuel `n` for the broker; `none` if it is not possible or
faults. -/
def step (env : Env) (rex : Str → Str → Bool) (n : Nat) (k : Link) : Turn → Option Link
  | .act l => if l.own then (k.acts env l).map fun a => k.acted l a else none
  | .deliver =>
    match k.down with
    | [] => none
    | w :: ws => (k.acts env (.frame w)).map fun a => (k.wrote none a).setDown ws
  | .serve =>
    match k.up with
    | [] => none
    | x :: xs =>
      (k.serves rex n (.request k.key x.2)).map fun s => ((k.served x s).told s).setUp xs
  | .peer key w =>
    if key = k.key then none else (k.serves rex n (.request key w)).map k.told
  | .inner l => if l.inner then (k.serves rex n l).map k.told else none
  | .restart key lost kept => some (k.restarted key lost kept)

end Link

/-- The client `key` and its broker. -/
def link (env : Env) (rex : Str → Str → Bool) (key : L3.Key) : LTS Link Turn where
  init k := k = .new key
  step k t k' := ∃ n, k.step env rex n t = some k'

open Link

/-- **One step of the link.** -/
inductive Linked (env : Env) (rex : Str → Str → Bool) (k : Link) : Turn → Link → Prop where
  | act {l : Label} {a : Actor} : l.own = true → (client env).step k.actor l a →
      Linked env rex k (.act l) (k.acted l a)
  | deliver {w : Wire} {ws : List Wire} {a : Actor} : k.down = w :: ws →
      (client env).step k.actor (.frame w) a →
      Linked env rex k .deliver ((k.wrote none a).setDown ws)
  | serve {x : Option Nat × Wire} {xs : List (Option Nat × Wire)} {s : L3.Server} : k.up = x :: xs →
      (L3.broker rex).step k.broker (.request k.key x.2) s →
      Linked env rex k .serve (((k.served x s).told s).setUp xs)
  | peer {key : L3.Key} {w : Wire} {s : L3.Server} : key ≠ k.key →
      (L3.broker rex).step k.broker (.request key w) s →
      Linked env rex k (.peer key w) (k.told s)
  | inner {l : L3.Label} {s : L3.Server} : l.inner = true → (L3.broker rex).step k.broker l s →
      Linked env rex k (.inner l) (k.told s)
  | restart (key : L3.Key) (lost kept : Nat) :
      Linked env rex k (.restart key lost kept) (k.restarted key lost kept)

section
variable {env : Env} {rex : Str → Str → Bool} {key : L3.Key} {k k' : Link} {t : Turn}

theorem acts_step {l : Label} {a : Actor} (h : k.acts env l = some a) :
    (client env).step k.actor l a := by
  unfold acts at h
  split at h
  · cases h
    assumption
  · cases h

theorem serves_step {n : Nat} {l : L3.Label} {s : L3.Server} (h : k.serves rex n l = some s) :
    (L3.broker rex).step k.broker l s := by
  unfold serves at h
  split at h
  · rename_i s' hs'
    cases h
    exact ⟨n, hs', by simp⟩
  · cases h

theorem link_cases (h : (link env rex key).step k t k') : Linked env rex k t k' := by
  obtain ⟨n, h⟩ := h
  cases t with
  | act l =>
    simp only [Link.step] at h
    split at h
    · rename_i hl
      obtain ⟨a, ha, rfl⟩ := Option.map_eq_some_iff.1 h
      exact .act hl (acts_step ha)
    · cases h
  | deliver =>
    simp only [Link.step] at h
    split at h
    · cases h
    · rename_i w ws hdown
      obtain ⟨a, ha, rfl⟩ := Option.map_eq_some_iff.1 h
      exact .deliver hdown (acts_step ha)
  | serve =>
    simp only [Link.step] at h
    split at h
    · cases h
    · rename_i x xs hup
      obtain ⟨s, hs, rfl⟩ := Option.map_eq_some_iff.1 h
      exact .serve hup (serves_step hs)
  | peer key w =>
    simp only [Link.step] at h
    split at h
    · cases h
    · rename_i hne
      obtain ⟨s, hs, rfl⟩ := Option.map_eq_some_iff.1 h
      exact .peer hne (serves_step hs)
  | inner l =>
    simp only [Link.step] at h
    split at h
    · rename_i hl
      obtain ⟨s, hs, rfl⟩ := Option.map_eq_some_iff.1 h
      exact .inner hl (serves_step hs)
    · cases h
  | restart key lost kept =>
    cases h
    exact .restart key lost kept

/-! ## Either side is as it is alone -/

/-- The two sides are as they are in runs of their own. -/
structure Paired (k : Link) : Prop where
  formed : Formed k.actor
  owed : Owed k.actor
  regular : L3.Regular k.broker

theorem paired_inductive (env : Env) (rex : Str → Str → Bool) (key : L3.Key) :
    (link env rex key).Inductive Paired where
  init k h := by
    rw [show k = .new key from h]
    exact ⟨formed_new, fun _ => ⟨Nat.le_refl _, fun h => nomatch h⟩, L3.reg_new, L3.wired_new⟩
  step k t k' hp h := by
    obtain ⟨hf, ho, hr⟩ := hp
    have hclient : ∀ {l : Label} {a : Actor}, (client env).step k.actor l a →
        Formed a ∧ Owed a := fun hs =>
      ⟨formed_stepped hf (step_cases hf hs), owed_stepped ho (step_cases hf hs)⟩
    have hbroker : ∀ {l : L3.Label} {s : L3.Server}, (L3.broker rex).step k.broker l s →
        L3.Regular s := fun hs => (L3.regular_inductive rex).step _ _ _ hr hs
    cases link_cases h with
    | @act l _ _ hs => cases l <;> exact ⟨(hclient hs).1, (hclient hs).2, hr⟩
    | deliver _ hs => exact ⟨(hclient hs).1, (hclient hs).2, hr⟩
    | serve _ hs => exact ⟨hf, ho, hbroker hs⟩
    | peer _ hs => exact ⟨hf, ho, hbroker hs⟩
    | inner _ hs => exact ⟨hf, ho, hbroker hs⟩
    | restart _ _ _ => exact ⟨hf, ho, L3.reg_new, L3.wired_new⟩

/-! ## Computed runs -/

/-- Take the turns `ts` with fuel `n` if they all meet `ok`; `none` if one does
not, is not possible or faults. -/
def Link.steps (env : Env) (rex : Str → Str → Bool) (ok : Link → Turn → Prop)
    [∀ k t, Decidable (ok k t)] (n : Nat) : List Turn → Link → Option Link
  | [], k => some k
  | t :: ts, k =>
    if ok k t then
      match k.step env rex n t with
      | some k' => steps env rex ok n ts k'
      | none => none
    else none

theorem link_of_steps {ok : Link → Turn → Prop} [∀ k t, Decidable (ok k t)] {n : Nat}
    {ts : List Turn} (h : k.steps env rex ok n ts = some k') :
    ((link env rex key).within ok).Run k ts k' := by
  induction ts generalizing k with
  | nil => cases h; exact .nil _
  | cons t ts ih =>
    simp only [Link.steps] at h
    split at h
    · rename_i hok
      split at h
      · rename_i b hb
        have hstep : ((link env rex key).within ok).step k t b := ⟨hok, n, hb⟩
        exact (LTS.Run.single hstep).append (ih h)
      · cases h
    · cases h

theorem linked_of_steps {ok : Link → Turn → Prop} [∀ k t, Decidable (ok k t)] {n : Nat}
    {ts : List Turn} (h : (Link.new key).steps env rex ok n ts = some k) :
    ((link env rex key).within ok).Reachable k :=
  ⟨.new key, ts, rfl, link_of_steps h⟩

end
end Malamute.L4
