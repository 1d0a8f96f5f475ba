import Malamute.L3Server.Execute
import Malamute.Core.LTS

/-!
# The broker as a transition system

A step is one reactor event of the server (a message read from the router
socket, an expired ticket, an item read from a stream's message pipe, a new
configuration), or one command or message read by an engine. Between them the
pipes may hold any number of items, and any actor may go first.

One multipart message is one `router` step, which leaves on the socket the
frames `mlm_proto_recv` did not read. The handler does not return to the
reactor while there is input, so what follows is a `more` step, which takes the
next unread frame for a routing id.
-/
namespace Malamute.L3
open Malamute.Core Malamute.L1 Malamute.L2

inductive Label where
  /-- a client sends `frames`; the socket puts its routing id in front -/
  | router (rid : Key) (frames : List Frame)
  | more
  | expired (c : Cid)
  /-- the server reads the message pipe of a stream -/
  | traffic (stream : Str)
  /-- a stream engine reads its command pipe, its message pipe -/
  | command (stream : Str)
  | message (stream : Str)
  /-- the mailbox engine reads its pipe -/
  | mailbox
  | configure (service mailbox : MsgqCfg)
  deriving DecidableEq

/-- A client sends the message `w`. -/
def Label.request (rid : Key) (w : Wire) : Label := .router rid w.encode

/-- The frames that a step reads from the router socket. -/
def Label.parts (s : Server) : Label → Option (List Frame)
  | .router rid frames => some (rid :: frames)
  | .more => some s.rest
  | _ => none

namespace Server

/-- The client of a routing id; a new one if it is unknown.
mirrors src/src/mlm_server_engine.inc:1546-1553 -/
def clientRequire (s : Server) (key : Key) : Cid × Server :=
  match s.clients.get key with
  | some c => (c, s)
  | none => (s.clientId, s.clientNew key)

/-- The message `p` has been read from `c`. -/
@[simps] def hear (c : Cid) (frames : List Frame) (p : Proto) (s : Server) : Server :=
  { s with
    trace := s.trace ++ [.received c ((s.ctx c).bind (·.address)) frames p.wire] }

/-- mirrors src/src/mlm_server_engine.inc:1531-1567: one round of the loop, on
the unread frames of a message -/
def handleProtocol (rex : Str → Str → Bool) (n : Nat) (parts : List Frame) (s : Server) :
    Except Fault Server :=
  let (p, rc, rest) := recv s.message parts
  let s := { s with message := p, rest := rest, hand := none }
  match rc with
  | .interrupted => .ok { s with running := false }
  | .malformed => .ok (s.clientRequire (p.routingId.getD [])).2
  | .ok =>
    let (c, s) := s.clientRequire (p.routingId.getD [])
    execute rex n c (protocolEvent p) (s.hear c parts.tail p)

/-- mirrors src/src/mlm_server.c:119-141 -/
def forwardStreamTraffic (rex : Str → Str → Bool) (n : Nat) (t : Traffic) (s : Server) :
    Except Fault Server :=
  match t with
  | .ack c => s.clientPut c
  | .deliver c m => do
    let k ← s.client c
    if k.state = .zombie then .ok (s.unlink m)
    else if k.msg.isSome then .error .assertion
    else
      let s ← (s.setClient c { k with msg := some m }).sendEvent (execute rex n) c .streamMessage
      let k ← s.client c
      if k.msg.isSome then .error .assertion else .ok s

/-- mirrors src/src/mlm_server.c:395-404; CONFIGURE is answered after the
commands that were sent before it -/
def configure (service mailbox : MsgqCfg) (s : Server) : Except Fault Server := do
  let s ← mailboxReads s.mailboxPipe { s with serviceCfg := service }
  .ok (s.setMailbox (s.mailbox.configure mailbox) s.mailboxPipe)

/-- One step with fuel `n`; `none` if it is not possible. -/
def step (rex : Str → Str → Bool) (n : Nat) (s : Server) (l : Label) :
    Option (Except Fault Server) :=
  if s.running = false then none
  else match l with
  | .router rid frames =>
    if s.rest = [] ∧ frames ≠ [] then some (s.handleProtocol rex n (rid :: frames)) else none
  | .more => if s.rest ≠ [] then some (s.handleProtocol rex n s.rest) else none
  | .expired c =>
    match s.ctx c with
    | none => none
    | some k =>
      if s.rest = [] ∧ k.state ≠ .zombie then some (execute rex n c .expired s) else none
  | .traffic name =>
    match s.streams.get name with
    | some { selectors, pending, up := t :: up } =>
      if s.rest = [] then
        some ((s.setStreams (s.streams.set name ⟨selectors, pending, up⟩)).forwardStreamTraffic rex n t)
      else none
    | _ => none
  | .command name =>
    match (s.streams.get name).bind Stream.handleCommand with
    | none => none
    | some st => some (.ok (s.setStreams (s.streams.set name st)))
  | .message name =>
    match (s.streams.get name).bind (Stream.handleMessage rex) with
    | none => none
    | some (st, m, targets) =>
      let s := s.setStreams (s.streams.set name st)
      some (.ok (((s.linkTimes m targets.length).unlink m).log (.forwarded name m targets)))
  | .mailbox => if s.mailboxPipe = [] then none else some s.mailboxRead
  | .configure service mailbox =>
    if s.rest = [] then some (s.configure service mailbox) else none

end Server

/-- With enough fuel, the step ends with `r`. -/
def Outcome (rex : Str → Str → Bool) (s : Server) (l : Label) (r : Except Fault Server) : Prop :=
  ∃ n, s.step rex n l = some r ∧ r ≠ .error .fuel

/-! ## Fuel -/

section Mono
variable (rex : Str → Str → Bool) (n : Nat) (s : Server)

theorem handleProtocol_mono (parts : List Frame) :
    Le Fault.fuel (s.handleProtocol rex n parts) (s.handleProtocol rex (n + 1) parts) := by
  unfold Server.handleProtocol
  rcases recv s.message parts with ⟨p, rc, rest⟩
  cases rc with
  | interrupted => exact .refl _
  | malformed => exact .refl _
  | ok => exact Server.execute_mono rex n _ _ _

theorem forwardStreamTraffic_mono (t : Traffic) :
    Le Fault.fuel (s.forwardStreamTraffic rex n t) (s.forwardStreamTraffic rex (n + 1) t) := by
  cases t with
  | ack c => exact .refl _
  | deliver c m =>
    refine Le.bind (.refl _) fun k => ?_
    split
    · exact .refl _
    · split
      · exact .refl _
      · refine Le.bind (Server.sendEvent_mono ?_ _ _ _) fun _ => .refl _
        exact fun c e s => Server.execute_mono rex n c e s

/-- Whether a step is possible does not depend on fuel, and more fuel can only
help. -/
theorem step_mono (l : Label) : Le Fault.fuel ((s.step rex n l).getD (.error .assertion))
    ((s.step rex (n + 1) l).getD (.error .assertion)) := by
  unfold Server.step
  split
  · exact .refl _
  · cases l with
    | router rid frames =>
      dsimp only
      split
      · exact handleProtocol_mono rex n s _
      · exact .refl _
    | more =>
      dsimp only
      split
      · exact handleProtocol_mono rex n s _
      · exact .refl _
    | expired c =>
      dsimp only
      split
      · exact .refl _
      · split
        · exact Server.execute_mono rex n c .expired s
        · exact .refl _
    | traffic name =>
      dsimp only
      split
      · split
        · exact forwardStreamTraffic_mono rex n _ _
        · exact .refl _
      · exact .refl _
    | _ => exact .refl _

end Mono

/-- **A step has one outcome.** -/
theorem Outcome.unique {rex : Str → Str → Bool} {s : Server} {l : Label}
    {r r' : Except Fault Server} (h : Outcome rex s l r) (h' : Outcome rex s l r') : r = r' := by
  obtain ⟨n, hn, hr⟩ := h
  obtain ⟨n', hn', hr'⟩ := h'
  exact Le.agree (f := fun n => (s.step rex n l).getD (.error .assertion))
    (fun n => step_mono rex n s l) (congrArg (Option.getD · _) hn) hr
    (congrArg (Option.getD · _) hn') hr'

/-- The broker. A step that ends in a fault has no successor state. -/
def broker (rex : Str → Str → Bool) : LTS Server Label where
  init s := s = .new
  step s l s' := Outcome rex s l (.ok s')

/-- Take the steps `ls` if they all meet `ok`; `none` if one does not, is not
possible or faults. -/
def Server.steps (rex : Str → Str → Bool) (ok : Server → Label → Prop)
    [∀ s l, Decidable (ok s l)] (n : Nat) : List Label → Server → Option Server
  | [], s => some s
  | l :: ls, s =>
    if ok s l then
      match s.step rex n l with
      | some (.ok s') => steps rex ok n ls s'
      | _ => none
    else none

/-- A computed sequence of steps is a run. -/
theorem Server.run_of_steps {rex : Str → Str → Bool} {ok : Server → Label → Prop}
    [∀ s l, Decidable (ok s l)] {n : Nat} {ls : List Label} {s s' : Server}
    (h : s.steps rex ok n ls = some s') : ((broker rex).within ok).Run s ls s' := by
  induction ls generalizing s with
  | nil => cases h; exact .nil _
  | cons l ls ih =>
    simp only [steps] at h
    split at h
    · rename_i hok
      split at h
      · rename_i s₁ hs₁
        have hstep : ((broker rex).within ok).step s l s₁ := ⟨hok, n, hs₁, by simp⟩
        exact (LTS.Run.single hstep).append (ih h)
      · cases h
    · cases h

theorem Server.reachable_of_steps {rex : Str → Str → Bool} {ok : Server → Label → Prop}
    [∀ s l, Decidable (ok s l)] {n : Nat} {ls : List Label} {s : Server}
    (h : Server.new.steps rex ok n ls = some s) : ((broker rex).within ok).Reachable s :=
  ⟨.new, ls, rfl, run_of_steps h⟩

end Malamute.L3
