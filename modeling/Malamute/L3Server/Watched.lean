import Malamute.L3Server.System

/-!
# The server under watch

The server again, as in `Actions`, `Execute` and `System`, with the failures of
its slot assertions told apart from its other faults, and with checks added:

* a message is only put into an empty slot, is sent by the next round of the
  client's machine, and no slot is filled when control returns to the reactor;
* an execution that an action starts leaves alive every context on which an
  outer execution is running (`R`, innermost first);
* between any two operations on references `chk L s` holds, where `L` are the
  references that local variables hold (a message in a pipe that nobody but the
  running action can read counts as local);
* nobody links or unlinks a message that has been destroyed.

What a check can find is an `Alarm`. An operation that moves a reference is
split so that there is a point before and after it; otherwise the functions are
those of the source, line by line.
-/
namespace Malamute.L3
open Malamute.Core Malamute.L1 Malamute.L2

/-- How a watched execution can stop. -/
inductive Alarm where
  /-- as the server itself may, other than by a slot assertion -/
  | fault (f : Fault)
  /-- a message is given to a client whose slot is not empty -/
  | slot
  /-- a message in a slot is not sent -/
  | unsent
  /-- a context is gone or terminated under an outer execution -/
  | gone
  /-- the check of the references fails -/
  | count
  /-- a destroyed message is linked or unlinked -/
  | dead
  deriving DecidableEq

namespace Watched
open Server

/-- Nothing to watch. -/
abbrev lift {α : Type} (x : Except Fault α) : Except Alarm α := x.mapError .fault

/-- `s_client_execute` with the local references of the actions that run. -/
abbrev Exec := List Msg → Cid → Event → Server → Except Alarm Server

section
variable (chk : List Msg → Server → Prop) [∀ L s, Decidable (chk L s)]

def see (L : List Msg) (s : Server) : Except Alarm Server :=
  if chk L s then .ok s else .error .count

/-- `mlm_msg_link` -/
def share (L : List Msg) (m : Msg) (s : Server) : Except Alarm Server :=
  if s.refs m.mid ≤ 0 then .error .dead else see chk (m :: L) (s.link m)

/-- `mlm_msg_unlink`, of a local reference -/
def drop (L : List Msg) (m : Msg) (s : Server) : Except Alarm Server :=
  if s.refs m.mid ≤ 0 then .error .dead else see chk L (s.unlink m)

/-- mirrors src/src/mlm_server_engine.inc:273-280; an event that a terminated
client does not get must not leave a message behind -/
def sendEvent (ex : Exec) (L : List Msg) (s : Server) (c : Cid) (e : Event) :
    Except Alarm Server := do
  let k ← lift (s.client c)
  if k.state = .zombie then (if k.msg.isSome then .error .unsent else .ok s) else ex L c e s

/-! ## Mailbox engine -/

/-- mirrors src/src/mlm_mailbox_bounded.c:93-108 -/
def mailboxRead (L : List Msg) (s : Server) : Except Alarm Server :=
  match s.mailboxPipe with
  | [] => .ok s
  | (a, m) :: pipe => do
    let s ← see chk (m :: L) (s.setMailbox s.mailbox pipe)
    let (b, verdict) ← lift (s.mailbox.store a m)
    let s := s.setMailbox b pipe
    match verdict with
    | .queued _ => see chk L s
    | .refused => do
      let s ← drop chk L m s
      .ok (s.log (.dropped (.mailbox a) m))

def mailboxReads (L : List Msg) : List (Str × Msg) → Server → Except Alarm Server
  | [], s => .ok s
  | _ :: pipe, s => do
    let s ← mailboxRead chk L s
    mailboxReads L pipe s

/-- QUERY, and its reply in the pipe. -/
def mailboxQuery (L : List Msg) (s : Server) (a : Str) : Except Alarm (Server × Option Msg) := do
  let s ← mailboxReads chk L s.mailboxPipe s
  let (b, m) ← lift (s.mailbox.query a)
  let s ← see chk (m.toList ++ L) (s.setMailbox b s.mailboxPipe)
  .ok (s, m)

/-! ## Services -/

/-- mirrors src/src/mlm_server.c:271-289; `m` is a local reference -/
def serviceDispatchMessage (rex : Str → Str → Bool) (ex : Exec) (L : List Msg) (s : Server)
    (name : Str) (m : Msg) : Except Alarm (Server × Bool) :=
  let v := s.service name
  match v.offers.reset.seek (fun o => rex o.pattern m.subject) with
  | (offers, none) => .ok (s.setService name (v.setOffers offers), false)
  | (offers, some o) => do
    let s := s.setService name (v.setOffers offers)
    let target ← lift (s.client o.client)
    if target.msg.isSome then .error .slot
    else
      let s ← see chk L ((s.setClient o.client { target with msg := some m }).log
        (.dispatched name v.offers.items o m))
      let s ← sendEvent ex L s o.client .serviceMessage
      let s ← see chk L s
      let v := s.service name
      .ok (s.setService name (v.setOffers v.offers.moveEnd), true)

/-- mirrors src/src/mlm_server.c:296-303 -/
def serviceDispatchLoop (rex : Str → Str → Bool) (ex : Exec) (L : List Msg) (name : Str) :
    Nat → Option Msg → Server → Except Alarm Server
  | _, none, s => .ok s
  | 0, some _, _ => .error (.fault .fuel)
  | n + 1, some m, s => do
    let s ← share chk L m s
    let (s, dispatched) ← serviceDispatchMessage chk rex ex L s name m
    -- the reference that was linked is gone with the delivery, and the one of
    -- the queue takes its place
    let s ← if dispatched then do
        let queue ← lift ((s.service name).queue.dequeueCursor s.serviceCfg)
        .ok (s.setService name ((s.service name).setQueue queue))
      else .ok s
    let s ← see chk (m :: L) s
    let s ← drop chk L m s
    let (queue, m) := (s.service name).queue.next
    serviceDispatchLoop rex ex L name n m (s.setService name ((s.service name).setQueue queue))

/-- mirrors src/src/mlm_server.c:291-305 -/
def serviceDispatch (rex : Str → Str → Bool) (ex : Exec) (L : List Msg) (n : Nat) (s : Server)
    (name : Str) : Except Alarm Server :=
  if (s.service name).offers.size = 0 then .ok s
  else
    let (queue, m) := (s.service name).queue.first
    serviceDispatchLoop chk rex ex L name n m (s.setService name ((s.service name).setQueue queue))

/-! ## Actions -/

/-- mirrors src/src/mlm_server.c:463-482 -/
def registerNewClient (ex : Exec) (L : List Msg) (c : Cid) (s : Server) : Except Alarm Server := do
  let a := s.message.address
  let s ← lift (s.modifyClient c fun k => { k with address := some a })
  if a = .empty then .ok (s.setStatus success)
  else do
    let s ← match s.addresses.get a with
      | some existing => sendEvent ex L s existing .expired
      | none => .ok s
    let s ← lift (s.deleteAddress a)
    .ok ((s.setAddresses (s.addresses.set a c)).setStatus success)

/-- mirrors src/src/mlm_server.c:528-545 -/
def writeMessageToStream (L : List Msg) (c : Cid) (s : Server) : Except Alarm Server := do
  let k ← lift (s.client c)
  match k.writer, k.address with
  | none, _ => lift (s.setException c .exception)
  | some _, none => .error (.fault .assertion)
  | some name, some sender =>
    let p := s.message
    let m : Msg := ⟨s.messageId, sender, name, p.subject, none, p.timeout, p.content⟩
    let s ← see chk (m :: L) ((s.newMsg m).setMessage p.takeContent)
    let s ← see chk L (s.pushStream name (.message c m))
    .ok (s.log (.published c name m))

/-- mirrors src/src/mlm_server.c:552-576 -/
def writeMessageToMailbox (ex : Exec) (L : List Msg) (c : Cid) (s : Server) :
    Except Alarm Server := do
  let k ← lift (s.client c)
  match k.address with
  | none => .error (.fault .assertion)
  | some sender =>
    let m := s.messageFrom sender
    let s ← see chk (m :: L) (((s.newMsg m).setMessage s.message.takeContent).log (.mailed c m))
    match s.addresses.get m.address with
    | some target => do
      let t ← lift (s.client target)
      if t.msg.isSome then .error .slot
      else
        let s ← see chk L (s.setClient target { t with msg := some m })
        let s ← sendEvent ex L s target .mailboxMessage
        see chk L s
    | none => see chk L (s.setMailbox s.mailbox (s.mailboxPipe ++ [(m.address, m)]))

/-- mirrors src/src/mlm_server.c:583-598 -/
def writeMessageToService (rex : Str → Str → Bool) (ex : Exec) (L : List Msg) (c : Cid)
    (s : Server) : Except Alarm Server := do
  let k ← lift (s.client c)
  match k.address with
  | none => .error (.fault .assertion)
  | some sender =>
    let m := s.messageFrom sender
    let s ← see chk (m :: L) (((s.newMsg m).setMessage s.message.takeContent).log (.requested c m))
    let (s, dispatched) ←
      serviceDispatchMessage chk rex ex L (s.serviceRequire m.address) m.address m
    if dispatched then see chk L s
    else do
      let s ← see chk (m :: L) s
      let v := s.service m.address
      let (queue, verdict) ← lift (v.queue.enqueue s.serviceCfg m)
      let s := s.setService m.address (v.setQueue queue)
      match verdict with
      | .queued _ => see chk L s
      | .refused => do
        let s ← drop chk L m s
        .ok (s.log (.dropped (.service m.address) m))

/-- mirrors src/src/mlm_server.c:620-626 -/
def dispatchTheService (rex : Str → Str → Bool) (ex : Exec) (L : List Msg) (n : Nat) (s : Server) :
    Except Alarm Server :=
  serviceDispatch chk rex ex L n (s.serviceRequire s.message.address) s.message.address

/-- mirrors src/src/mlm_server.c:633-659 -/
def checkForMailboxMessages (L : List Msg) (c : Cid) (s : Server) : Except Alarm Server := do
  let k ← lift (s.client c)
  match k.address with
  | none => .error (.fault .nullPointer)
  | some a =>
    if a = .empty then .ok s
    else do
      let (s, m) ← mailboxQuery chk L s a
      let k ← lift (s.client c)
      if k.msg.isSome then .error .slot
      else
        let s ← see chk L (s.setClient c { k with msg := m })
        match m with
        | none => .ok s
        | some _ => lift (s.setNextEvent c .mailboxMessage)

/-- mirrors src/src/mlm_server.c:666-671 -/
def getMessageToDeliver (L : List Msg) (c : Cid) (s : Server) : Except Alarm Server := do
  let k ← lift (s.client c)
  match k.msg with
  | none => .error (.fault .nullPointer)
  | some m =>
    let s := (s.setMessage (m.setProto s.message)).setHand (some m)
    let s ← see chk (m :: L) (s.setClient c { k with msg := none })
    drop chk L m s

/-- One action; the others hold no reference to a message and start nothing. -/
def runAction (rex : Str → Str → Bool) (ex : Exec) (n : Nat) (L : List Msg) (c : Cid) (a : Action)
    (s : Server) : Except Alarm Server :=
  match a with
  | .registerNewClient => registerNewClient ex L c s
  | .checkForMailboxMessages => checkForMailboxMessages chk L c s
  | .writeMessageToStream => writeMessageToStream chk L c s
  | .writeMessageToMailbox => writeMessageToMailbox chk ex L c s
  | .writeMessageToService => writeMessageToService chk rex ex L c s
  | .dispatchTheService => dispatchTheService chk rex ex L n s
  | .getMessageToDeliver => getMessageToDeliver chk L c s
  | a => lift (s.runAction rex (fun _ _ _ => .error .fuel) n c a)

/-! ## The machine -/

def runActions (act : Action → Server → Except Alarm Server) (c : Cid) :
    List Action → Server → Except Alarm Server
  | [], s => .ok s
  | a :: as, s => do
    let k ← lift (s.client c)
    let s ← if k.exception.isNone then act a s else .ok s
    runActions act c as s

end

/-- After the trace `t`, the first thing that happens is that `m` is sent to `c`. -/
def sentFirst (c : Cid) (m : Msg) (t t' : List Obs) : Bool :=
  match t'.drop t.length with
  | .sent d _ _ (some m') :: _ => d = c ∧ m' = m
  | _ => false

/-- Every context of the list is allocated and not terminated. -/
def alive (cs : List Cid) (s : Server) : Bool :=
  cs.all fun c => (s.ctx c).any fun k => k.state ≠ .zombie

/-- No client has a message in its slot. -/
def slotsEmpty (s : Server) : Bool :=
  (List.range s.clientId).all fun c => (s.ctx c).all fun k => k.msg.isNone

section
variable (chk : List Msg → Server → Prop) [∀ L s, Decidable (chk L s)]

/-- mirrors src/src/mlm_server_engine.inc:550-1285 -/
def loop (rex : Str → Str → Bool) : Nat → List Cid → List Msg → Cid → Server → Except Alarm Server
  | 0, _, _, _, _ => .error (.fault .fuel)
  | n + 1, R, L, c, s => do
    let k ← lift (s.client c)
    match k.nextEvent with
    | none => if k.msg.isSome then .error .unsent else .ok s
    | some e =>
      let s := s.setClient c { k with nextEvent := none, exception := none }
      match transition k.state e with
      | none => if k.msg.isSome then .error .unsent else .ok s
      | some (actions, next) => do
        let ex : Exec := fun L d e s => do
          let s ← lift (s.modifyClient d fun k => { k with nextEvent := some e })
          let s ← loop rex n (c :: R) L d s
          if alive (c :: R) s then .ok s else .error .gone
        let s := s.log (.event c e)
        let s' ← runActions (runAction chk rex ex n L c) c actions s
        if k.msg.any (fun m => !sentFirst c m s.trace s'.trace) then .error .unsent
        else
          let k ← lift (s'.client c)
          let k := afterActions k next
          let s := s'.setClient c k
          if k.nextEvent = some .terminate then
            if k.msg.isSome then .error .unsent else lift (s.deleteClient k.hashkey)
          else loop rex n R L c s

/-- mirrors src/src/mlm_server_engine.inc:541-549 -/
def execute (rex : Str → Str → Bool) (n : Nat) (L : List Msg) (c : Cid) (e : Event) (s : Server) :
    Except Alarm Server := do
  let s ← lift (s.modifyClient c fun k => { k with nextEvent := some e })
  loop chk rex n [] L c s

/-! ## Steps -/

/-- mirrors src/src/mlm_server_engine.inc:1531-1567 -/
def handleProtocol (rex : Str → Str → Bool) (n : Nat) (parts : List Frame) (s : Server) :
    Except Alarm Server :=
  let (p, rc, rest) := recv s.message parts
  let s := { s with message := p, rest := rest, hand := none }
  match rc with
  | .interrupted => .ok { s with running := false }
  | .malformed => .ok (s.clientRequire (p.routingId.getD [])).2
  | .ok =>
    let (c, s) := s.clientRequire (p.routingId.getD [])
    execute chk rex n [] c (protocolEvent p) (s.hear c parts.tail p)

/-- mirrors src/src/mlm_server.c:119-141; the item has been read -/
def forwardStreamTraffic (rex : Str → Str → Bool) (n : Nat) (t : Traffic) (s : Server) :
    Except Alarm Server :=
  match t with
  | .ack c => lift (s.clientPut c)
  | .deliver c m => do
    let s ← see chk [m] s
    let k ← lift (s.client c)
    if k.state = .zombie then drop chk [] m s
    else if k.msg.isSome then .error .slot
    else
      let s ← see chk [] (s.setClient c { k with msg := some m })
      let s ← sendEvent (execute chk rex n) [] s c .streamMessage
      let k ← lift (s.client c)
      if k.msg.isSome then .error .slot else .ok s

/-- The loop over the targets of a message. mirrors src/src/mlm_stream_simple.c:207-217 -/
def forward (name : Str) (m : Msg) : List Cid → Server → Except Alarm Server
  | [], s => .ok s
  | c :: cs, s => do
    let s ← share chk [m] m s
    let s ← see chk [m] (s.setStreams (s.streams.modify name fun st =>
      { st with up := st.up ++ [.deliver c m] }))
    forward name m cs s

/-- mirrors src/src/mlm_server.c:395-404 -/
def configure (service mailbox : MsgqCfg) (s : Server) : Except Alarm Server := do
  let s ← mailboxReads chk [] s.mailboxPipe { s with serviceCfg := service }
  .ok (s.setMailbox (s.mailbox.configure mailbox) s.mailboxPipe)

/-- When an actor is done: all slots are empty. -/
def settle (s : Server) : Except Alarm Server :=
  if slotsEmpty s then see chk [] s else .error .unsent

/-- One step under watch. -/
def step (rex : Str → Str → Bool) (n : Nat) (s : Server) (l : Label) :
    Option (Except Alarm Server) :=
  if s.running = false then none
  else match l with
  | .router rid frames =>
    if s.rest = [] ∧ frames ≠ [] then
      some (handleProtocol chk rex n (rid :: frames) s >>= settle chk)
    else none
  | .more => if s.rest ≠ [] then some (handleProtocol chk rex n s.rest s >>= settle chk) else none
  | .expired c =>
    match s.ctx c with
    | none => none
    | some k =>
      if s.rest = [] ∧ k.state ≠ .zombie then
        some (execute chk rex n [] c .expired s >>= settle chk)
      else none
  | .traffic name =>
    match s.streams.get name with
    | some { selectors, pending, up := t :: up } =>
      if s.rest = [] then
        some (forwardStreamTraffic chk rex n t
          (s.setStreams (s.streams.set name ⟨selectors, pending, up⟩)) >>= settle chk)
      else none
    | _ => none
  | .command name =>
    match (s.streams.get name).bind Stream.handleCommand with
    | none => none
    | some st => some (settle chk (s.setStreams (s.streams.set name st)))
  | .message name =>
    match s.streams.get name with
    | none => none
    | some st =>
      match st.handleMessage rex with
      | none => none
      | some (st', m, targets) => some do
        let s ← see chk [m] (s.setStreams (s.streams.set name { st' with up := st.up }))
        let s ← forward chk name m targets s
        let s ← drop chk [] m s
        settle chk (s.log (.forwarded name m targets))
  | .mailbox =>
    if s.mailboxPipe = [] then none else some (mailboxRead chk [] s >>= settle chk)
  | .configure service mailbox =>
    if s.rest = [] then some (configure chk service mailbox s >>= settle chk) else none

end
end Watched
end Malamute.L3
