import Malamute.L3Server.Machine
import Malamute.Core.Partial

/-!
# The actions of the server (`src/src/mlm_server.c`)

Each action takes the client it runs for and the state, and may fail as the
code may: on an `assert`, a NULL pointer, or a context that was freed. An
action that sends an event to a client starts another execution of the state
machine; that is the parameter `ex` (`s_client_execute`, with less fuel).

Allocation failures are not modelled: `s_stream_require`, `s_service_require`
and the constructors always succeed.
-/
namespace Malamute.L3
open Malamute.Core Malamute.L1 Malamute.L2

/-- `s_client_execute` -/
abbrev Exec := Cid → Event → Server → Except Fault Server

namespace Server

/-! ## Engine API -/

/-- mirrors src/src/mlm_server_engine.inc:230-237 -/
def setNextEvent (s : Server) (c : Cid) (e : Event) : Except Fault Server :=
  s.modifyClient c fun k => if k.state = .zombie then k else { k with nextEvent := some e }

/-- mirrors src/src/mlm_server_engine.inc:242-249 -/
def setException (s : Server) (c : Cid) (e : Event) : Except Fault Server :=
  s.modifyClient c fun k => if k.state = .zombie then k else { k with exception := some e }

/-- mirrors src/src/mlm_server_engine.inc:273-280 -/
def sendEvent (ex : Exec) (s : Server) (c : Cid) (e : Event) : Except Fault Server := do
  let k ← s.client c
  if k.state = .zombie then .ok s else ex c e s

/-- mirrors src/src/mlm_server_engine.inc:204-210 -/
def clientGet (s : Server) (c : Cid) : Except Fault Server :=
  s.modifyClient c fun k => { k with refcount := k.refcount + 1 }

/-- `zhashx_delete` on `server_t.clients`: its destructor frees the address of
the client it finds. mirrors src/src/mlm_server.c:309-320 -/
def deleteAddress (s : Server) (a : Str) : Except Fault Server :=
  match s.addresses.get a with
  | none => .ok s
  | some c => do
    let s ← s.modifyClient c fun k => { k with address := none }
    .ok (s.setAddresses (s.addresses.del a))

/-- mirrors src/src/mlm_server.c:418-456 -/
def clientTerminate (s : Server) (c : Cid) : Except Fault Server := do
  let k ← s.client c
  match k.address with
  | none => .ok s
  | some a =>
    if a = .empty then s.modifyClient c fun k => { k with address := none }
    else s.deleteAddress a

/-- mirrors src/src/mlm_server_engine.inc:520-528 (`s_client_finalize`) -/
def clientFinalize (s : Server) (c : Cid) : Except Fault Server := do
  let s ← s.clientTerminate c
  .ok (s.freeClient c)

/-- mirrors src/src/mlm_server_engine.inc:213-221 -/
def clientPut (s : Server) (c : Cid) : Except Fault Server := do
  let s ← s.modifyClient c fun k => { k with refcount := k.refcount - 1 }
  let k ← s.client c
  if k.refcount = 0 ∧ k.state = .zombie then
    (s.setZombies (s.zombies.del k.hashkey)).clientFinalize c
  else .ok s

/-- mirrors src/src/mlm_server_engine.inc:498-518 -/
def clientDestroy (s : Server) (c : Cid) : Except Fault Server := do
  let k ← s.client c
  if k.refcount = 0 then s.clientFinalize c
  else
    (s.setZombies (s.zombies.ensure k.hashkey c)).modifyClient c fun k => { k with state := .zombie }

/-- `zhash_delete` on `s_server_t.clients`, which calls `s_client_free`. -/
def deleteClient (s : Server) (key : Key) : Except Fault Server :=
  match s.clients.get key with
  | none => .ok s
  | some c => do
    let s ← s.clientDestroy c
    .ok (s.setClients (s.clients.del key))

/-- mirrors src/src/mlm_server_engine.inc:470-496 and the insertion at 1545-1549 -/
def clientNew (s : Server) (key : Key) : Server :=
  { s with
    ctx := Function.update s.ctx s.clientId (some
      { hashkey := key, refcount := 0, state := .start, nextEvent := none, exception := none,
        address := none, writer := none, readers := [], msg := none })
    clients := s.clients.set key s.clientId
    clientId := s.clientId + 1 }

/-! ## Mailbox engine -/

/-- The mailbox engine reads one STORE. -/
def mailboxRead (s : Server) : Except Fault Server :=
  match s.mailboxPipe with
  | [] => .ok s
  | (a, m) :: pipe => do
    let (b, verdict) ← s.mailbox.store a m
    let s := s.setMailbox b pipe
    match verdict with
    | .queued _ => .ok s
    | .refused => .ok ((s.unlink m).log (.dropped (.mailbox a) m))

/-- The mailbox engine reads as many commands as the list is long. -/
def mailboxReads : List (Str × Msg) → Server → Except Fault Server
  | [], s => .ok s
  | _ :: pipe, s => do
    let s ← s.mailboxRead
    mailboxReads pipe s

/-- QUERY and its reply: the engine reads all earlier commands first. -/
def mailboxQuery (s : Server) (a : Str) : Except Fault (Server × Option Msg) := do
  let s ← mailboxReads s.mailboxPipe s
  let (b, m) ← s.mailbox.query a
  .ok (s.setMailbox b s.mailboxPipe, m)

/-! ## Services -/

/-- mirrors src/src/mlm_server.c:271-289; the result says if the message was
dispatched -/
def serviceDispatchMessage (rex : Str → Str → Bool) (ex : Exec) (s : Server) (name : Str)
    (m : Msg) : Except Fault (Server × Bool) :=
  let v := s.service name
  match v.offers.reset.seek (fun o => rex o.pattern m.subject) with
  | (offers, none) => .ok (s.setService name (v.setOffers offers), false)
  | (offers, some o) => do
    let s := s.setService name (v.setOffers offers)
    let target ← s.client o.client
    if target.msg.isSome then .error .assertion
    else
      let s := (s.setClient o.client { target with msg := some m }).log
        (.dispatched name v.offers.items o m)
      let s ← s.sendEvent ex o.client .serviceMessage
      let v := s.service name
      .ok (s.setService name (v.setOffers v.offers.moveEnd), true)

/-- The loop of `s_service_dispatch`, at message `m`.
mirrors src/src/mlm_server.c:296-303 -/
def serviceDispatchLoop (rex : Str → Str → Bool) (ex : Exec) (name : Str) :
    Nat → Option Msg → Server → Except Fault Server
  | _, none, s => .ok s
  | 0, some _, _ => .error .fuel
  | n + 1, some m, s => do
    let (s, dispatched) ← (s.link m).serviceDispatchMessage rex ex name m
    let s ← if dispatched then do
        let queue ← (s.service name).queue.dequeueCursor s.serviceCfg
        .ok (s.setService name ((s.service name).setQueue queue))
      else .ok s
    let s := s.unlink m
    let (queue, m) := (s.service name).queue.next
    serviceDispatchLoop rex ex name n m (s.setService name ((s.service name).setQueue queue))

/-- mirrors src/src/mlm_server.c:291-305 -/
def serviceDispatch (rex : Str → Str → Bool) (ex : Exec) (n : Nat) (s : Server) (name : Str) :
    Except Fault Server :=
  if (s.service name).offers.size = 0 then .ok s
  else
    let (queue, m) := (s.service name).queue.first
    serviceDispatchLoop rex ex name n m (s.setService name ((s.service name).setQueue queue))

/-! ## Actions -/

/-- mirrors src/src/mlm_server.c:463-482 -/
def registerNewClient (ex : Exec) (c : Cid) (s : Server) : Except Fault Server := do
  let a := s.message.address
  let s ← s.modifyClient c fun k => { k with address := some a }
  if a = .empty then .ok (s.setStatus success)
  else do
    let s ← match s.addresses.get a with
      | some existing => s.sendEvent ex existing .expired
      | none => .ok s
    -- zhashx_update destroys the value it replaces
    let s ← s.deleteAddress a
    .ok ((s.setAddresses (s.addresses.set a c)).setStatus success)

/-- mirrors src/src/mlm_server.c:489-500 -/
def storeStreamWriter (c : Cid) (s : Server) : Except Fault Server := do
  let name := s.message.stream
  let s ← (s.streamRequire name).modifyClient c fun k => { k with writer := some name }
  .ok (s.setStatus success)

/-- mirrors src/src/mlm_server.c:507-521 -/
def storeStreamReader (c : Cid) (s : Server) : Except Fault Server := do
  let name := s.message.stream
  let pattern := s.message.pattern
  let s ← (s.streamRequire name).modifyClient c fun k => { k with readers := k.readers ++ [name] }
  let s := s.pushStream name (.command (.compile c pattern))
  let s ← s.clientGet c
  .ok ((s.setStatus success).log (.subscribed c name pattern))

/-- mirrors src/src/mlm_server.c:1226-1239: CANCEL goes to the named stream, and
the first reader leaves the list -/
def cancelStreamReader (c : Cid) (s : Server) : Except Fault Server := do
  let name := s.message.stream
  let s := (s.streamRequire name).pushStream name (.command (.cancel c))
  let s ← s.modifyClient c fun k => { k with readers := k.readers.tail }
  .ok (s.log (.cancelled c name))

/-- mirrors src/src/mlm_server.c:528-545 -/
def writeMessageToStream (c : Cid) (s : Server) : Except Fault Server := do
  let k ← s.client c
  match k.writer, k.address with
  | none, _ => s.setException c .exception
  | some _, none => .error .assertion
  | some name, some sender =>
    let p := s.message
    let m : Msg := ⟨s.messageId, sender, name, p.subject, none, p.timeout, p.content⟩
    let s := (s.newMsg m).setMessage p.takeContent
    .ok ((s.pushStream name (.message c m)).log (.published c name m))

/-- The message of a MAILBOX SEND or SERVICE SEND.
mirrors src/src/mlm_server.c:555-561 and 586-592 -/
def messageFrom (s : Server) (sender : Str) : Msg :=
  ⟨s.messageId, sender, s.message.address, s.message.subject, some s.message.tracker,
    s.message.timeout, s.message.content⟩

/-- mirrors src/src/mlm_server.c:552-576 -/
def writeMessageToMailbox (ex : Exec) (c : Cid) (s : Server) : Except Fault Server := do
  let k ← s.client c
  match k.address with
  | none => .error .assertion
  | some sender =>
    let m := s.messageFrom sender
    let s := ((s.newMsg m).setMessage s.message.takeContent).log (.mailed c m)
    match s.addresses.get m.address with
    | some target => do
      let t ← s.client target
      if t.msg.isSome then .error .assertion
      else (s.setClient target { t with msg := some m }).sendEvent ex target .mailboxMessage
    | none => .ok (s.setMailbox s.mailbox (s.mailboxPipe ++ [(m.address, m)]))

/-- mirrors src/src/mlm_server.c:583-598 -/
def writeMessageToService (rex : Str → Str → Bool) (ex : Exec) (c : Cid) (s : Server) :
    Except Fault Server := do
  let k ← s.client c
  match k.address with
  | none => .error .assertion
  | some sender =>
    let m := s.messageFrom sender
    let s := ((s.newMsg m).setMessage s.message.takeContent).log (.requested c m)
    let (s, dispatched) ← (s.serviceRequire m.address).serviceDispatchMessage rex ex m.address m
    if dispatched then .ok s
    else do
      let v := s.service m.address
      let (queue, verdict) ← v.queue.enqueue s.serviceCfg m
      let s := s.setService m.address (v.setQueue queue)
      match verdict with
      | .queued _ => .ok s
      | .refused => .ok ((s.unlink m).log (.dropped (.service m.address) m))

/-- mirrors src/src/mlm_server.c:605-613 -/
def storeServiceOffer (c : Cid) (s : Server) : Except Fault Server :=
  let name := s.message.address
  let offer : Offer := ⟨s.offerId, s.message.pattern, c⟩
  let s := s.newOffer.serviceRequire name
  let v := s.service name
  .ok ((s.setService name (v.setOffers (v.offers.addEnd offer))).log (.offered c name offer))

/-- mirrors src/src/mlm_server.c:620-626 -/
def dispatchTheService (rex : Str → Str → Bool) (ex : Exec) (n : Nat) (s : Server) :
    Except Fault Server :=
  (s.serviceRequire s.message.address).serviceDispatch rex ex n s.message.address

/-- mirrors src/src/mlm_server.c:633-659 -/
def checkForMailboxMessages (c : Cid) (s : Server) : Except Fault Server := do
  let k ← s.client c
  match k.address with
  | none => .error .nullPointer
  | some a =>
    if a = .empty then .ok s
    else do
      let (s, m) ← s.mailboxQuery a
      let s ← s.modifyClient c fun k => { k with msg := m }
      match m with
      | none => .ok s
      | some _ => s.setNextEvent c .mailboxMessage

/-- mirrors src/src/mlm_server.c:666-671 -/
def getMessageToDeliver (c : Cid) (s : Server) : Except Fault Server := do
  let k ← s.client c
  match k.msg with
  | none => .error .nullPointer
  | some m =>
    let s := ((s.setMessage (m.setProto s.message)).setHand (some m)).unlink m
    s.modifyClient c fun k => { k with msg := none }

/-- mirrors src/src/mlm_server.c:678-683 -/
def haveMessageConfirmation (c : Cid) (s : Server) : Except Fault Server :=
  s.setException c .exception

/-- mirrors src/src/mlm_server.c:713-718 -/
def clientClosedConnection (c : Cid) (s : Server) : Except Fault Server := do
  let k ← s.client c
  match k.address with
  | none => .error .nullPointer
  | some _ => .ok s

/-- CANCEL to the stream of every reader, in the order of the list. -/
@[simps] def cancelReaders (c : Cid) (readers : List Str) (s : Server) : Server :=
  { s with streams :=
      readers.foldl (fun t name => t.modify name (·.push (.command (.cancel c)))) s.streams }

/-- Delete the offers of `c` from every service. -/
@[simps] def withdrawOffers (c : Cid) (s : Server) : Server :=
  { s with services := s.services.map (Service.withdraw c) }

/-- mirrors src/src/mlm_server.c:737-768 -/
def deregisterTheClient (c : Cid) (s : Server) : Except Fault Server := do
  let k ← s.client c
  match k.address with
  | none => .ok (s.setStatus success)
  | some a => do
    let s ← (s.cancelReaders c k.readers).modifyClient c fun k => { k with readers := [] }
    let s := s.withdrawOffers c
    let s ← if a = .empty then .ok s else s.deleteAddress a
    .ok ((s.setStatus success).log (.left c k.readers))

/-- `send` in the state machine.
mirrors for instance src/src/mlm_server_engine.inc:574-576 -/
def send (c : Cid) (id : Id) (s : Server) : Except Fault Server := do
  let k ← s.client c
  let p := s.message.setId id k.hashkey
  .ok ((s.setMessage p).log (.sent c k.address p.wire s.hand))

/-- One action. `client_expired`, `client_had_exception` and `credit_the_client`
have no effect but a log line, which prints a NULL address as such. -/
def runAction (rex : Str → Str → Bool) (ex : Exec) (n : Nat) (c : Cid) (a : Action) (s : Server) :
    Except Fault Server :=
  match a with
  | .registerNewClient => s.registerNewClient ex c
  | .checkForMailboxMessages => s.checkForMailboxMessages c
  | .signalCommandInvalid => .ok (s.setStatus commandInvalid)
  | .storeStreamWriter => s.storeStreamWriter c
  | .storeStreamReader => s.storeStreamReader c
  | .cancelStreamReader => s.cancelStreamReader c
  | .writeMessageToStream => s.writeMessageToStream c
  | .writeMessageToMailbox => s.writeMessageToMailbox ex c
  | .writeMessageToService => s.writeMessageToService rex ex c
  | .storeServiceOffer => s.storeServiceOffer c
  | .dispatchTheService => s.dispatchTheService rex ex n
  | .haveMessageConfirmation => s.haveMessageConfirmation c
  | .creditTheClient => .ok s
  | .clientClosedConnection => s.clientClosedConnection c
  | .deregisterTheClient => s.deregisterTheClient c
  | .getMessageToDeliver => s.getMessageToDeliver c
  | .clientExpired => .ok s
  | .signalOperationFailed => .ok (s.setStatus failed)
  | .clientHadException => .ok s
  | .send id => s.send c id
  | .terminate => s.modifyClient c fun k => { k with nextEvent := some .terminate }

end Server
end Malamute.L3
