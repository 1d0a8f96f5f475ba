import Malamute.L1Codec.Wire
import Malamute.L2Queue.Mailbox
import Malamute.L2Engine.Stream
import Mathlib.Logic.Function.Basic
import Mathlib.Tactic.Simps.Basic

/-!
# The state of the broker

`Server` is the server task (`src/src/mlm_server.c`, `mlm_server_engine.inc`)
together with the actors it talks to: the mailbox engine, the stream engines
and the pipes between them.

Client contexts are heap objects that other actors hold pointers to, so they
are kept by identity: `ctx c` is the context `c`, or `none` when it is not
allocated (not yet, or freed). An identity is never used twice.

The fields from `hand` on are not part of the program: they record what
happened, for the statements about runs.

Every operation on the state that the actions use is defined here, and changes
one or two fields; `simps` generates what each leaves alone.
-/
namespace Malamute.L3
open Malamute.Core Malamute.L1 Malamute.L2

/-- The key of a client in the engine's hash: `zframe_strhex` of the routing
id, which determines the routing id. -/
abbrev Key := Frame

/-- mirrors src/src/mlm_server_engine.inc:31-37 -/
inductive State where
  | start | connected | defaults | zombie
  deriving DecidableEq, Repr

/-- mirrors src/src/mlm_server_engine.inc:39-59 (`NULL_event` is `none`) -/
inductive Event where
  | terminate | connectionOpen | streamWrite | streamRead | streamCancel | streamSend
  | mailboxSend | serviceSend | serviceOffer | confirm | credit | connectionPing
  | connectionClose | streamMessage | mailboxMessage | serviceMessage | expired | exception
  deriving DecidableEq, Repr

/-- A client context: `s_client_t` with its `client_t`.
mirrors src/src/mlm_server_engine.inc:120-135 and src/src/mlm_server.c:98-112.
Going below zero stands for the wrap-around of `size_t`: either way the count
is not zero. -/
structure Client where
  hashkey : Key
  refcount : Int
  state : State
  nextEvent : Option Event
  exception : Option Event
  /-- `none` is the NULL pointer -/
  address : Option Str
  /-- the stream, by name -/
  writer : Option Str
  readers : List Str
  msg : Option Msg
  deriving DecidableEq

/-- mirrors src/src/mlm_server.c:70-74; `oid` tells offers apart -/
structure Offer where
  oid : Nat
  pattern : Str
  client : Cid
  deriving DecidableEq

/-- mirrors src/src/mlm_server.c:60-64 -/
structure Service where
  offers : CursorList Offer
  queue : Msgq

def Service.new : Service := ⟨.empty, .new⟩

@[simps] def Service.setOffers (v : Service) (offers : CursorList Offer) : Service :=
  { v with offers := offers }

@[simps] def Service.setQueue (v : Service) (queue : Msgq) : Service := { v with queue := queue }

/-- Delete the offers of `c`, at a cursor. mirrors src/src/mlm_server.c:755-760 -/
def Service.withdraw (c : Cid) (v : Service) : Service :=
  { v with offers := v.offers.reset.sweep (fun o => o.client = c) }

/-- Where messages wait: the mailbox of an address, the queue of a service. -/
inductive Box where
  | mailbox (address : Str)
  | service (name : Str)
  deriving DecidableEq

/-- What happened, in order. -/
inductive Obs where
  /-- a message has been read from client `c`, whose address is `holder`: its
  frames, and what the message object stands for now -/
  | received (c : Cid) (holder : Option Str) (frames : List Frame) (w : Option Wire)
  /-- a client's state machine takes a transition -/
  | event (c : Cid) (e : Event)
  /-- a frame goes to client `c`, whose address is `holder`; `hand` is the
  message last stored into the message object -/
  | sent (c : Cid) (holder : Option Str) (w : Option Wire) (hand : Option Msg)
  /-- `mlm_msg_new` for STREAM SEND, MAILBOX SEND, SERVICE SEND -/
  | published (c : Cid) (stream : Str) (m : Msg)
  | mailed (c : Cid) (m : Msg)
  | requested (c : Cid) (m : Msg)
  /-- dispatched by the service to the client of an offer, one of `offers` -/
  | dispatched (service : Str) (offers : List Offer) (offer : Offer) (m : Msg)
  /-- refused by the size limit of `box` -/
  | dropped (box : Box) (m : Msg)
  /-- STREAM READ, STREAM CANCEL, SERVICE OFFER executed -/
  | subscribed (c : Cid) (stream pattern : Str)
  | cancelled (c : Cid) (stream : Str)
  | offered (c : Cid) (service : Str) (offer : Offer)
  /-- deregistered and terminated; a CANCEL has gone to each of `readers` -/
  | left (c : Cid) (readers : List Str)
  /-- a stream engine has read message `m` and forwarded it to `targets` -/
  | forwarded (stream : Str) (m : Msg) (targets : List Cid)
  deriving DecidableEq

@[ext] structure Server where
  /-- the message object all clients share -/
  message : Proto
  ctx : Cid → Option Client
  /-- `s_server_t.clients` -/
  clients : Table Key Cid
  zombies : Table Key Cid
  /-- `server_t.clients` -/
  addresses : Table Str Cid
  streams : Table Str Stream
  services : Table Str Service
  serviceCfg : MsgqCfg
  mailbox : Mailbox
  /-- STORE commands the mailbox engine has not read -/
  mailboxPipe : List (Str × Msg)
  /-- reference counts of the messages -/
  refs : Nat → Int
  /-- the next identities -/
  clientId : Cid
  messageId : Nat
  offerId : Nat
  /-- frames of the last multipart message still on the router socket -/
  rest : List Frame
  /-- the reactor has not ended -/
  running : Bool
  hand : Option Msg
  trace : List Obs

namespace Server

/-- mirrors src/src/mlm_server_engine.inc:1336-1368 and src/src/mlm_server.c:325-342 -/
def new : Server where
  message := .new
  ctx _ := none
  clients := .empty
  zombies := .empty
  addresses := .empty
  streams := .empty
  services := .empty
  serviceCfg := .new
  mailbox := .new
  mailboxPipe := []
  refs _ := 0
  clientId := 0
  messageId := 0
  offerId := 0
  rest := []
  running := true
  hand := none
  trace := []

/-! ## Operations -/

@[simps] def log (s : Server) (o : Obs) : Server := { s with trace := s.trace ++ [o] }

@[simps] def setMessage (s : Server) (p : Proto) : Server := { s with message := p }

@[simps] def setHand (s : Server) (m : Option Msg) : Server := { s with hand := m }

@[simps] def setClient (s : Server) (c : Cid) (k : Client) : Server :=
  { s with ctx := Function.update s.ctx c (some k) }

@[simps] def freeClient (s : Server) (c : Cid) : Server :=
  { s with ctx := Function.update s.ctx c none }

@[simps] def setClients (s : Server) (t : Table Key Cid) : Server := { s with clients := t }

@[simps] def setZombies (s : Server) (t : Table Key Cid) : Server := { s with zombies := t }

@[simps] def setAddresses (s : Server) (t : Table Str Cid) : Server := { s with addresses := t }

@[simps] def setStreams (s : Server) (t : Table Str Stream) : Server := { s with streams := t }

@[simps] def setServices (s : Server) (t : Table Str Service) : Server := { s with services := t }

@[simps] def setMailbox (s : Server) (b : Mailbox) (pipe : List (Str × Msg)) : Server :=
  { s with mailbox := b, mailboxPipe := pipe }

/-- mirrors src/src/mlm_msg.c:133-139 -/
@[simps] def link (s : Server) (m : Msg) : Server :=
  { s with refs := Function.update s.refs m.mid (s.refs m.mid + 1) }

/-- `mlm_msg_link` as often as there are targets. -/
@[simps] def linkTimes (s : Server) (m : Msg) (n : Nat) : Server :=
  { s with refs := Function.update s.refs m.mid (s.refs m.mid + n) }

/-- mirrors src/src/mlm_msg.c:145-155; the message is destroyed when the count
reaches zero -/
@[simps] def unlink (s : Server) (m : Msg) : Server :=
  { s with refs := Function.update s.refs m.mid (s.refs m.mid - 1) }

/-- A new message has one reference. -/
@[simps] def newMsg (s : Server) (m : Msg) : Server :=
  { s with refs := Function.update s.refs m.mid 1, messageId := s.messageId + 1 }

@[simps] def newOffer (s : Server) : Server := { s with offerId := s.offerId + 1 }

@[simps] def setStatus (s : Server) (n : UInt16) : Server :=
  { s with message := s.message.setStatusCode n }

/-- Follow a `client_t *`. -/
def client (s : Server) (c : Cid) : Except Fault Client :=
  match s.ctx c with
  | none => .error .freed
  | some k => .ok k

/-- Change a context. -/
def modifyClient (s : Server) (c : Cid) (f : Client → Client) : Except Fault Server := do
  let k ← s.client c
  .ok (s.setClient c (f k))

/-- The stream `name` exists from now on. mirrors src/src/mlm_server.c:178-187 -/
@[simps] def streamRequire (s : Server) (name : Str) : Server :=
  { s with streams := s.streams.ensure name .new }

/-- mirrors src/src/mlm_server.c:259-268 -/
@[simps] def serviceRequire (s : Server) (name : Str) : Server :=
  { s with services := s.services.ensure name .new }

/-- Write to one of the pipes of a stream. -/
@[simps] def pushStream (s : Server) (name : Str) (i : Issue) : Server :=
  { s with streams := s.streams.modify name (·.push i) }

/-- The service called `name`. -/
def service (s : Server) (name : Str) : Service := (s.services.get name).getD .new

@[simps] def setService (s : Server) (name : Str) (v : Service) : Server :=
  { s with services := s.services.set name v }

end Server
end Malamute.L3
