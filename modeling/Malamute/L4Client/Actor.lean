import Malamute.L1Codec.Wire
import Malamute.L2Queue.Msgq

/-!
# The client actor (`src/src/mlm_client.c`, `src/src/mlm_client_engine.inc`)

`Actor` is the engine's `s_client_t` with the `client_t` at its start. Method
arguments arrive as C strings of any length; what goes into the message object
is cut to the 255 bytes of its fields (`CString.field`). Those of a message come
through `zsock_brecv`, with the 255 bytes of its `s` at most (`Str`).

Two things the actor uses are not part of the repository and are the
parameters of `Env`: whether ZeroMQ accepts an endpoint, and whether zrex
accepts a pattern.

The fields from `calls` on record what crossed the borders of the actor: method
calls and their replies on the command pipe, frames written to the server, and
deliveries on the message pipe.
-/
namespace Malamute.L4
open Malamute.Core Malamute.L1 Malamute.L2

/-- A C string: any number of bytes, none of them NUL. -/
@[ext] structure CString where
  bytes : List UInt8
  noNul : (0 : UInt8) ∉ bytes

instance : DecidableEq CString := fun _ _ => decidable_of_iff _ CString.ext_iff.symm

/-- What the `mlm_proto_set_*` functions leave in a field. -/
def CString.field (s : CString) : Str := Str.ofBytes s.bytes

/-- mirrors src/src/mlm_client_engine.inc:26-36 -/
inductive State where
  | start | connecting | connected | confirming | terminating | reconnecting | disconnected
  | defaults | haveError
  deriving DecidableEq, Repr

/-- mirrors src/src/mlm_client_engine.inc:38-61 (`NULL_event` is `none`) -/
inductive Event where
  | setPlainAuth | connect | badEndpoint | destructor | setProducer | setConsumer
  | removeConsumer | setWorker | ok | expired | badPattern | streamDeliver | mailboxDeliver
  | serviceDeliver | error | connectionPong | replayReady | heartbeat | commandInvalid | failed
  | other
  deriving DecidableEq, Repr

/-- A record of the replay list; the constructor is its `name`. WRITE and CANCEL
have a NULL pattern, and OFFER keeps its address as the stream.
mirrors src/src/mlm_client.c:48-52 -/
inductive Replay where
  | streamWrite (stream : CString)
  | streamRead (stream pattern : CString)
  | serviceOffer (stream pattern : CString)
  | streamCancel (stream : CString)
  deriving DecidableEq

/-- The method arguments the engine keeps; `none` is the NULL pointer.
mirrors src/src/mlm_client_engine.inc:111-119 -/
structure Args where
  username : Option CString
  password : Option CString
  endpoint : Option CString
  timeout : UInt32
  address : Option CString
  stream : Option CString
  pattern : Option CString
  deriving DecidableEq

def Args.new : Args := ⟨none, none, none, 0, none, none, none⟩

/-- What the actor writes to the command pipe. -/
inductive Reply where
  | success
  | failure (reason : Str)
  deriving DecidableEq

/-- What the actor writes to the message pipe. -/
inductive Delivery where
  | stream (address sender subject : Str) (content : Option (List Frame))
  | mailbox (sender address subject tracker : Str) (content : Option (List Frame))
  | service (sender address subject tracker : Str) (content : Option (List Frame))
  deriving DecidableEq

/-- ZeroMQ and zrex. -/
structure Env where
  connectable : CString → Bool
  valid : CString → Bool

/-- mirrors src/src/mlm_client_engine.inc:121-144 and src/src/mlm_client.c:25-41 -/
@[ext] structure Actor where
  /-- the message received or sent -/
  message : Proto
  args : Args
  connected : Bool
  terminated : Bool
  fsmStopped : Bool
  /-- in msecs; zero is no timer -/
  expiry : Nat
  heartbeat : Nat
  state : State
  nextEvent : Option Event
  exception : Option Event
  myaddress : Option CString
  /-- `client_t.heartbeat_timer` -/
  heartbeatTimer : Nat
  replays : CursorList Replay
  /-- PLAIN credentials of the dealer socket -/
  plain : Option (CString × CString)
  calls : Nat
  replies : List Reply
  sent : List Wire
  passed : List Delivery
  deriving DecidableEq

/-- An ASCII text as a field of the message. -/
def text (s : String) : Str := Str.ofBytes (s.toList.map fun c => UInt8.ofNat c.toNat)

namespace Actor

/-- mirrors src/src/mlm_client_engine.inc:211-243 and src/src/mlm_client.c:107-115 -/
def new : Actor where
  message := .new
  args := .new
  connected := false
  terminated := false
  fsmStopped := false
  expiry := 0
  heartbeat := 0
  state := .start
  nextEvent := none
  exception := none
  myaddress := none
  heartbeatTimer := 1000
  replays := .empty
  plain := none
  calls := 0
  replies := []
  sent := []
  passed := []

/-! ## Engine API -/

/-- mirrors src/src/mlm_client_engine.inc:276-283 -/
@[simps] def setNextEvent (a : Actor) (e : Event) : Actor := { a with nextEvent := some e }

/-- mirrors src/src/mlm_client_engine.inc:288-295 -/
@[simps] def setException (a : Actor) (e : Event) : Actor := { a with exception := some e }

/-- mirrors src/src/mlm_client_engine.inc:320-333 -/
@[simps] def setHeartbeat (a : Actor) (heartbeat : Nat) : Actor := { a with heartbeat := heartbeat }

/-- mirrors src/src/mlm_client_engine.inc:345-359 -/
@[simps] def setExpiry (a : Actor) (expiry : Nat) : Actor := { a with expiry := expiry }

/-- mirrors src/src/mlm_client_engine.inc:382-389 -/
@[simps] def setConnected (a : Actor) (connected : Bool) : Actor := { a with connected := connected }

@[simps] def setState (a : Actor) (state : State) : Actor := { a with state := state }

@[simps] def setMessage (a : Actor) (p : Proto) : Actor := { a with message := p }

@[simps] def setArgs (a : Actor) (args : Args) : Actor := { a with args := args }

@[simps] def setReplays (a : Actor) (replays : CursorList Replay) : Actor :=
  { a with replays := replays }

@[simps] def setMyaddress (a : Actor) (address : CString) : Actor :=
  { a with myaddress := some address }

/-- `zsock_set_plain_username` and `zsock_set_plain_password` -/
@[simps] def setPlain (a : Actor) (username password : CString) : Actor :=
  { a with plain := some (username, password) }

/-- The `terminate` action. -/
@[simps] def stop (a : Actor) : Actor := { a with fsmStopped := true }

/-- Write a reply to the command pipe. -/
@[simps] def reply (a : Actor) (r : Reply) : Actor := { a with replies := a.replies ++ [r] }

/-- Write a delivery to the message pipe. -/
@[simps] def pass (a : Actor) (d : Delivery) : Actor := { a with passed := a.passed ++ [d] }

/-- The message object with the id of what is sent next. -/
def stamped (a : Actor) (id : Id) : Proto := { a.message with id := id.code }

/-- `mlm_proto_set_id` and `mlm_proto_send`.
mirrors for instance src/src/mlm_client_engine.inc:514-515 -/
@[simps] def send (a : Actor) (id : Id) : Actor :=
  { a with message := a.stamped id, sent := a.sent ++ (a.stamped id).wire.toList }

/-- The start of a round. -/
@[simps] def clear (a : Actor) : Actor := { a with nextEvent := none, exception := none }

/-- Follow a `char *`. -/
def deref (s : Option CString) : Except Fault CString :=
  match s with
  | none => .error .nullPointer
  | some s => .ok s

@[simp] theorem deref_some (s : CString) : deref (some s) = .ok s := rfl

/-! ## Actions -/

/-- mirrors src/src/mlm_client.c:132-137 -/
def usePlainSecurityMechanism (a : Actor) : Except Fault Actor := do
  let username ← deref a.args.username
  let password ← deref a.args.password
  .ok (a.setPlain username password)

/-- mirrors src/src/mlm_client.c:144-151 -/
def connectToServerEndpoint (env : Env) (a : Actor) : Except Fault Actor := do
  let endpoint ← deref a.args.endpoint
  if env.connectable endpoint then .ok a else .ok (a.setException .badEndpoint)

/-- mirrors src/src/mlm_client.c:158-162 -/
def setClientAddress (a : Actor) : Except Fault Actor := do
  let myaddress ← deref a.myaddress
  .ok (a.setMessage (a.message.setStr .address myaddress.field))

/-- mirrors src/src/mlm_client.c:168-174 -/
def rememberClientAddress (a : Actor) : Except Fault Actor := do
  let address ← deref a.args.address
  .ok (a.setMyaddress address)

/-- mirrors src/src/mlm_client.c:181-185 -/
@[simp] def useConnectTimeout (a : Actor) : Actor := a.setExpiry a.args.timeout.toNat

/-- mirrors src/src/mlm_client.c:192-200 -/
@[simp] def clientIsConnected (a : Actor) : Actor :=
  ((a.setConnected true).setHeartbeat a.heartbeatTimer).setExpiry (a.heartbeatTimer * 4)

/-- mirrors src/src/mlm_client.c:207-214 -/
@[simp] def serverHasGoneOffline (a : Actor) : Actor := (a.setHeartbeat 0).setConnected false

/-- mirrors src/src/mlm_client.c:221-227 -/
def prepareStreamWriteCommand (a : Actor) : Except Fault Actor := do
  let stream ← deref a.args.stream
  .ok ((a.setReplays (a.replays.addEnd (.streamWrite stream))).setMessage
    (a.message.setStr .stream stream.field))

/-- mirrors src/src/mlm_client.c:234-248 -/
def prepareStreamReadCommand (env : Env) (a : Actor) : Except Fault Actor := do
  let stream ← deref a.args.stream
  let pattern ← deref a.args.pattern
  if env.valid pattern then
    .ok ((a.setReplays (a.replays.addEnd (.streamRead stream pattern))).setMessage
      ((a.message.setStr .stream stream.field).setStr .pattern pattern.field))
  else .ok (a.setException .badPattern)

/-- mirrors src/src/mlm_client.c:1336-1342 -/
def prepareStreamCancelCommand (a : Actor) : Except Fault Actor := do
  let stream ← deref a.args.stream
  .ok ((a.setReplays (a.replays.addEnd (.streamCancel stream))).setMessage
    (a.message.setStr .stream stream.field))

/-- mirrors src/src/mlm_client.c:255-262 -/
def prepareServiceOfferCommand (a : Actor) : Except Fault Actor := do
  let address ← deref a.args.address
  let pattern ← deref a.args.pattern
  .ok ((a.setReplays (a.replays.addEnd (.serviceOffer address pattern))).setMessage
    ((a.message.setStr .address address.field).setStr .pattern pattern.field))

/-- A CANCEL record matches no branch. mirrors src/src/mlm_client.c:79-102 -/
def replayExecute (a : Actor) : Option Replay → Actor
  | some (.streamWrite stream) =>
    (a.setNextEvent .setProducer).setMessage (a.message.setStr .stream stream.field)
  | some (.streamRead stream pattern) =>
    (a.setNextEvent .setConsumer).setMessage
      ((a.message.setStr .stream stream.field).setStr .pattern pattern.field)
  | some (.serviceOffer stream pattern) =>
    (a.setNextEvent .setWorker).setMessage
      ((a.message.setStr .address stream.field).setStr .pattern pattern.field)
  | some (.streamCancel _) => a
  | none => a.setNextEvent .replayReady

/-- mirrors src/src/mlm_client.c:269-274 -/
def getFirstReplayCommand (a : Actor) : Actor :=
  (a.setReplays a.replays.first.1).replayExecute a.replays.first.2

/-- mirrors src/src/mlm_client.c:281-286 -/
def getNextReplayCommand (a : Actor) : Actor :=
  (a.setReplays a.replays.next.1).replayExecute a.replays.next.2

/-- mirrors src/src/mlm_client.c:294-303: the content moves to the application -/
def passStreamMessageToApp (a : Actor) : Actor :=
  (a.pass (.stream a.message.address a.message.sender a.message.subject
    a.message.content)).setMessage a.message.takeContent

/-- mirrors src/src/mlm_client.c:310-320 -/
def passMailboxMessageToApp (a : Actor) : Actor :=
  (a.pass (.mailbox a.message.sender a.message.address a.message.subject a.message.tracker
    a.message.content)).setMessage a.message.takeContent

/-- mirrors src/src/mlm_client.c:327-337 -/
def passServiceMessageToApp (a : Actor) : Actor :=
  (a.pass (.service a.message.sender a.message.address a.message.subject a.message.tracker
    a.message.content)).setMessage a.message.takeContent

/-- mirrors src/src/mlm_client.c:344-348 -/
@[simp] def signalSuccess (a : Actor) : Actor := a.reply .success

/-- mirrors src/src/mlm_client.c:355-359 -/
@[simp] def signalBadEndpoint (a : Actor) : Actor :=
  a.reply (.failure (text "Syntax error in server endpoint"))

/-- mirrors src/src/mlm_client.c:366-370 -/
@[simp] def signalFailure (a : Actor) : Actor := a.reply (.failure a.message.statusReason)

/-- mirrors src/src/mlm_client.c:377-387 -/
def checkStatusCode (a : Actor) : Actor :=
  if a.message.statusCode = commandInvalid then a.setNextEvent .commandInvalid
  else if a.message.statusCode = failed then a.setNextEvent .failed
  else a.setNextEvent .other

/-- mirrors src/src/mlm_client.c:394-398 -/
@[simp] def signalServerNotPresent (a : Actor) : Actor :=
  a.reply (.failure (text "Server is not reachable"))

/-- mirrors src/src/mlm_client.c:1325-1329 -/
@[simp] def signalBadPattern (a : Actor) : Actor := a.reply (.failure (text "Pattern regexp is not valid"))

end Actor
end Malamute.L4
