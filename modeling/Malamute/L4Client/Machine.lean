import Malamute.L4Client.Actor
import Malamute.Core.Partial
import Malamute.Core.LTS

/-!
# The client state machine (`src/src/mlm_client.xml`)

`transition` is the table that `s_client_execute` spells out, `execute` its
`while` loop. The loop is given as many rounds as the replay list can make it
take; that they suffice is `execute_total` (module `Handled`).

A step of `client env` is one method call, one message to send from the
application, one frame from the server, or a timer. A call is made when the
call before it has returned, that is, when as many replies were written as
calls were made.
-/
namespace Malamute.L4
open Malamute.Core Malamute.L1 Malamute.L2

inductive Action where
  | usePlainSecurityMechanism | connectToServerEndpoint | setClientAddress
  | rememberClientAddress | useConnectTimeout | clientIsConnected | serverHasGoneOffline
  | prepareStreamWriteCommand | prepareStreamReadCommand | prepareStreamCancelCommand
  | prepareServiceOfferCommand | getFirstReplayCommand | getNextReplayCommand
  | passStreamMessageToApp | passMailboxMessageToApp | passServiceMessageToApp
  | signalSuccess | signalBadEndpoint | signalFailure | checkStatusCode
  | signalServerNotPresent | signalBadPattern | announceUnhandledError
  | send (id : Id) | terminate
  deriving DecidableEq

/-! ## The table -/

/-- mirrors src/src/mlm_client.xml:201-218 -/
def defaults : Event → List Action × Option State
  | .heartbeat => ([.send .connectionPing], none)
  | .connectionPong => ([.clientIsConnected], some .connected)
  | .expired => ([.serverHasGoneOffline], some .disconnected)
  | .error => ([.checkStatusCode], some .haveError)
  | _ => ([], none)

/-- mirrors src/src/mlm_client.xml:13-52 -/
def startState : Event → List Action × Option State
  | .setPlainAuth => ([.usePlainSecurityMechanism, .signalSuccess], none)
  | .connect =>
    ([.rememberClientAddress, .connectToServerEndpoint, .setClientAddress, .useConnectTimeout,
      .send .connectionOpen], some .connecting)
  | .badEndpoint => ([.signalBadEndpoint], none)
  | .destructor => ([.signalSuccess, .terminate], none)
  | .setProducer => ([.signalFailure], none)
  | .setConsumer => ([.signalFailure], none)
  | .removeConsumer => ([.signalFailure], none)
  | .setWorker => ([.signalFailure], none)
  | _ => ([], none)

/-- mirrors src/src/mlm_client.xml:54-62 -/
def connectingState : Event → List Action × Option State
  | .ok => ([.clientIsConnected, .signalSuccess], some .connected)
  | .expired => ([.signalServerNotPresent], some .start)
  | e => defaults e

/-- mirrors src/src/mlm_client.xml:64-96 -/
def connectedState : Event → List Action × Option State
  | .setProducer => ([.prepareStreamWriteCommand, .send .streamWrite], some .confirming)
  | .setConsumer => ([.prepareStreamReadCommand, .send .streamRead], some .confirming)
  | .removeConsumer => ([.prepareStreamCancelCommand, .send .streamCancel], some .confirming)
  | .setWorker => ([.prepareServiceOfferCommand, .send .serviceOffer], some .confirming)
  | .destructor => ([.send .connectionClose], some .terminating)
  | .badPattern => ([.signalBadPattern], none)
  | .streamDeliver => ([.passStreamMessageToApp], none)
  | .mailboxDeliver => ([.passMailboxMessageToApp], none)
  | .serviceDeliver => ([.passServiceMessageToApp], none)
  | e => defaults e

/-- mirrors src/src/mlm_client.xml:98-122 -/
def confirmingState : Event → List Action × Option State
  | .expired => ([.serverHasGoneOffline, .signalFailure], some .disconnected)
  | .ok => ([.signalSuccess], some .connected)
  | .error => ([.signalFailure, .checkStatusCode], some .haveError)
  | .connectionPong => ([], none)
  | .streamDeliver => ([.passStreamMessageToApp], none)
  | .mailboxDeliver => ([.passMailboxMessageToApp], none)
  | .serviceDeliver => ([.passServiceMessageToApp], none)
  | e => defaults e

/-- mirrors src/src/mlm_client.xml:124-141 -/
def terminatingState : Event → List Action × Option State
  | .ok => ([.signalSuccess, .terminate], none)
  | .expired => ([.signalFailure, .terminate], none)
  | .connectionPong => ([], none)
  | .error => ([.signalFailure, .terminate], none)
  | e => defaults e

/-- mirrors src/src/mlm_client.xml:143-175 -/
def reconnectingState : Event → List Action × Option State
  | .ok => ([.clientIsConnected, .getFirstReplayCommand], none)
  | .error => ([], none)
  | .setProducer => ([.send .streamWrite, .getNextReplayCommand], none)
  | .setConsumer => ([.send .streamRead, .getNextReplayCommand], none)
  | .removeConsumer => ([.send .streamCancel, .getNextReplayCommand], none)
  | .setWorker => ([.send .serviceOffer, .getNextReplayCommand], none)
  | .replayReady => ([.clientIsConnected], some .connected)
  | .connectionPong => ([], none)
  | e => defaults e

/-- mirrors src/src/mlm_client.xml:177-199 -/
def disconnectedState : Event → List Action × Option State
  | .setProducer => ([.signalFailure], none)
  | .setConsumer => ([.signalFailure], none)
  | .removeConsumer => ([.signalFailure], none)
  | .setWorker => ([.signalFailure], none)
  | .destructor => ([.signalSuccess, .terminate], none)
  | e => defaults e

/-- mirrors src/src/mlm_client.xml:220-234 -/
def haveErrorState : Event → Option (List Action × Option State)
  | .commandInvalid =>
    some ([.setClientAddress, .useConnectTimeout, .send .connectionOpen], some .reconnecting)
  | .failed => some ([.signalFailure, .terminate], none)
  | .other => some ([.announceUnhandledError, .terminate], none)
  | _ => none

/-- mirrors the `switch` of src/src/mlm_client_engine.inc:467-1320; an internal
state asserts that it knows the event -/
def transition : State → Event → Option (List Action × Option State)
  | .start, e => some (startState e)
  | .connecting, e => some (connectingState e)
  | .connected, e => some (connectedState e)
  | .confirming, e => some (confirmingState e)
  | .terminating, e => some (terminatingState e)
  | .reconnecting, e => some (reconnectingState e)
  | .disconnected, e => some (disconnectedState e)
  | .defaults, e => some (defaults e)
  | .haveError, e => haveErrorState e

/-! ## Execution -/

namespace Actor

def runAction (env : Env) (act : Action) (a : Actor) : Except Fault Actor :=
  match act with
  | .usePlainSecurityMechanism => a.usePlainSecurityMechanism
  | .connectToServerEndpoint => a.connectToServerEndpoint env
  | .setClientAddress => a.setClientAddress
  | .rememberClientAddress => a.rememberClientAddress
  | .useConnectTimeout => .ok a.useConnectTimeout
  | .clientIsConnected => .ok a.clientIsConnected
  | .serverHasGoneOffline => .ok a.serverHasGoneOffline
  | .prepareStreamWriteCommand => a.prepareStreamWriteCommand
  | .prepareStreamReadCommand => a.prepareStreamReadCommand env
  | .prepareStreamCancelCommand => a.prepareStreamCancelCommand
  | .prepareServiceOfferCommand => a.prepareServiceOfferCommand
  | .getFirstReplayCommand => .ok a.getFirstReplayCommand
  | .getNextReplayCommand => .ok a.getNextReplayCommand
  | .passStreamMessageToApp => .ok a.passStreamMessageToApp
  | .passMailboxMessageToApp => .ok a.passMailboxMessageToApp
  | .passServiceMessageToApp => .ok a.passServiceMessageToApp
  | .signalSuccess => .ok a.signalSuccess
  | .signalBadEndpoint => .ok a.signalBadEndpoint
  | .signalFailure => .ok a.signalFailure
  | .checkStatusCode => .ok a.checkStatusCode
  | .signalServerNotPresent => .ok a.signalServerNotPresent
  | .signalBadPattern => .ok a.signalBadPattern
  | .announceUnhandledError => .ok a
  | .send id => .ok (a.send id)
  | .terminate => .ok a.stop

/-- The actions in order; each is skipped while an exception is raised.
mirrors for instance src/src/mlm_client_engine.inc:484-518 -/
def runActions (env : Env) : List Action → Actor → Except Fault Actor
  | [], a => .ok a
  | act :: acts, a => do
    let a ← if a.exception.isNone then a.runAction env act else .ok a
    runActions env acts a

/-- The end of one round: the next state, then an exception event if one was
raised. mirrors src/src/mlm_client_engine.inc:517-518 and 1322-1327 -/
def afterActions (next : Option State) (a : Actor) : Actor :=
  if a.exception.isNone then a.setState (next.getD a.state)
  else { a with nextEvent := a.exception }

/-- mirrors src/src/mlm_client_engine.inc:455-1333 -/
def loop (env : Env) : Nat → Actor → Except Fault Actor
  | 0, _ => .error .fuel
  | n + 1, a =>
    if a.terminated || a.fsmStopped then .ok a
    else match a.nextEvent with
    | none => .ok a
    | some e =>
      match transition a.state e with
      | none => .error .assertion
      | some (acts, next) => do
        let a ← runActions env acts a.clear
        loop env n (a.afterActions next)

/-- mirrors src/src/mlm_client_engine.inc:446-1333 -/
def execute (env : Env) (e : Event) (a : Actor) : Except Fault Actor :=
  loop env (a.replays.size + 3) (a.setNextEvent e)

/-! ## The handlers of the reactor -/

/-- mirrors src/src/mlm_client_engine.inc:411-440; `none` for a message that is
not for clients -/
def protocolEvent : Id → Option Event
  | .connectionPong => some .connectionPong
  | .streamDeliver => some .streamDeliver
  | .mailboxDeliver => some .mailboxDeliver
  | .serviceDeliver => some .serviceDeliver
  | .ok => some .ok
  | .error => some .error
  | _ => none

/-- mirrors src/src/mlm_client_engine.inc:1534-1559: the frame `w` is read -/
def handleProtocol (env : Env) (w : Wire) (a : Actor) : Except Fault Actor :=
  let a := a.setMessage (w.load a.message)
  match protocolEvent w.id with
  | some e => a.execute env e
  | none => .ok { a with terminated := true }

end Actor

/-- The methods of the class. mirrors src/src/mlm_client.xml:236-310 -/
inductive Call where
  | setPlainAuth (username password : CString)
  | connect (endpoint : CString) (timeout : UInt32) (address : CString)
  | destructor
  | setProducer (stream : CString)
  | setConsumer (stream pattern : CString)
  | removeConsumer (stream : CString)
  | setWorker (address pattern : CString)
  deriving DecidableEq

namespace Call

/-- What the handler of the command pipe stores.
mirrors src/src/mlm_client_engine.inc:1399-1440 -/
def args (x : Args) : Call → Args
  | .setPlainAuth username password =>
    { x with username := some username, password := some password }
  | .connect endpoint timeout address =>
    { x with endpoint := some endpoint, timeout := timeout, address := some address }
  | .destructor => x
  | .setProducer stream => { x with stream := some stream }
  | .setConsumer stream pattern => { x with stream := some stream, pattern := some pattern }
  | .removeConsumer stream => { x with stream := some stream }
  | .setWorker address pattern => { x with address := some address, pattern := some pattern }

def event : Call → Event
  | .setPlainAuth _ _ => .setPlainAuth
  | .connect _ _ _ => .connect
  | .destructor => .destructor
  | .setProducer _ => .setProducer
  | .setConsumer _ _ => .setConsumer
  | .removeConsumer _ => .removeConsumer
  | .setWorker _ _ => .setWorker

end Call

/-- The messages an application sends. Their strings have the 255 bytes of an `s` in
`zsock_bsend` at most. mirrors src/src/mlm_client.xml:312-317 -/
inductive Post where
  | streamSend (subject : Str) (content : List Frame)
  | mailboxSend (address subject tracker : Str) (timeout : UInt32) (content : List Frame)
  | serviceSend (address subject tracker : Str) (timeout : UInt32) (content : List Frame)
  deriving DecidableEq

inductive Label where
  | call (c : Call)
  | post (p : Post)
  /-- a frame from the server -/
  | frame (w : Wire)
  | heartbeat
  | expired
  deriving DecidableEq

namespace Actor

/-- mirrors src/src/mlm_client_engine.inc:1380-1452 -/
def handleCmdpipe (env : Env) (c : Call) (a : Actor) : Except Fault Actor :=
  { a with args := c.args a.args, calls := a.calls + 1 }.execute env c.event

/-- mirrors src/src/mlm_client_engine.inc:1457-1529: past the state machine,
straight to the socket -/
def handleMsgpipe (p : Post) (a : Actor) : Actor :=
  match p with
  | .streamSend subject content =>
    (a.setMessage { a.message with subject := subject, content := some content }).send .streamSend
  | .mailboxSend address subject tracker timeout content =>
    (a.setMessage { a.message with
      address := address, subject := subject, tracker := tracker, timeout := timeout,
      content := some content }).send .mailboxSend
  | .serviceSend address subject tracker timeout content =>
    (a.setMessage { a.message with
      address := address, subject := subject, tracker := tracker, timeout := timeout,
      content := some content }).send .serviceSend

/-- What has to hold for a label: the call before has returned, a timer runs. -/
def enabled (a : Actor) : Label → Prop
  | .call _ => a.calls ≤ a.replies.length
  | .heartbeat => 0 < a.heartbeat
  | .expired => 0 < a.expiry
  | .post _ => True
  | .frame _ => True

instance (a : Actor) (l : Label) : Decidable (a.enabled l) :=
  match l with
  | .call _ => inferInstanceAs (Decidable (_ ≤ _))
  | .heartbeat => inferInstanceAs (Decidable (_ < _))
  | .expired => inferInstanceAs (Decidable (_ < _))
  | .post _ => inferInstanceAs (Decidable True)
  | .frame _ => inferInstanceAs (Decidable True)

def handle (env : Env) (a : Actor) : Label → Except Fault Actor
  | .call c => a.handleCmdpipe env c
  | .post p => .ok (a.handleMsgpipe p)
  | .frame w => a.handleProtocol env w
  | .heartbeat => a.execute env .heartbeat
  | .expired => a.execute env .expired

/-- One step; `none` if it is not possible. -/
def step (env : Env) (a : Actor) (l : Label) : Option (Except Fault Actor) :=
  if a.terminated = false ∧ a.enabled l then some (a.handle env l) else none

end Actor

def client (env : Env) : LTS Actor Label where
  init a := a = .new
  step a l a' := a.step env l = some (.ok a')

end Malamute.L4
