import Malamute.L3Server.State

/-!
# The client state machine of the server (`src/src/mlm_server.xml`)

`transition` is the table that the generated `s_client_execute` spells out: for
a state and an event, the actions in order and the state they lead to, if they
name one. The states inherit the events of `defaults`, except that `start` has
its own `*` handler. An event that no rule names, `terminate_event` included,
is handled by `*`.
-/
namespace Malamute.L3
open Malamute.L1

inductive Action where
  | registerNewClient | checkForMailboxMessages | signalCommandInvalid | storeStreamWriter
  | storeStreamReader | cancelStreamReader | writeMessageToStream | writeMessageToMailbox
  | writeMessageToService | storeServiceOffer | dispatchTheService | haveMessageConfirmation
  | creditTheClient | clientClosedConnection | deregisterTheClient | getMessageToDeliver
  | clientExpired | signalOperationFailed | clientHadException
  | send (id : Id) | terminate
  deriving DecidableEq

/-- mirrors src/src/mlm_server.xml:63-104 -/
def defaults : Event → List Action × Option State
  | .connectionClose =>
    ([.send .ok, .clientClosedConnection, .deregisterTheClient, .terminate], none)
  | .streamMessage => ([.getMessageToDeliver, .send .streamDeliver], some .connected)
  | .mailboxMessage =>
    ([.getMessageToDeliver, .send .mailboxDeliver, .checkForMailboxMessages], some .connected)
  | .serviceMessage => ([.getMessageToDeliver, .send .serviceDeliver], some .connected)
  | .expired => ([.clientExpired, .deregisterTheClient, .terminate], none)
  | .exception =>
    ([.signalOperationFailed, .send .error, .clientHadException, .deregisterTheClient,
      .terminate], none)
  | _ => ([.signalCommandInvalid, .send .error, .deregisterTheClient, .terminate], none)

/-- mirrors src/src/mlm_server.xml:13-23; `inherited` is the `defaults` state -/
def startState : Event → List Action × Option State
  | .connectionOpen =>
    ([.registerNewClient, .send .ok, .checkForMailboxMessages], some .connected)
  | .connectionClose => defaults .connectionClose
  | .streamMessage => defaults .streamMessage
  | .mailboxMessage => defaults .mailboxMessage
  | .serviceMessage => defaults .serviceMessage
  | .expired => defaults .expired
  | .exception => defaults .exception
  | _ => ([.signalCommandInvalid, .send .error], none)

/-- mirrors src/src/mlm_server.xml:25-61 -/
def connectedState : Event → List Action × Option State
  | .streamWrite => ([.storeStreamWriter, .send .ok], none)
  | .streamRead => ([.storeStreamReader, .send .ok], none)
  | .streamCancel => ([.cancelStreamReader, .send .ok], none)
  | .streamSend => ([.writeMessageToStream], none)
  | .mailboxSend => ([.writeMessageToMailbox], none)
  | .serviceSend => ([.writeMessageToService], none)
  | .serviceOffer => ([.storeServiceOffer, .send .ok, .dispatchTheService], none)
  | .confirm => ([.haveMessageConfirmation], none)
  | .credit => ([.creditTheClient], none)
  | .connectionPing => ([.send .connectionPong], none)
  | e => defaults e

/-- mirrors the `switch` of src/src/mlm_server_engine.inc:560-1254; a zombie
context is not executed -/
def transition : State → Event → Option (List Action × Option State)
  | .start, e => some (startState e)
  | .connected, e => some (connectedState e)
  | .defaults, e => some (defaults e)
  | .zombie, _ => none

/-- mirrors src/src/mlm_server_engine.inc:419-464: the event of a message, by
its id -/
def protocolEvent (p : Proto) : Event :=
  match Id.ofCode p.id with
  | some .connectionOpen => .connectionOpen
  | some .connectionPing => .connectionPing
  | some .connectionClose => .connectionClose
  | some .streamWrite => .streamWrite
  | some .streamRead => .streamRead
  | some .streamSend => .streamSend
  | some .mailboxSend => .mailboxSend
  | some .serviceSend => .serviceSend
  | some .serviceOffer => .serviceOffer
  | some .credit => .credit
  | some .confirm => .confirm
  | some .streamCancel => .streamCancel
  | _ => .terminate

end Malamute.L3
