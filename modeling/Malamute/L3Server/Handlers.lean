import Malamute.L3Server.System

/-!
# What one event does, without the machine

`Handled s c e s'` describes in one piece what executing event `e` on client
`c` does, nested executions, follow-up events and all: a client that is not
executing anything is `Quiet`, so the table-driven loop of `Execute` has a
closed form for each state and event. `Handled` is what the proofs about the
broker use; that the loop does exactly this is `execute_handled` (next module).

The pieces are functions on the state (`answer`, `deliver`, `leave`, `fail`)
and, for the three loops of the code, relations that follow the loop:
`Drain` (mailbox messages, one per event), `Scan` (the queue of a service) and
`Dispatched` (the search for an offer).
-/
namespace Malamute.L3
open Malamute.Core Malamute.L1 Malamute.L2

/-- A context on which no execution is running. -/
structure Quiet (k : Client) : Prop where
  nextEvent : k.nextEvent = none
  exception : k.exception = none
  msg : k.msg = none

/-- The events that come from a message or a timer. The others are only sent by
an action that has something to deliver, or raised by one. -/
def Event.External : Event → Prop
  | .streamMessage | .mailboxMessage | .serviceMessage | .exception => False
  | _ => True

/-- `c` is a client that has opened a connection with address `a`. -/
structure Open (s : Server) (c : Cid) (k : Client) (a : Str) : Prop where
  ctx : s.ctx c = some k
  quiet : Quiet k
  state : k.state = .connected
  address : k.address = some a
  hashed : s.clients.get k.hashkey = some c
  registered : a ≠ .empty → s.addresses.get a = some c

/-- The context of a client that deregisters. -/
def Client.deregistered (k : Client) (a : Str) : Client :=
  { k with readers := [], address := if a = .empty then some a else none }

namespace Server

/-- The machine of `c` takes a transition. -/
@[simps] def enter (s : Server) (c : Cid) (e : Event) : Server :=
  { s with trace := s.trace ++ [.event c e] }

/-- `send` to a client whose context is `k`. -/
@[simps] def answer (c : Cid) (k : Client) (id : Id) (s : Server) : Server :=
  { s with
    message := s.message.setId id k.hashkey
    trace := s.trace ++ [.sent c k.address (s.message.setId id k.hashkey).wire s.hand] }

/-- The message object when `m` is sent to a client with key `key`. -/
def delivery (s : Server) (key : Key) (id : Id) (m : Msg) : Proto :=
  (m.setProto s.message).setId id key

/-- `get_message_to_deliver` and the `send` after it. -/
@[simps] def deliver (c : Cid) (k : Client) (id : Id) (m : Msg) (s : Server) : Server :=
  { s with
    message := s.delivery k.hashkey id m
    hand := some m
    refs := Function.update s.refs m.mid (s.refs m.mid - 1)
    trace := s.trace ++ [.sent c k.address (s.delivery k.hashkey id m).wire (some m)] }

/-- `terminate`: the context leaves the hash; it is freed, or a zombie. -/
@[simps] def bury (c : Cid) (k : Client) (s : Server) : Server :=
  { s with
    clients := s.clients.del k.hashkey
    zombies := if k.refcount = 0 then s.zombies else s.zombies.ensure k.hashkey c
    ctx := Function.update s.ctx c (if k.refcount = 0 then none else
      some { k with state := .zombie, nextEvent := some .terminate }) }

/-- `deregister_the_client` for an open client, but for its context. -/
@[simps] def deregister (c : Cid) (k : Client) (a : Str) (s : Server) : Server :=
  { s with
    message := s.message.setStatusCode success
    streams := (s.cancelReaders c k.readers).streams
    services := (s.withdrawOffers c).services
    addresses := if a = .empty then s.addresses else s.addresses.del a
    trace := s.trace ++ [.left c k.readers] }

/-- `deregister_the_client` and `terminate` for an open client. -/
def leave (c : Cid) (k : Client) (a : Str) (s : Server) : Server :=
  (s.deregister c k a).bury c (k.deregistered a)

/-- An action raised an exception: the handler of `exception` runs. -/
def fail (c : Cid) (k : Client) (a : Str) (s : Server) : Server :=
  (((s.enter c .exception).setStatus failed).answer c k .error).leave c k a

end Server

open Server

/-- `check_for_mailbox_messages` for a client with context `k` and address `a`,
and the mailbox message events it sets. -/
inductive Drain (c : Cid) (k : Client) (a : Str) : Server → Server → Prop where
  | anonymous {s : Server} : a = .empty → Drain c k a s s
  | empty {s s' : Server} : a ≠ .empty → s.mailboxQuery a = .ok (s', none) → Drain c k a s s'
  | next {s s₁ s' : Server} {m : Msg} : a ≠ .empty → s.mailboxQuery a = .ok (s₁, some m) →
      Drain c k a ((s₁.enter c .mailboxMessage).deliver c k .mailboxDeliver m) s' →
      Drain c k a s s'

/-- `s_service_dispatch_message`: the search for an offer, and the delivery. -/
inductive Dispatched (rex : Str → Str → Bool) (name : Str) (m : Msg) (s : Server) :
    Server → Bool → Prop where
  | none {offers : CursorList Offer} :
      (s.service name).offers.reset.seek (fun o => rex o.pattern m.subject) = (offers, .none) →
      Dispatched rex name m s (s.setService name ((s.service name).setOffers offers)) false
  | some {offers : CursorList Offer} {o : Offer} {t : Client} :
      (s.service name).offers.reset.seek (fun o => rex o.pattern m.subject) = (offers, .some o) →
      s.ctx o.client = .some t →
      Dispatched rex name m s
        ((((s.log (.dispatched name (s.service name).offers.items o m)).enter o.client
          .serviceMessage).deliver o.client t .serviceDeliver m).setService name
            ((s.service name).setOffers offers.moveEnd)) true

/-- The loop of `s_service_dispatch` at a message, to the end. -/
inductive Scan (rex : Str → Str → Bool) (name : Str) : Option Msg → Server → Server → Prop where
  | done {s : Server} : Scan rex name none s s
  | skip {m : Msg} {s s₁ s' : Server} :
      Dispatched rex name m (s.link m) s₁ false →
      Scan rex name (s₁.service name).queue.next.2
        ((s₁.unlink m).setService name
          ((s₁.service name).setQueue (s₁.service name).queue.next.1)) s' →
      Scan rex name (some m) s s'
  | take {m : Msg} {s s₁ s' : Server} {queue : Msgq} :
      Dispatched rex name m (s.link m) s₁ true →
      (s₁.service name).queue.dequeueCursor s₁.serviceCfg = .ok queue →
      Scan rex name queue.next.2
        ((s₁.unlink m).setService name ((s₁.service name).setQueue queue.next.1)) s' →
      Scan rex name (some m) s s'

/-- The state in which a MAILBOX SEND looks for a client. -/
@[simps] def Server.mailing (c : Cid) (a : Str) (s : Server) : Server :=
  { s with
    message := s.message.takeContent
    refs := Function.update s.refs s.messageId 1
    messageId := s.messageId + 1
    trace := s.trace ++ [.mailed c (s.messageFrom a)] }

/-- `write_message_to_mailbox` for the sender `c` with address `a`. -/
inductive Mailed (c : Cid) (a : Str) (s : Server) : Server → Prop where
  | direct {t : Client} {target : Cid} {s' : Server} :
      s.addresses.get s.message.address = some target → s.ctx target = some t →
      Drain target t s.message.address
        (((s.mailing c a).enter target .mailboxMessage).deliver target t .mailboxDeliver
          (s.messageFrom a)) s' →
      Mailed c a s s'
  | stored : s.addresses.get s.message.address = none →
      Mailed c a s
        ((s.mailing c a).setMailbox s.mailbox
          (s.mailboxPipe ++ [(s.message.address, s.messageFrom a)]))

/-- `write_message_to_stream` for a client that writes to `name`. -/
def Server.publish (c : Cid) (a name : Str) (s : Server) : Server :=
  let m : Msg :=
    ⟨s.messageId, a, name, s.message.subject, none, s.message.timeout, s.message.content⟩
  (((s.newMsg m).setMessage s.message.takeContent).pushStream name
    (.message c m)).log (.published c name m)

/-- The state in which a SERVICE SEND looks for an offer. -/
def Server.requesting (c : Cid) (a : Str) (s : Server) : Server :=
  (((s.newMsg (s.messageFrom a)).setMessage s.message.takeContent).log
    (.requested c (s.messageFrom a))).serviceRequire s.message.address

/-- `write_message_to_service`. -/
inductive Requested (rex : Str → Str → Bool) (c : Cid) (a : Str) (s : Server) : Server → Prop where
  | dispatched {s' : Server} :
      Dispatched rex s.message.address (s.messageFrom a) (s.requesting c a) s' true →
      Requested rex c a s s'
  | queued {s₁ : Server} {queue : Msgq} {w : Bool} :
      Dispatched rex s.message.address (s.messageFrom a) (s.requesting c a) s₁ false →
      (s₁.service s.message.address).queue.enqueue s₁.serviceCfg (s.messageFrom a) =
        .ok (queue, .queued w) →
      Requested rex c a s
        (s₁.setService s.message.address ((s₁.service s.message.address).setQueue queue))
  | refused {s₁ : Server} {queue : Msgq} :
      Dispatched rex s.message.address (s.messageFrom a) (s.requesting c a) s₁ false →
      (s₁.service s.message.address).queue.enqueue s₁.serviceCfg (s.messageFrom a) =
        .ok (queue, .refused) →
      Requested rex c a s
        (((s₁.setService s.message.address ((s₁.service s.message.address).setQueue queue)).unlink
          (s.messageFrom a)).log (.dropped (.service s.message.address) (s.messageFrom a)))

/-- `store_service_offer`, the OK, and `dispatch_the_service` for client `c`. -/
def Server.offering (c : Cid) (k : Client) (s : Server) : Server :=
  let name := s.message.address
  let offer : Offer := ⟨s.offerId, s.message.pattern, c⟩
  let s := s.newOffer.serviceRequire name
  ((s.setService name ((s.service name).setOffers ((s.service name).offers.addEnd offer))).log
    (.offered c name offer)).answer c k .ok

/-- The context of `c` after STREAM READ of `name`. -/
def Client.reading (k : Client) (name : Str) : Client :=
  { k with readers := k.readers ++ [name], refcount := k.refcount + 1 }

/-- `register_new_client` expires the client that holds the address, if any. -/
inductive Evicted (a : Str) (s : Server) : Server → Prop where
  | nobody : a = .empty ∨ s.addresses.get a = none → Evicted a s s
  | holder {old : Cid} {t : Client} : a ≠ .empty → s.addresses.get a = some old →
      Open s old t a → Evicted a s ((s.enter old .expired).leave old t a)

/-- The context of a client that has opened its connection. -/
def Client.opened (k : Client) (a : Str) : Client :=
  { k with address := some a, state := .connected }

/-- The rest of `register_new_client`, and the OK. -/
def Server.register (c : Cid) (k : Client) (a : Str) (s : Server) : Server :=
  let s := if a = .empty then s else s.setAddresses (s.addresses.set a c)
  ((s.setClient c (k.opened a)).setStatus success).answer c (k.opened a) .ok

theorem Server.register_eq (s : Server) (c : Cid) (k : Client) (a : Str) : s.register c k a =
    { s with
      addresses := if a = .empty then s.addresses else s.addresses.set a c
      ctx := Function.update s.ctx c (some (k.opened a))
      message := (s.message.setStatusCode success).setId .ok k.hashkey
      trace := s.trace ++ [.sent c (some a)
        ((s.message.setStatusCode success).setId .ok k.hashkey).wire s.hand] } := by
  by_cases ha : a = .empty
  · simp only [register, ha, if_true]
    rfl
  · simp only [register, ha, if_false]
    rfl

/-- **One event of a client that is not executing anything.** -/
inductive Handled (rex : Str → Str → Bool) (s : Server) (c : Cid) : Event → Server → Prop where
  -- start state
  | opened {k : Client} {s₁ s' : Server} : s.ctx c = some k → k.state = .start →
      Evicted s.message.address (s.enter c .connectionOpen) s₁ →
      Drain c (k.opened s.message.address) s.message.address
        (s₁.register c k s.message.address) s' →
      Handled rex s c .connectionOpen s'
  | departed {k : Client} : s.ctx c = some k → k.state = .start →
      Handled rex s c .expired
        (((s.enter c .expired).setStatus success).bury c k)
  | unopened {k : Client} {e : Event} : s.ctx c = some k → k.state = .start →
      startState e = ([.signalCommandInvalid, .send .error], none) →
      Handled rex s c e (((s.enter c e).setStatus commandInvalid).answer c k .error)
  -- connected state
  | wrote {k : Client} {a : Str} : Open s c k a →
      Handled rex s c .streamWrite
        (((((s.enter c .streamWrite).streamRequire s.message.stream).setClient c
          { k with writer := some s.message.stream }).setStatus success).answer c k .ok)
  | read {k : Client} {a : Str} : Open s c k a →
      Handled rex s c .streamRead
        ((((((((s.enter c .streamRead).streamRequire s.message.stream).pushStream s.message.stream
          (.command (.compile c s.message.pattern))).setClient c (k.reading s.message.stream)).setStatus
            success).log (.subscribed c s.message.stream s.message.pattern)).answer c k .ok))
  | cancelled {k : Client} {a : Str} : Open s c k a →
      Handled rex s c .streamCancel
        ((((((s.enter c .streamCancel).streamRequire s.message.stream).pushStream s.message.stream
          (.command (.cancel c))).setClient c { k with readers := k.readers.tail }).log
            (.cancelled c s.message.stream)).answer c k .ok)
  | published {k : Client} {a name : Str} : Open s c k a → k.writer = some name →
      Handled rex s c .streamSend ((s.enter c .streamSend).publish c a name)
  | unwritten {k : Client} {a : Str} : Open s c k a → k.writer = none →
      Handled rex s c .streamSend ((s.enter c .streamSend).fail c k a)
  | mailed {k : Client} {a : Str} {s' : Server} : Open s c k a →
      Mailed c a (s.enter c .mailboxSend) s' → Handled rex s c .mailboxSend s'
  | requested {k : Client} {a : Str} {s' : Server} : Open s c k a →
      Requested rex c a (s.enter c .serviceSend) s' → Handled rex s c .serviceSend s'
  | offered {k : Client} {a : Str} {s₁ s' : Server} : Open s c k a →
      s₁ = (s.enter c .serviceOffer).offering c k →
      Scan rex s.message.address (s₁.service s.message.address).queue.first.2
        (s₁.setService s.message.address ((s₁.service s.message.address).setQueue
          (s₁.service s.message.address).queue.first.1)) s' →
      Handled rex s c .serviceOffer s'
  | confirmed {k : Client} {a : Str} : Open s c k a →
      Handled rex s c .confirm ((s.enter c .confirm).fail c k a)
  | credited {k : Client} {a : Str} : Open s c k a →
      Handled rex s c .credit (s.enter c .credit)
  | pinged {k : Client} {a : Str} : Open s c k a →
      Handled rex s c .connectionPing ((s.enter c .connectionPing).answer c k .connectionPong)
  | closed {k : Client} {a : Str} : Open s c k a →
      Handled rex s c .connectionClose (((s.enter c .connectionClose).answer c k .ok).leave c k a)
  | expired {k : Client} {a : Str} : Open s c k a →
      Handled rex s c .expired ((s.enter c .expired).leave c k a)
  | invalid {k : Client} {a : Str} {e : Event} : Open s c k a →
      connectedState e =
        ([.signalCommandInvalid, .send .error, .deregisterTheClient, .terminate], none) →
      Handled rex s c e
        ((((s.enter c e).setStatus commandInvalid).answer c k .error).leave c k a)

end Malamute.L3
