import Malamute.Core.LTS
import Malamute.L4Client.Sent

/-!
# The class `mlm_client` and its actor (`src/src/mlm_client_engine.inc`)

An application owns one `mlm_client_t` and calls its methods; the actor runs in a thread of
its own. Two pipes join them, each with both directions: commands and their replies go over
the command pipe, messages over the message pipe. Any number of items may be on their way,
and the actor reads its two pipes, its socket and its timers in any order.

A method call writes its command and reads replies until one is SUCCESS or FAILURE
(`s_accept_reply`). `mlm_client_destroy` writes `$FLUSH` to the message pipe and waits for
the signal before it calls the destructor.

The high-water mark of the pipes is not modelled: a write never waits. Nor is an
interrupted process.
-/
namespace Malamute.L5
open Malamute.Core Malamute.L1 Malamute.L4

/-- What the class writes to the command pipe. -/
inductive Command where
  | call (c : Call)
  /-- `$CONNECTED` -/
  | connected
  /-- `$TERM`, from `zactor_destroy` -/
  | term
  deriving DecidableEq

/-- What the class writes to the message pipe. -/
inductive Item where
  | post (p : Post)
  /-- `$FLUSH` -/
  | flush
  deriving DecidableEq

/-- What comes back on the command pipe. -/
inductive Answer where
  | reply (r : Reply)
  | connected (b : Bool)
  | signal
  deriving DecidableEq

/-- `mlm_client_t` without its pipes; `none` is the NULL pointer.
mirrors src/src/mlm_client_engine.inc:1593-1605 -/
structure Handle where
  command : Option Id
  status : Int
  reason : Option Str
  address : Option Str
  sender : Option Str
  subject : Option Str
  content : Option (List Frame)
  tracker : Option Str
  deriving DecidableEq

namespace Handle

def new : Handle := ⟨none, 0, none, none, none, none, none, none⟩

/-- One round of the loop of `s_accept_reply`, for the filters SUCCESS and FAILURE, and
whether it was the last. mirrors src/src/mlm_client_engine.inc:1709-1745 -/
def accept (x : Answer) (h : Handle) : Handle × Bool :=
  match x with
  | .reply .success => ({ h with status := 0 }, true)
  | .reply (.failure reason) => ({ h with status := -1, reason := some reason }, true)
  | _ => (h, false)

/-- A stream message has no tracker and leaves that of the message before.
mirrors src/src/mlm_client_engine.inc:1922-1945 -/
def recv (d : Delivery) (h : Handle) : Handle :=
  match d with
  | .stream address sender subject content =>
    { h with command := some .streamDeliver, address := some address, sender := some sender,
             subject := some subject, content := content }
  | .mailbox sender address subject tracker content =>
    { h with command := some .mailboxDeliver, sender := some sender, address := some address,
             subject := some subject, tracker := some tracker, content := content }
  | .service sender address subject tracker content =>
    { h with command := some .serviceDeliver, sender := some sender, address := some address,
             subject := some subject, tracker := some tracker, content := content }

/-- What the accessors tell is the message `d`. -/
def Shows (h : Handle) : Delivery → Prop
  | .stream address sender subject content => h.command = some .streamDeliver ∧
      h.address = some address ∧ h.sender = some sender ∧ h.subject = some subject ∧
      h.content = content
  | .mailbox sender address subject tracker content => h.command = some .mailboxDeliver ∧
      h.address = some address ∧ h.sender = some sender ∧ h.subject = some subject ∧
      h.content = content ∧ h.tracker = some tracker
  | .service sender address subject tracker content => h.command = some .serviceDeliver ∧
      h.address = some address ∧ h.sender = some sender ∧ h.subject = some subject ∧
      h.content = content ∧ h.tracker = some tracker

end Handle

/-- Where the application is in the class. -/
inductive Phase where
  | idle
  /-- in a method, waiting for its reply -/
  | calling
  /-- in `mlm_client_connected` -/
  | asking
  /-- in `mlm_client_destroy`: for the signal of the flush, in the destructor, in
  `zactor_destroy` -/
  | flushing | closing | stopping
  | gone
  deriving DecidableEq

/-- `s_accept_reply` is running. -/
def Phase.accepting : Phase → Bool
  | .calling | .closing => true
  | _ => false

/-- An application with its actor. The fields from `posted` on record what was sent, what
the actor has sent on, and what was received. -/
structure Session where
  actor : Actor
  /-- the reactor has read `$TERM` -/
  termed : Bool
  /-- the thread of the actor has ended -/
  exited : Bool
  cmdpipe : List Command
  msgpipe : List Item
  answers : List Answer
  deliveries : List Delivery
  phase : Phase
  handle : Handle
  posted : List Post
  handled : List Post
  received : List Delivery

/-- What happens next; the actor steps come after those of the application. -/
inductive Act where
  | call (c : Call)
  | connected
  | post (p : Post)
  | recv
  | destroy
  /-- the application reads the command pipe -/
  | read
  /-- the actor reads the command pipe, the message pipe, a frame of the server -/
  | command
  | message
  | frame (w : Wire)
  | heartbeat
  | expired
  | exit
  deriving DecidableEq

namespace Session

/-- mirrors src/src/mlm_client_engine.inc:1611-1624 -/
def new : Session where
  actor := .new
  termed := false
  exited := false
  cmdpipe := []
  msgpipe := []
  answers := []
  deliveries := []
  phase := .idle
  handle := .new
  posted := []
  handled := []
  received := []

/-! ## The application -/

@[simps] def setPhase (p : Phase) (s : Session) : Session := { s with phase := p }

@[simps] def setHandle (h : Handle) (s : Session) : Session := { s with handle := h }

/-- Write to the command pipe. -/
@[simps] def command (k : Command) (s : Session) : Session := { s with cmdpipe := s.cmdpipe ++ [k] }

/-- mirrors src/src/mlm_client_engine.inc:1875-1919 -/
@[simps] def post (p : Post) (s : Session) : Session :=
  { s with msgpipe := s.msgpipe ++ [.post p], posted := s.posted ++ [p] }

/-- mirrors src/src/mlm_client_engine.inc:1645-1651 -/
@[simps] def flush (s : Session) : Session := { s with msgpipe := s.msgpipe ++ [.flush] }

/-- The next message. -/
@[simps] def recv (d : Delivery) (ds : List Delivery) (s : Session) : Session :=
  { s with deliveries := ds, handle := s.handle.recv d, received := s.received ++ [d] }

@[simps] def setAnswers (xs : List Answer) (s : Session) : Session := { s with answers := xs }

/-- The application has read `x` off the command pipe: `s_accept_reply`, the one reply of
`mlm_client_connected`, or `zsock_wait`, which discards what is no signal.
mirrors src/src/mlm_client_engine.inc:1635-1661 and 1692-1745 -/
def reads (x : Answer) (s : Session) : Option Session :=
  match s.phase with
  | .idle => none
  | .calling =>
    some ((s.setHandle (s.handle.accept x).1).setPhase
      (if (s.handle.accept x).2 then .idle else .calling))
  | .asking => some (s.setPhase .idle)
  | .flushing =>
    some (if x = .signal then (s.command (.call .destructor)).setPhase .closing else s)
  | .closing =>
    some (if (s.handle.accept x).2 then
      ((s.setHandle (s.handle.accept x).1).command .term).setPhase .stopping else s)
  | .stopping => some (if x = .signal then s.setPhase .gone else s)
  | .gone => none

/-! ## The actor -/

/-- The reactor runs. -/
def alive (s : Session) : Bool := !s.termed && !s.exited && !s.actor.terminated

/-- The actor after the step `l` of its own. -/
def acts (env : Env) (l : Label) (s : Session) : Option Actor :=
  if s.alive then
    match s.actor.step env l with
    | some (.ok a) => some a
    | _ => none
  else none

/-- The actor has become `a`; what it has written goes into the pipes. -/
@[simps] def became (a : Actor) (s : Session) : Session :=
  { s with
    actor := a
    answers := s.answers ++ (a.replies.drop s.actor.replies.length).map .reply
    deliveries := s.deliveries ++ a.passed.drop s.actor.passed.length }

@[simps] def answer (x : Answer) (s : Session) : Session := { s with answers := s.answers ++ [x] }

@[simps] def setCmdpipe (ks : List Command) (s : Session) : Session := { s with cmdpipe := ks }

@[simps] def setMsgpipe (is : List Item) (s : Session) : Session := { s with msgpipe := is }

@[simps] def handling (p : Post) (s : Session) : Session := { s with handled := s.handled ++ [p] }

@[simps] def terminate (s : Session) : Session := { s with termed := true }

/-- The thread ends with a signal. -/
@[simps] def leave (s : Session) : Session :=
  { s with exited := true, answers := s.answers ++ [.signal] }

/-- The actor reads `k` off the command pipe.
mirrors src/src/mlm_client_engine.inc:1380-1452 -/
def runCommand (env : Env) (k : Command) (s : Session) : Option Session :=
  match k with
  | .call c => (s.acts env (.call c)).map fun a => s.became a
  | .connected => if s.alive then some (s.answer (.connected s.actor.connected)) else none
  | .term => if s.alive then some s.terminate else none

/-- The actor reads `i` off the message pipe.
mirrors src/src/mlm_client_engine.inc:1457-1529 -/
def runItem (env : Env) (i : Item) (s : Session) : Option Session :=
  match i with
  | .post p => (s.acts env (.post p)).map fun a => (s.became a).handling p
  | .flush => if s.alive then some (s.answer .signal) else none

/-- One step; `none` if it is not possible or faults. -/
def step (env : Env) (s : Session) : Act → Option Session
  | .call c =>
    if s.phase = .idle ∧ c ≠ .destructor then some ((s.command (.call c)).setPhase .calling)
    else none
  | .connected => if s.phase = .idle then some ((s.command .connected).setPhase .asking) else none
  | .post p => if s.phase = .idle then some (s.post p) else none
  | .recv =>
    match s.deliveries with
    | d :: ds => if s.phase = .idle then some (s.recv d ds) else none
    | [] => none
  | .destroy => if s.phase = .idle then some (s.flush.setPhase .flushing) else none
  | .read =>
    match s.answers with
    | x :: xs => (s.setAnswers xs).reads x
    | [] => none
  | .command =>
    match s.cmdpipe with
    | k :: ks => (s.setCmdpipe ks).runCommand env k
    | [] => none
  | .message =>
    match s.msgpipe with
    | i :: is => (s.setMsgpipe is).runItem env i
    | [] => none
  | .frame w => (s.acts env (.frame w)).map fun a => s.became a
  | .heartbeat => (s.acts env .heartbeat).map fun a => s.became a
  | .expired => (s.acts env .expired).map fun a => s.became a
  | .exit => if (s.termed || s.actor.terminated) && !s.exited then some s.leave else none

end Session

/-- One application and its actor; the server sends what it likes. -/
def session (env : Env) : LTS Session Act where
  init s := s = .new
  step s l s' := s.step env l = some s'

/-! ## Computed runs -/

/-- Take the steps `ts` if they all meet `ok`. -/
def Session.steps (env : Env) (ok : Session → Act → Prop) [∀ s t, Decidable (ok s t)]
    (ts : List Act) (s : Session) : Option Session :=
  ts.foldlM (fun s t => if ok s t then s.step env t else none) s

theorem session_of_steps {env : Env} {ok : Session → Act → Prop} [∀ s t, Decidable (ok s t)]
    {ts : List Act} {s : Session} (h : Session.new.steps env ok ts = some s) :
    ((session env).within ok).Reachable s := by
  refine ⟨.new, ts, rfl, .of_foldlM (fun b t b' hb => ?_) h⟩
  exact Option.ite_none_right_eq_some.1 hb

/-- An application that connects. -/
def connecting : List Act :=
  [.call (.connect .s 1000 .s), .command, .frame (.ok success .empty), .read]

end Malamute.L5
