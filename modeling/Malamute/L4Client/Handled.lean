import Malamute.L4Client.Machine

/-!
# What one event does to the client

`Handled env a e a'` says in one piece what executing event `e` does, with the
exceptions and follow-up events it causes: the connection that fails, the
pattern that is refused, the two rounds of an error, and the replay loop, which
is `replayFrom`.

* `execute_total`: the loop does exactly this, and ends, for every event that
  comes from outside.
-/
namespace Malamute.L4
open Malamute.Core Malamute.L1 Malamute.L2

/-! ## Records -/

namespace Replay

/-- The message a record stands for. -/
def id : Replay → Id
  | .streamWrite _ => .streamWrite
  | .streamRead _ _ => .streamRead
  | .serviceOffer _ _ => .serviceOffer
  | .streamCancel _ => .streamCancel

/-- The fields of the record, stored in the message. -/
def load (p : Proto) : Replay → Proto
  | .streamWrite stream => p.setStr .stream stream.field
  | .streamRead stream pattern => (p.setStr .stream stream.field).setStr .pattern pattern.field
  | .serviceOffer stream pattern => (p.setStr .address stream.field).setStr .pattern pattern.field
  | .streamCancel stream => p.setStr .stream stream.field

/-- `s_replay_execute` has a branch for the record. -/
def replayed : Replay → Bool
  | .streamCancel _ => false
  | _ => true

/-- The pattern of the record passes the client's check. -/
def valid (env : Env) : Replay → Bool
  | .streamRead _ pattern => env.valid pattern
  | _ => true

end Replay

/-- The record of a method, by its event. -/
def Args.record (x : Args) : Event → Option Replay
  | .setProducer => x.stream.map .streamWrite
  | .setConsumer => x.stream.bind fun stream => x.pattern.map (.streamRead stream)
  | .removeConsumer => x.stream.map .streamCancel
  | .setWorker => x.address.bind fun address => x.pattern.map (.serviceOffer address)
  | _ => none

/-- The message that an event of the replay loop sends. -/
def Event.request : Event → Option Id
  | .setProducer => some .streamWrite
  | .setConsumer => some .streamRead
  | .removeConsumer => some .streamCancel
  | .setWorker => some .serviceOffer
  | _ => none

/-- The events that come from outside, with the arguments they need in place. -/
def Args.supply (x : Args) : Event → Prop
  | .setPlainAuth => x.username.isSome ∧ x.password.isSome
  | .connect => x.endpoint.isSome ∧ x.address.isSome
  | .setProducer => x.stream.isSome
  | .setConsumer => x.stream.isSome ∧ x.pattern.isSome
  | .removeConsumer => x.stream.isSome
  | .setWorker => x.address.isSome ∧ x.pattern.isSome
  | .badEndpoint | .badPattern | .replayReady | .commandInvalid | .failed | .other => False
  | _ => True

theorem Call.supply (x : Args) (c : Call) : (c.args x).supply c.event := by
  cases c <;> simp [Call.args, Call.event, Args.supply]

theorem protocolEvent_supply {x : Args} {i : Id} {e : Event} (h : Actor.protocolEvent i = some e) :
    x.supply e := by
  cases i <;> simp only [Actor.protocolEvent, reduceCtorEq, Option.some.injEq] at h <;>
    subst h <;> trivial

/-! ## The state between two events -/

/-- Not in an internal state, and nothing left to execute. -/
structure Formed (a : Actor) : Prop where
  internal : a.state ≠ .haveError → a.state ≠ .defaults
  failed : a.state = .haveError → a.fsmStopped = true
  address : a.state ≠ .start → a.myaddress.isSome
  nextEvent : a.fsmStopped = false → a.nextEvent = none
  exception : a.exception = none

/-- The machine runs and is idle. -/
structure Ready (a : Actor) : Prop where
  terminated : a.terminated = false
  fsmStopped : a.fsmStopped = false
  nextEvent : a.nextEvent = none
  exception : a.exception = none

namespace Actor

/-- The delivery that an event makes of the message. -/
def delivery (p : Proto) : Event → Option Delivery
  | .streamDeliver => some (.stream p.address p.sender p.subject p.content)
  | .mailboxDeliver => some (.mailbox p.sender p.address p.subject p.tracker p.content)
  | .serviceDeliver => some (.service p.sender p.address p.subject p.tracker p.content)
  | _ => none

/-- Open the connection as `address`. -/
def reopen (a : Actor) (address : CString) : Actor :=
  (a.setMessage (a.message.setStr .address address.field)).useConnectTimeout.send .connectionOpen

/-- `check_status_code` and the `have error` state. -/
def haveError (a : Actor) (address : CString) : Actor :=
  if a.message.statusCode = commandInvalid then (a.reopen address).setState .reconnecting
  else if a.message.statusCode = L1.failed then (a.setState .haveError).signalFailure.stop
  else (a.setState .haveError).stop

/-- Record and send. -/
def request (a : Actor) (r : Replay) : Actor :=
  ((a.setReplays (a.replays.addEnd r)).setMessage (r.load a.message)).send r.id

/-- The replay loop, with the cursor between `back` and the records given. -/
def replayFrom : List Replay → List Replay → Actor → Actor
  | back, [], a => (a.setReplays ⟨[], back.reverse⟩).clientIsConnected.setState .connected
  | back, r :: rs, a =>
    if r.replayed then replayFrom (r :: back) rs ((a.setMessage (r.load a.message)).send r.id)
    else a.setReplays ⟨r :: back, rs⟩

end Actor

open Actor

/-- **One event of the client.** -/
inductive Handled (env : Env) (a : Actor) : Event → Actor → Prop where
  | discarded {e : Event} : transition a.state e = some ([], none) → Handled env a e a
  -- start, and disconnected
  | authorized {username password : CString} : a.state = .start →
      a.args.username = some username → a.args.password = some password →
      Handled env a .setPlainAuth (a.setPlain username password).signalSuccess
  | opening {endpoint address : CString} : a.state = .start → a.args.endpoint = some endpoint →
      a.args.address = some address → env.connectable endpoint = true →
      Handled env a .connect
        (((a.setMyaddress address).reopen address).setState .connecting)
  | unconnectable {endpoint address : CString} : a.state = .start →
      a.args.endpoint = some endpoint → a.args.address = some address →
      env.connectable endpoint = false →
      Handled env a .connect (a.setMyaddress address).signalBadEndpoint
  | refused {e : Event} : a.state = .start ∨ a.state = .disconnected → e.request.isSome →
      Handled env a e a.signalFailure
  | left : a.state = .start ∨ a.state = .disconnected →
      Handled env a .destructor a.signalSuccess.stop
  -- connecting
  | opened : a.state = .connecting →
      Handled env a .ok (a.clientIsConnected.signalSuccess.setState .connected)
  | unreachable : a.state = .connecting →
      Handled env a .expired (a.signalServerNotPresent.setState .start)
  -- connected
  | requested {e : Event} {r : Replay} : a.state = .connected → a.args.record e = some r →
      r.valid env = true → Handled env a e ((a.request r).setState .confirming)
  | rejected {stream pattern : CString} : a.state = .connected → a.args.stream = some stream →
      a.args.pattern = some pattern → env.valid pattern = false →
      Handled env a .setConsumer a.signalBadPattern
  | closing : a.state = .connected →
      Handled env a .destructor ((a.send .connectionClose).setState .terminating)
  | passed {e : Event} {d : Delivery} : a.state = .connected ∨ a.state = .confirming →
      delivery a.message e = some d →
      Handled env a e ((a.pass d).setMessage a.message.takeContent)
  -- confirming
  | confirmed : a.state = .confirming → Handled env a .ok (a.signalSuccess.setState .connected)
  | late : a.state = .confirming →
      Handled env a .expired (a.serverHasGoneOffline.signalFailure.setState .disconnected)
  | denied {address : CString} : a.state = .confirming → a.myaddress = some address →
      Handled env a .error (a.signalFailure.haveError address)
  -- terminating
  | finished : a.state = .terminating → Handled env a .ok a.signalSuccess.stop
  | abandoned {e : Event} : a.state = .terminating → e = .expired ∨ e = .error →
      Handled env a e a.signalFailure.stop
  -- reconnecting
  | reopened : a.state = .reconnecting →
      Handled env a .ok (replayFrom [] a.replays.items a.clientIsConnected)
  | pushed {e : Event} {i : Id} : a.state = .reconnecting → e.request = some i →
      Handled env a e (replayFrom a.replays.back a.replays.post (a.send i))
  -- defaults
  | pinged : a.state ≠ .start → Handled env a .heartbeat (a.send .connectionPing)
  | returned : a.state = .connecting ∨ a.state = .connected ∨ a.state = .disconnected →
      Handled env a .connectionPong (a.clientIsConnected.setState .connected)
  | offline : a.state = .connected ∨ a.state = .reconnecting ∨ a.state = .disconnected →
      Handled env a .expired (a.serverHasGoneOffline.setState .disconnected)
  | erred {address : CString} :
      a.state = .connecting ∨ a.state = .connected ∨ a.state = .disconnected →
      a.myaddress = some address → Handled env a .error (a.haveError address)

/-- What an event of any machine does: nothing, once the machine has stopped. -/
inductive Reacts (env : Env) (a : Actor) (e : Event) : Actor → Prop where
  | stopped : a.fsmStopped = true → Reacts env a e (a.setNextEvent e)
  | handled {a' : Actor} : Ready a → Handled env a e a' → Reacts env a e a'

/-! ## Rounds -/

namespace Actor
variable {env : Env} {n : Nat} {a b : Actor} {e e' : Event} {acts acts' : List Action}
  {next next' : Option State}

theorem loop_idle (h : a.nextEvent = none) : loop env (n + 1) a = .ok a := by
  unfold loop
  split
  · rfl
  · rw [h]

theorem loop_stopped (h : a.fsmStopped = true) : loop env (n + 1) a = .ok a := by
  unfold loop
  simp [h]

/-- One round. -/
theorem loop_event (hr : Ready a.clear) (hn : a.nextEvent = some e)
    (ht : transition a.state e = some (acts, next)) :
    loop env (n + 1) a =
      (runActions env acts a.clear >>= fun b => loop env n (b.afterActions next)) := by
  have h1 : a.terminated = false := hr.terminated
  have h2 : a.fsmStopped = false := hr.fsmStopped
  rw [loop]
  simp only [h1, h2, Bool.or_false, Bool.false_eq_true, if_false, hn, ht]

theorem clear_setNextEvent (hr : Ready a) : (a.setNextEvent e).clear = a := by
  obtain ⟨-, -, hn, hx⟩ := hr
  ext <;> simp [hn, hx]

/-- One round of an idle machine that is given event `e`. -/
theorem loop_round (hr : Ready a) (ht : transition a.state e = some (acts, next)) :
    loop env (n + 1) (a.setNextEvent e) =
      (runActions env acts a >>= fun b => loop env n (b.afterActions next)) := by
  have hc : (a.setNextEvent e).clear = a := clear_setNextEvent hr
  have hr' : Ready (a.setNextEvent e).clear := by rw [hc]; exact hr
  rw [loop_event hr' rfl ht, hc]

/-- An event that takes one round. -/
theorem execute_one (hr : Ready a) (ht : transition a.state e = some (acts, next))
    (ha : runActions env acts a = .ok b) (hx : b.exception = none) (hn : b.nextEvent = none) :
    execute env e a = .ok (b.setState (next.getD b.state)) := by
  show loop env (a.replays.size + 3) (a.setNextEvent e) = _
  rw [loop_round hr ht, ha]
  simp only [ok_bind, afterActions, hx, Option.isNone_none, if_true]
  exact loop_idle hn

/-! ## The replay loop -/

theorem afterActions_none (hx : a.exception = none) : a.afterActions none = a := by
  simp only [afterActions, hx, Option.isNone_none, if_true]
  rfl

/-- `get_next_replay_command` on a record that is replayed sets the event that
sends it and goes on. -/
theorem replay_record {r : Replay} (hr : r.replayed = true) (a : Actor) :
    ∃ e, a.replayExecute (some r) = (a.setMessage (r.load a.message)).setNextEvent e ∧
      transition .reconnecting e = some ([.send r.id, .getNextReplayCommand], none) := by
  cases r with
  | streamWrite stream => exact ⟨.setProducer, rfl, rfl⟩
  | streamRead stream pattern => exact ⟨.setConsumer, rfl, rfl⟩
  | serviceOffer stream pattern => exact ⟨.setWorker, rfl, rfl⟩
  | streamCancel stream => cases hr

theorem replayExecute_exception (r : Option Replay) (a : Actor) :
    (a.replayExecute r).exception = a.exception := by
  cases r with
  | none => rfl
  | some r => cases r <;> rfl

theorem getNextReplayCommand_exception (a : Actor) :
    a.getNextReplayCommand.exception = a.exception := replayExecute_exception _ _

theorem getFirstReplayCommand_exception (a : Actor) :
    a.getFirstReplayCommand.exception = a.exception := replayExecute_exception _ _

/-- **The replay loop**, by induction on the records after the cursor. -/
theorem loop_replay (back post : List Replay) (hr : Ready a) (hs : a.state = .reconnecting)
    (hn : post.length + 2 ≤ n) :
    loop env n (a.setReplays ⟨back, post⟩).getNextReplayCommand = .ok (replayFrom back post a) := by
  induction post generalizing back a n with
  | nil =>
    obtain ⟨m, rfl⟩ : ∃ m, n = m + 2 := ⟨n - 2, by simp at hn; omega⟩
    have hr' : Ready (a.setReplays ⟨[], back.reverse⟩) := ⟨hr.1, hr.2, hr.3, hr.4⟩
    have hcmd : (a.setReplays ⟨back, []⟩).getNextReplayCommand =
        (a.setReplays ⟨[], back.reverse⟩).setNextEvent .replayReady := by
      simp [getNextReplayCommand, CursorList.next, CursorList.reset, CursorList.items,
        replayExecute]
      rfl
    have ht : transition (a.setReplays ⟨[], back.reverse⟩).state .replayReady =
        some ([.clientIsConnected], some .connected) := by
      show transition a.state _ = _
      rw [hs]; rfl
    rw [hcmd, loop_round hr' ht]
    simp only [runActions, hr'.exception, Option.isNone_none, if_true, runAction, ok_bind]
    have hx : (a.setReplays ⟨[], back.reverse⟩).clientIsConnected.exception = none := hr.exception
    simp only [afterActions, hx, Option.isNone_none, if_true, Option.getD_some]
    exact loop_idle hr.nextEvent
  | cons r rs ih =>
    obtain ⟨m, rfl⟩ : ∃ m, n = m + 1 := ⟨n - 1, by simp at hn; omega⟩
    have hcmd : (a.setReplays ⟨back, r :: rs⟩).getNextReplayCommand =
        (a.setReplays ⟨r :: back, rs⟩).replayExecute (some r) := rfl
    rw [hcmd]
    by_cases hrep : r.replayed = true
    · let b := (a.setReplays ⟨r :: back, rs⟩).setMessage (r.load a.message)
      have hb : Ready b := ⟨hr.1, hr.2, hr.3, hr.4⟩
      obtain ⟨e, he, ht⟩ := replay_record hrep (a.setReplays ⟨r :: back, rs⟩)
      have hsend : Ready ((a.setMessage (r.load a.message)).send r.id) := ⟨hr.1, hr.2, hr.3, hr.4⟩
      have hx : b.exception = none := hr.exception
      have hx' : (b.send r.id).exception = none := hr.exception
      rw [he]
      show loop env (m + 1) (b.setNextEvent e) = _
      rw [loop_round hb (by show transition a.state e = _; rw [hs]; exact ht)]
      simp only [runActions, hx, hx', Option.isNone_none, if_true, runAction, ok_bind]
      rw [afterActions_none ((getNextReplayCommand_exception _).trans hx')]
      simp only [replayFrom, hrep, if_true]
      exact ih (r :: back) hsend hs (by simp at hn; omega)
    · cases r with
      | streamCancel stream => exact loop_idle hr.nextEvent
      | _ => exact absurd rfl hrep

/-- The rounds of an error, from the end of the first. -/
theorem loop_error {address : CString} (hr : Ready a) (ha : a.myaddress = some address) :
    loop env (n + 2) (a.checkStatusCode.afterActions (some .haveError)) =
      .ok (a.haveError address) := by
  have hb : Ready (a.setState .haveError) := ⟨hr.1, hr.2, hr.3, hr.4⟩
  have hround (e : Event) : ((a.setNextEvent e).afterActions (some .haveError)) =
      (a.setState .haveError).setNextEvent e := by
    simp only [afterActions, setNextEvent_exception, hr.exception, Option.isNone_none, if_true]
    rfl
  unfold checkStatusCode haveError
  split
  · rw [hround, loop_round hb rfl]
    have hadr : (a.setState .haveError).setClientAddress =
        .ok ((a.setState .haveError).setMessage (a.message.setStr .address address.field)) := by
      simp only [setClientAddress, setState_myaddress, ha, deref_some, ok_bind]
      rfl
    simp only [runActions, runAction, hb.exception, hadr, ok_bind, Option.isNone_none, if_true]
    have hx (p : Proto) : (((a.setState .haveError).setMessage p).useConnectTimeout).exception =
        none := hr.exception
    simp only [setMessage_exception, hb.exception, hx, Option.isNone_none, if_true, ok_bind,
      afterActions, send_exception, Option.getD_some]
    exact loop_idle hr.nextEvent
  · split
    · rw [hround, loop_round hb rfl]
      have hx : (a.setState .haveError).signalFailure.exception = none := hr.exception
      have hstop : (a.setState .haveError).signalFailure.stop.exception = none := hr.exception
      simp only [runActions, runAction, hb.exception, hx, ok_bind, Option.isNone_none, if_true]
      rw [afterActions_none hstop]
      exact loop_stopped rfl
    · rw [hround, loop_round hb rfl]
      have hstop : (a.setState .haveError).stop.exception = none := hr.exception
      simp only [runActions, runAction, hb.exception, ok_bind, Option.isNone_none, if_true]
      rw [afterActions_none hstop]
      exact loop_stopped rfl

end Actor

/-! ## Every event -/

section
variable {env : Env} {a : Actor} {e : Event}

/-- The outcome of an event. -/
def Handles (env : Env) (a : Actor) (e : Event) : Prop :=
  ∃ a', a.execute env e = .ok a' ∧ Handled env a e a'

theorem handles_discard (hr : Ready a) (ht : transition a.state e = some ([], none)) :
    Handles env a e :=
  ⟨a, execute_one hr ht rfl hr.exception hr.nextEvent, .discarded ht⟩

/-- An event of one round, whose actions end in `b`. -/
theorem handles_one {acts : List Action} {next : Option State} {b : Actor} (hr : Ready a)
    (ht : transition a.state e = some (acts, next)) (ha : runActions env acts a = .ok b)
    (hx : b.exception = none) (hn : b.nextEvent = none)
    (h : Handled env a e (b.setState (next.getD b.state))) : Handles env a e :=
  ⟨_, execute_one hr ht ha hx hn, h⟩

theorem runActions_cons {act : Action} {acts : List Action} {b : Actor} (hx : a.exception = none)
    (ha : a.runAction env act = .ok b) :
    runActions env (act :: acts) a = runActions env acts b := by
  simp only [runActions, hx, Option.isNone_none, if_true, ha, ok_bind]

/-- An error in a state that does not answer it itself. -/
theorem handles_error {acts : List Action} {address : CString} {b : Actor} (hr : Ready a)
    (ht : transition a.state .error = some (acts, some .haveError))
    (ha : runActions env acts a = .ok b.checkStatusCode) (hb : Ready b)
    (hadr : b.myaddress = some address) (h : Handled env a .error (b.haveError address)) :
    Handles env a .error := by
  refine ⟨_, ?_, h⟩
  show loop env (a.replays.size + 3) (a.setNextEvent .error) = _
  rw [loop_round hr ht, ha]
  exact loop_error hb hadr

/-- The first round raises the exception `x`, which is handled in a round of its
own. -/
theorem handles_exception {acts : List Action} {next : Option State} {x : Event} {act : Action}
    {b c : Actor} (hr : Ready a) (ht : transition a.state e = some (acts, next))
    (ha : runActions env acts a = .ok (b.setException x)) (hb : Ready b)
    (ht' : transition b.state x = some ([act], none)) (ha' : b.runAction env act = .ok c)
    (hx : c.exception = none) (hn : c.nextEvent = none) (h : Handled env a e c) :
    Handles env a e := by
  refine ⟨c, ?_, h⟩
  have hclear : ((b.setException x).afterActions next).clear = b := by
    obtain ⟨-, -, hn, hx⟩ := hb
    ext <;> simp [afterActions, hn, hx]
  show loop env (a.replays.size + 3) (a.setNextEvent e) = _
  have hb' : Ready ((b.setException x).afterActions next).clear := by rw [hclear]; exact hb
  rw [loop_round hr ht, ha, ok_bind, loop_event hb' rfl ht', hclear,
    runActions_cons hb.exception ha']
  exact (congrArg _ (afterActions_none hx)).trans (loop_idle hn)

/-- A method that an unconnected client refuses. -/
theorem handles_refused (hr : Ready a) (hs : a.state = .start ∨ a.state = .disconnected)
    (he : e.request.isSome) : Handles env a e := by
  have ht : transition a.state e = some ([.signalFailure], none) := by
    rcases hs with hs | hs <;> rw [hs] <;> cases e <;> first | rfl | cases he
  have ha : runActions env [.signalFailure] a = .ok a.signalFailure :=
    runActions_cons hr.exception rfl
  exact handles_one hr ht ha hr.exception hr.nextEvent (.refused hs he)

/-- The destructor of an unconnected client. -/
theorem handles_left (hr : Ready a) (hs : a.state = .start ∨ a.state = .disconnected) :
    Handles env a .destructor := by
  have ht : transition a.state .destructor = some ([.signalSuccess, .terminate], none) := by
    rcases hs with hs | hs <;> rw [hs] <;> rfl
  have ha : runActions env [.signalSuccess, .terminate] a = .ok a.signalSuccess.stop :=
    Eq.trans (runActions_cons hr.exception rfl) (runActions_cons hr.exception rfl)
  exact handles_one hr ht ha hr.exception hr.nextEvent (.left hs)

/-- A method that becomes a request to the server: `act` prepares record `r`. -/
theorem handles_prepared {act : Action} {r : Replay} (hr : Ready a) (hs : a.state = .connected)
    (ht : connectedState e = ([act, .send r.id], some .confirming))
    (ha : a.runAction env act =
      .ok ((a.setReplays (a.replays.addEnd r)).setMessage (r.load a.message)))
    (hrec : a.args.record e = some r) (hv : r.valid env = true) : Handles env a e := by
  have ht' : transition a.state e = some ([act, .send r.id], some .confirming) := by
    rw [hs, ← ht]; rfl
  have hacts : runActions env [act, .send r.id] a = .ok (a.request r) :=
    Eq.trans (runActions_cons hr.exception ha) (runActions_cons hr.exception rfl)
  exact handles_one hr ht' hacts hr.exception hr.nextEvent (.requested hs hrec hv)

theorem handles_start (hr : Ready a) (hs : a.state = .start) (hargs : a.args.supply e) :
    Handles env a e := by
  have hx := hr.exception
  have ht (e : Event) : transition a.state e = some (startState e) := by rw [hs]; rfl
  cases e with
  | setPlainAuth =>
    obtain ⟨h1, h2⟩ := hargs
    obtain ⟨username, h1⟩ := Option.isSome_iff_exists.1 h1
    obtain ⟨password, h2⟩ := Option.isSome_iff_exists.1 h2
    have ha : a.runAction env .usePlainSecurityMechanism = .ok (a.setPlain username password) := by
      simp only [runAction, usePlainSecurityMechanism, h1, h2, deref_some, ok_bind]
    have hacts : runActions env [.usePlainSecurityMechanism, .signalSuccess] a =
        .ok (a.setPlain username password).signalSuccess :=
      Eq.trans (runActions_cons hx ha) (runActions_cons hx rfl)
    exact handles_one hr (ht _) hacts hx hr.nextEvent (.authorized hs h1 h2)
  | connect =>
    obtain ⟨h1, h2⟩ := hargs
    obtain ⟨endpoint, h1⟩ := Option.isSome_iff_exists.1 h1
    obtain ⟨address, h2⟩ := Option.isSome_iff_exists.1 h2
    have ha : a.runAction env .rememberClientAddress = .ok (a.setMyaddress address) := by
      simp only [runAction, rememberClientAddress, h2, deref_some, ok_bind]
    by_cases hc : env.connectable endpoint = true
    · have hb : (a.setMyaddress address).runAction env .connectToServerEndpoint =
          .ok (a.setMyaddress address) := by
        simp only [runAction, connectToServerEndpoint, setMyaddress_args, h1, deref_some, ok_bind,
          hc, if_true]
      have hacts : runActions env [.rememberClientAddress, .connectToServerEndpoint,
          .setClientAddress, .useConnectTimeout, .send .connectionOpen] a =
            .ok ((a.setMyaddress address).reopen address) := by
        refine Eq.trans (runActions_cons hx ha) (Eq.trans (runActions_cons hx hb) ?_)
        exact Eq.trans (runActions_cons hx rfl)
          (Eq.trans (runActions_cons hx rfl) (runActions_cons hx rfl))
      exact handles_one hr (ht _) hacts hx hr.nextEvent (.opening hs h1 h2 hc)
    · have hb : (a.setMyaddress address).runAction env .connectToServerEndpoint =
          .ok ((a.setMyaddress address).setException .badEndpoint) := by
        simp only [runAction, connectToServerEndpoint, setMyaddress_args, h1, deref_some, ok_bind,
          hc]
        rfl
      have hacts : runActions env [.rememberClientAddress, .connectToServerEndpoint,
          .setClientAddress, .useConnectTimeout, .send .connectionOpen] a =
            .ok ((a.setMyaddress address).setException .badEndpoint) :=
        Eq.trans (runActions_cons hx ha) (Eq.trans (runActions_cons hx hb) rfl)
      have hready : Ready (a.setMyaddress address) := ⟨hr.1, hr.2, hr.3, hr.4⟩
      exact handles_exception hr (ht _) hacts hready (ht .badEndpoint) rfl hx hr.nextEvent
        (.unconnectable hs h1 h2 (by simpa using hc))
  | destructor => exact handles_left hr (.inl hs)
  | setProducer => exact handles_refused hr (.inl hs) rfl
  | setConsumer => exact handles_refused hr (.inl hs) rfl
  | removeConsumer => exact handles_refused hr (.inl hs) rfl
  | setWorker => exact handles_refused hr (.inl hs) rfl
  | _ => first | exact hargs.elim | exact handles_discard hr (ht _)

theorem handles_heartbeat (hr : Ready a) (hs : a.state ≠ .start)
    (ht : transition a.state .heartbeat = some (defaults .heartbeat)) :
    Handles env a .heartbeat := by
  have hacts : runActions env [.send .connectionPing] a = .ok (a.send .connectionPing) :=
    runActions_cons hr.exception rfl
  exact handles_one hr ht hacts hr.exception hr.nextEvent (.pinged hs)

theorem handles_pong (hr : Ready a)
    (hs : a.state = .connecting ∨ a.state = .connected ∨ a.state = .disconnected) :
    Handles env a .connectionPong := by
  have ht : transition a.state .connectionPong = some ([.clientIsConnected], some .connected) := by
    rcases hs with hs | hs | hs <;> rw [hs] <;> rfl
  have hacts : runActions env [.clientIsConnected] a = .ok a.clientIsConnected :=
    runActions_cons hr.exception rfl
  exact handles_one hr ht hacts hr.exception hr.nextEvent (.returned hs)

theorem handles_offline (hr : Ready a)
    (hs : a.state = .connected ∨ a.state = .reconnecting ∨ a.state = .disconnected) :
    Handles env a .expired := by
  have ht : transition a.state .expired = some ([.serverHasGoneOffline], some .disconnected) := by
    rcases hs with hs | hs | hs <;> rw [hs] <;> rfl
  have hacts : runActions env [.serverHasGoneOffline] a = .ok a.serverHasGoneOffline :=
    runActions_cons hr.exception rfl
  exact handles_one hr ht hacts hr.exception hr.nextEvent (.offline hs)

theorem handles_erred {address : CString} (hr : Ready a)
    (hs : a.state = .connecting ∨ a.state = .connected ∨ a.state = .disconnected)
    (hadr : a.myaddress = some address) : Handles env a .error := by
  have ht : transition a.state .error = some ([.checkStatusCode], some .haveError) := by
    rcases hs with hs | hs | hs <;> rw [hs] <;> rfl
  have hacts : runActions env [.checkStatusCode] a = .ok a.checkStatusCode :=
    runActions_cons hr.exception rfl
  exact handles_error hr ht hacts hr hadr (.erred hs hadr)

/-- A delivery in a state that passes it on. -/
theorem handles_passed {d : Delivery} (hr : Ready a)
    (hs : a.state = .connected ∨ a.state = .confirming)
    (hd : delivery a.message e = some d) : Handles env a e := by
  have hacts : ∃ act, transition a.state e = some ([act], none) ∧
      runActions env [act] a = .ok ((a.pass d).setMessage a.message.takeContent) := by
    cases e <;> simp only [delivery, reduceCtorEq, Option.some.injEq] at hd <;> subst hd
    case streamDeliver =>
      exact ⟨.passStreamMessageToApp, by rcases hs with hs | hs <;> rw [hs] <;> rfl,
        runActions_cons hr.exception rfl⟩
    case mailboxDeliver =>
      exact ⟨.passMailboxMessageToApp, by rcases hs with hs | hs <;> rw [hs] <;> rfl,
        runActions_cons hr.exception rfl⟩
    case serviceDeliver =>
      exact ⟨.passServiceMessageToApp, by rcases hs with hs | hs <;> rw [hs] <;> rfl,
        runActions_cons hr.exception rfl⟩
  obtain ⟨act, ht, hacts⟩ := hacts
  exact handles_one hr ht hacts hr.exception hr.nextEvent (.passed hs hd)

theorem handles_connecting {address : CString} (hr : Ready a) (hs : a.state = .connecting)
    (hadr : a.myaddress = some address) (hargs : a.args.supply e) : Handles env a e := by
  have hx := hr.exception
  have ht (e : Event) : transition a.state e = some (connectingState e) := by rw [hs]; rfl
  cases e with
  | ok =>
    have hacts : runActions env [.clientIsConnected, .signalSuccess] a =
        .ok a.clientIsConnected.signalSuccess :=
      Eq.trans (runActions_cons hx rfl) (runActions_cons hx rfl)
    exact handles_one hr (ht _) hacts hx hr.nextEvent (.opened hs)
  | expired =>
    have hacts : runActions env [.signalServerNotPresent] a = .ok a.signalServerNotPresent :=
      runActions_cons hx rfl
    exact handles_one hr (ht _) hacts hx hr.nextEvent (.unreachable hs)
  | heartbeat => exact handles_heartbeat hr (by simp [hs]) (ht _)
  | connectionPong => exact handles_pong hr (.inl hs)
  | error => exact handles_erred hr (.inl hs) hadr
  | _ => first | exact hargs.elim | exact handles_discard hr (ht _)

theorem handles_connected {address : CString} (hr : Ready a) (hs : a.state = .connected)
    (hadr : a.myaddress = some address) (hargs : a.args.supply e) : Handles env a e := by
  have hx := hr.exception
  have ht (e : Event) : transition a.state e = some (connectedState e) := by rw [hs]; rfl
  cases e with
  | setProducer =>
    obtain ⟨stream, h1⟩ := Option.isSome_iff_exists.1 hargs
    have ha : a.runAction env .prepareStreamWriteCommand =
        .ok ((a.setReplays (a.replays.addEnd (.streamWrite stream))).setMessage
          (Replay.load a.message (.streamWrite stream))) := by
      simp only [runAction, prepareStreamWriteCommand, h1, deref_some, ok_bind]
      rfl
    exact handles_prepared hr hs rfl ha (by simp [Args.record, h1]) rfl
  | setConsumer =>
    obtain ⟨h1, h2⟩ := hargs
    obtain ⟨stream, h1⟩ := Option.isSome_iff_exists.1 h1
    obtain ⟨pattern, h2⟩ := Option.isSome_iff_exists.1 h2
    by_cases hv : env.valid pattern = true
    · have ha : a.runAction env .prepareStreamReadCommand =
          .ok ((a.setReplays (a.replays.addEnd (.streamRead stream pattern))).setMessage
            (Replay.load a.message (.streamRead stream pattern))) := by
        simp only [runAction, prepareStreamReadCommand, h1, h2, deref_some, ok_bind, hv, if_true]
        rfl
      exact handles_prepared hr hs rfl ha (by simp [Args.record, h1, h2]) hv
    · have ha : a.runAction env .prepareStreamReadCommand = .ok (a.setException .badPattern) := by
        simp only [runAction, prepareStreamReadCommand, h1, h2, deref_some, ok_bind, hv]
        rfl
      have hacts : runActions env [.prepareStreamReadCommand, .send .streamRead] a =
          .ok (a.setException .badPattern) := Eq.trans (runActions_cons hx ha) rfl
      exact handles_exception hr (ht _) hacts hr (ht .badPattern) rfl hx hr.nextEvent
        (.rejected hs h1 h2 (by simpa using hv))
  | removeConsumer =>
    obtain ⟨stream, h1⟩ := Option.isSome_iff_exists.1 hargs
    have ha : a.runAction env .prepareStreamCancelCommand =
        .ok ((a.setReplays (a.replays.addEnd (.streamCancel stream))).setMessage
          (Replay.load a.message (.streamCancel stream))) := by
      simp only [runAction, prepareStreamCancelCommand, h1, deref_some, ok_bind]
      rfl
    exact handles_prepared hr hs rfl ha (by simp [Args.record, h1]) rfl
  | setWorker =>
    obtain ⟨h1, h2⟩ := hargs
    obtain ⟨address, h1⟩ := Option.isSome_iff_exists.1 h1
    obtain ⟨pattern, h2⟩ := Option.isSome_iff_exists.1 h2
    have ha : a.runAction env .prepareServiceOfferCommand =
        .ok ((a.setReplays (a.replays.addEnd (.serviceOffer address pattern))).setMessage
          (Replay.load a.message (.serviceOffer address pattern))) := by
      simp only [runAction, prepareServiceOfferCommand, h1, h2, deref_some, ok_bind]
      rfl
    exact handles_prepared hr hs rfl ha (by simp [Args.record, h1, h2]) rfl
  | destructor =>
    have hacts : runActions env [.send .connectionClose] a = .ok (a.send .connectionClose) :=
      runActions_cons hx rfl
    exact handles_one hr (ht _) hacts hx hr.nextEvent (.closing hs)
  | streamDeliver => exact handles_passed hr (.inl hs) rfl
  | mailboxDeliver => exact handles_passed hr (.inl hs) rfl
  | serviceDeliver => exact handles_passed hr (.inl hs) rfl
  | heartbeat => exact handles_heartbeat hr (by simp [hs]) (ht _)
  | connectionPong => exact handles_pong hr (.inr (.inl hs))
  | expired => exact handles_offline hr (.inl hs)
  | error => exact handles_erred hr (.inr (.inl hs)) hadr
  | _ => first | exact hargs.elim | exact handles_discard hr (ht _)

theorem handles_confirming {address : CString} (hr : Ready a) (hs : a.state = .confirming)
    (hadr : a.myaddress = some address) (hargs : a.args.supply e) : Handles env a e := by
  have hx := hr.exception
  have ht (e : Event) : transition a.state e = some (confirmingState e) := by rw [hs]; rfl
  cases e with
  | ok =>
    have hacts : runActions env [.signalSuccess] a = .ok a.signalSuccess := runActions_cons hx rfl
    exact handles_one hr (ht _) hacts hx hr.nextEvent (.confirmed hs)
  | expired =>
    have hacts : runActions env [.serverHasGoneOffline, .signalFailure] a =
        .ok a.serverHasGoneOffline.signalFailure :=
      Eq.trans (runActions_cons hx rfl) (runActions_cons hx rfl)
    exact handles_one hr (ht _) hacts hx hr.nextEvent (.late hs)
  | error =>
    have hacts : runActions env [.signalFailure, .checkStatusCode] a =
        .ok a.signalFailure.checkStatusCode :=
      Eq.trans (runActions_cons hx rfl) (runActions_cons hx rfl)
    exact handles_error hr (ht _) hacts ⟨hr.1, hr.2, hr.3, hr.4⟩ hadr (.denied hs hadr)
  | streamDeliver => exact handles_passed hr (.inr hs) rfl
  | mailboxDeliver => exact handles_passed hr (.inr hs) rfl
  | serviceDeliver => exact handles_passed hr (.inr hs) rfl
  | heartbeat => exact handles_heartbeat hr (by simp [hs]) (ht _)
  | _ => first | exact hargs.elim | exact handles_discard hr (ht _)

theorem handles_terminating (hr : Ready a) (hs : a.state = .terminating)
    (hargs : a.args.supply e) : Handles env a e := by
  have hx := hr.exception
  have ht (e : Event) : transition a.state e = some (terminatingState e) := by rw [hs]; rfl
  have hfail : runActions env [.signalFailure, .terminate] a = .ok a.signalFailure.stop :=
    Eq.trans (runActions_cons hx rfl) (runActions_cons hx rfl)
  cases e with
  | ok =>
    have hacts : runActions env [.signalSuccess, .terminate] a = .ok a.signalSuccess.stop :=
      Eq.trans (runActions_cons hx rfl) (runActions_cons hx rfl)
    exact handles_one hr (ht _) hacts hx hr.nextEvent (.finished hs)
  | expired => exact handles_one hr (ht _) hfail hx hr.nextEvent (.abandoned hs (.inl rfl))
  | error => exact handles_one hr (ht _) hfail hx hr.nextEvent (.abandoned hs (.inr rfl))
  | heartbeat => exact handles_heartbeat hr (by simp [hs]) (ht _)
  | _ => first | exact hargs.elim | exact handles_discard hr (ht _)

/-- A method call in the middle of a replay, or after one. -/
theorem handles_pushed {i : Id} (hr : Ready a) (hs : a.state = .reconnecting)
    (he : e.request = some i) : Handles env a e := by
  have ht : transition a.state e = some ([.send i, .getNextReplayCommand], none) := by
    rw [hs]
    cases e <;> cases he <;> rfl
  have hacts : runActions env [.send i, .getNextReplayCommand] a =
      .ok (a.send i).getNextReplayCommand :=
    Eq.trans (runActions_cons hr.exception rfl) (runActions_cons hr.exception rfl)
  have hx : (a.send i).getNextReplayCommand.exception = none :=
    (getNextReplayCommand_exception _).trans hr.exception
  have hpost : a.replays.post.length ≤ a.replays.size := by
    simp [CursorList.size, CursorList.items]
  refine ⟨_, ?_, .pushed hs he⟩
  show loop env (a.replays.size + 3) (a.setNextEvent e) = _
  rw [loop_round hr ht, hacts, ok_bind, afterActions_none hx]
  have hready : Ready (a.send i) := ⟨hr.1, hr.2, hr.3, hr.4⟩
  exact loop_replay a.replays.back a.replays.post hready hs (by omega)

theorem handles_reopened (hr : Ready a) (hs : a.state = .reconnecting) : Handles env a .ok := by
  have ht : transition a.state .ok = some ([.clientIsConnected, .getFirstReplayCommand], none) := by
    rw [hs]; rfl
  have hacts : runActions env [.clientIsConnected, .getFirstReplayCommand] a =
      .ok a.clientIsConnected.getFirstReplayCommand :=
    Eq.trans (runActions_cons hr.exception rfl) (runActions_cons hr.exception rfl)
  have hx : a.clientIsConnected.getFirstReplayCommand.exception = none :=
    (getFirstReplayCommand_exception _).trans hr.exception
  refine ⟨_, ?_, .reopened hs⟩
  show loop env (a.replays.size + 3) (a.setNextEvent .ok) = _
  rw [loop_round hr ht, hacts, ok_bind, afterActions_none hx]
  have hready : Ready a.clientIsConnected := ⟨hr.1, hr.2, hr.3, hr.4⟩
  exact loop_replay [] a.replays.items hready hs (by simp [CursorList.size])

theorem handles_reconnecting (hr : Ready a) (hs : a.state = .reconnecting)
    (hargs : a.args.supply e) : Handles env a e := by
  have ht (e : Event) : transition a.state e = some (reconnectingState e) := by rw [hs]; rfl
  cases e with
  | ok => exact handles_reopened hr hs
  | setProducer => exact handles_pushed hr hs rfl
  | setConsumer => exact handles_pushed hr hs rfl
  | removeConsumer => exact handles_pushed hr hs rfl
  | setWorker => exact handles_pushed hr hs rfl
  | expired => exact handles_offline hr (.inr (.inl hs))
  | heartbeat => exact handles_heartbeat hr (by simp [hs]) (ht _)
  | _ => first | exact hargs.elim | exact handles_discard hr (ht _)

theorem handles_disconnected {address : CString} (hr : Ready a) (hs : a.state = .disconnected)
    (hadr : a.myaddress = some address) (hargs : a.args.supply e) : Handles env a e := by
  have ht (e : Event) : transition a.state e = some (disconnectedState e) := by rw [hs]; rfl
  cases e with
  | setProducer => exact handles_refused hr (.inr hs) rfl
  | setConsumer => exact handles_refused hr (.inr hs) rfl
  | removeConsumer => exact handles_refused hr (.inr hs) rfl
  | setWorker => exact handles_refused hr (.inr hs) rfl
  | destructor => exact handles_left hr (.inr hs)
  | heartbeat => exact handles_heartbeat hr (by simp [hs]) (ht _)
  | connectionPong => exact handles_pong hr (.inr (.inr hs))
  | expired => exact handles_offline hr (.inr (.inr hs))
  | error => exact handles_erred hr (.inr (.inr hs)) hadr
  | _ => first | exact hargs.elim | exact handles_discard hr (ht _)

theorem handles_ready (hf : Formed a) (hr : Ready a) (hargs : a.args.supply e) :
    Handles env a e := by
  have hadr (h : a.state ≠ .start) := Option.isSome_iff_exists.1 (hf.address h)
  cases hs : a.state with
  | start => exact handles_start hr hs hargs
  | connecting =>
    obtain ⟨address, hadr⟩ := hadr (by simp [hs])
    exact handles_connecting hr hs hadr hargs
  | connected =>
    obtain ⟨address, hadr⟩ := hadr (by simp [hs])
    exact handles_connected hr hs hadr hargs
  | confirming =>
    obtain ⟨address, hadr⟩ := hadr (by simp [hs])
    exact handles_confirming hr hs hadr hargs
  | terminating => exact handles_terminating hr hs hargs
  | reconnecting => exact handles_reconnecting hr hs hargs
  | disconnected =>
    obtain ⟨address, hadr⟩ := hadr (by simp [hs])
    exact handles_disconnected hr hs hadr hargs
  | defaults => exact absurd hs (hf.internal (by simp [hs]))
  | haveError =>
    have hstop := hf.failed hs
    rw [hr.fsmStopped] at hstop
    cases hstop

/-- **The loop ends, and does what `Handled` says.** -/
theorem execute_total (hf : Formed a) (ht : a.terminated = false) (hargs : a.args.supply e) :
    ∃ a', a.execute env e = .ok a' ∧ Reacts env a e a' := by
  by_cases hstop : a.fsmStopped = true
  · refine ⟨a.setNextEvent e, ?_, .stopped hstop⟩
    show loop env (a.replays.size + 3) (a.setNextEvent e) = _
    exact loop_stopped hstop
  · have hrun : a.fsmStopped = false := by simpa using hstop
    have hr : Ready a := ⟨ht, hrun, hf.nextEvent hrun, hf.exception⟩
    obtain ⟨a', hexec, hh⟩ := handles_ready hf hr hargs
    exact ⟨a', hexec, .handled hr hh⟩

end
end Malamute.L4
