import Malamute.L4Client.Steps

/-!
# One reply for each call

A caller waits for one reply. `Answered a` is what it needs: never more replies
than calls, and while a call is unanswered the machine runs in a state whose
next OK, ERROR or expiry answers it.

The code does not keep this. A method called while the client is reconnecting,
or after the machine stopped, is never answered; a PONG or an ERROR while it
connects takes it out of `connecting` with the call unanswered; and an ERROR
300 is answered once more by the `failed` event, whether a call waits or not.
`prompt` is the condition on a step that leaves these out.

* `settles_stepped`: from a balanced state, `prompt` holds of exactly the steps
  after which `Answered` holds.
* `answered_iff_prompt`: `Answered` holds in every state of a run whose steps
  are prompt, and the next verdict answers the call that waits.
-/
namespace Malamute.L4
open Malamute.Core Malamute.L1 Malamute.L2 Actor

/-- An OK, an ERROR or an expiry will be answered. -/
def State.waiting : State → Bool
  | .connecting | .confirming | .terminating => true
  | _ => false

/-- The machine runs and waits for the server's answer to a call. -/
def Waiting (a : Actor) : Prop :=
  a.state.waiting = true ∧ a.fsmStopped = false ∧ a.terminated = false

instance (a : Actor) : Decidable (Waiting a) := inferInstanceAs (Decidable (_ ∧ _ ∧ _))

/-- Never more replies than calls, and an unanswered call is waited for. -/
def Answered (a : Actor) : Prop :=
  a.replies.length ≤ a.calls ∧ (a.replies.length < a.calls → Waiting a)

instance (a : Actor) : Decidable (Answered a) := inferInstanceAs (Decidable (_ ∧ (_ → _)))

/-- The event of a method. -/
def Event.method : Event → Bool
  | .setPlainAuth | .connect | .destructor | .setProducer | .setConsumer | .removeConsumer
  | .setWorker => true
  | _ => false

theorem Call.method (c : Call) : c.event.method = true := by cases c <;> rfl

/-- The event leaves no call without a reply, and makes no reply without a call. -/
def promptly (a : Actor) (e : Event) : Bool :=
  match a.state, e with
  | .connecting, .connectionPong => false
  | .connecting, .error => a.message.statusCode = L1.failed
  | .connected, .error => a.message.statusCode ≠ L1.failed
  | .connected, .setPlainAuth => false
  | .connected, .connect => false
  | .confirming, .error => a.message.statusCode ≠ L1.failed
  | .disconnected, .error => a.message.statusCode ≠ L1.failed
  | .disconnected, .setPlainAuth => false
  | .disconnected, .connect => false
  | .reconnecting, e => !e.method
  | _, _ => true

/-- The condition on a step: a method is called while the machine runs, in a
state that answers it; a frame is for clients, or nobody waits. -/
def prompt (a : Actor) : Label → Bool
  | .call c => !a.fsmStopped && promptly a c.event
  | .frame w =>
    a.fsmStopped ||
      match protocolEvent w.id with
      | some e => promptly (a.heard w) e
      | none => !a.state.waiting
  | _ => true

/-- One call is unanswered while the machine waits, and none otherwise. -/
def Balanced (a : Actor) : Prop :=
  a.calls = a.replies.length + if Waiting a then 1 else 0

theorem Balanced.answered {a : Actor} (h : Balanced a) : Answered a := by
  unfold Balanced at h
  split at h
  · exact ⟨by omega, fun _ => by assumption⟩
  · exact ⟨by omega, fun h' => absurd h' (by omega)⟩

/-! ## One event -/

/-- The calls that are unanswered when an event is executed: the one it is the
event of, or the one the machine waits for. -/
structure Pending (a : Actor) (e : Event) : Prop where
  calls : a.calls = a.replies.length + if e.method || a.state.waiting then 1 else 0
  once : e.method = true → a.state.waiting = false

/-- `Answered` holds after the step exactly if `ok`, and then `Balanced` does. -/
def Settles (ok : Bool) (a' : Actor) : Prop :=
  (ok = true → Balanced a') ∧ (ok = false → ¬Answered a')

theorem settles_balanced {ok : Bool} {a' : Actor} (h : ok = true) (hb : Balanced a') :
    Settles ok a' :=
  ⟨fun _ => hb, fun h' => absurd (h.symm.trans h') (by decide)⟩

theorem settles_broken {ok : Bool} {a' : Actor} (h : ok = false) (hb : ¬Answered a') :
    Settles ok a' :=
  ⟨fun h' => absurd (h.symm.trans h') (by decide), fun _ => hb⟩

/-- An unanswered call that nobody waits for. -/
theorem not_answered_of_lost {a' : Actor} (h : a'.replies.length < a'.calls) (hw : ¬Waiting a') :
    ¬Answered a' := fun h' => hw (h'.2 h)

theorem not_answered_of_surplus {a' : Actor} (h : a'.calls < a'.replies.length) : ¬Answered a' :=
  fun h' => absurd h'.1 (by omega)

/-- The machine answers the one call that is unanswered and does not wait. -/
theorem balanced_reply {a a' : Actor} (hc : a.calls = a.replies.length + 1)
    (hcalls : a'.calls = a.calls) (hreplies : a'.replies.length = a.replies.length + 1)
    (hw : ¬Waiting a') : Balanced a' := by
  rw [Balanced, if_neg hw]
  omega

/-- The machine waits with the one call unanswered. -/
theorem balanced_wait {a a' : Actor} (hc : a.calls = a.replies.length + 1)
    (hcalls : a'.calls = a.calls) (hreplies : a'.replies.length = a.replies.length)
    (hw : Waiting a') : Balanced a' := by
  rw [Balanced, if_pos hw]
  omega

/-- Nothing is unanswered. -/
theorem balanced_idle {a a' : Actor} (hc : a.calls = a.replies.length)
    (hcalls : a'.calls = a.calls) (hreplies : a'.replies.length = a.replies.length)
    (hw : ¬Waiting a') : Balanced a' := by
  rw [Balanced, if_neg hw]
  omega

theorem not_waiting {a : Actor} (h : a.state.waiting = false) : ¬Waiting a := by
  intro h'
  have := h'.1
  rw [h] at this
  cases this

section
variable {env : Env} {a a' : Actor} {e : Event}

theorem Pending.one (h : Pending a e) (he : e.method = true ∨ a.state.waiting = true) :
    a.calls = a.replies.length + 1 := by
  have := h.calls
  rcases he with he | he <;> simpa [he] using this

theorem Pending.zero (h : Pending a e) (he : e.method = false) (hs : a.state.waiting = false) :
    a.calls = a.replies.length := by
  simpa [he, hs] using h.calls

/-- No state discards a method that it would answer, and only a method needs an
answer. -/
theorem promptly_discarded (hs : a.state ≠ .defaults)
    (ht : transition a.state e = some ([], none)) (hw : e.method = true → a.state.waiting = false) :
    promptly a e = !e.method := by
  unfold promptly
  revert ht hs hw
  cases a.state with
  | start => cases e <;> simp [transition, startState, Event.method]
  | connecting => cases e <;> simp [transition, connectingState, defaults, Event.method, State.waiting]
  | connected => cases e <;> simp [transition, connectedState, defaults, Event.method]
  | confirming => cases e <;> simp [transition, confirmingState, defaults, Event.method, State.waiting]
  | terminating =>
    cases e <;> simp [transition, terminatingState, defaults, Event.method, State.waiting]
  | reconnecting => cases e <;> simp [Event.method]
  | disconnected => cases e <;> simp [transition, disconnectedState, defaults, Event.method]
  | defaults => exact fun hs => absurd rfl hs
  | haveError => cases e <;> simp [transition, haveErrorState]

theorem settles_discarded (hp : Pending a e) (hr : Ready a) (hs : a.state ≠ .defaults)
    (ht : transition a.state e = some ([], none)) : Settles (promptly a e) a := by
  rw [promptly_discarded hs ht hp.once]
  cases he : e.method with
  | true =>
    have hone := hp.one (.inl he)
    exact settles_broken rfl (not_answered_of_lost (by omega) (not_waiting (hp.once he)))
  | false =>
    refine settles_balanced rfl ?_
    cases hw : a.state.waiting with
    | true => exact balanced_wait (hp.one (.inr hw)) rfl rfl ⟨hw, hr.fsmStopped, hr.terminated⟩
    | false => exact balanced_idle (hp.zero he hw) rfl rfl (not_waiting hw)

/-- The two rounds of an error, with no call to answer. -/
theorem settles_haveError (address : CString) (hcalls : a.calls = a.replies.length) :
    Settles (a.message.statusCode ≠ L1.failed) (a.haveError address) := by
  unfold haveError
  split
  · rename_i hcode
    have hok : decide (a.message.statusCode ≠ L1.failed) = true := by rw [hcode]; decide
    exact settles_balanced hok (balanced_idle hcalls rfl rfl (not_waiting rfl))
  · split
    · rename_i hcode
      refine settles_broken (by simp [hcode]) (not_answered_of_surplus ?_)
      simp [hcalls]
    · rename_i hcode
      exact settles_balanced (by simp [hcode]) (balanced_idle hcalls rfl rfl (not_waiting rfl))

/-- The two rounds of an error, with one call unanswered. -/
theorem settles_haveError_unanswered (address : CString) (hcalls : a.calls = a.replies.length + 1) :
    Settles (a.message.statusCode = L1.failed) (a.haveError address) := by
  unfold haveError
  split
  · rename_i hcode
    have hbad : decide (a.message.statusCode = L1.failed) = false := by rw [hcode]; decide
    refine settles_broken hbad (not_answered_of_lost ?_ (not_waiting rfl))
    show a.replies.length < a.calls
    omega
  · split
    · rename_i hcode
      exact settles_balanced (by simp [hcode]) (balanced_reply hcalls rfl (by simp) (not_waiting rfl))
    · rename_i hcode
      refine settles_broken (by simp [hcode]) (not_answered_of_lost ?_ (not_waiting rfl))
      show a.replies.length < a.calls
      omega

/-- A replay answers nobody. -/
theorem not_answered_replayFrom (back post : List Replay) (hs : a.state = .reconnecting)
    (hcalls : a.replies.length < a.calls) : ¬Answered (replayFrom back post a) := by
  have h := replays_replayFrom back post a
  refine not_answered_of_lost (by rw [h.replies, h.calls]; exact hcalls) (not_waiting ?_)
  rcases h.state with h | h <;> rw [h]
  · rw [hs]; rfl
  · rfl

theorem balanced_replayFrom (back post : List Replay) (hs : a.state = .reconnecting)
    (hcalls : a.calls = a.replies.length) : Balanced (replayFrom back post a) := by
  have h := replays_replayFrom back post a
  refine balanced_idle hcalls h.calls (by rw [h.replies]) (not_waiting ?_)
  rcases h.state with h | h <;> rw [h]
  · rw [hs]; rfl
  · rfl

/-- **What one event does to the replies.** -/
theorem settles_handled (h : Handled env a e a') (hf : Formed a) (hr : Ready a)
    (hp : Pending a e) : Settles (promptly a e) a' := by
  have hwait (hs : a.state.waiting = true) : a.calls = a.replies.length + 1 := hp.one (.inr hs)
  cases h with
  | discarded ht => exact settles_discarded hp hr (hf.external hr).1 ht
  | authorized hs _ _ =>
    exact settles_balanced (by simp [promptly, hs])
      (balanced_reply (hp.one (.inl rfl)) rfl (by simp) (not_waiting (by simp [hs, State.waiting])))
  | opening hs _ _ _ =>
    exact settles_balanced (by simp [promptly, hs])
      (balanced_wait (hp.one (.inl rfl)) rfl rfl ⟨rfl, hr.fsmStopped, hr.terminated⟩)
  | unconnectable hs _ _ _ =>
    exact settles_balanced (by simp [promptly, hs])
      (balanced_reply (hp.one (.inl rfl)) rfl (by simp) (not_waiting (by simp [hs, State.waiting])))
  | refused hs he =>
    have hm : e.method = true := by cases e <;> simp [Event.request, Event.method] at he ⊢
    have hok : promptly a e = true := by
      rcases hs with hs | hs <;> cases e <;> simp [Event.request, promptly, hs] at he ⊢
    have hw : a.state.waiting = false := hp.once hm
    exact settles_balanced hok
      (balanced_reply (hp.one (.inl hm)) rfl (by simp) (not_waiting (by simpa using hw)))
  | left hs =>
    have hok : promptly a .destructor = true := by rcases hs with hs | hs <;> simp [promptly, hs]
    exact settles_balanced hok
      (balanced_reply (hp.one (.inl rfl)) rfl (by simp) (by simp [Waiting]))
  | opened hs =>
    exact settles_balanced (by simp [promptly, hs])
      (balanced_reply (hwait (by rw [hs]; rfl)) rfl (by simp) (not_waiting rfl))
  | unreachable hs =>
    exact settles_balanced (by simp [promptly, hs])
      (balanced_reply (hwait (by rw [hs]; rfl)) rfl (by simp) (not_waiting rfl))
  | requested hs hrec _ =>
    have hm : e.method = true := by cases e <;> simp [Args.record, Event.method] at hrec ⊢
    have hok : promptly a e = true := by
      cases e <;> simp [Args.record, promptly, hs] at hrec ⊢
    exact settles_balanced hok
      (balanced_wait (hp.one (.inl hm)) rfl rfl ⟨rfl, hr.fsmStopped, hr.terminated⟩)
  | rejected hs _ _ _ =>
    exact settles_balanced (by simp [promptly, hs])
      (balanced_reply (hp.one (.inl rfl)) rfl (by simp) (not_waiting (by simp [hs, State.waiting])))
  | closing hs =>
    exact settles_balanced (by simp [promptly, hs])
      (balanced_wait (hp.one (.inl rfl)) rfl rfl ⟨rfl, hr.fsmStopped, hr.terminated⟩)
  | passed hs hd =>
    have hm : e.method = false := by cases e <;> simp [delivery, Event.method] at hd ⊢
    have hok : promptly a e = true := by
      rcases hs with hs | hs <;> cases e <;> simp [delivery, promptly, hs] at hd ⊢
    refine settles_balanced hok ?_
    rcases hs with hs | hs
    · have hz := hp.zero hm (by rw [hs]; rfl)
      exact balanced_idle hz rfl rfl (not_waiting (by simp [hs, State.waiting]))
    · have hw : a.state.waiting = true := by rw [hs]; rfl
      exact balanced_wait (hwait hw) rfl rfl ⟨hw, hr.fsmStopped, hr.terminated⟩
  | confirmed hs =>
    exact settles_balanced (by simp [promptly, hs])
      (balanced_reply (hwait (by rw [hs]; rfl)) rfl (by simp) (not_waiting rfl))
  | late hs =>
    exact settles_balanced (by simp [promptly, hs])
      (balanced_reply (hwait (by rw [hs]; rfl)) rfl (by simp) (not_waiting rfl))
  | @denied address hs _ =>
    have hone := hwait (by rw [hs]; rfl)
    have hcalls : a.signalFailure.calls = a.signalFailure.replies.length := by simp [hone]
    have hset := settles_haveError address hcalls
    simpa [promptly, hs] using hset
  | finished hs =>
    exact settles_balanced (by simp [promptly, hs])
      (balanced_reply (hwait (by rw [hs]; rfl)) rfl (by simp) (by simp [Waiting]))
  | abandoned hs he =>
    have hok : promptly a e = true := by rcases he with rfl | rfl <;> simp [promptly, hs]
    exact settles_balanced hok
      (balanced_reply (hwait (by rw [hs]; rfl)) rfl (by simp) (by simp [Waiting]))
  | reopened hs =>
    have hz := hp.zero rfl (by rw [hs]; rfl)
    exact settles_balanced (by simp [promptly, hs, Event.method]) (balanced_replayFrom _ _ hs hz)
  | pushed hs he =>
    have hm : e.method = true := by cases e <;> simp [Event.request, Event.method] at he ⊢
    have hone := hp.one (.inl hm)
    exact settles_broken (by simp [promptly, hs, hm])
      (not_answered_replayFrom _ _ hs (by simp; omega))
  | pinged hs =>
    have hok : promptly a .heartbeat = true := by
      unfold promptly
      cases a.state <;> rfl
    refine settles_balanced hok ?_
    cases hw : a.state.waiting with
    | true => exact balanced_wait (hwait hw) rfl rfl ⟨hw, hr.fsmStopped, hr.terminated⟩
    | false => exact balanced_idle (hp.zero rfl hw) rfl rfl (not_waiting hw)
  | returned hs =>
    rcases hs with hs | hs | hs
    · have hone := hwait (by rw [hs]; rfl)
      exact settles_broken (by simp [promptly, hs])
        (not_answered_of_lost (by simp; omega) (not_waiting rfl))
    · have hz := hp.zero rfl (by rw [hs]; rfl)
      exact settles_balanced (by simp [promptly, hs]) (balanced_idle hz rfl rfl (not_waiting rfl))
    · have hz := hp.zero rfl (by rw [hs]; rfl)
      exact settles_balanced (by simp [promptly, hs]) (balanced_idle hz rfl rfl (not_waiting rfl))
  | offline hs =>
    have hw : a.state.waiting = false := by rcases hs with hs | hs | hs <;> rw [hs] <;> rfl
    have hok : promptly a .expired = true := by
      rcases hs with hs | hs | hs <;> simp [promptly, hs, Event.method]
    exact settles_balanced hok (balanced_idle (hp.zero rfl hw) rfl rfl (not_waiting rfl))
  | @erred address hs _ =>
    rcases hs with hs | hs | hs
    · have hset := settles_haveError_unanswered address (hwait (by rw [hs]; rfl))
      simpa [promptly, hs] using hset
    · have hset := settles_haveError address (hp.zero rfl (by rw [hs]; rfl))
      simpa [promptly, hs] using hset
    · have hset := settles_haveError address (hp.zero rfl (by rw [hs]; rfl))
      simpa [promptly, hs] using hset

/-! ## One step -/

theorem Balanced.idle (h : Balanced a) (hc : a.calls ≤ a.replies.length) :
    a.calls = a.replies.length ∧ ¬Waiting a := by
  unfold Balanced at h
  split at h
  · omega
  · exact ⟨by omega, by assumption⟩

theorem Balanced.pending (h : Balanced a) (hr : Ready a) (he : e.method = false) : Pending a e := by
  refine ⟨?_, fun h => by rw [he] at h; cases h⟩
  have hiff : Waiting a ↔ a.state.waiting = true :=
    ⟨fun h => h.1, fun h => ⟨h, hr.fsmStopped, hr.terminated⟩⟩
  rw [h]
  simp [he, hiff]

/-- A stopped machine does not get out of balance by itself. -/
theorem Balanced.ignore (h : Balanced a) (hs : a.fsmStopped = true) (hcalls : a'.calls = a.calls)
    (hreplies : a'.replies = a.replies) (hs' : a'.fsmStopped = true) : Balanced a' := by
  have hw : ¬Waiting a := by simp [Waiting, hs]
  have hw' : ¬Waiting a' := by simp [Waiting, hs']
  unfold Balanced at h ⊢
  rw [if_neg hw] at h
  rw [if_neg hw', hcalls, hreplies]
  exact h

theorem settles_call {c : Call} (hb : Balanced a) (hf : Formed a)
    (hc : a.calls ≤ a.replies.length) (h : Reacts env (a.called c) c.event a') :
    Settles (prompt a (.call c)) a' := by
  obtain ⟨heq, hw⟩ := hb.idle hc
  cases h with
  | stopped hstop =>
    have hstop : a.fsmStopped = true := hstop
    have hlost : ¬Waiting ((a.called c).setNextEvent c.event) := by simp [Waiting, hstop]
    exact settles_broken (by simp [prompt, hstop]) (not_answered_of_lost (by simp; omega) hlost)
  | handled hr hh =>
    have hrun : a.fsmStopped = false := hr.fsmStopped
    have hs : a.state.waiting = false := by
      cases hs : a.state.waiting with
      | true => exact absurd ⟨hs, hrun, hr.terminated⟩ hw
      | false => rfl
    have hp : Pending (a.called c) c.event :=
      ⟨by simp [c.method, heq], fun _ => hs⟩
    have hprompt : prompt a (.call c) = promptly (a.called c) c.event := by
      simp [prompt, promptly, hrun]
    rw [hprompt]
    exact settles_handled hh (hf.called c) hr hp

/-- An event that is not a method. -/
theorem settles_reacts {ok : Bool} (hb : Balanced a) (hf : Formed a) (he : e.method = false)
    (h : Reacts env a e a') (hok : ok = (a.fsmStopped || promptly a e)) : Settles ok a' := by
  cases h with
  | stopped hstop => exact settles_balanced (by simp [hok, hstop]) (hb.ignore hstop rfl rfl hstop)
  | handled hr hh =>
    have hset := settles_handled hh hf hr (hb.pending hr he)
    simpa [hok, hr.fsmStopped] using hset

theorem protocolEvent_method {i : L1.Id} (h : protocolEvent i = some e) : e.method = false := by
  cases i <;> simp only [protocolEvent, reduceCtorEq, Option.some.injEq] at h <;> subst h <;> rfl

/-- **After a step from a balanced state, `Answered` holds exactly if the step
was prompt**, and the state is balanced again. -/
theorem settles_stepped {l : Label} (hb : Balanced a) (hf : Formed a) (ht : a.terminated = false)
    (h : Stepped env a l a') : Settles (prompt a l) a' := by
  cases h with
  | call hc hr => exact settles_call hb hf hc hr
  | post p =>
    refine settles_balanced rfl ?_
    have hw : Waiting (a.handleMsgpipe p) ↔ Waiting a := by cases p <;> exact Iff.rfl
    have hcalls : (a.handleMsgpipe p).calls = a.calls := by cases p <;> rfl
    have hreplies : (a.handleMsgpipe p).replies = a.replies := by cases p <;> rfl
    simpa only [Balanced, hw, hcalls, hreplies] using hb
  | @frame w _ _ hp hr =>
    have hb' : Balanced (a.heard w) := hb
    exact settles_reacts hb' (hf.heard w) (protocolEvent_method hp) hr (by simp [prompt, hp])
  | @unknown w hp =>
    have hprompt : prompt a (.frame w) = (a.fsmStopped || !a.state.waiting) := by
      simp [prompt, hp]
    have hhalt : ¬Waiting (a.heard w).halt := by simp [Waiting]
    unfold Balanced at hb
    by_cases hw : Waiting a
    · rw [if_pos hw] at hb
      exact settles_broken (by simp [hprompt, hw.1, hw.2.1])
        (not_answered_of_lost (by simp; omega) hhalt)
    · rw [if_neg hw] at hb
      refine settles_balanced ?_ (balanced_idle hb rfl rfl hhalt)
      cases hstop : a.fsmStopped <;> cases hst : a.state.waiting <;>
        simp_all [Waiting]
  | heartbeat _ hr =>
    have hok : true = (a.fsmStopped || promptly a .heartbeat) := by
      unfold promptly
      cases a.fsmStopped <;> cases a.state <;> rfl
    exact settles_reacts hb hf rfl hr hok
  | expired _ hr =>
    have hok : true = (a.fsmStopped || promptly a .expired) := by
      unfold promptly
      cases a.fsmStopped <;> cases a.state <;> rfl
    exact settles_reacts hb hf rfl hr hok

end

/-! ## Runs -/

theorem balanced_inductive (env : Env) :
    ((client env).within fun a l => prompt a l = true).Inductive fun a => Formed a ∧ Balanced a where
  init _ h := h ▸ ⟨formed_new, rfl⟩
  step _ _ _ h hs := by
    obtain ⟨hf, hb⟩ := h
    have hst := step_cases hf hs.2
    exact ⟨formed_stepped hf hst, (settles_stepped hb hf (step_enabled hs.2).1 hst).1 hs.1⟩

/-- An OK, an ERROR, or no answer in time. -/
def Label.verdict : Label → Bool
  | .frame (.ok _ _) => true
  | .frame (.error _ _) => true
  | .expired => true
  | _ => false

theorem haveError_state (a : Actor) (address : CString) :
    (a.haveError address).state.waiting = false := by
  unfold haveError
  split
  · rfl
  · split <;> rfl

section
variable {env : Env} {a a' : Actor} {e : Event}

/-- A verdict ends the wait. -/
theorem handled_verdict (h : Handled env a e a') (hs : a.state.waiting = true)
    (he : e = .ok ∨ e = .error ∨ e = .expired) : ¬Waiting a' := by
  cases h with
  | discarded ht =>
    rcases he with rfl | rfl | rfl <;> cases hst : a.state <;>
      simp [hst, State.waiting, transition, connectingState, confirmingState, terminatingState,
        defaults] at hs ht
  | authorized => simp at he
  | opening => simp at he
  | unconnectable => simp at he
  | refused hst _ => rcases hst with hst | hst <;> simp [hst, State.waiting] at hs
  | left => simp at he
  | opened _ => exact not_waiting rfl
  | unreachable _ => exact not_waiting rfl
  | requested hst _ _ => simp [hst, State.waiting] at hs
  | rejected => simp at he
  | closing => simp at he
  | passed _ hd => rcases he with rfl | rfl | rfl <;> cases hd
  | confirmed _ => exact not_waiting rfl
  | late _ => exact not_waiting rfl
  | denied _ _ => exact not_waiting (haveError_state _ _)
  | finished _ => simp [Waiting]
  | abandoned _ _ => simp [Waiting]
  | reopened hst => simp [hst, State.waiting] at hs
  | pushed hst _ => simp [hst, State.waiting] at hs
  | pinged => simp at he
  | returned => simp at he
  | offline _ => exact not_waiting rfl
  | erred _ _ => exact not_waiting (haveError_state _ _)

theorem reacts_verdict (h : Reacts env a e a') (hw : Waiting a)
    (he : e = .ok ∨ e = .error ∨ e = .expired) : ¬Waiting a' := by
  cases h with
  | stopped hstop => simp [Waiting, hstop] at hw
  | handled _ hh => exact handled_verdict hh hw.1 he

theorem waiting_verdict {l : Label} (hw : Waiting a) (hl : l.verdict = true)
    (h : Stepped env a l a') : ¬Waiting a' := by
  cases h with
  | call _ _ => cases hl
  | post _ => cases hl
  | @frame w e _ hp hr =>
    have hw' : Waiting (a.heard w) := hw
    refine reacts_verdict hr hw' ?_
    cases w <;> simp [Label.verdict] at hl <;> simp [Wire.id, protocolEvent] at hp <;> simp [← hp]
  | @unknown w hp =>
    cases w <;> simp [Label.verdict] at hl <;> simp [Wire.id, protocolEvent] at hp
  | heartbeat _ _ => cases hl
  | expired _ hr => exact reacts_verdict hr hw (.inr (.inr rfl))

theorem verdict_calls {l : Label} (hl : l.verdict = true) (h : Stepped env a l a') :
    a'.calls = a.calls := by
  cases h with
  | call _ _ => cases hl
  | post p => cases p <;> rfl
  | frame _ hr =>
    have h := reacts_calls hr
    exact h
  | unknown _ => rfl
  | heartbeat _ hr => exact reacts_calls hr
  | expired _ hr => exact reacts_calls hr

end

/-- **One reply for each call, in every run whose steps are prompt**, and while
a call is unanswered the next verdict that is prompt answers it; and a step from
there keeps this exactly if it is prompt. -/
theorem answered_iff_prompt {env : Env} {a : Actor}
    (h : ((client env).within fun a l => prompt a l = true).Reachable a) :
    Answered a ∧
    (∀ l a', a.replies.length < a.calls → l.verdict = true → prompt a l = true →
      (client env).step a l a' → a'.replies.length = a.calls) ∧
    ∀ l a', (client env).step a l a' → (Answered a' ↔ prompt a l = true) := by
  obtain ⟨hf, hb⟩ := (balanced_inductive env).reachable a h
  refine ⟨hb.answered, fun l a' hless hl hp hs => ?_, fun l a' hs => ?_⟩
  · have hst := step_cases hf hs
    have hw : Waiting a := hb.answered.2 hless
    have hb' : Balanced a' := (settles_stepped hb hf (step_enabled hs).1 hst).1 hp
    have hcalls : a'.calls = a.calls := verdict_calls hl hst
    rw [Balanced, if_neg (waiting_verdict hw hl hst)] at hb'
    omega
  · have hset := settles_stepped hb hf (step_enabled hs).1 (step_cases hf hs)
    constructor
    · intro ha'
      cases hp : prompt a l with
      | true => rfl
      | false => exact absurd ha' (hset.2 hp)
    · intro hp
      exact (hset.1 hp).answered

/-- The server that `connects` reaches answers; the call after it waits. -/
theorem answered_iff_prompt_connects : ∃ a,
    ((client .lenient).within fun a l => prompt a l = true).Reachable a ∧
    a.replies.length = 1 ∧ a.calls = 2 ∧ a.state = .confirming ∧ Answered a ∧
    ∀ a', (client .lenient).step a .expired a' → a'.replies.length = 2 := by
  have h : ((Actor.new.steps .lenient prompt (connects ++ [.call (.setProducer .s)])).any fun a =>
      a.replies.length = 1 ∧ a.calls = 2 ∧ a.state = .confirming) = true := by decide +kernel
  obtain ⟨a, hs, hP⟩ := (Option.any_eq_true _ _).1 h
  obtain ⟨h1, h2, h3⟩ := of_decide_eq_true hP
  obtain ⟨ha, hv, -⟩ := answered_iff_prompt (reachable_of_steps hs)
  refine ⟨a, reachable_of_steps hs, h1, h2, h3, ha, fun a' hs' => ?_⟩
  have hp : prompt a .expired = true := rfl
  rw [hv .expired a' (by omega) rfl hp hs', h2]

/-- The broker answers a PING with ERROR 500, and while the client reconnects a
method is called: nobody answers it. -/
theorem not_answered_reconnecting : ¬∀ (env : Env) (a : Actor),
    (client env).Reachable a → Answered a := by
  have h : ((Actor.new.steps .lenient (fun _ _ => true)
      (connects ++ [.heartbeat, .frame (.error commandInvalid .empty),
        .call (.setProducer .s)])).any fun a => ¬Answered a) = true := by decide +kernel
  obtain ⟨a, hs, hP⟩ := (Option.any_eq_true _ _).1 h
  intro hall
  exact of_decide_eq_true hP (hall .lenient a (reachable_of_steps hs).of_within)

end Malamute.L4
