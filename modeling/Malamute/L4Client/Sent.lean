import Malamute.L4Client.Replies

/-!
# What the client writes to the server

The state machine sends commands and PINGs (`spoken`); the messages of the
application go out in any state.

* `stepped_sent`: what one step sends.
* `stepped_confirming`: how the machine comes into the `confirming` state, and
  what it sends while it stays there.
* `stepped_success`: which steps signal SUCCESS.
-/
namespace Malamute.L4
open Malamute.Core Malamute.L1 Malamute.L2 Actor

/-- The frame that a record is sent as. -/
def Replay.wire : Replay → Wire
  | .streamWrite stream => .streamWrite stream.field
  | .streamRead stream pattern => .streamRead stream.field pattern.field
  | .serviceOffer stream pattern => .serviceOffer stream.field pattern.field
  | .streamCancel stream => .streamCancel stream.field

/-- The frame of what an application sends. -/
def Post.wire : Post → Wire
  | .streamSend subject content => .streamSend subject content
  | .mailboxSend address subject tracker timeout content =>
    .mailboxSend address subject tracker timeout content
  | .serviceSend address subject tracker timeout content =>
    .serviceSend address subject tracker timeout content

/-- The command of a method. -/
def Call.command : Call → Option Wire
  | .setProducer stream => some (.streamWrite stream.field)
  | .setConsumer stream pattern => some (.streamRead stream.field pattern.field)
  | .removeConsumer stream => some (.streamCancel stream.field)
  | .setWorker address pattern => some (.serviceOffer address.field pattern.field)
  | _ => none

/-- The frames of the state machine. -/
def spoken : Wire → Bool
  | .connectionOpen _ | .connectionPing | .connectionClose | .streamWrite _ | .streamRead _ _
  | .streamCancel _ | .serviceOffer _ _ => true
  | _ => false

/-- The frames that the server answers with OK. -/
def demanding : Wire → Bool
  | .connectionOpen _ | .streamWrite _ | .streamRead _ _ | .streamCancel _ | .serviceOffer _ _
  | .connectionClose => true
  | _ => false

section
variable {env : Env} {a a' : Actor} {e : Event} {l : Label}

theorem Replay.wire_spoken (r : Replay) : spoken r.wire = true := by cases r <;> rfl

/-- A record is sent. -/
theorem record_sent (a : Actor) (r : Replay) :
    ((a.setMessage (r.load a.message)).send r.id).sent = a.sent ++ [r.wire] := by
  cases r <;> rfl

theorem request_sent (a : Actor) (r : Replay) : (a.request r).sent = a.sent ++ [r.wire] := by
  cases r <;> rfl

theorem msgpipe_sent (a : Actor) (p : Post) : (a.handleMsgpipe p).sent = a.sent ++ [p.wire] := by
  cases p <;> rfl

/-- The replay loop sends the records up to the first that it has no branch for. -/
theorem replayFrom_sent (back post : List Replay) (a : Actor) :
    (replayFrom back post a).sent =
      a.sent ++ (post.takeWhile Replay.replayed).map Replay.wire := by
  induction post generalizing back a with
  | nil => exact (List.append_nil _).symm
  | cons r rs ih =>
    unfold replayFrom
    split
    · rename_i hr
      rw [ih, record_sent, List.takeWhile_cons_of_pos hr, List.map_cons, List.append_assoc]
      rfl
    · rename_i hr
      rw [List.takeWhile_cons_of_neg hr]
      exact (List.append_nil _).symm

/-- The frames after `ws` are all `spoken`. -/
def Speaks (ws ws' : List Wire) : Prop := ∃ vs, ws' = ws ++ vs ∧ ∀ v ∈ vs, spoken v = true

theorem Speaks.refl (ws : List Wire) : Speaks ws ws := ⟨[], by simp, by simp⟩

theorem speaks_one {w : Wire} (h : spoken w = true) (ws : List Wire) : Speaks ws (ws ++ [w]) :=
  ⟨[w], rfl, by simpa using h⟩

theorem Speaks.trans {ws₁ ws₂ ws₃ : List Wire} (h : Speaks ws₁ ws₂) (h' : Speaks ws₂ ws₃) :
    Speaks ws₁ ws₃ := by
  obtain ⟨us, rfl, hu⟩ := h
  obtain ⟨vs, rfl, hv⟩ := h'
  refine ⟨us ++ vs, by rw [List.append_assoc], fun v hm => ?_⟩
  exact (List.mem_append.1 hm).elim (hu v) (hv v)

theorem speaks_replayFrom (back post : List Replay) (a : Actor) :
    Speaks a.sent (replayFrom back post a).sent := by
  refine ⟨_, replayFrom_sent back post a, fun v hv => ?_⟩
  obtain ⟨r, -, rfl⟩ := List.mem_map.1 hv
  exact r.wire_spoken

theorem speaks_haveError (a : Actor) (address : CString) :
    Speaks a.sent (a.haveError address).sent := by
  unfold haveError
  split
  · exact speaks_one rfl _
  · split <;> exact .refl _

/-- **What one event sends.** -/
theorem handled_sent (h : Handled env a e a') : Speaks a.sent a'.sent := by
  cases h with
  | opening _ _ _ _ => exact speaks_one rfl _
  | @requested _ r _ _ _ =>
    have hsent : ((a.request r).setState .confirming).sent = a.sent ++ [r.wire] := request_sent a r
    rw [hsent]
    exact speaks_one r.wire_spoken _
  | closing _ => exact speaks_one rfl _
  | denied _ _ => exact speaks_haveError a.signalFailure _
  | reopened _ => exact speaks_replayFrom _ _ a.clientIsConnected
  | @pushed _ i _ he =>
    have hi : Speaks a.sent (a.send i).sent := by
      cases e <;> cases he <;> exact speaks_one rfl _
    exact hi.trans (speaks_replayFrom _ _ _)
  | pinged _ => exact speaks_one rfl _
  | erred _ _ => exact speaks_haveError a _
  | _ => exact .refl _

theorem reacts_sent (h : Reacts env a e a') : Speaks a.sent a'.sent := by
  cases h with
  | stopped _ => exact .refl _
  | handled _ hh => exact handled_sent hh

/-- **What one step sends.** -/
theorem stepped_sent (h : Stepped env a l a') :
    Speaks a.sent a'.sent ∨ ∃ p, l = .post p ∧ a'.sent = a.sent ++ [p.wire] := by
  cases h with
  | @call c _ _ hr =>
    have hsent : Speaks (a.called c).sent a'.sent := reacts_sent hr
    exact .inl hsent
  | post p => exact .inr ⟨p, rfl, msgpipe_sent a p⟩
  | @frame w _ _ _ hr =>
    have hsent : Speaks (a.heard w).sent a'.sent := reacts_sent hr
    exact .inl hsent
  | unknown _ => exact .inl (.refl _)
  | heartbeat _ hr => exact .inl (reacts_sent hr)
  | expired _ hr => exact .inl (reacts_sent hr)

/-! ## The confirming state -/

theorem haveError_ne_confirming (a : Actor) (address : CString) :
    (a.haveError address).state ≠ .confirming := by
  unfold haveError
  split
  · exact fun h => nomatch h
  · split <;> exact fun h => nomatch h

/-- The machine is in the `confirming` state after an event: it was there before
and sent at most a PING, or it has sent the record of a method. -/
theorem handled_confirming (h : Handled env a e a') (hs : a'.state = .confirming) :
    (a.state = .confirming ∧ (a'.sent = a.sent ∨ a'.sent = a.sent ++ [.connectionPing])) ∨
      ∃ r, a.state = .connected ∧ a.args.record e = some r ∧ a'.sent = a.sent ++ [r.wire] := by
  cases h with
  | discarded _ => exact .inl ⟨hs, .inl rfl⟩
  | authorized hst _ _ => cases hst.symm.trans hs
  | opening _ _ _ _ => cases hs
  | unconnectable hst _ _ _ => cases hst.symm.trans hs
  | refused hst _ => rcases hst with hst | hst <;> cases hst.symm.trans hs
  | left hst => rcases hst with hst | hst <;> cases hst.symm.trans hs
  | opened _ => cases hs
  | unreachable _ => cases hs
  | @requested _ r hst he _ => exact .inr ⟨r, hst, he, request_sent a r⟩
  | rejected hst _ _ _ => cases hst.symm.trans hs
  | closing _ => cases hs
  | passed _ _ => exact .inl ⟨hs, .inl rfl⟩
  | confirmed _ => cases hs
  | late _ => cases hs
  | denied _ _ => exact absurd hs (haveError_ne_confirming _ _)
  | finished hst => cases hst.symm.trans hs
  | abandoned hst _ => cases hst.symm.trans hs
  | reopened hst =>
    rcases (replays_replayFrom [] a.replays.items a.clientIsConnected).state with h | h
    · cases (h.symm.trans hs).symm.trans hst
    · cases h.symm.trans hs
  | @pushed _ i hst _ =>
    rcases (replays_replayFrom a.replays.back a.replays.post (a.send i)).state with h | h
    · cases (h.symm.trans hs).symm.trans hst
    · cases h.symm.trans hs
  | pinged _ => exact .inl ⟨hs, .inr rfl⟩
  | returned _ => cases hs
  | offline _ => cases hs
  | erred _ _ => exact absurd hs (haveError_ne_confirming _ _)

theorem Call.record_command {c : Call} {x : Args} {r : Replay}
    (h : (c.args x).record c.event = some r) : c.command = some r.wire := by
  cases c <;> simp [Call.args, Call.event, Args.record] at h <;> subst h <;> rfl

theorem record_method {x : Args} {r : Replay} (h : x.record e = some r) : e.request.isSome := by
  cases e <;> simp [Args.record] at h <;> rfl

theorem protocolEvent_request {i : Id} (h : protocolEvent i = some e) : e.request = none := by
  cases i <;> simp only [protocolEvent, reduceCtorEq, Option.some.injEq] at h <;> subst h <;> rfl

/-- **The machine is in the `confirming` state after a step**, and runs: it was
there before and sent nothing that is answered with OK, or this is the call of a
method and its command was sent. -/
theorem stepped_confirming (h : Stepped env a l a') (hs : a'.state = .confirming)
    (hrun : a'.fsmStopped = false) :
    (a.state = .confirming ∧ a.fsmStopped = false ∧
      ∃ ws, a'.sent = a.sent ++ ws ∧ ∀ w ∈ ws, demanding w = false) ∨
      ∃ c w, l = .call c ∧ a.state = .connected ∧ c.command = some w ∧
        a'.sent = a.sent ++ [w] := by
  -- an event that is not a method leaves the state as it was
  have hstay : ∀ (b : Actor) {e : Event}, b.state = a.state → b.fsmStopped = a.fsmStopped →
      b.sent = a.sent → e.request = none → Reacts env b e a' →
      a.state = .confirming ∧ a.fsmStopped = false ∧
        ∃ ws, a'.sent = a.sent ++ ws ∧ ∀ w ∈ ws, demanding w = false := by
    intro b e hbs hbf hbw he hr
    cases hr with
    | stopped hstop =>
      have hrun : b.fsmStopped = false := hrun
      rw [hstop] at hrun
      cases hrun
    | handled hready hh =>
      rcases handled_confirming hh hs with ⟨hst, hw⟩ | ⟨r, -, hrec, -⟩
      · refine ⟨hbs ▸ hst, hbf ▸ hready.fsmStopped, ?_⟩
        rcases hw with hw | hw
        · exact ⟨[], by simp [hw, hbw], by simp⟩
        · exact ⟨[.connectionPing], by rw [hw, hbw], by simp [demanding]⟩
      · have := record_method hrec
        rw [he] at this
        cases this
  cases h with
  | @call c _ _ hr =>
    cases hr with
    | stopped hstop =>
      have hrun : a.fsmStopped = false := hrun
      have hstop : a.fsmStopped = true := hstop
      rw [hstop] at hrun
      cases hrun
    | handled hready hh =>
      rcases handled_confirming hh hs with ⟨hst, hw⟩ | ⟨r, hst, hrec, hw⟩
      · refine .inl ⟨hst, hready.fsmStopped, ?_⟩
        rcases hw with hw | hw
        · exact ⟨[], by simpa using hw, by simp⟩
        · exact ⟨[.connectionPing], hw, by simp [demanding]⟩
      · exact .inr ⟨c, r.wire, rfl, hst, Call.record_command hrec, hw⟩
  | post p =>
    have hst : a.state = .confirming := by cases p <;> exact hs
    have hf : a.fsmStopped = false := by cases p <;> exact hrun
    refine .inl ⟨hst, hf, [p.wire], msgpipe_sent a p, ?_⟩
    cases p <;> simp [Post.wire, demanding]
  | @frame w _ _ hp hr =>
    exact .inl (hstay (a.heard w) rfl rfl rfl (protocolEvent_request hp) hr)
  | unknown _ => exact .inl ⟨hs, hrun, [], (List.append_nil _).symm, by simp⟩
  | heartbeat _ hr => exact .inl (hstay a rfl rfl rfl rfl hr)
  | expired _ hr => exact .inl (hstay a rfl rfl rfl rfl hr)

/-! ## Replies -/

theorem haveError_replies (a : Actor) (address : CString) :
    (a.haveError address).replies = a.replies ∨
      (a.haveError address).fsmStopped = true ∧
        ∃ r, (a.haveError address).replies = a.replies ++ [.failure r] := by
  unfold haveError
  split
  · exact .inl rfl
  · split
    · exact .inr ⟨rfl, _, rfl⟩
    · exact .inl rfl

/-- SUCCESS is signalled for a method that is answered at once, or because a
waiting machine has read OK. -/
theorem handled_success (h : Handled env a e a') (hr : a'.replies = a.replies ++ [.success]) :
    e = .setPlainAuth ∨ e = .destructor ∨ e = .ok ∧ a.state.waiting = true := by
  -- no reply
  have hnone : a'.replies = a.replies → False := by
    intro h
    simp [hr] at h
  -- another reply
  have hfailure : ∀ {r : Str} {rs : List Reply}, a'.replies = a.replies ++ .failure r :: rs →
      False := by
    intro r rs h
    simp [hr] at h
  cases h with
  | discarded _ => exact absurd rfl hnone
  | authorized _ _ _ => exact .inl rfl
  | opening _ _ _ _ => exact absurd rfl hnone
  | unconnectable _ _ _ _ => exact absurd rfl hfailure
  | refused _ _ => exact absurd rfl hfailure
  | left _ => exact .inr (.inl rfl)
  | opened hst => exact .inr (.inr ⟨rfl, by rw [hst]; rfl⟩)
  | unreachable _ => exact absurd rfl hfailure
  | requested _ _ _ => exact absurd rfl hnone
  | rejected _ _ _ _ => exact absurd rfl hfailure
  | closing _ => exact absurd rfl hnone
  | passed _ _ => exact absurd rfl hnone
  | confirmed hst => exact .inr (.inr ⟨rfl, by rw [hst]; rfl⟩)
  | late _ => exact absurd rfl hfailure
  | @denied address _ _ =>
    rcases haveError_replies a.signalFailure address with h | ⟨-, r, h⟩
    · exact absurd h hfailure
    · exact absurd (h.trans (List.append_assoc ..)) hfailure
  | finished hst => exact .inr (.inr ⟨rfl, by rw [hst]; rfl⟩)
  | abandoned _ _ => exact absurd rfl hfailure
  | reopened _ => exact absurd (replays_replayFrom _ _ _).replies hnone
  | pushed _ _ => exact absurd (replays_replayFrom _ _ _).replies hnone
  | pinged _ => exact absurd rfl hnone
  | returned _ => exact absurd rfl hnone
  | offline _ => exact absurd rfl hnone
  | @erred address _ _ =>
    rcases haveError_replies a address with h | ⟨-, r, h⟩
    · exact absurd h hnone
    · exact absurd h hfailure

/-- The state in which the machine waits for the answer to a method. -/
def Event.awaits : Event → Option State
  | .connect => some .connecting
  | .setProducer | .setConsumer | .removeConsumer | .setWorker => some .confirming
  | .destructor => some .terminating
  | _ => none

theorem awaits_method {st : State} (h : e.awaits = some st) : e.method = true := by
  cases e <;> simp [Event.awaits] at h <;> rfl

/-- A machine that waits after an event has not replied: it waits for the answer
to that event, or as before. -/
theorem handled_waiting (h : Handled env a e a') (hw : a'.state.waiting = true)
    (hrun : a'.fsmStopped = false) :
    a'.replies = a.replies ∧ (a'.state = a.state ∨ e.awaits = some a'.state) := by
  have hreplay : ∀ {b : Actor} (back post : List Replay), b.state = .reconnecting →
      (replayFrom back post b).state.waiting = false := by
    intro b back post hb
    rcases (replays_replayFrom back post b).state with h | h <;> rw [h]
    · rw [hb]; rfl
    · rfl
  cases h with
  | discarded _ => exact ⟨rfl, .inl rfl⟩
  | authorized _ _ _ => exact absurd hw (by simp [*, State.waiting])
  | opening _ _ _ _ => exact ⟨rfl, .inr rfl⟩
  | unconnectable _ _ _ _ => exact absurd hw (by simp [*, State.waiting])
  | refused hst _ => rcases hst with hst | hst <;> simp [hst, State.waiting] at hw
  | left _ => cases hrun
  | opened _ => cases hw
  | unreachable _ => cases hw
  | requested _ he _ =>
    refine ⟨rfl, .inr ?_⟩
    cases e <;> simp [Args.record] at he <;> rfl
  | rejected _ _ _ _ => exact absurd hw (by simp [*, State.waiting])
  | closing _ => exact ⟨rfl, .inr rfl⟩
  | passed _ _ => exact ⟨rfl, .inl rfl⟩
  | confirmed _ => cases hw
  | late _ => cases hw
  | denied _ _ => rw [haveError_state] at hw; cases hw
  | finished _ => cases hrun
  | abandoned _ _ => cases hrun
  | reopened hst =>
    have hst : a.clientIsConnected.state = .reconnecting := hst
    rw [hreplay _ _ hst] at hw
    cases hw
  | @pushed _ i hst _ =>
    have hst : (a.send i).state = .reconnecting := hst
    rw [hreplay _ _ hst] at hw
    cases hw
  | pinged _ => exact ⟨rfl, .inl rfl⟩
  | returned _ => cases hw
  | offline _ => cases hw
  | erred _ _ => rw [haveError_state] at hw; cases hw

/-- A machine that goes on has replied at most once, to a call that was
unanswered. -/
theorem handled_replies (h : Handled env a e a') (hrun : a'.fsmStopped = false) :
    a'.replies = a.replies ∨
      (e.method = true ∨ a.state.waiting = true) ∧ ∃ r, a'.replies = a.replies ++ [r] := by
  cases h with
  | authorized _ _ _ => exact .inr ⟨.inl rfl, _, rfl⟩
  | unconnectable _ _ _ _ => exact .inr ⟨.inl rfl, _, rfl⟩
  | refused _ he =>
    refine .inr ⟨.inl ?_, _, rfl⟩
    cases e <;> simp [Event.request] at he <;> rfl
  | left _ => cases hrun
  | opened hst => exact .inr ⟨.inr (by rw [hst]; rfl), _, rfl⟩
  | unreachable hst => exact .inr ⟨.inr (by rw [hst]; rfl), _, rfl⟩
  | rejected _ _ _ _ => exact .inr ⟨.inl rfl, _, rfl⟩
  | confirmed hst => exact .inr ⟨.inr (by rw [hst]; rfl), _, rfl⟩
  | late hst => exact .inr ⟨.inr (by rw [hst]; rfl), _, rfl⟩
  | @denied address hst _ =>
    rcases haveError_replies a.signalFailure address with h | ⟨hstop, -⟩
    · exact .inr ⟨.inr (by rw [hst]; rfl), _, h⟩
    · rw [hstop] at hrun
      cases hrun
  | finished _ => cases hrun
  | abandoned _ _ => cases hrun
  | reopened _ => exact .inl (replays_replayFrom _ _ _).replies
  | pushed _ _ => exact .inl (replays_replayFrom _ _ _).replies
  | @erred address _ _ =>
    rcases haveError_replies a address with h | ⟨hstop, -⟩
    · exact .inl h
    · rw [hstop] at hrun
      cases hrun
  | _ => exact .inl rfl

/-- A machine that runs has not replied more often than it was called, and while
it waits a call is unanswered. -/
def Owed (a : Actor) : Prop :=
  a.fsmStopped = false →
    a.replies.length ≤ a.calls ∧ (a.state.waiting = true → a.replies.length < a.calls)

theorem owed_handled (h : Handled env a e a') (hle : a.replies.length ≤ a.calls)
    (hlt : e.method = true ∨ a.state.waiting = true → a.replies.length < a.calls) : Owed a' := by
  intro hrun
  have hcalls := handled_calls h
  constructor
  · rcases handled_replies h hrun with hr | ⟨hone, r, hr⟩
    · rw [hr]
      omega
    · have := hlt hone
      rw [hr, List.length_append]
      simp only [List.length_singleton]
      omega
  · intro hw
    obtain ⟨hr, hst⟩ := handled_waiting h hw hrun
    have hone : e.method = true ∨ a.state.waiting = true := by
      rcases hst with hst | he
      · exact .inr (hst ▸ hw)
      · exact .inl (awaits_method he)
    have := hlt hone
    rw [hr]
    omega

/-- **A step of a machine that runs** leaves it `Owed`. -/
theorem owed_stepped (ho : Owed a) (h : Stepped env a l a') : Owed a' := by
  have hreacts : ∀ {b : Actor} {e : Event}, Owed b → e.method = false → Reacts env b e a' →
      Owed a' := by
    intro b e hb he hr
    cases hr with
    | stopped hstop =>
      intro hrun
      have hrun : b.fsmStopped = false := hrun
      rw [hstop] at hrun
      cases hrun
    | handled hready hh =>
      obtain ⟨hle, hlt⟩ := hb hready.fsmStopped
      refine owed_handled hh hle fun hone => hlt (hone.resolve_left ?_)
      rw [he]
      decide
  cases h with
  | @call c _ hle hr =>
    cases hr with
    | stopped hstop =>
      intro hrun
      have hrun : a.fsmStopped = false := hrun
      have hstop : a.fsmStopped = true := hstop
      rw [hstop] at hrun
      cases hrun
    | handled hready hh =>
      have hle' := (ho hready.fsmStopped).1
      refine owed_handled hh ?_ fun _ => ?_
      · show a.replies.length ≤ a.calls + 1
        omega
      · show a.replies.length < a.calls + 1
        omega
  | post p => cases p <;> exact ho
  | @frame w _ _ hp hr =>
    have hb : Owed (a.heard w) := ho
    exact hreacts hb (protocolEvent_method hp) hr
  | unknown _ => exact ho
  | heartbeat _ hr => exact hreacts ho rfl hr
  | expired _ hr => exact hreacts ho rfl hr

/-- A machine that waits after a step and runs waited before, or waits for the
answer to this call. -/
theorem stepped_waiting (h : Stepped env a l a') (hw : a'.state.waiting = true)
    (hrun : a'.fsmStopped = false) :
    (a'.state = a.state ∧ a.fsmStopped = false) ∨
      ∃ c, l = .call c ∧ c.event.awaits = some a'.state := by
  have hreacts : ∀ (b : Actor) {e : Event}, b.state = a.state → b.fsmStopped = a.fsmStopped →
      Reacts env b e a' → (a'.state = a.state ∧ a.fsmStopped = false) ∨
        e.awaits = some a'.state := by
    intro b e hst hf hr
    cases hr with
    | stopped hstop =>
      have hrun : b.fsmStopped = false := hrun
      rw [hstop] at hrun
      cases hrun
    | handled hready hh =>
      exact (handled_waiting hh hw hrun).2.imp (fun h => ⟨h.trans hst, hf ▸ hready.fsmStopped⟩) id
  cases h with
  | @call c _ _ hr =>
    exact (hreacts (a.called c) rfl rfl hr).imp id fun h => ⟨c, rfl, h⟩
  | post p => cases p <;> exact .inl ⟨rfl, hrun⟩
  | @frame w e _ hp hr =>
    refine (hreacts (a.heard w) rfl rfl hr).imp id fun h => ?_
    have he := protocolEvent_request hp
    have hm := protocolEvent_method hp
    cases e <;> simp [Event.awaits, Event.method] at h hm
  | unknown _ => exact .inl ⟨rfl, hrun⟩
  | heartbeat _ hr =>
    refine (hreacts a rfl rfl hr).imp id ?_
    intro h
    cases h
  | expired _ hr =>
    refine (hreacts a rfl rfl hr).imp id ?_
    intro h
    cases h

/-- **SUCCESS is signalled** for a method that has no command, or because a
waiting machine has read OK. -/
theorem stepped_success (h : Stepped env a l a') (hr : a'.replies = a.replies ++ [.success]) :
    (∃ c, l = .call c ∧ c.command = none) ∨
      a.state.waiting = true ∧ a.fsmStopped = false ∧ ∃ n r, l = .frame (.ok n r) := by
  have hreacts : ∀ (b : Actor) {e : Event}, b.state = a.state → b.fsmStopped = a.fsmStopped →
      b.replies = a.replies → Reacts env b e a' → e = .setPlainAuth ∨ e = .destructor ∨
        e = .ok ∧ a.state.waiting = true ∧ a.fsmStopped = false := by
    intro b e hst hf hrep hreact
    cases hreact with
    | stopped _ =>
      have hr : b.replies = a.replies ++ [.success] := hr
      simp [hrep] at hr
    | handled hready hh =>
      refine (handled_success hh (hrep ▸ hr)).imp id (.imp id fun h => ⟨h.1, ?_, ?_⟩)
      · exact hst ▸ h.2
      · exact hf ▸ hready.fsmStopped
  cases h with
  | @call c _ _ hreact =>
    refine .inl ⟨c, rfl, ?_⟩
    have he := hreacts (a.called c) rfl rfl rfl hreact
    cases c <;> first | rfl | simp [Call.event] at he
  | post p => cases p <;> simp [handleMsgpipe] at hr
  | @frame w e _ hp hreact =>
    rcases hreacts (a.heard w) rfl rfl rfl hreact with rfl | rfl | ⟨rfl, hw, hf⟩
    · cases protocolEvent_method hp
    · cases protocolEvent_method hp
    · cases w <;> simp [Wire.id, protocolEvent] at hp
      exact .inr ⟨hw, hf, _, _, rfl⟩
  | unknown _ => simp at hr
  | heartbeat _ hreact =>
    rcases hreacts a rfl rfl rfl hreact with h | h | ⟨h, -⟩ <;> cases h
  | expired _ hreact =>
    rcases hreacts a rfl rfl rfl hreact with h | h | ⟨h, -⟩ <;> cases h

end
end Malamute.L4
