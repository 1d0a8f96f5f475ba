import Malamute.L3Server.Sessions
import Malamute.L4Client.Sent

/-!
# What a replay restores

The client records every command that it sends for a method. When a broker that
does not know it has opened its connection, it sends the records again, from the
first to the last; `s_replay_execute` has no branch for STREAM CANCEL, and the
replay ends at such a record.

* `recorded_of_run`: the records are the commands of the calls, in every run in
  which these succeed.
* `restores_iff`: the replay sends all of them, ends in the `connected` state and
  brings the broker to what the one before it held for the client, exactly if
  `remove_consumer` has not been called.
* `stuck_at_cancel`: the replay after a `remove_consumer`.
-/
namespace Malamute.L4
open Malamute.Core Malamute.L1 Malamute.L2 Actor

/-- The call that a label is. -/
def Label.asked : Label → Option Call
  | .call c => some c
  | _ => none

/-- The calls of a run. -/
def methods (ls : List Label) : List Call := ls.filterMap Label.asked

/-- The commands of a run. -/
def asked (ls : List Label) : List Wire := (methods ls).filterMap Call.command

/-- Every call of a method that has a command has returned SUCCESS. -/
def Succeeded (ls : List Label) (a : Actor) : Prop :=
  ∀ (i : Nat) (c : Call), (methods ls)[i]? = some c → c.command.isSome →
    a.replies[i]? = some .success

instance (ls : List Label) (a : Actor) : Decidable (Succeeded ls a) :=
  decidable_of_iff
    (∀ x ∈ (methods ls).zipIdx, x.1.command.isSome → a.replies[x.2]? = some .success)
    ⟨fun h i c hi => h (c, i) (List.mem_zipIdx_iff_getElem?.2 hi),
      fun h x hx => h x.2 x.1 (List.mem_zipIdx_iff_getElem?.1 hx)⟩

/-- What a replay after `ls` is for, as the client goes from `a` to `a'`: it sends the
commands of `ls` in their order, and is connected; and what the broker before it held
for the client after these commands, a broker holds that has read what the client
has sent now. -/
structure Restores (ls : List Label) (a a' : Actor) : Prop where
  sent : a'.sent = a.sent ++ asked ls
  connected : a'.state = .connected
  restored : ∀ (rex : Str → Str → Bool) (s s' : L3.Server) (c d : Cid),
    (L3.broker rex).Reachable s → (L3.broker rex).Reachable s' → L3.Session s c (asked ls) →
    L3.Session s' d (a'.sent.drop a.sent.length) → L3.Restored s c s' d

section
variable {env : Env} {a a' : Actor} {e : Event} {l : Label} {ls : List Label}

/-! ## The records -/

theorem replayFrom_items (back post : List Replay) (a : Actor) :
    (replayFrom back post a).replays.items = back.reverse ++ post := by
  induction post generalizing back a with
  | nil => simp [replayFrom, CursorList.items]
  | cons r rs ih =>
    unfold replayFrom
    split
    · rw [ih]
      simp
    · simp [CursorList.items]

theorem haveError_replays (a : Actor) (address : CString) :
    (a.haveError address).replays = a.replays := by
  unfold haveError
  split
  · rfl
  · split <;> rfl

/-- An event leaves the records alone, or adds the one of its method; this is in the
`connected` state, and the pattern is valid. -/
theorem handled_items (h : Handled env a e a') :
    a'.replays.items = a.replays.items ∨
      ∃ r, a.args.record e = some r ∧ a'.replays.items = a.replays.items ++ [r] ∧
        a.state = .connected ∧ r.valid env = true := by
  cases h with
  | @requested _ r hs he hv =>
    refine .inr ⟨r, he, ?_, hs, hv⟩
    show (a.replays.addEnd r).items = _
    simp
  | denied _ _ => exact .inl (congrArg _ (haveError_replays _ _))
  | erred _ _ => exact .inl (congrArg _ (haveError_replays _ _))
  | reopened _ => exact .inl (replayFrom_items _ _ _)
  | pushed _ _ => exact .inl (replayFrom_items _ _ _)
  | _ => exact .inl rfl

/-- A command is discarded in the states that wait, and in the internal ones. -/
theorem discarded_request (h : transition a.state e = some ([], none)) (he : e.request.isSome) :
    a.state.waiting = true ∨ a.state = .defaults := by
  cases hs : a.state <;> rw [hs] at h <;> cases e <;> simp [Event.request] at he <;>
    first | exact .inl rfl | exact .inr rfl | cases h

/-- The event of a method that has a command: it is recorded, or fails at once, or
no answer is awaited. -/
theorem handled_request (h : Handled env a e a') (he : e.request.isSome)
    (hw : a.state.waiting = false) (hs : a.state ≠ .defaults) :
    (∃ r, a.args.record e = some r ∧ a'.replays.items = a.replays.items ++ [r]) ∨
      (∃ r, a'.replies = a.replies ++ [.failure r]) ∨
        a'.replies = a.replies ∧ a'.state.waiting = false := by
  cases h with
  | discarded ht =>
    rcases discarded_request ht he with h | h
    · rw [hw] at h
      cases h
    · exact absurd h hs
  | @requested _ r _ hrec _ =>
    refine .inl ⟨r, hrec, ?_⟩
    show (a.replays.addEnd r).items = _
    simp
  | refused _ _ => exact .inr (.inl ⟨_, rfl⟩)
  | rejected _ _ _ _ => exact .inr (.inl ⟨_, rfl⟩)
  | @pushed _ i hst _ =>
    have hrep := replays_replayFrom a.replays.back a.replays.post (a.send i)
    refine .inr (.inr ⟨hrep.replies, ?_⟩)
    rcases hrep.state with h | h <;> rw [h]
    · exact hw
    · rfl
  | passed _ hd => cases e <;> simp [Event.request] at he <;> cases hd
  | abandoned _ h => rcases h with rfl | rfl <;> cases he
  | _ => cases he

theorem Call.event_request (c : Call) : c.event.request.isSome = c.command.isSome := by
  cases c <;> rfl

theorem request_method (he : e.method = false) : e.request = none := by
  cases e <;> first | rfl | cases he

/-! ## The run before -/

/-- No call of `cs` that has a command has returned FAILURE. -/
def Unfailed (cs : List Call) (replies : List Reply) : Prop :=
  ∀ (i : Nat) (c : Call) (r : Reply), cs[i]? = some c → c.command.isSome →
    replies[i]? = some r → r = .success

/-- After the calls `cs`: as long as no command fails, the records are the commands
of the calls, or a command has been sent whose call waits for nothing. -/
structure Noted (cs : List Call) (a : Actor) : Prop where
  count : a.calls = cs.length
  records : a.fsmStopped = false → Unfailed cs a.replies →
    a.replays.items.map Replay.wire = cs.filterMap Call.command ∨
      a.state.waiting = false ∧
        ∃ (i : Nat) (c : Call), cs[i]? = some c ∧ c.command.isSome ∧ a.replies.length ≤ i

theorem Unfailed.earlier {cs cs' : List Call} {rs rs' : List Reply} (h : Unfailed cs' rs')
    (hc : cs <+: cs') (hr : rs <+: rs') : Unfailed cs rs := by
  intro i c r hi hcom hri
  obtain ⟨ds, rfl⟩ := hc
  obtain ⟨ts, rfl⟩ := hr
  refine h i c r ?_ hcom ?_
  · rw [List.getElem?_append_left (List.getElem?_eq_some_iff.1 hi).1, hi]
  · rw [List.getElem?_append_left (List.getElem?_eq_some_iff.1 hri).1, hri]

theorem handled_answers (h : Handled env a e a') (hrun : a'.fsmStopped = false) :
    a.replies <+: a'.replies := by
  rcases handled_replies h hrun with hr | ⟨-, r, hr⟩
  · exact ⟨[], by simp [hr]⟩
  · exact ⟨[r], hr.symm⟩

/-- Only the event of a method adds a record. -/
theorem handled_kept (he : e.method = false) (h : Handled env a e a') :
    a'.replays.items = a.replays.items := by
  rcases handled_items h with hi | ⟨r, hrec, -⟩
  · exact hi
  · have hreq := record_method hrec
    rw [request_method he] at hreq
    cases hreq

theorem noted_reacts {cs : List Call} (hn : Noted cs a) (he : e.method = false)
    (h : Reacts env a e a') : Noted cs a' where
  count := (reacts_calls h).trans hn.count
  records hrun hgood := by
    obtain ⟨hready, hh⟩ := reacts_running h hrun
    have hitems := handled_kept he hh
    have hpre := hgood.earlier (List.prefix_refl cs) (handled_answers hh hrun)
    rcases hn.records hready.fsmStopped hpre with hrec | ⟨hw, i, c, hi, hc, hle⟩
    · exact .inl (hitems ▸ hrec)
    · have hone : ¬(e.method = true ∨ a.state.waiting = true) := by simp [he, hw]
      refine .inr ⟨?_, i, c, hi, hc, ?_⟩
      · cases hw' : a'.state.waiting with
        | false => rfl
        | true =>
          rcases (handled_waiting hh hw' hrun).2 with hst | haw
          · rw [hst, hw] at hw'
            cases hw'
          · rw [awaits_method haw] at he
            cases he
      · rcases handled_replies hh hrun with hr | ⟨h, -⟩
        · rw [hr]
          exact hle
        · exact absurd h hone

/-- A method is called. -/
theorem noted_called {cs : List Call} {c : Call} (hn : Noted cs a) (hf : Formed a) (ho : Owed a)
    (hidle : a.calls ≤ a.replies.length) (h : Reacts env (a.called c) c.event a') :
    Noted (cs ++ [c]) a' where
  count := by
    rw [List.length_append, ← hn.count]
    exact reacts_calls h
  records hrun hgood := by
    obtain ⟨hready, hh⟩ := reacts_running h hrun
    -- the calls before have all returned
    obtain ⟨hle, hwait⟩ := ho hready.fsmStopped
    have hlen : a.replies.length = cs.length := by
      rw [← hn.count]
      exact Nat.le_antisymm hle hidle
    have hw : a.state.waiting = false := by
      cases hw : a.state.waiting with
      | false => rfl
      | true =>
        have := hwait hw
        omega
    have hreplies : (a.called c).replies <+: a'.replies := handled_answers hh hrun
    have hpre : Unfailed cs a.replies := hgood.earlier (List.prefix_append cs [c]) hreplies
    have hrec : a.replays.items.map Replay.wire = cs.filterMap Call.command := by
      rcases hn.records hready.fsmStopped hpre with hrec | ⟨-, i, d, hi, -, hge⟩
      · exact hrec
      · have := (List.getElem?_eq_some_iff.1 hi).1
        omega
    have hlast : (cs ++ [c])[cs.length]? = some c := List.getElem?_concat_length
    cases hc : c.command with
    | none =>
      have hitems : a'.replays.items = a.replays.items := by
        rcases handled_items hh with hi | ⟨r, hr, -⟩
        · exact hi
        · rw [Call.record_command hr] at hc
          cases hc
      left
      rw [hitems, hrec, List.filterMap_append, List.filterMap_cons_none hc]
      exact (List.append_nil _).symm
    | some w =>
      have hcom : c.command.isSome := by rw [hc]; rfl
      have hext := (hf.called c).external hready
      rcases handled_request hh (c.event_request.trans hcom) hw hext.1 with
        ⟨r, hr, hi⟩ | ⟨r, hr⟩ | ⟨hr, hst⟩
      · have hwire : w = r.wire := Option.some.inj (hc.symm.trans (Call.record_command hr))
        have hi : a'.replays.items = a.replays.items ++ [r] := hi
        left
        rw [hi, List.map_append, hrec, List.filterMap_append, List.filterMap_cons_some hc, hwire]
        rfl
      · -- the call has failed
        have hr : a'.replies = a.replies ++ [.failure r] := hr
        have hfail : a'.replies[cs.length]? = some (.failure r) := by
          rw [hr, ← hlen]
          exact List.getElem?_concat_length
        cases hgood _ c _ hlast hcom hfail
      · have hr : a'.replies = a.replies := hr
        exact .inr ⟨hst, cs.length, c, hlast, hcom, Nat.le_of_eq (by rw [hr, hlen])⟩

/-- **One step keeps the notes.** -/
theorem noted_stepped {cs : List Call} (hn : Noted cs a) (hf : Formed a) (ho : Owed a)
    (h : Stepped env a l a') : Noted (cs ++ l.asked.toList) a' := by
  cases l with
  | call c =>
    cases h with
    | call hidle hr => exact noted_called hn hf ho hidle hr
  | post p =>
    cases h with
    | post _ =>
      have hpost : Noted cs (a.handleMsgpipe p) := by cases p <;> exact ⟨hn.1, hn.2⟩
      exact (List.append_nil cs).symm ▸ hpost
  | frame w =>
    have hb : Noted cs (a.heard w) := ⟨hn.1, hn.2⟩
    refine (List.append_nil cs).symm ▸ ?_
    cases h with
    | frame hp hr => exact noted_reacts hb (protocolEvent_method hp) hr
    | unknown _ => exact ⟨hn.1, hn.2⟩
  | heartbeat =>
    cases h with
    | heartbeat _ hr => exact (List.append_nil cs).symm ▸ noted_reacts hn rfl hr
  | expired =>
    cases h with
    | expired _ hr => exact (List.append_nil cs).symm ▸ noted_reacts hn rfl hr

/-- A machine that is reconnecting has not stopped. -/
def Trying (a : Actor) : Prop := a.state = .reconnecting → a.fsmStopped = false

theorem trying_haveError (address : CString) (h : a.fsmStopped = false) :
    Trying (a.haveError address) := by
  unfold haveError
  split
  · exact fun _ => h
  · split <;> exact fun h => nomatch h

theorem trying_handled (h : Handled env a e a') (hrun : a.fsmStopped = false) : Trying a' := by
  cases h with
  | left hs =>
    intro hst
    have hst : a.state = .reconnecting := hst
    rcases hs with hs | hs <;> cases hs.symm.trans hst
  | finished hs => exact fun hst => nomatch hs.symm.trans hst
  | abandoned hs _ => exact fun hst => nomatch hs.symm.trans hst
  | denied _ _ => exact trying_haveError _ hrun
  | erred _ _ => exact trying_haveError _ hrun
  | reopened _ => exact fun _ => (replays_replayFrom _ _ _).fsmStopped.trans hrun
  | pushed _ _ => exact fun _ => (replays_replayFrom _ _ _).fsmStopped.trans hrun
  | _ => exact fun _ => hrun

theorem trying_reacts (ht : Trying a) (h : Reacts env a e a') : Trying a' := by
  cases h with
  | stopped _ => exact ht
  | handled hready hh => exact trying_handled hh hready.fsmStopped

theorem trying_stepped (ht : Trying a) (h : Stepped env a l a') : Trying a' := by
  cases h with
  | @call c _ _ hr =>
    have hb : Trying (a.called c) := ht
    exact trying_reacts hb hr
  | post p => cases p <;> exact ht
  | @frame w _ _ _ hr =>
    have hb : Trying (a.heard w) := ht
    exact trying_reacts hb hr
  | unknown _ => exact ht
  | heartbeat _ hr => exact trying_reacts ht hr
  | expired _ hr => exact trying_reacts ht hr

/-- What a run of the client keeps. -/
structure Logged (cs : List Call) (a : Actor) : Prop where
  noted : Noted cs a
  formed : Formed a
  owed : Owed a
  trying : Trying a

theorem logged_new : Logged [] .new where
  noted := ⟨rfl, fun _ _ => .inl rfl⟩
  formed := formed_new
  owed _ := ⟨Nat.le_refl _, fun h => nomatch h⟩
  trying h := nomatch h

theorem logged_run {cs : List Call} (hl : Logged cs a) (h : (client env).Run a ls a') :
    Logged (cs ++ methods ls) a' := by
  induction h with
  | nil => exact (List.append_nil cs).symm ▸ hl
  | @snoc a' a'' ls l _ hstep ih =>
    obtain ⟨hn, hf, ho, ht⟩ := ih
    have hst := step_cases hf hstep
    have hls : cs ++ methods (ls ++ [l]) = (cs ++ methods ls) ++ l.asked.toList := by
      cases hl : l.asked <;> simp [methods, hl]
    rw [hls]
    exact ⟨noted_stepped hn hf ho hst, formed_stepped hf hst, owed_stepped ho hst,
      trying_stepped ht hst⟩

/-- **The records are the commands of the calls**, in every run in which these
succeed and the machine goes on. -/
theorem recorded_of_run (h : (client env).Run .new ls a) (hgo : a.fsmStopped = false)
    (hok : Succeeded ls a) : a.replays.items.map Replay.wire = asked ls := by
  have hn : Noted (methods ls) a := (logged_run logged_new h).noted
  have hun : Unfailed (methods ls) a.replies := by
    intro i c r hi hc hr
    exact Option.some.inj (hr.symm.trans (hok i c hi hc))
  rcases hn.records hgo hun with hrec | ⟨-, i, c, hi, hc, hle⟩
  · exact hrec
  · have := (List.getElem?_eq_some_iff.1 (hok i c hi hc)).1
    omega

/-! ## The replay -/

theorem replayFrom_state (back post : List Replay) (a : Actor) :
    (replayFrom back post a).state =
      if post.all Replay.replayed then .connected else a.state := by
  induction post generalizing back a with
  | nil => rfl
  | cons r rs ih =>
    unfold replayFrom
    split
    · rename_i hr
      rw [ih, List.all_cons, hr, Bool.true_and]
      rfl
    · rename_i hr
      simp [hr]

/-- OK begins the replay. -/
theorem handled_reopened (h : Handled env a .ok a') (hs : a.state = .reconnecting) :
    a' = replayFrom [] a.replays.items a.clientIsConnected := by
  cases h with
  | reopened _ => rfl
  | discarded ht => rw [hs] at ht; cases ht
  | refused _ he => cases he
  | opened hst => cases hst.symm.trans hs
  | requested _ he _ => cases he
  | passed _ hd => cases hd
  | confirmed hst => cases hst.symm.trans hs
  | finished hst => cases hst.symm.trans hs
  | abandoned _ he => rcases he with he | he <;> cases he
  | pushed _ he => cases he

/-- The replay has a branch for all records exactly if there is no STREAM CANCEL. -/
theorem replayed_iff {rs : List Replay} {cs : List Call}
    (h : rs.map Replay.wire = cs.filterMap Call.command) :
    rs.all Replay.replayed = true ↔ ∀ stream, .removeConsumer stream ∉ cs := by
  rw [List.all_eq_true]
  constructor
  · intro hall stream hc
    have hw : Wire.streamCancel stream.field ∈ cs.filterMap Call.command :=
      List.mem_filterMap.2 ⟨_, hc, rfl⟩
    rw [← h] at hw
    obtain ⟨r, hr, hwire⟩ := List.mem_map.1 hw
    have hrep := hall r hr
    cases r <;> first | cases hwire | cases hrep
  · intro hno r hr
    have hw : r.wire ∈ cs.filterMap Call.command := by
      rw [← h]
      exact List.mem_map_of_mem hr
    obtain ⟨c, hc, hwire⟩ := List.mem_filterMap.1 hw
    cases r with
    | streamCancel stream =>
      cases c <;> simp [Call.command, Replay.wire] at hwire
      exact absurd hc (hno _)
    | _ => rfl

/-- **A replay restores the session**, exactly if `remove_consumer` was never called:
in every run in which the calls with a command have succeeded and that leaves the
client reconnecting, when OK answers its CONNECTION OPEN. The offers are compared up to
their order, which changes as they are served in turn. -/
theorem restores_iff {n : UInt16} {r : Str} (h : (client env).Run .new ls a)
    (hs : a.state = .reconnecting) (hok : Succeeded ls a)
    (hstep : (client env).step a (.frame (.ok n r)) a') :
    Restores ls a a' ↔ ∀ stream, .removeConsumer stream ∉ methods ls := by
  obtain ⟨-, hf, -, ht⟩ := logged_run logged_new h
  have hrec := recorded_of_run h (ht hs) hok
  have ha' : a' = replayFrom [] a.replays.items (a.heard (.ok n r)).clientIsConnected := by
    cases step_cases hf hstep with
    | unknown hp => cases hp
    | @frame _ e _ hp hr =>
      cases hp
      cases hr with
      | stopped hstop =>
        have hstop : a.fsmStopped = true := hstop
        rw [ht hs] at hstop
        cases hstop
      | handled _ hh => exact handled_reopened hh hs
  have hstate : a'.state = if a.replays.items.all Replay.replayed then .connected else a.state := by
    rw [ha']
    exact replayFrom_state _ _ _
  rw [← replayed_iff hrec]
  constructor
  · intro hres
    have hconn := hres.connected
    rw [hstate, hs] at hconn
    split at hconn
    · assumption
    · cases hconn
  · intro hall
    have hsent : a'.sent = a.sent ++ asked ls := by
      rw [ha', replayFrom_sent, List.takeWhile_eq_self_iff.2 (List.all_eq_true.1 hall), hrec]
      rfl
    refine ⟨hsent, by rw [hstate, if_pos hall], fun rex s s' c d h h' hs hs' => ?_⟩
    rw [hsent, List.drop_left] at hs'
    exact L3.session_restored h h' hs hs'

end
/-! ## Runs on both sides of the condition -/

/-- OK in answer to a call. -/
def granted : Label := .frame (.ok success .empty)

/-- The broker does not know who sends the PING. -/
def forgets : List Label := [.heartbeat, .frame (.error commandInvalid .empty)]

/-- Calls that all succeed. -/
def employs : List Label :=
  connects ++ [.call (.setProducer .s), granted, .call (.setConsumer .s .s), granted,
    .call (.setWorker .s .s), granted] ++ forgets

def attends : List Wire :=
  [.streamWrite CString.s.field, .streamRead CString.s.field CString.s.field,
    .serviceOffer CString.s.field CString.s.field]

/-- A session that is computed. -/
theorem session_of_steps (rex : Str → Str → Bool) (c : Cid) (ls : List L3.Label) (ws : List Wire)
    (h : ((L3.Server.new.steps rex (fun _ _ => True) 20 ls).any fun s =>
      ((s.ctx c).any fun k => k.state = .connected) = true ∧ L3.commands c s.trace = ws) = true) :
    ∃ s, (L3.broker rex).Reachable s ∧ L3.Session s c ws := by
  obtain ⟨s, hs, hP⟩ := (Option.any_eq_true _ _).1 h
  obtain ⟨hk, hws⟩ := of_decide_eq_true hP
  obtain ⟨k, hctx, hst⟩ := (Option.any_eq_true _ _).1 hk
  exact ⟨s, (L3.Server.reachable_of_steps hs).of_within, ⟨k, hctx, of_decide_eq_true hst⟩, hws⟩

/-- A client writes to a stream, reads it and offers a service; the broker before has
another client as well, the one after has answered the PING. -/
theorem restores_iff_employs : ∃ (a a' : Actor) (s s' : L3.Server),
    (client .lenient).Run .new employs a ∧ a.state = .reconnecting ∧ Succeeded employs a ∧
    (client .lenient).step a granted a' ∧ a'.state = .connected ∧ a'.sent = a.sent ++ attends ∧
    L3.Session s 1 attends ∧ L3.Session s' 0 (a'.sent.drop a.sent.length) ∧
    L3.Restored s 1 s' 0 := by
  have hclient : ((Actor.new.steps .lenient (fun _ _ => true) employs).any fun a =>
      a.state = .reconnecting ∧ Succeeded employs a ∧
        ((a.steps .lenient (fun _ _ => true) [granted]).any fun _ => true) = true) = true := by
    decide +kernel
  obtain ⟨s, hs, hses⟩ := session_of_steps (fun _ _ => true) 1
    (.request [2] (.connectionOpen (.ofBytes [97])) ::
      (.connectionOpen CString.s.field :: attends).map (.request [1])) attends (by decide +kernel)
  obtain ⟨s', hs', hses'⟩ := session_of_steps (fun _ _ => true) 0
    ((.connectionPing :: .connectionOpen CString.s.field :: attends).map (.request [1])) attends
    (by decide +kernel)
  obtain ⟨a, ha, hP⟩ := (Option.any_eq_true _ _).1 hclient
  obtain ⟨hst, hok, hP⟩ := of_decide_eq_true hP
  obtain ⟨a', ha', -⟩ := (Option.any_eq_true _ _).1 hP
  obtain ⟨b, hstep, hnil⟩ := LTS.Run.cons_iff.1 (run_of_steps ha').of_within
  rw [← hnil.nil_eq] at hstep
  have hrun := (run_of_steps ha).of_within
  have hcalls : methods employs = [.connect .s 1000 .s, .setProducer .s, .setConsumer .s .s,
      .setWorker .s .s] := rfl
  have hres := (restores_iff hrun hst hok hstep).2 fun stream => by simp [hcalls]
  have hsent : a'.sent = a.sent ++ attends := hres.sent
  have hdrop : a'.sent.drop a.sent.length = attends := by rw [hsent, List.drop_left]
  rw [← hdrop] at hses'
  exact ⟨a, a', s, s', hrun, hst, hok, hstep, hres.connected, hsent, hses, hses',
    hres.restored _ s s' 1 0 hs hs' hses hses'⟩

/-- `remove_consumer` after `set_consumer`. -/
def withdraws : List Label :=
  connects ++ [.call (.setConsumer .s .s), granted, .call (.removeConsumer .s), granted] ++ forgets

/-- The replay ends at the STREAM CANCEL of a `remove_consumer`, and the client goes on
reconnecting. -/
theorem stuck_at_cancel : ¬∀ (env : Env) (ls : List Label) (a a' : Actor) (n : UInt16) (r : Str),
    (client env).Run .new ls a → a.state = .reconnecting → Succeeded ls a →
    (client env).step a (.frame (.ok n r)) a' → Restores ls a a' := by
  have h : ((Actor.new.steps .lenient (fun _ _ => true) withdraws).any fun a =>
      a.state = .reconnecting ∧ Succeeded withdraws a ∧
        ((a.steps .lenient (fun _ _ => true) [granted]).any fun a' =>
          a'.state = .reconnecting) = true) = true := by
    decide +kernel
  obtain ⟨a, ha, hP⟩ := (Option.any_eq_true _ _).1 h
  obtain ⟨hst, hok, hP⟩ := of_decide_eq_true hP
  obtain ⟨a', ha', hst'⟩ := (Option.any_eq_true _ _).1 hP
  obtain ⟨b, hstep, hnil⟩ := LTS.Run.cons_iff.1 (run_of_steps ha').of_within
  rw [← hnil.nil_eq] at hstep
  intro hall
  have hconn := (hall _ _ a a' _ _ (run_of_steps ha).of_within hst hok hstep).connected
  cases hconn.symm.trans (of_decide_eq_true hst')

end Malamute.L4
