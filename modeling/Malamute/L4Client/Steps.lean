import Malamute.L4Client.Handled

/-!
# The steps of the client

* `formed_reachable`: in every reachable state the machine is `Formed`.
* `step_cases`: what a step does, by its label; `step_total`: no step that is
  possible gets stuck, so no assertion fails and the loop always ends.
-/
namespace Malamute.L4
open Malamute.Core Malamute.L1 Malamute.L2

namespace Actor

/-- The command pipe has been read. -/
@[simps] def called (c : Call) (a : Actor) : Actor :=
  { a with args := c.args a.args, calls := a.calls + 1 }

/-- The frame `w` has been read. -/
@[simps] def heard (w : Wire) (a : Actor) : Actor := { a with message := w.load a.message }

/-- The reactor ends. -/
@[simps] def halt (a : Actor) : Actor := { a with terminated := true }

end Actor

open Actor

/-- What a replay leaves alone. -/
structure Replays (a a' : Actor) : Prop where
  args : a'.args = a.args
  terminated : a'.terminated = a.terminated
  fsmStopped : a'.fsmStopped = a.fsmStopped
  nextEvent : a'.nextEvent = a.nextEvent
  exception : a'.exception = a.exception
  myaddress : a'.myaddress = a.myaddress
  calls : a'.calls = a.calls
  replies : a'.replies = a.replies
  passed : a'.passed = a.passed
  state : a'.state = a.state ∨ a'.state = .connected

theorem replays_replayFrom (back post : List Replay) (a : Actor) :
    Replays a (replayFrom back post a) := by
  induction post generalizing back a with
  | nil => exact ⟨rfl, rfl, rfl, rfl, rfl, rfl, rfl, rfl, rfl, .inr rfl⟩
  | cons r rs ih =>
    unfold replayFrom
    split
    · obtain ⟨h1, h2, h3, h4, h5, h6, h7, h8, h9, h10⟩ :=
        ih (r :: back) ((a.setMessage (r.load a.message)).send r.id)
      exact ⟨h1, h2, h3, h4, h5, h6, h7, h8, h9, h10⟩
    · exact ⟨rfl, rfl, rfl, rfl, rfl, rfl, rfl, rfl, rfl, .inl rfl⟩

/-! ## The shape of the state -/

theorem Formed.called {a : Actor} (h : Formed a) (c : Call) : Formed (a.called c) :=
  ⟨h.1, h.2, h.3, h.4, h.5⟩

theorem Formed.heard {a : Actor} (h : Formed a) (w : Wire) : Formed (a.heard w) :=
  ⟨h.1, h.2, h.3, h.4, h.5⟩

theorem formed_new : Formed .new :=
  ⟨by simp [Actor.new], by simp [Actor.new], by simp [Actor.new], fun _ => rfl, rfl⟩

/-- A state that is not internal, with what else `Formed` asks for. -/
theorem Formed.of_state {a : Actor} (h1 : a.state ≠ .haveError) (h2 : a.state ≠ .defaults)
    (h3 : a.state ≠ .start → a.myaddress.isSome) (h4 : a.nextEvent = none)
    (h5 : a.exception = none) : Formed a :=
  ⟨fun _ => h2, fun h => absurd h h1, h3, fun _ => h4, h5⟩

/-- A machine that runs is in none of the internal states. -/
theorem Formed.external {a : Actor} (h : Formed a) (hr : Ready a) :
    a.state ≠ .defaults ∧ a.state ≠ .haveError := by
  have hne : a.state ≠ .haveError := by
    intro hs
    have := h.failed hs
    rw [hr.fsmStopped] at this
    cases this
  exact ⟨h.internal hne, hne⟩

theorem formed_haveError {a : Actor} {address : CString} (hadr : a.myaddress = some address)
    (hn : a.nextEvent = none) (hx : a.exception = none) : Formed (a.haveError address) := by
  have haddr : a.myaddress.isSome := by rw [hadr]; rfl
  unfold haveError
  split
  · exact .of_state (by simp) (by simp) (fun _ => haddr) hn hx
  · split
    · exact ⟨fun h => absurd rfl h, fun _ => rfl, fun _ => haddr, fun _ => hn, hx⟩
    · exact ⟨fun h => absurd rfl h, fun _ => rfl, fun _ => haddr, fun _ => hn, hx⟩

theorem formed_replayFrom {a : Actor} (hs : a.state = .reconnecting) (h : Formed a)
    (hr : a.fsmStopped = false) (back post : List Replay) : Formed (replayFrom back post a) := by
  have hrep := replays_replayFrom back post a
  have haddr : a.myaddress.isSome := h.address (by simp [hs])
  have hstate : (replayFrom back post a).state ≠ .haveError ∧
      (replayFrom back post a).state ≠ .defaults := by
    rcases hrep.state with h | h <;> simp [h, hs]
  exact .of_state hstate.1 hstate.2 (fun _ => hrep.myaddress ▸ haddr)
    (hrep.nextEvent ▸ h.nextEvent hr) (hrep.exception ▸ h.exception)

/-- **Executing an event keeps the shape.** -/
theorem formed_handled {env : Env} {a a' : Actor} {e : Event} (h : Handled env a e a')
    (hf : Formed a) (hr : Ready a) : Formed a' := by
  have hn := hr.nextEvent
  have hx := hr.exception
  have haddr := hf.address
  cases h with
  | discarded _ => exact hf
  | authorized hs _ _ => exact .of_state (by simp [hs]) (by simp [hs]) haddr hn hx
  | opening _ _ _ _ => exact .of_state (by simp) (by simp) (fun _ => rfl) hn hx
  | unconnectable hs _ _ _ => exact .of_state (by simp [hs]) (by simp [hs]) (fun _ => rfl) hn hx
  | refused hs _ =>
    rcases hs with hs | hs <;> exact .of_state (by simp [hs]) (by simp [hs]) haddr hn hx
  | left hs =>
    rcases hs with hs | hs <;> exact .of_state (by simp [hs]) (by simp [hs]) haddr hn hx
  | opened hs => exact .of_state (by simp) (by simp) (fun _ => haddr (by simp [hs])) hn hx
  | unreachable hs => exact .of_state (by simp) (by simp) (fun h => absurd rfl h) hn hx
  | requested hs _ _ => exact .of_state (by simp) (by simp) (fun _ => haddr (by simp [hs])) hn hx
  | rejected hs _ _ _ => exact .of_state (by simp [hs]) (by simp [hs]) haddr hn hx
  | closing hs => exact .of_state (by simp) (by simp) (fun _ => haddr (by simp [hs])) hn hx
  | passed hs _ =>
    rcases hs with hs | hs <;> exact .of_state (by simp [hs]) (by simp [hs]) haddr hn hx
  | confirmed hs => exact .of_state (by simp) (by simp) (fun _ => haddr (by simp [hs])) hn hx
  | late hs => exact .of_state (by simp) (by simp) (fun _ => haddr (by simp [hs])) hn hx
  | denied _ hadr => exact formed_haveError hadr hn hx
  | finished hs => exact .of_state (by simp [hs]) (by simp [hs]) haddr hn hx
  | abandoned hs _ => exact .of_state (by simp [hs]) (by simp [hs]) haddr hn hx
  | reopened hs =>
    have hs' : a.clientIsConnected.state = .reconnecting := hs
    exact formed_replayFrom hs' ⟨hf.1, hf.2, hf.3, hf.4, hf.5⟩ hr.fsmStopped _ _
  | @pushed _ i hs _ =>
    have hs' : (a.send i).state = .reconnecting := hs
    exact formed_replayFrom hs' ⟨hf.1, hf.2, hf.3, hf.4, hf.5⟩ hr.fsmStopped _ _
  | pinged _ => exact ⟨hf.1, hf.2, hf.3, hf.4, hf.5⟩
  | returned hs =>
    have hs' : a.state ≠ .start := by rcases hs with hs | hs | hs <;> simp [hs]
    exact .of_state (by simp) (by simp) (fun _ => haddr hs') hn hx
  | offline hs =>
    have hs' : a.state ≠ .start := by rcases hs with hs | hs | hs <;> simp [hs]
    exact .of_state (by simp) (by simp) (fun _ => haddr hs') hn hx
  | erred _ hadr => exact formed_haveError hadr hn hx

theorem formed_reacts {env : Env} {a a' : Actor} {e : Event} (h : Reacts env a e a')
    (hf : Formed a) : Formed a' := by
  cases h with
  | stopped hstop =>
    refine ⟨hf.internal, hf.failed, hf.address, fun h => ?_, hf.exception⟩
    have hrun : a.fsmStopped = false := h
    rw [hstop] at hrun
    cases hrun
  | handled hr hh => exact formed_handled hh hf hr

/-- An event after which the machine runs was handled. -/
theorem reacts_running {env : Env} {a a' : Actor} {e : Event} (h : Reacts env a e a')
    (hrun : a'.fsmStopped = false) : Ready a ∧ Handled env a e a' := by
  cases h with
  | stopped hstop =>
    have hrun : a.fsmStopped = false := hrun
    rw [hstop] at hrun
    cases hrun
  | handled hr hh => exact ⟨hr, hh⟩

theorem formed_msgpipe {a : Actor} (h : Formed a) (p : Post) : Formed (a.handleMsgpipe p) := by
  cases p <;> exact ⟨h.1, h.2, h.3, h.4, h.5⟩

/-! ## Steps -/

/-- What one step does. -/
inductive Stepped (env : Env) (a : Actor) : Label → Actor → Prop where
  | call {c : Call} {a' : Actor} : a.calls ≤ a.replies.length →
      Reacts env (a.called c) c.event a' → Stepped env a (.call c) a'
  | post (p : Post) : Stepped env a (.post p) (a.handleMsgpipe p)
  | frame {w : Wire} {e : Event} {a' : Actor} : protocolEvent w.id = some e →
      Reacts env (a.heard w) e a' → Stepped env a (.frame w) a'
  | unknown {w : Wire} : protocolEvent w.id = none → Stepped env a (.frame w) (a.heard w).halt
  | heartbeat {a' : Actor} : 0 < a.heartbeat → Reacts env a .heartbeat a' →
      Stepped env a .heartbeat a'
  | expired {a' : Actor} : 0 < a.expiry → Reacts env a .expired a' → Stepped env a .expired a'

/-- **No step gets stuck**: whatever is possible has an outcome. -/
theorem step_total {env : Env} {a : Actor} {l : Label} (hf : Formed a) (ht : a.terminated = false)
    (hl : a.enabled l) : ∃ a', a.step env l = some (.ok a') ∧ Stepped env a l a' := by
  suffices h : ∃ a', a.handle env l = .ok a' ∧ Stepped env a l a' by
    obtain ⟨a', he, hs⟩ := h
    exact ⟨a', by rw [Actor.step, if_pos ⟨ht, hl⟩, he], hs⟩
  cases l with
  | call c =>
    obtain ⟨a', he, hr⟩ := execute_total (hf.called c) ht (c.supply a.args)
    exact ⟨a', he, .call hl hr⟩
  | post p => exact ⟨_, rfl, .post p⟩
  | frame w =>
    cases hp : protocolEvent w.id with
    | none =>
      refine ⟨(a.heard w).halt, ?_, .unknown hp⟩
      simp only [Actor.handle, handleProtocol, hp]
      rfl
    | some e =>
      obtain ⟨a', he, hr⟩ := execute_total (hf.heard w) ht (protocolEvent_supply hp)
      refine ⟨a', ?_, .frame hp hr⟩
      simp only [Actor.handle, handleProtocol, hp]
      exact he
  | heartbeat =>
    have hargs : a.args.supply .heartbeat := trivial
    obtain ⟨a', he, hr⟩ := execute_total hf ht hargs
    exact ⟨a', he, .heartbeat hl hr⟩
  | expired =>
    have hargs : a.args.supply .expired := trivial
    obtain ⟨a', he, hr⟩ := execute_total hf ht hargs
    exact ⟨a', he, .expired hl hr⟩

theorem step_enabled {env : Env} {a a' : Actor} {l : Label} (h : (client env).step a l a') :
    a.terminated = false ∧ a.enabled l := by
  have h : a.step env l = some (.ok a') := h
  unfold Actor.step at h
  split at h
  · assumption
  · cases h

/-- What a step of a formed state does. -/
theorem step_cases {env : Env} {a a' : Actor} {l : Label} (hf : Formed a)
    (h : (client env).step a l a') : Stepped env a l a' := by
  obtain ⟨ht, hl⟩ := step_enabled h
  obtain ⟨b, hb, hs⟩ := step_total hf ht hl
  have h : a.step env l = some (.ok a') := h
  rw [hb] at h
  cases h
  exact hs

theorem formed_stepped {env : Env} {a a' : Actor} {l : Label} (hf : Formed a)
    (h : Stepped env a l a') : Formed a' := by
  cases h with
  | call _ hr => exact formed_reacts hr (hf.called _)
  | post p => exact formed_msgpipe hf p
  | frame _ hr => exact formed_reacts hr (hf.heard _)
  | unknown _ => exact ⟨hf.1, hf.2, hf.3, hf.4, hf.5⟩
  | heartbeat _ hr => exact formed_reacts hr hf
  | expired _ hr => exact formed_reacts hr hf

theorem formed_inductive (env : Env) : (client env).Inductive Formed where
  init _ h := h ▸ formed_new
  step _ _ _ hf h := formed_stepped hf (step_cases hf h)

/-- **Every reachable state is formed.** -/
theorem formed_reachable {env : Env} {a : Actor} (h : (client env).Reachable a) : Formed a :=
  (formed_inductive env).reachable a h

/-! ## What stays -/

theorem haveError_calls (a : Actor) (address : CString) :
    (a.haveError address).calls = a.calls := by
  unfold haveError
  split
  · rfl
  · split <;> rfl

theorem handled_calls {env : Env} {a a' : Actor} {e : Event} (h : Handled env a e a') :
    a'.calls = a.calls := by
  cases h with
  | denied _ _ => exact haveError_calls _ _
  | erred _ _ => exact haveError_calls _ _
  | reopened _ => exact (replays_replayFrom _ _ _).calls
  | pushed _ _ => exact (replays_replayFrom _ _ _).calls
  | _ => rfl

theorem reacts_calls {env : Env} {a a' : Actor} {e : Event} (h : Reacts env a e a') :
    a'.calls = a.calls := by
  cases h with
  | stopped _ => rfl
  | handled _ hh => exact handled_calls hh

/-! ## Computed runs -/

/-- Take the steps `ls` if they all meet `ok`; `none` if one does not, is not
possible or faults. -/
def Actor.steps (env : Env) (ok : Actor → Label → Bool) : List Label → Actor → Option Actor
  | [], a => some a
  | l :: ls, a =>
    if ok a l then
      match a.step env l with
      | some (.ok a') => steps env ok ls a'
      | _ => none
    else none

/-- A computed sequence of steps is a run. -/
theorem run_of_steps {env : Env} {ok : Actor → Label → Bool} {ls : List Label} {a a' : Actor}
    (h : a.steps env ok ls = some a') :
    ((client env).within fun a l => ok a l = true).Run a ls a' := by
  induction ls generalizing a with
  | nil => cases h; exact .nil _
  | cons l ls ih =>
    simp only [Actor.steps] at h
    split at h
    · rename_i hok
      split at h
      · rename_i b hb
        have hstep : ((client env).within fun a l => ok a l = true).step a l b := ⟨hok, hb⟩
        exact (LTS.Run.single hstep).append (ih h)
      · cases h
    · cases h

theorem reachable_of_steps {env : Env} {ok : Actor → Label → Bool} {ls : List Label} {a : Actor}
    (h : Actor.new.steps env ok ls = some a) :
    ((client env).within fun a l => ok a l = true).Reachable a :=
  ⟨.new, ls, rfl, run_of_steps h⟩

/-- Every endpoint can be connected and every pattern is valid. -/
def Env.lenient : Env := ⟨fun _ => true, fun _ => true⟩

/-- "s" -/
def CString.s : CString := ⟨[115], by decide⟩

/-- A client that connects. -/
def connects : List Label := [.call (.connect .s 1000 .s), .frame (.ok success .empty)]

end Malamute.L4
