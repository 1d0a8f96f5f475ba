import Malamute.L4Client.Steps

/-!
# Deliveries reach the application

A DELIVER frame is passed to the application in the `connected` and the
`confirming` state. Every other state discards it, also the two that a client
is in while the broker is away or comes back, and so does a machine that has
stopped.

* `stepped_passed`: what one step passes on.
* `passed_iff_hears`: over a run from any state, every delivery is passed on
  once and in order exactly if each is read in a state that passes it.
-/
namespace Malamute.L4
open Malamute.Core Malamute.L1 Malamute.L2 Actor

/-- The state passes deliveries to the application. -/
def State.delivers : State → Bool
  | .connected | .confirming => true
  | _ => false

/-- What the application gets of a frame. -/
def Label.delivery : Label → Option Delivery
  | .frame (.streamDeliver address sender subject content) =>
    some (.stream address sender subject (some content))
  | .frame (.mailboxDeliver sender address subject tracker content) =>
    some (.mailbox sender address subject tracker (some content))
  | .frame (.serviceDeliver sender address subject tracker content) =>
    some (.service sender address subject tracker (some content))
  | _ => none

/-- A delivery is read by a running machine in a state that passes it on. -/
def hears (a : Actor) (l : Label) : Bool :=
  l.delivery.isNone || a.state.delivers && !a.fsmStopped

section
variable {env : Env} {a a' : Actor} {e : Event}

/-- A state that passes deliveries discards none. -/
theorem discarded_delivery {d : Delivery} (hs : a.state.delivers = true)
    (hd : delivery a.message e = some d) : transition a.state e ≠ some ([], none) := by
  cases hst : a.state <;> simp only [hst, State.delivers, Bool.false_eq_true] at hs <;>
    cases e <;> simp [delivery] at hd <;> simp [transition, connectedState, confirmingState]

theorem haveError_passed (a : Actor) (address : CString) :
    (a.haveError address).passed = a.passed := by
  unfold haveError
  split
  · rfl
  · split <;> rfl

/-- **What one event passes to the application.** -/
theorem handled_passed (h : Handled env a e a') :
    a'.passed =
      a.passed ++ if a.state.delivers then (delivery a.message e).toList else [] := by
  cases h with
  | discarded ht =>
    cases hs : a.state.delivers with
    | false => simp
    | true =>
      cases hd : delivery a.message e with
      | none => simp
      | some d => exact absurd ht (discarded_delivery hs hd)
  | refused _ he => cases e <;> simp [Event.request] at he <;> simp [delivery]
  | requested _ he _ => cases e <;> simp [Args.record] at he <;> simp [delivery, request]
  | passed hs hd => rcases hs with hs | hs <;> simp [hs, State.delivers, hd]
  | abandoned _ he => rcases he with rfl | rfl <;> simp [delivery]
  | denied _ _ => simp [haveError_passed, delivery]
  | erred _ _ => simp [haveError_passed, delivery]
  | reopened _ => simp [(replays_replayFrom _ _ _).passed, delivery]
  | pushed _ he =>
    cases e <;> simp [Event.request] at he <;> simp [(replays_replayFrom _ _ _).passed, delivery]
  | _ => simp [delivery, reopen]

theorem reacts_passed (h : Reacts env a e a') :
    a'.passed = a.passed ++
      if a.state.delivers && !a.fsmStopped then (delivery a.message e).toList else [] := by
  cases h with
  | stopped hs => simp [hs]
  | handled hr hh => simpa [hr.fsmStopped] using handled_passed hh

/-- The delivery of a frame, by its event. -/
theorem frame_delivery {w : Wire} (hp : protocolEvent w.id = some e) (p : Proto) :
    delivery (w.load p) e = (Label.frame w).delivery := by
  cases w <;> simp [Wire.id, protocolEvent] at hp <;> subst hp <;> rfl

/-- **What one step passes to the application.** -/
theorem stepped_passed {l : Label} (h : Stepped env a l a') :
    a'.passed = a.passed ++ if hears a l then l.delivery.toList else [] := by
  cases h with
  | @call c _ _ hr =>
    have hd : delivery (a.called c).message c.event = none := by cases c <;> rfl
    rw [reacts_passed hr, hd]
    simp [Label.delivery]
  | post p => cases p <;> simp [Label.delivery, handleMsgpipe]
  | @frame w _ _ hp hr =>
    have hd := frame_delivery hp a.message
    rw [reacts_passed hr, heard_message, hd]
    cases hl : (Label.frame w).delivery with
    | none => simp
    | some d => simp [hears, hl]
  | @unknown w hp =>
    have hd : (Label.frame w).delivery = none := by
      cases w <;> simp [Wire.id, protocolEvent] at hp <;> rfl
    simp [hd]
  | heartbeat _ hr => simpa [Label.delivery, delivery] using reacts_passed hr
  | expired _ hr => simpa [Label.delivery, delivery] using reacts_passed hr

/-! ## Runs -/

/-- A run passes on a part of the deliveries it reads. -/
theorem run_passed {ls : List Label} (hf : Formed a) (h : (client env).Run a ls a') :
    Formed a' ∧ ∃ ds, a'.passed = a.passed ++ ds ∧ ds.Sublist (ls.filterMap Label.delivery) := by
  induction h with
  | nil => exact ⟨hf, [], by simp, .refl _⟩
  | @snoc b c ls l _ hs ih =>
    obtain ⟨hfb, ds, hds, hsub⟩ := ih
    have hst := step_cases hfb hs
    refine ⟨formed_stepped hfb hst, ds ++ if hears b l then l.delivery.toList else [], ?_, ?_⟩
    · rw [stepped_passed hst, hds, List.append_assoc]
    · rw [List.filterMap_append]
      refine hsub.append ?_
      split
      · cases hd : l.delivery <;> simp [hd]
      · exact List.nil_sublist _

/-- A step that reads a delivery and passes nothing on did not hear it. -/
theorem hears_of_length {l : Label}
    (h : l.delivery.toList.length ≤ (if hears a l then l.delivery.toList else []).length) :
    hears a l = true := by
  cases hh : hears a l with
  | true => rfl
  | false =>
    cases hd : l.delivery with
    | none => simp [hears, hd] at hh
    | some d => simp [hh, hd] at h

/-- A run that hears every delivery passes all of them on, by induction on the
run. -/
theorem passed_of_hears {ls : List Label} (hf : Formed a)
    (hr : ((client env).within fun a l => hears a l = true).Run a ls a') :
    a'.passed = a.passed ++ ls.filterMap Label.delivery := by
  induction hr with
  | nil => simp
  | @snoc b c ls l hr hs ih =>
    obtain ⟨hhear, hs⟩ := hs
    have hfb : Formed b := (run_passed hf hr.of_within).1
    have hc := stepped_passed (step_cases hfb hs)
    rw [hhear, ih] at hc
    cases hd : l.delivery <;> simpa [hd] using hc

/-- **Every delivery is passed to the application once, in the order received,
exactly if each is read in a state that passes it on.** -/
theorem passed_iff_hears {ls : List Label} (h : (client env).Reachable a)
    (hr : (client env).Run a ls a') :
    a'.passed = a.passed ++ ls.filterMap Label.delivery ↔
      ((client env).within fun a l => hears a l = true).Run a ls a' := by
  have hf := formed_reachable h
  refine ⟨fun heq => ?_, passed_of_hears hf⟩
  induction hr with
  | nil => exact .nil _
  | @snoc b c ls l hr hs ih =>
    obtain ⟨hfb, ds, hds, hsub⟩ := run_passed hf hr
    have hc := stepped_passed (step_cases hfb hs)
    have hl : [l].filterMap Label.delivery = l.delivery.toList := by
      cases hd : l.delivery <;> simp [hd]
    rw [List.filterMap_append, hl] at heq
    -- both parts are as long as they can be
    have hlen : ds.length + (if hears b l then l.delivery.toList else []).length =
        (ls.filterMap Label.delivery).length + l.delivery.toList.length := by
      have := congrArg List.length (hc.symm.trans heq)
      simp only [hds, List.length_append] at this
      omega
    have hle := hsub.length_le
    have hle' : (if hears b l then l.delivery.toList else []).length ≤
        l.delivery.toList.length := by split <;> simp
    have hhear : hears b l = true := hears_of_length (by omega)
    have hall : ds = ls.filterMap Label.delivery := hsub.eq_of_length (by omega)
    exact .snoc (ih (by rw [hds, hall])) ⟨hhear, hs⟩

end

/-- A delivery to a connected client. -/
theorem passed_iff_hears_connected : ∃ a a', (client .lenient).Reachable a ∧
    a.state = .connected ∧ a'.passed = a.passed ++ [.stream .empty .empty .empty (some [])] ∧
    (client .lenient).Run a [.frame (.streamDeliver .empty .empty .empty [])] a' := by
  have h : ((Actor.new.steps .lenient (fun _ _ => true) connects).any fun a =>
      a.state = .connected ∧ ((a.steps .lenient hears
        [.frame (.streamDeliver .empty .empty .empty [])]).any fun _ => true)) = true := by
    decide +kernel
  obtain ⟨a, hs, hP⟩ := (Option.any_eq_true _ _).1 h
  obtain ⟨hstate, hsome⟩ := of_decide_eq_true hP
  obtain ⟨a', hs', -⟩ := (Option.any_eq_true _ _).1 hsome
  have hreach := (reachable_of_steps hs).of_within
  have hrun := run_of_steps hs'
  exact ⟨a, a', hreach, hstate, (passed_iff_hears hreach hrun.of_within).2 hrun, hrun.of_within⟩

/-- The server falls silent, the client takes it for gone, and then a delivery
arrives after all: it is lost. -/
theorem not_passed_disconnected : ¬∀ (env : Env) (a a' : Actor) (ls : List Label),
    (client env).Reachable a → a.state = .connected → .call .destructor ∉ ls →
    (client env).Run a ls a' → a'.passed = a.passed ++ ls.filterMap Label.delivery := by
  have h : ((Actor.new.steps .lenient (fun _ _ => true) connects).any fun a =>
      a.state = .connected ∧ ((a.steps .lenient (fun _ _ => true)
        [.expired, .frame (.streamDeliver .empty .empty .empty [])]).any fun a' =>
          a'.passed ≠ a.passed ++ [.stream .empty .empty .empty (some [])])) = true := by
    decide +kernel
  obtain ⟨a, hs, hP⟩ := (Option.any_eq_true _ _).1 h
  obtain ⟨hstate, hsome⟩ := of_decide_eq_true hP
  obtain ⟨a', hs', hne⟩ := (Option.any_eq_true _ _).1 hsome
  intro hall
  exact of_decide_eq_true hne (hall .lenient a a' _ (reachable_of_steps hs).of_within hstate
    (by simp) (run_of_steps hs').of_within)

end Malamute.L4
