import Malamute.L4Client.Replayed

/-!
# What a failed call leaves behind

A command is recorded when it is sent, and nothing takes a record out again: a
call that fails afterwards, because the server answers ERROR or not at all, has
its command in the list, and a later reconnection sends it.

* `unrecorded_iff`: a call that has failed leaves the list as it was exactly if
  it was refused at once, in another state than `connected` or for its pattern.
* `recorded_late`: a call that fails because the server is silent.
-/
namespace Malamute.L4
open Malamute.Core Malamute.L1 Malamute.L2 Actor

/-- The pattern of the call passes the client's check. -/
def Call.valid (env : Env) : Call → Bool
  | .setConsumer _ pattern => env.valid pattern
  | _ => true

section
variable {env : Env} {a a' a₁ : Actor} {c : Call} {l : Label} {ls : List Label}

theorem Call.record_valid {x : Args} {r : Replay} (h : (c.args x).record c.event = some r) :
    r.valid env = c.valid env := by
  cases c <;> simp [Call.args, Call.event, Args.record] at h <;> subst h <;> rfl

/-- A step that is no call keeps the records. -/
theorem stepped_kept (h : Stepped env a l a') (hl : ∀ d, l ≠ .call d) :
    a'.replays.items = a.replays.items := by
  have hreacts : ∀ {b : Actor} {e : Event}, e.method = false → Reacts env b e a' →
      a'.replays.items = b.replays.items := by
    intro b e he hr
    cases hr with
    | stopped _ => rfl
    | handled _ hh => exact handled_kept he hh
  cases h with
  | @call c _ _ _ => exact absurd rfl (hl c)
  | post p => cases p <;> rfl
  | @frame w e _ hp hr => exact hreacts (b := a.heard w) (protocolEvent_method hp) hr
  | unknown _ => rfl
  | heartbeat _ hr => exact hreacts rfl hr
  | expired _ hr => exact hreacts rfl hr

/-- A machine that has stopped replies to nothing. -/
theorem stepped_stopped (h : Stepped env a l a') (hstop : a.fsmStopped = true) :
    a'.fsmStopped = true ∧ a'.replies = a.replies := by
  have hreacts : ∀ {b : Actor} {e : Event}, b.fsmStopped = true → Reacts env b e a' →
      a'.fsmStopped = true ∧ a'.replies = b.replies := by
    intro b e hb hr
    cases hr with
    | stopped _ => exact ⟨hb, rfl⟩
    | handled hready _ =>
      rw [hready.fsmStopped] at hb
      cases hb
  cases h with
  | @call c _ _ hr => exact hreacts (b := a.called c) hstop hr
  | post p => cases p <;> exact ⟨hstop, rfl⟩
  | @frame w _ _ _ hr => exact hreacts (b := a.heard w) hstop hr
  | unknown _ => exact ⟨hstop, rfl⟩
  | heartbeat _ hr => exact hreacts hstop hr
  | expired _ hr => exact hreacts hstop hr

theorem run_stopped (h : (client env).Run a ls a') (hf : Formed a) (hstop : a.fsmStopped = true) :
    a'.replies = a.replies := by
  suffices hall : Formed a' ∧ a'.fsmStopped = true ∧ a'.replies = a.replies from hall.2.2
  induction h with
  | nil => exact ⟨hf, hstop, rfl⟩
  | snoc _ hstep ih =>
    obtain ⟨hf₁, hstop₁, hr₁⟩ := ih
    have hst := step_cases hf₁ hstep
    obtain ⟨hstop₂, hr₂⟩ := stepped_stopped hst hstop₁
    exact ⟨formed_stepped hf₁ hst, hstop₂, hr₂.trans hr₁⟩

theorem run_kept (h : (client env).Run a ls a') (hf : Formed a) (hls : ∀ d, .call d ∉ ls) :
    a'.replays.items = a.replays.items := by
  suffices hall : Formed a' ∧ a'.replays.items = a.replays.items from hall.2
  induction h with
  | nil => exact ⟨hf, rfl⟩
  | @snoc a' a'' ls l _ hstep ih =>
    obtain ⟨hf₁, hi₁⟩ := ih fun d hd => hls d (List.mem_append_left _ hd)
    have hst := step_cases hf₁ hstep
    have hl : ∀ d, l ≠ .call d := by
      rintro d rfl
      exact hls d (List.mem_append_right _ List.mem_cons_self)
    exact ⟨formed_stepped hf₁ hst, (stepped_kept hst hl).trans hi₁⟩

/-- A command is recorded in the `connected` state, with a valid pattern. -/
theorem handled_recorded {e : Event} (h : Handled env a e a') (he : e.request.isSome)
    (hs : a.state = .connected)
    (hv : ∀ pattern, e = .setConsumer → a.args.pattern = some pattern → env.valid pattern = true) :
    ∃ r, a'.replays.items = a.replays.items ++ [r] := by
  cases h with
  | discarded ht =>
    rcases discarded_request ht he with hw | hd
    · rw [hs] at hw
      cases hw
    · cases hs.symm.trans hd
  | refused hst _ => rcases hst with hst | hst <;> cases hst.symm.trans hs
  | @requested _ r _ _ _ =>
    refine ⟨r, ?_⟩
    show (a.replays.addEnd r).items = _
    simp
  | rejected _ _ hp hbad =>
    rw [hv _ rfl hp] at hbad
    cases hbad
  | passed _ hd => cases e <;> simp [Event.request] at he <;> cases hd
  | abandoned _ h => rcases h with rfl | rfl <;> cases he
  | pushed hst _ => cases hst.symm.trans hs
  | _ => cases he

/-- **A call that fails leaves no record**, exactly if it was refused at once: made in
another state than `connected`, or with a pattern that is not valid. The answer to
the call is the reply after those there were; in between no other call is made. -/
theorem unrecorded_iff {r : Str} (h : (client env).Reachable a) (hc : c.command.isSome)
    (hcall : (client env).step a (.call c) a₁) (hrun : (client env).Run a₁ ls a')
    (hls : ∀ d, .call d ∉ ls) (hfail : a'.replies[a.replies.length]? = some (.failure r)) :
    a'.replays.items = a.replays.items ↔ ¬(a.state = .connected ∧ c.valid env = true) := by
  have hf := formed_reachable h
  have hst := step_cases hf hcall
  have hf₁ := formed_stepped hf hst
  rw [run_kept hrun hf₁ hls]
  cases hst with
  | @call _ _ _ hr =>
    cases hr with
    | stopped hstop =>
      -- nothing is answered any more
      have hsame : a'.replies = ((a.called c).setNextEvent c.event).replies :=
        run_stopped hrun hf₁ hstop
      have hsame : a'.replies = a.replies := hsame
      rw [hsame, List.getElem?_eq_none (Nat.le_refl _)] at hfail
      cases hfail
    | handled _ hh =>
      constructor
      · rintro hi ⟨hs, hv⟩
        have hvalid : ∀ pattern, c.event = .setConsumer →
            (a.called c).args.pattern = some pattern → env.valid pattern = true := by
          intro pattern he hp
          cases c <;> simp [Call.event] at he
          cases hp
          exact hv
        obtain ⟨x, hx⟩ := handled_recorded hh (c.event_request.trans hc) hs hvalid
        have hx : a₁.replays.items = a.replays.items ++ [x] := hx
        rw [hi] at hx
        simp at hx
      · intro hno
        rcases handled_items hh with hi | ⟨x, hx, -, hs, hv⟩
        · exact hi
        · exact absurd ⟨hs, (Call.record_valid hx).symm.trans hv⟩ hno

end

/-- Any pattern but "s" is a valid one. -/
def picky : Env := ⟨fun _ => true, fun pattern => pattern ≠ .s⟩

/-- A connected client with a record calls `set_consumer` with a pattern that is not valid; a
delivery comes. The record is as it was. -/
theorem unrecorded_iff_invalid : ∃ a a₁ a' : Actor, (client picky).Reachable a ∧
    a.state = .connected ∧ a.replays.items = [.streamWrite .s] ∧
    (client picky).step a (.call (.setConsumer .s .s)) a₁ ∧
    (client picky).Run a₁ [.frame (.streamDeliver .empty .empty .empty [])] a' ∧
    a'.replies[a.replies.length]? = some (.failure (text "Pattern regexp is not valid")) ∧
    a'.replays.items = a.replays.items := by
  have h : ((Actor.new.steps picky (fun _ _ => true)
      (connects ++ [.call (.setProducer .s), granted])).any fun a =>
      (a.state = .connected ∧ a.replays.items = [.streamWrite .s]) ∧
      ((a.steps picky (fun _ _ => true) [.call (.setConsumer .s .s)]).any fun a₁ =>
        ((a₁.steps picky (fun _ _ => true)
            [.frame (.streamDeliver .empty .empty .empty [])]).any fun a' =>
          a'.replies[a.replies.length]? =
            some (.failure (text "Pattern regexp is not valid"))) = true) = true) = true := by
    decide +kernel
  obtain ⟨a, ha, hP⟩ := (Option.any_eq_true _ _).1 h
  obtain ⟨⟨hstate, hitems⟩, hP⟩ := of_decide_eq_true hP
  obtain ⟨a₁, ha₁, hP⟩ := (Option.any_eq_true _ _).1 hP
  obtain ⟨a', ha', hP⟩ := (Option.any_eq_true _ _).1 (of_decide_eq_true hP)
  have hfail := of_decide_eq_true hP
  obtain ⟨b, hstep, hnil⟩ := LTS.Run.cons_iff.1 (run_of_steps ha₁).of_within
  rw [← hnil.nil_eq] at hstep
  have hreach := (reachable_of_steps ha).of_within
  have hrun := (run_of_steps ha').of_within
  refine ⟨a, a₁, a', hreach, hstate, hitems, hstep, hrun, hfail,
    (unrecorded_iff hreach rfl hstep hrun (by simp) hfail).2 ?_⟩
  rintro ⟨-, hvalid⟩
  cases hvalid

/-- `set_producer` is recorded and sent, and the server is silent: the call fails, and the
record stays for the next replay. -/
theorem recorded_late : ¬∀ (env : Env) (a a₁ a' : Actor) (c : Call) (ls : List Label) (r : Str),
    (client env).Reachable a → c.command.isSome → (client env).step a (.call c) a₁ →
    (client env).Run a₁ ls a' → (∀ d, .call d ∉ ls) →
    a'.replies[a.replies.length]? = some (.failure r) →
    a'.replays.items = a.replays.items := by
  have h : ((Actor.new.steps .lenient (fun _ _ => true) connects).any fun a =>
      ((a.steps .lenient (fun _ _ => true) [.call (.setProducer .s)]).any fun a₁ =>
        ((a₁.steps .lenient (fun _ _ => true) [.expired]).any fun a' =>
          a'.replies[a.replies.length]? = some (.failure .empty) ∧
            a'.replays.items ≠ a.replays.items) = true) = true) = true := by
    decide +kernel
  obtain ⟨a, ha, hP⟩ := (Option.any_eq_true _ _).1 h
  obtain ⟨a₁, ha₁, hP⟩ := (Option.any_eq_true _ _).1 (of_decide_eq_true hP)
  obtain ⟨a', ha', hP⟩ := (Option.any_eq_true _ _).1 (of_decide_eq_true hP)
  obtain ⟨hfail, hne⟩ := of_decide_eq_true hP
  obtain ⟨b, hstep, hnil⟩ := LTS.Run.cons_iff.1 (run_of_steps ha₁).of_within
  rw [← hnil.nil_eq] at hstep
  intro hall
  exact hne (hall _ a a₁ a' _ _ _ (reachable_of_steps ha).of_within rfl hstep
    (run_of_steps ha').of_within (by simp) hfail)

end Malamute.L4
