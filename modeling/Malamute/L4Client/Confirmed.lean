import Malamute.L4Client.Link

/-!
# What SUCCESS confirms

OK does not say what it is the answer to: in the `confirming` state the client
takes any OK for the answer to its call. That is right while no other OK is on
its way. It is not after a replay, which sends commands nobody waits for, and
not after a call that was given up as late.

* `confirmed_of_calm`: if every call is made when no OK is on its way (`calm`),
  SUCCESS is signalled for a command only if the broker has executed the frame
  of that call and answered it with OK.
* `confirms_late_answer`: the OK of a call that has failed as late becomes the
  SUCCESS of the next.
-/
namespace Malamute.L4
open Malamute.Core Malamute.L1 Malamute.L2 Actor

/-- No OK is on its way, and no frame that the broker will answer with one. -/
def Link.Quiet (k : Link) : Prop :=
  (∀ x ∈ k.up, demanding x.2 = false) ∧ ∀ w ∈ k.down, affirms w = false

instance (k : Link) : Decidable k.Quiet := inferInstanceAs (Decidable (_ ∧ _))

/-- A command is only called for when no OK is on its way. -/
def calm (k : Link) : Turn → Prop
  | .act (.call c) => c.command.isSome → k.actor.state = .connected → k.Quiet
  | _ => True

instance (k : Link) : (t : Turn) → Decidable (calm k t)
  | .act (.call c) =>
    inferInstanceAs (Decidable (c.command.isSome → k.actor.state = .connected → k.Quiet))
  | .act (.post _) | .act (.frame _) | .act .heartbeat | .act .expired => .isTrue trivial
  | .deliver | .serve | .peer _ _ | .inner _ | .restart _ _ _ => .isTrue trivial

/-- The frame of the last call, if it has a command. -/
def Link.current (k : Link) : Option (Option Nat × Wire) :=
  (k.history.getLast?.bind Call.command).map (Prod.mk (some k.history.length))

/-- In the `confirming` state, every frame on its way up that is answered with OK
is the one of the call, and an OK on its way down is the answer to it. -/
structure Certain (k : Link) : Prop where
  count : k.history.length = k.actor.calls
  asked : k.actor.state.waiting = true → k.actor.fsmStopped = false →
    ∃ c, k.history.getLast? = some c ∧ c.event.awaits = some k.actor.state
  single : k.actor.state = .confirming → k.actor.fsmStopped = false →
    ∀ x ∈ k.up, demanding x.2 = true → k.current = some x
  settled : k.actor.state = .confirming → k.actor.fsmStopped = false →
    ∀ w ∈ k.down, affirms w = true → ∃ x, k.current = some x ∧ x ∈ k.answered

section
variable {env : Env} {rex : Str → Str → Bool} {key : L3.Key} {k k' : Link} {t : Turn}

theorem certain_new (key : L3.Key) : Certain (.new key) where
  count := rfl
  asked h := nomatch h
  single h := nomatch h
  settled h := nomatch h

theorem stepped_calls {a a' : Actor} {l : Label} (h : Stepped env a l a') :
    a'.calls = a.calls + match l with | .call _ => 1 | _ => 0 := by
  cases h with
  | call _ hr => exact reacts_calls hr
  | post p => cases p <;> rfl
  | @frame w _ _ _ hr =>
    have hcalls : a'.calls = (a.heard w).calls := reacts_calls hr
    exact hcalls
  | unknown _ => rfl
  | heartbeat _ hr => exact reacts_calls hr
  | expired _ hr => exact reacts_calls hr

/-- The client does something that is not a call, or reads a frame. -/
theorem certain_wrote {l : Label} {a : Actor} {ws : List Wire} (hc : Certain k)
    (hl : ∀ c, l ≠ .call c) (h : Stepped env k.actor l a) (hws : ∀ w ∈ ws, w ∈ k.down) :
    Certain ((k.wrote none a).setDown ws) where
  count := by
    have hcalls := stepped_calls h
    cases l with
    | call c => exact absurd rfl (hl c)
    | _ => exact hc.count.trans hcalls.symm
  asked hw hrun := by
    rcases stepped_waiting h hw hrun with ⟨hst, hf⟩ | ⟨c, rfl, -⟩
    · have hst : a.state = k.actor.state := hst
      obtain ⟨c, hlast, hcs⟩ := hc.asked (hst ▸ hw) hf
      exact ⟨c, hlast, hcs.trans (congrArg some hst.symm)⟩
    · exact absurd rfl (hl c)
  single hs hrun x hx hdem := by
    rcases stepped_confirming h hs hrun with ⟨hst, hf, ws, hsent, hws⟩ | ⟨c, -, rfl, -⟩
    · simp only [Link.setDown_up, Link.wrote_up, hsent, List.drop_left, List.mem_append,
        List.mem_map] at hx
      rcases hx with hx | ⟨w, hw, rfl⟩
      · exact hc.single hst hf x hx hdem
      · rw [hws w hw] at hdem
        cases hdem
    · exact absurd rfl (hl c)
  settled hs hrun w hw haff := by
    rcases stepped_confirming h hs hrun with ⟨hst, hf, -⟩ | ⟨c, -, rfl, -⟩
    · exact hc.settled hst hf w (hws w hw) haff
    · exact absurd rfl (hl c)

/-- The application calls a method. -/
theorem certain_call {c : Call} {a : Actor} (hc : Certain k) (ho : Owed k.actor)
    (hl : k.actor.calls ≤ k.actor.replies.length) (hcalm : calm k (.act (.call c)))
    (h : Stepped env k.actor (.call c) a) : Certain (k.acted (.call c) a) := by
  -- a machine that waits is not called
  have hidle : k.actor.fsmStopped = false → k.actor.state.waiting = false := by
    intro hf
    cases hw : k.actor.state.waiting with
    | false => rfl
    | true =>
      have := (ho hf).2 hw
      omega
  have hcalls : a.calls = k.actor.calls + 1 := stepped_calls h
  have hcount : (k.history ++ [c]).length = a.calls := by
    rw [List.length_append, hc.count, hcalls]
    rfl
  have hlast : (k.history ++ [c]).getLast? = some c := List.getLast?_concat
  -- the command of the call has just been sent
  have hconf : a.state = .confirming → a.fsmStopped = false → ∃ w, c.command = some w ∧
      a.sent = k.actor.sent ++ [w] ∧ k.Quiet := by
    intro hs hrun
    rcases stepped_confirming h hs hrun with ⟨hst, hf, -⟩ | ⟨c', w, hcc, hst, hw, hsent⟩
    · have := hidle hf
      rw [hst] at this
      cases this
    · cases hcc
      exact ⟨w, hw, hsent, hcalm (by rw [hw]; rfl) hst⟩
  refine ⟨hcount, fun hw hrun => ?_, fun hs hrun x hx hdem => ?_, fun hs hrun w hw haff => ?_⟩
  · rcases stepped_waiting h hw hrun with ⟨hst, hf⟩ | ⟨c', hcc, haw⟩
    · have hst : a.state = k.actor.state := hst
      have hw : a.state.waiting = true := hw
      rw [hst, hidle hf] at hw
      cases hw
    · cases hcc
      exact ⟨c, hlast, haw⟩
  · obtain ⟨w, hw, hsent, hq⟩ := hconf hs hrun
    have hx : x ∈ k.up ++ (a.sent.drop k.actor.sent.length).map (Prod.mk (some a.calls)) := hx
    rw [hsent, List.drop_left, List.mem_append] at hx
    rcases hx with hx | hx
    · rw [hq.1 x hx] at hdem
      cases hdem
    · have hx : x = (some a.calls, w) := by simpa using hx
      show ((k.history ++ [c]).getLast?.bind Call.command).map
        (Prod.mk (some (k.history ++ [c]).length)) = some x
      rw [hlast, Option.bind_some, hw, hcount, hx]
      rfl
  · obtain ⟨-, -, -, hq⟩ := hconf hs hrun
    rw [hq.2 w hw] at haff
    cases haff

/-- The broker does something else than reading a frame of the client. -/
theorem certain_told {s : L3.Server} (hc : Certain k)
    (h : ∀ w ∈ L3.outputs k.broker s k.key, affirms w = false) : Certain (k.told s) where
  count := hc.count
  asked := hc.asked
  single := hc.single
  settled hs hrun w hw haff := by
    rcases List.mem_append.1 hw with hw | hw
    · exact hc.settled hs hrun w hw haff
    · rw [h w hw] at haff
      cases haff

theorem delivers_affirms {w : Wire} (h : L3.delivers w = true) : affirms w = false := by
  cases w <;> first | rfl | cases h

theorem heardAs_demanding (w : Wire) : (L3.heardAs w).acknowledged = demanding w := by
  cases w <;> rfl

/-- The broker reads a frame of the client. -/
theorem certain_served {x : Option Nat × Wire} {xs : List (Option Nat × Wire)} {s : L3.Server}
    (hc : Certain k) (hr : L3.Regular k.broker) (hup : k.up = x :: xs)
    (h : (L3.broker rex).step k.broker (.request k.key x.2) s) :
    Certain (((k.served x s).told s).setUp xs) where
  count := hc.count
  asked := hc.asked
  single hs hrun y hy := hc.single hs hrun y (by rw [hup]; exact List.mem_cons_of_mem _ hy)
  settled hs hrun w hw haff := by
    rcases List.mem_append.1 hw with hw | hw
    · obtain ⟨y, hy, hmem⟩ := hc.settled hs hrun w hw haff
      exact ⟨y, hy, List.mem_append_left _ hmem⟩
    · -- it has just been answered
      have hdem : demanding x.2 = true := by
        rcases L3.outputs_request hr h w hw with hd | ⟨-, hans⟩
        · rw [delivers_affirms hd] at haff
          cases haff
        · cases w with
          | ok n r => exact (heardAs_demanding x.2).symm.trans hans
          | _ => cases haff
      have hx : x ∈ k.up := by rw [hup]; exact List.mem_cons_self
      have hany : ((L3.outputs k.broker s k.key).any affirms) = true :=
        List.any_eq_true.2 ⟨w, hw, haff⟩
      refine ⟨x, hc.single hs hrun x hx hdem, List.mem_append_right _ ?_⟩
      simp [hany]

theorem certain_inductive (env : Env) (rex : Str → Str → Bool) (key : L3.Key) :
    ((link env rex key).within calm).Inductive fun k => Paired k ∧ Certain k := by
  refine ((paired_inductive env rex key).within _).strengthen (Q := Certain) ?_ ?_
  · rintro k rfl
    exact certain_new key
  · intro k t k' hp _ hc hs
    obtain ⟨hcalm, hs⟩ := hs
    cases link_cases hs with
    | @act l a hown hstep =>
      have hst := step_cases hp.formed hstep
      cases l with
      | call c => exact certain_call hc hp.owed (step_enabled hstep).2 hcalm hst
      | frame w => cases hown
      | _ => exact certain_wrote hc (by simp) hst fun w hw => hw
    | @deliver w ws a hdown hstep =>
      refine certain_wrote hc (l := .frame w) (by simp) (step_cases hp.formed hstep) fun v hv => ?_
      rw [hdown]
      exact List.mem_cons_of_mem _ hv
    | serve hup hstep => exact certain_served hc hp.regular hup hstep
    | @peer key w s hne hstep =>
      refine certain_told hc fun v hv => ?_
      rcases L3.outputs_request hp.regular hstep v hv with hd | ⟨heq, -⟩
      · exact delivers_affirms hd
      · exact absurd heq hne
    | inner hl hstep =>
      exact certain_told hc fun v hv => delivers_affirms (L3.outputs_inner hp.regular hstep hl v hv)
    | restart key lost kept =>
      refine ⟨hc.count, hc.asked, fun hs hrun x hx => ?_, fun hs hrun w hw => ?_⟩
      · exact hc.single hs hrun x (List.mem_of_mem_drop hx)
      · exact hc.settled hs hrun w (List.mem_of_mem_take hw)

/-- **SUCCESS confirms the command of the call**, in every run in which a command
is only called for when no OK is on its way: the broker has executed the frame
that this call sent and answered it with OK. -/
theorem confirmed_of_calm (h : ((link env rex key).within calm).Reachable k)
    (hs : (link env rex key).step k t k')
    (hr : k'.actor.replies = k.actor.replies ++ [.success]) {c : Call} {w : Wire}
    (hc : k'.history.getLast? = some c) (hw : c.command = some w) :
    (some k'.history.length, w) ∈ k.answered := by
  obtain ⟨hp, hcert⟩ := (certain_inductive env rex key).reachable k h
  -- no step of the broker signals anything
  have hbroker : k'.actor = k.actor → (some k'.history.length, w) ∈ k.answered := by
    intro hactor
    rw [hactor] at hr
    simp at hr
  cases link_cases hs with
  | @act l a hown hstep =>
    have hst := step_cases hp.formed hstep
    have hr : a.replies = k.actor.replies ++ [.success] := by cases l <;> exact hr
    rcases stepped_success hst hr with ⟨c', rfl, hnone⟩ | ⟨-, -, n, r, rfl⟩
    · have hlast : (k.history ++ [c']).getLast? = some c := hc
      rw [List.getLast?_concat] at hlast
      cases hlast
      rw [hnone] at hw
      cases hw
    · cases hown
  | @deliver v ws a hdown hstep =>
    rcases stepped_success (step_cases hp.formed hstep) hr with
      ⟨c', hcall, -⟩ | ⟨hwait, hrun, n, r, hv⟩
    · cases hcall
    · cases hv
      obtain ⟨c', hlast, haw⟩ := hcert.asked hwait hrun
      cases hlast.symm.trans hc
      have hst : k.actor.state = .confirming := by
        cases c <;> cases hw <;> exact (Option.some.inj haw).symm
      have hok : Wire.ok n r ∈ k.down := by
        rw [hdown]
        exact List.mem_cons_self
      obtain ⟨x, hx, hmem⟩ := hcert.settled hst hrun _ hok rfl
      have hcur : k.current = some (some k.history.length, w) := by
        simp only [Link.current, hlast, Option.bind_some, hw, Option.map_some]
      cases hx.symm.trans hcur
      exact hmem
  | serve _ _ => exact hbroker rfl
  | peer _ _ => exact hbroker rfl
  | inner _ _ => exact hbroker rfl
  | restart _ _ _ => exact hbroker rfl

end

/-! ## Runs on both sides of the condition -/

/-- A client that connects to the broker. -/
def joins : List Turn := [.act (.call (.connect .s 1000 .s)), .serve, .deliver]

/-- A call of `set_producer` is confirmed. -/
theorem confirmed_of_calm_joins : ∃ k k' : Link,
    ((link .lenient (fun _ _ => true) [1]).within calm).Reachable k ∧
    (link .lenient (fun _ _ => true) [1]).step k .deliver k' ∧
    k'.actor.replies = k.actor.replies ++ [.success] ∧
    (some 2, .streamWrite CString.s.field) ∈ k.answered := by
  have h : (((Link.new [1]).steps .lenient (fun _ _ => true) calm 20
      (joins ++ [.act (.call (.setProducer .s)), .serve])).any fun k =>
        (k.step .lenient (fun _ _ => true) 20 .deliver).any fun k' =>
          k'.actor.replies = k.actor.replies ++ [.success] ∧
            k'.history.getLast? = some (.setProducer .s) ∧ k'.history.length = 2) = true := by
    decide +kernel
  obtain ⟨k, hk, hP⟩ := (Option.any_eq_true _ _).1 h
  obtain ⟨k', hk', hP⟩ := (Option.any_eq_true _ _).1 hP
  obtain ⟨hr, hc, hlen⟩ := of_decide_eq_true hP
  have hs : (link .lenient (fun _ _ => true) [1]).step k .deliver k' := ⟨20, hk'⟩
  refine ⟨k, k', linked_of_steps hk, hs, hr, ?_⟩
  have hans := confirmed_of_calm (linked_of_steps hk) hs hr hc rfl
  rw [hlen] at hans
  exact hans

/-- `set_producer` is given up as late while its OK is on its way behind a PONG.
The PONG brings the client back, and the OK becomes the SUCCESS of the next call,
whose STREAM READ the broker has not read. -/
theorem confirms_late_answer : ¬∀ (env : Env) (rex : Str → Str → Bool) (key : L3.Key)
    (k k' : Link) (t : Turn) (c : Call) (w : Wire), (link env rex key).Reachable k →
    (link env rex key).step k t k' → k'.actor.replies = k.actor.replies ++ [.success] →
    k'.history.getLast? = some c → c.command = some w →
    (some k'.history.length, w) ∈ k.answered := by
  have h : (((Link.new [1]).steps .lenient (fun _ _ => true) (fun _ _ => True) 20
      (joins ++ [.act .heartbeat, .act (.call (.setProducer .s)), .serve, .serve, .act .expired,
        .deliver, .act (.call (.setConsumer .s .s))])).any fun k =>
        (k.step .lenient (fun _ _ => true) 20 .deliver).any fun k' =>
          k'.actor.replies = k.actor.replies ++ [.success] ∧
            k'.history.getLast? = some (.setConsumer .s .s) ∧
            (some k'.history.length, .streamRead CString.s.field CString.s.field) ∉ k.answered) =
      true := by
    decide +kernel
  obtain ⟨k, hk, hP⟩ := (Option.any_eq_true _ _).1 h
  obtain ⟨k', hk', hP⟩ := (Option.any_eq_true _ _).1 hP
  obtain ⟨hr, hc, hne⟩ := of_decide_eq_true hP
  intro hall
  exact hne (hall _ _ [1] k k' .deliver _ _ (linked_of_steps hk).of_within ⟨20, hk'⟩ hr hc rfl)

end Malamute.L4
