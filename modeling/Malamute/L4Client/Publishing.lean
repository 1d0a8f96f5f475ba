import Malamute.L4Client.Link

/-!
# Publishing across broker restarts

What the application publishes goes straight to the socket, in any state of the
machine. A STREAM SEND that follows a CONNECTION OPEN without a STREAM WRITE in
between is one too many: the broker ends the session with ERROR 300, and on that
the client stops.

* `publishes_of_prepared`: if the application publishes only when the client has
  sent a STREAM WRITE since its last CONNECTION OPEN (`prepared`), the broker
  always has a stream to write to, and the client never stops.
* `stops_reconnecting`: a STREAM SEND between the CONNECTION OPEN and the
  replayed STREAM WRITE stops the client.
-/
namespace Malamute.L4
open Malamute.Core Malamute.L1 Malamute.L2 Actor

/-- Whether a STREAM WRITE follows the last CONNECTION OPEN, after one more frame. -/
def holds (b : Bool) : Wire → Bool
  | .connectionOpen _ => false
  | .streamWrite _ => true
  | _ => b

/-- A STREAM WRITE follows the last CONNECTION OPEN. -/
def writable (ws : List Wire) : Bool := ws.foldl holds false

/-- Every STREAM SEND comes when a STREAM WRITE follows the last CONNECTION OPEN. -/
def covered : Bool → List Wire → Bool
  | _, [] => true
  | b, .streamSend _ _ :: ws => b && covered b ws
  | b, w :: ws => covered (holds b w) ws

/-- The application publishes when a STREAM WRITE follows the last CONNECTION OPEN,
and does not call the destructor. -/
def prepared (k : Link) : Turn → Prop
  | .act (.post (.streamSend _ _)) => writable k.actor.sent = true
  | .act (.call .destructor) => False
  | _ => True

instance (k : Link) : (t : Turn) → Decidable (prepared k t)
  | .act (.post (.streamSend _ _)) => inferInstanceAs (Decidable (_ = _))
  | .act (.call .destructor) => .isFalse id
  | .act (.post (.mailboxSend _ _ _ _ _)) | .act (.post (.serviceSend _ _ _ _ _)) => .isTrue trivial
  | .act (.call (.setPlainAuth _ _)) | .act (.call (.connect _ _ _))
  | .act (.call (.setProducer _)) | .act (.call (.setConsumer _ _))
  | .act (.call (.removeConsumer _)) | .act (.call (.setWorker _ _)) => .isTrue trivial
  | .act (.frame _) | .act .heartbeat | .act .expired => .isTrue trivial
  | .deliver | .serve | .peer _ _ | .inner _ | .restart _ _ _ => .isTrue trivial

/-- Frames for clients, and no ERROR but `COMMAND_INVALID`. -/
def mild : Wire → Bool
  | .error n _ => n = commandInvalid
  | w => (protocolEvent w.id).isSome

/-- The machine runs, and does not wait for the answer to CONNECTION CLOSE. -/
structure Runs (a : Actor) : Prop where
  fsmStopped : a.fsmStopped = false
  terminated : a.terminated = false
  state : a.state ≠ .terminating

/-! ## The frames -/

theorem covered_cons (b : Bool) (w : Wire) (ws : List Wire) :
    covered b (w :: ws) = (covered b [w] && covered (holds b w) ws) := by
  cases w <;> simp [covered, holds]

theorem covered_append (b : Bool) (ws ws' : List Wire) :
    covered b (ws ++ ws') = (covered b ws && covered (ws.foldl holds b) ws') := by
  induction ws generalizing b with
  | nil => simp [covered]
  | cons w ws ih =>
    rw [List.cons_append, covered_cons, ih, covered_cons b w ws, List.foldl_cons, Bool.and_assoc]

/-- The frames of the machine are no STREAM SEND. -/
theorem covered_spoken {b : Bool} {ws : List Wire} (h : ∀ w ∈ ws, spoken w = true) :
    covered b ws = true := by
  induction ws generalizing b with
  | nil => rfl
  | cons w ws ih =>
    rw [covered_cons, ih fun v hv => h v (List.mem_cons_of_mem _ hv), Bool.and_true]
    have hw := h w List.mem_cons_self
    cases w <;> first | rfl | cases hw

theorem writable_append (ws : List Wire) (w : Wire) :
    writable (ws ++ [w]) = holds (writable ws) w := by
  simp [writable]

theorem spoken_not_confirm {w : Wire} (h : spoken w = true) : L3.heardAs w ≠ .confirm := by
  cases w <;> simp only [spoken, Bool.false_eq_true] at h <;> exact fun h => nomatch h

theorem post_not_confirm (p : Post) : L3.heardAs p.wire ≠ .confirm := by
  cases p <;> exact fun h => nomatch h

theorem mild_delivers {w : Wire} (h : L3.delivers w = true) : mild w = true := by
  cases w <;> first | rfl | cases h

section
variable {env : Env} {rex : Str → Str → Bool} {key : L3.Key} {k k' : Link} {t : Turn}
  {a a' : Actor} {e : Event} {l : Label}

/-! ## The client goes on -/

theorem runs_haveError (address : CString) (hr : Runs a)
    (hcode : a.message.statusCode = commandInvalid) : Runs (a.haveError address) := by
  unfold haveError
  rw [if_pos hcode]
  exact ⟨hr.fsmStopped, hr.terminated, fun h => nomatch h⟩

theorem runs_replayFrom (back post : List Replay) (hr : Runs a) :
    Runs (replayFrom back post a) := by
  have h := replays_replayFrom back post a
  refine ⟨h.fsmStopped.trans hr.fsmStopped, h.terminated.trans hr.terminated, ?_⟩
  rcases h.state with h | h <;> rw [h]
  · exact hr.state
  · exact fun h => nomatch h

theorem runs_handled (h : Handled env a e a') (hr : Runs a) (he : e ≠ .destructor)
    (hcode : e = .error → a.message.statusCode = commandInvalid) : Runs a' := by
  obtain ⟨hf, ht, hs⟩ := hr
  cases h with
  | left _ => exact absurd rfl he
  | closing _ => exact absurd rfl he
  | finished hst => exact absurd hst hs
  | abandoned hst _ => exact absurd hst hs
  | denied _ _ => exact runs_haveError _ ⟨hf, ht, hs⟩ (hcode rfl)
  | erred _ _ => exact runs_haveError _ ⟨hf, ht, hs⟩ (hcode rfl)
  | reopened _ => exact runs_replayFrom _ _ ⟨hf, ht, hs⟩
  | pushed _ _ => exact runs_replayFrom _ _ ⟨hf, ht, hs⟩
  | discarded _ => exact ⟨hf, ht, hs⟩
  | authorized _ _ _ => exact ⟨hf, ht, hs⟩
  | unconnectable _ _ _ _ => exact ⟨hf, ht, hs⟩
  | refused _ _ => exact ⟨hf, ht, hs⟩
  | rejected _ _ _ _ => exact ⟨hf, ht, hs⟩
  | passed _ _ => exact ⟨hf, ht, hs⟩
  | pinged _ => exact ⟨hf, ht, hs⟩
  | _ => exact ⟨hf, ht, fun h => nomatch h⟩

theorem runs_reacts (h : Reacts env a e a') (hr : Runs a) (he : e ≠ .destructor)
    (hcode : e = .error → a.message.statusCode = commandInvalid) : Runs a' := by
  cases h with
  | stopped hstop =>
    rw [hr.fsmStopped] at hstop
    cases hstop
  | handled _ hh => exact runs_handled hh hr he hcode

/-- **The client goes on**, if the server sends nothing worse than
`COMMAND_INVALID` and the destructor is not called. -/
theorem runs_stepped (h : Stepped env a l a') (hr : Runs a) (hl : l ≠ .call .destructor)
    (hmild : ∀ w, l = .frame w → mild w = true) : Runs a' := by
  cases h with
  | @call c _ _ hreact =>
    have hr' : Runs (a.called c) := ⟨hr.1, hr.2, hr.3⟩
    have hc : c.event ≠ .destructor := by
      intro h
      cases c <;> first | exact hl rfl | cases h
    refine runs_reacts hreact hr' hc fun he => ?_
    cases c <;> cases he
  | post p => cases p <;> exact ⟨hr.1, hr.2, hr.3⟩
  | @frame w e _ hp hreact =>
    have hr' : Runs (a.heard w) := ⟨hr.1, hr.2, hr.3⟩
    refine runs_reacts hreact hr' ?_ fun he => ?_
    · rintro rfl
      cases protocolEvent_method hp
    · subst he
      have hm := hmild w rfl
      cases w <;> simp [Wire.id, protocolEvent] at hp
      exact of_decide_eq_true hm
  | @unknown w hp =>
    have hm := hmild w rfl
    cases w <;> simp [mild, hp] at hm
    simp [Wire.id, protocolEvent] at hp
  | heartbeat _ hreact =>
    refine runs_reacts hreact hr ?_ ?_ <;>
    · intro h
      cases h
  | expired _ hreact =>
    refine runs_reacts hreact hr ?_ ?_ <;>
    · intro h
      cases h

/-! ## The link -/

/-- Of the frames the client has sent, the broker has read or lost a part `p`, and
if it has the client's connection open without a stream to write to, there is no
STREAM WRITE in `p` after the last CONNECTION OPEN. -/
structure Orderly (k : Link) : Prop where
  fifo : ∃ p, k.actor.sent = p ++ k.up.map Prod.snd ∧
    (L3.Unwritten k.broker k.key → writable p = false)
  covered : covered false k.actor.sent = true
  silent : ∀ w ∈ k.actor.sent, L3.heardAs w ≠ .confirm
  mild : ∀ w ∈ k.down, mild w = true
  runs : Runs k.actor

theorem unwritten_new (key : L3.Key) : ¬L3.Unwritten .new key := by
  rintro ⟨c, k, h, -⟩
  cases h

theorem orderly_new (key : L3.Key) : Orderly (.new key) where
  fifo := ⟨[], rfl, fun _ => rfl⟩
  covered := rfl
  silent := fun _ h => nomatch h
  mild := fun _ h => nomatch h
  runs := ⟨rfl, rfl, fun h => nomatch h⟩

/-- The client takes a step; `ws` is what is left for it to read. -/
theorem orderly_wrote (tag : Option Nat) {ws : List Wire} (ho : Orderly k)
    (h : Stepped env k.actor l a) (hl : l ≠ .call .destructor)
    (hpost : ∀ subject content, l = .post (.streamSend subject content) →
      writable k.actor.sent = true)
    (hmild : ∀ w, l = .frame w → mild w = true) (hws : ∀ w ∈ ws, w ∈ k.down) :
    Orderly ((k.wrote tag a).setDown ws) := by
  obtain ⟨vs, hsent, hcov, hsil⟩ : ∃ vs, a.sent = k.actor.sent ++ vs ∧
      covered (writable k.actor.sent) vs = true ∧ ∀ v ∈ vs, L3.heardAs v ≠ .confirm := by
    rcases stepped_sent h with ⟨vs, hvs, hspoken⟩ | ⟨p, rfl, hp⟩
    · exact ⟨vs, hvs, covered_spoken hspoken, fun v hv => spoken_not_confirm (hspoken v hv)⟩
    · refine ⟨[p.wire], hp, ?_, fun v hv => ?_⟩
      · cases p with
        | streamSend subject content =>
          rw [hpost subject content rfl]
          rfl
        | _ => rfl
      · rw [List.mem_singleton.1 hv]
        exact post_not_confirm p
  obtain ⟨p, hp, hunw⟩ := ho.fifo
  refine ⟨⟨p, ?_, hunw⟩, ?_, ?_, fun w hw => ho.mild w (hws w hw), runs_stepped h ho.runs hl hmild⟩
  · show a.sent = p ++ (k.up ++ (a.sent.drop k.actor.sent.length).map (Prod.mk tag)).map Prod.snd
    rw [hsent, List.drop_left, List.map_append, List.map_map]
    have hid : vs.map (Prod.snd ∘ Prod.mk tag) = vs := by simp [Function.comp_def]
    rw [hid, ← List.append_assoc, ← hp]
  · show L4.covered false a.sent = true
    rw [hsent, covered_append, ho.covered, Bool.true_and]
    exact hcov
  · intro w hw
    have hw : w ∈ a.sent := hw
    rw [hsent] at hw
    exact (List.mem_append.1 hw).elim (ho.silent w) (hsil w)

/-- The broker takes a step that reads no frame of the client. -/
theorem orderly_told {s : L3.Server} (ho : Orderly k)
    (hunw : L3.Unwritten s k.key → L3.Unwritten k.broker k.key)
    (hout : ∀ w ∈ L3.outputs k.broker s k.key, L3.delivers w = true) : Orderly (k.told s) := by
  obtain ⟨p, hp, hwr⟩ := ho.fifo
  refine ⟨⟨p, hp, fun h => hwr (hunw h)⟩, ho.covered, ho.silent, fun w hw => ?_, ho.runs⟩
  exact (List.mem_append.1 hw).elim (ho.mild w) fun h => mild_delivers (hout w h)

/-- A STREAM SEND that is read next finds a stream to write to. -/
theorem written_of_orderly {x : Option Nat × Wire} {xs : List (Option Nat × Wire)}
    (ho : Orderly k) (hup : k.up = x :: xs) (hx : L3.heardAs x.2 = .streamSend) :
    ¬L3.Unwritten k.broker k.key := by
  intro hu
  obtain ⟨p, hp, hwr⟩ := ho.fifo
  have hcov := ho.covered
  rw [hp, hup, List.map_cons, covered_append, Bool.and_eq_true] at hcov
  have hcov : L4.covered (writable p) (x.2 :: xs.map Prod.snd) = true := hcov.2
  rw [hwr hu] at hcov
  obtain ⟨i, w⟩ := x
  cases w <;> first | cases hcov | cases hx

/-- The broker reads a frame of the client. -/
theorem orderly_served {x : Option Nat × Wire} {xs : List (Option Nat × Wire)} {s : L3.Server}
    (ho : Orderly k) (hr : L3.Regular k.broker) (hup : k.up = x :: xs)
    (h : (L3.broker rex).step k.broker (.request k.key x.2) s) :
    Orderly (((k.served x s).told s).setUp xs) := by
  have hwritten := written_of_orderly ho hup
  obtain ⟨p, hp, hwr⟩ := ho.fifo
  rw [hup, List.map_cons] at hp
  have hx : x.2 ∈ k.actor.sent := by simp [hp]
  refine ⟨⟨p ++ [x.2], ?_, fun hu => ?_⟩, ho.covered, ho.silent, fun w hw => ?_, ho.runs⟩
  · rw [List.append_assoc]
    exact hp
  · rw [writable_append]
    rcases L3.unwritten_request hr h hu with ⟨-, he⟩ | ⟨hu, hne⟩
    · cases hw : x.2 <;> rw [hw] at he <;> first | rfl | cases he
    · have hne := hne rfl
      rw [hwr hu]
      cases hw : x.2 <;> rw [hw] at hne <;> first | rfl | exact absurd rfl hne
  · refine (List.mem_append.1 hw).elim (ho.mild w) fun hw => ?_
    rcases L3.outputs_request hr h w hw with hd | ⟨-, hans⟩
    · exact mild_delivers hd
    · cases w with
      | ok n r => rfl
      | connectionPong => rfl
      | error n r =>
        rcases hans with rfl | he | ⟨he, hu⟩
        · rfl
        · exact absurd he (ho.silent _ hx)
        · exact absurd hu (hwritten he)
      | _ => cases hans

theorem orderly_inductive (env : Env) (rex : Str → Str → Bool) (key : L3.Key) :
    ((link env rex key).within prepared).Inductive fun k => Paired k ∧ Orderly k := by
  refine ((paired_inductive env rex key).within _).strengthen (Q := Orderly) ?_ ?_
  · rintro k rfl
    exact orderly_new key
  · intro k t k' hp _ ho hs
    obtain ⟨hprep, hs⟩ := hs
    cases link_cases hs with
    | @act l a hown hstep =>
      have hst := step_cases hp.formed hstep
      have hl : l ≠ .call .destructor := by
        rintro rfl
        exact hprep
      have hpost : ∀ subject content, l = .post (.streamSend subject content) →
          writable k.actor.sent = true := by
        rintro subject content rfl
        exact hprep
      have hframe : ∀ w, l = .frame w → mild w = true := by
        rintro w rfl
        cases hown
      cases l with
      | call c =>
        obtain ⟨h1, h2, h3, h4, h5⟩ :=
          orderly_wrote (some a.calls) ho hst hl hpost hframe fun _ hw => hw
        exact ⟨h1, h2, h3, h4, h5⟩
      | _ => exact orderly_wrote none ho hst hl hpost hframe fun _ hw => hw
    | @deliver w ws a hdown hstep =>
      refine orderly_wrote none ho (step_cases hp.formed hstep) (by simp) (by simp) ?_ fun v hv => ?_
      · rintro v ⟨⟩
        exact ho.mild w (by rw [hdown]; exact List.mem_cons_self)
      · rw [hdown]
        exact List.mem_cons_of_mem _ hv
    | serve hup hstep => exact orderly_served ho hp.regular hup hstep
    | @peer key w s hne hstep =>
      refine orderly_told ho (fun hu => ?_) fun v hv => ?_
      · rcases L3.unwritten_request hp.regular hstep hu with ⟨heq, -⟩ | ⟨hu, -⟩
        · exact absurd heq hne
        · exact hu
      · rcases L3.outputs_request hp.regular hstep v hv with hd | ⟨heq, -⟩
        · exact hd
        · exact absurd heq hne
    | inner hl hstep =>
      exact orderly_told ho (L3.unwritten_inner hp.regular hstep hl)
        (L3.outputs_inner hp.regular hstep hl)
    | restart key lost kept =>
      obtain ⟨p, hsent, -⟩ := ho.fifo
      refine ⟨⟨p ++ (k.up.take lost).map Prod.snd, ?_, fun hu => absurd hu (unwritten_new key)⟩,
        ho.covered, ho.silent, fun w hw => ho.mild w (List.mem_of_mem_take hw), ho.runs⟩
      show k.actor.sent = p ++ (k.up.take lost).map Prod.snd ++ (k.up.drop lost).map Prod.snd
      rw [List.append_assoc, ← List.map_append, List.take_append_drop]
      exact hsent

/-- **A client that publishes when prepared survives broker restarts**: in every
run in which the application publishes only when a STREAM WRITE follows the last
CONNECTION OPEN, and does not call the destructor, the client's machine does not
stop, and a STREAM SEND that the broker reads next is not in an open session that
has no stream to write to. -/
theorem publishes_of_prepared (h : ((link env rex key).within prepared).Reachable k) :
    k.actor.fsmStopped = false ∧ k.actor.terminated = false ∧
      ∀ i subject content xs, k.up = (i, .streamSend subject content) :: xs →
        ¬L3.Unwritten k.broker k.key := by
  obtain ⟨-, ho⟩ := (orderly_inductive env rex key).reachable k h
  exact ⟨ho.runs.fsmStopped, ho.runs.terminated, fun i subject content xs hup =>
    written_of_orderly ho hup rfl⟩

end

/-! ## Runs on both sides of the condition -/

/-- `set_producer` succeeds. -/
def produces : List Turn :=
  [.act (.call (.connect .s 1000 .s)), .serve, .deliver, .act (.call (.setProducer .s)), .serve,
    .deliver]

/-- The broker is restarted; the client learns of it by the answer to its PING, and
opens its connection. -/
def returns : List Turn := [.restart [2] 0 0, .act .heartbeat, .serve, .deliver, .serve]

/-- A client publishes to the new broker after its replay. -/
theorem publishes_of_prepared_returns : ∃ k : Link,
    ((link .lenient (fun _ _ => true) [1]).within prepared).Reachable k ∧
    k.up = [(none, .streamSend (.ofBytes [115]) [])] ∧ k.actor.state = .connected ∧
    k.actor.fsmStopped = false ∧ ¬L3.Unwritten k.broker k.key := by
  have h : (((Link.new [1]).steps .lenient (fun _ _ => true) prepared 20
      (produces ++ returns ++
        [.deliver, .serve, .act (.post (.streamSend (.ofBytes [115]) []))])).any fun k =>
        k.up = [(none, .streamSend (.ofBytes [115]) [])] ∧ k.actor.state = .connected) = true := by
    decide +kernel
  obtain ⟨k, hk, hP⟩ := (Option.any_eq_true _ _).1 h
  obtain ⟨hup, hst⟩ := of_decide_eq_true hP
  obtain ⟨hrun, -, hwritten⟩ := publishes_of_prepared (linked_of_steps hk)
  exact ⟨k, linked_of_steps hk, hup, hst, hrun, hwritten _ _ _ _ hup⟩

/-- A set_producer call has succeeded. The broker is restarted, and the application
publishes while the client is reconnecting: the client stops. -/
theorem stops_reconnecting : ¬∀ (env : Env) (rex : Str → Str → Bool) (key : L3.Key)
    (k k' : Link) (stream : CString) (ts : List Turn), (link env rex key).Reachable k →
    k.history.getLast? = some (.setProducer stream) →
    k.actor.replies.getLast? = some .success → k.actor.replies.length = k.history.length →
    .act (.call .destructor) ∉ ts → (link env rex key).Run k ts k' →
    k'.actor.fsmStopped = false ∧
      ∀ i subject content xs, k'.up = (i, .streamSend subject content) :: xs →
        ¬L3.Unwritten k'.broker k'.key := by
  have h : (((Link.new [1]).steps .lenient (fun _ _ => true) (fun _ _ => True) 20
      produces).any fun k =>
        k.history.getLast? = some (.setProducer .s) ∧
        k.actor.replies.getLast? = some .success ∧
        k.actor.replies.length = k.history.length ∧
        ((k.steps .lenient (fun _ _ => true) (fun _ _ => True) 20
          (returns ++ [.act (.post (.streamSend (.ofBytes [115]) [])), .serve, .deliver, .deliver])).any
            fun k' => k'.actor.fsmStopped = true) = true) = true := by
    decide +kernel
  obtain ⟨k, hk, hP⟩ := (Option.any_eq_true _ _).1 h
  obtain ⟨hlast, hrep, hlen, hP⟩ := of_decide_eq_true hP
  obtain ⟨k', hk', hstop⟩ := (Option.any_eq_true _ _).1 hP
  intro hall
  have hgo := hall .lenient (fun _ _ => true) [1] k k' .s _ (linked_of_steps hk).of_within hlast
    hrep hlen (by simp [returns]) (link_of_steps hk').of_within
  rw [of_decide_eq_true hstop] at hgo
  cases hgo.1

end Malamute.L4
