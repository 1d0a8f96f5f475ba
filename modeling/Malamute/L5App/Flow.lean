import Malamute.L4Client.Confirmed
import Malamute.L4Client.Deliveries
import Malamute.L5App.Session

/-!
# What crosses the pipes

* `runs_client`: with the pipes between them, an application and its actor take the steps of
  the client on its own, in which a method is called when the one before has returned; and
  whatever the class has written the actor can read.
* `flow_exact`: nothing is lost, repeated or changes places in the message pipe, in either
  direction, and the accessors tell the last message received.
-/
namespace Malamute.L5
open Malamute.Core Malamute.L1 Malamute.L4 Actor Session

variable {env : Env} {s s' : Session} {t : Act}

/-! ## One step -/

/-- The step of the actor that nobody asked for. -/
def Act.own : Act → Option Label
  | .frame w => some (.frame w)
  | .heartbeat => some .heartbeat
  | .expired => some .expired
  | _ => none

/-- **One step of an application and its actor.** -/
inductive Took (env : Env) (s : Session) : Act → Session → Prop where
  -- the application
  | call {c : Call} : s.phase = .idle → c ≠ .destructor →
      Took env s (.call c) ((s.command (.call c)).setPhase .calling)
  | connected : s.phase = .idle → Took env s .connected ((s.command .connected).setPhase .asking)
  | post (p : Post) : s.phase = .idle → Took env s (.post p) (s.post p)
  | recv {d : Delivery} {ds : List Delivery} : s.phase = .idle → s.deliveries = d :: ds →
      Took env s .recv (s.recv d ds)
  | destroy : s.phase = .idle → Took env s .destroy (s.flush.setPhase .flushing)
  | read {x : Answer} {xs : List Answer} {s' : Session} : s.answers = x :: xs →
      (s.setAnswers xs).reads x = some s' → Took env s .read s'
  -- the actor
  | ran {c : Call} {ks : List Command} {a : Actor} : s.cmdpipe = .call c :: ks → s.alive = true →
      (client env).step s.actor (.call c) a → Took env s .command ((s.setCmdpipe ks).became a)
  | told {ks : List Command} : s.cmdpipe = .connected :: ks → s.alive = true →
      Took env s .command ((s.setCmdpipe ks).answer (.connected s.actor.connected))
  | termed {ks : List Command} : s.cmdpipe = .term :: ks → s.alive = true →
      Took env s .command (s.setCmdpipe ks).terminate
  | sent {p : Post} {is : List Item} {a : Actor} : s.msgpipe = .post p :: is → s.alive = true →
      (client env).step s.actor (.post p) a →
      Took env s .message (((s.setMsgpipe is).became a).handling p)
  | flushed {is : List Item} : s.msgpipe = .flush :: is → s.alive = true →
      Took env s .message ((s.setMsgpipe is).answer .signal)
  | own {t : Act} {l : Label} {a : Actor} : t.own = some l → s.alive = true →
      (client env).step s.actor l a → Took env s t (s.became a)
  | exit : s.termed = true ∨ s.actor.terminated = true → s.exited = false →
      Took env s .exit s.leave

theorem guarded {p : Prop} [Decidable p] {a b : Session}
    (h : (if p then some a else none) = some b) : p ∧ b = a := by
  obtain ⟨hp, hb⟩ := Option.ite_none_right_eq_some.1 h
  exact ⟨hp, (Option.some.inj hb).symm⟩

theorem acts_eq_some {l : Label} {a : Actor} :
    s.acts env l = some a ↔ s.alive = true ∧ (client env).step s.actor l a := by
  unfold acts
  split
  · rename_i halive
    simp only [halive, true_and]
    constructor
    · intro h
      split at h
      · rename_i hstep
        cases h
        exact hstep
      · cases h
    · intro h
      have h : s.actor.step env l = some (.ok a) := h
      rw [h]
  · rename_i halive
    simp [halive]

theorem session_cases (h : (session env).step s t s') : Took env s t s' := by
  have h : s.step env t = some s' := h
  cases t with
  | call c =>
    obtain ⟨⟨hp, hc⟩, rfl⟩ := guarded h
    exact .call hp hc
  | connected =>
    obtain ⟨hp, rfl⟩ := guarded h
    exact .connected hp
  | post p =>
    obtain ⟨hp, rfl⟩ := guarded h
    exact .post p hp
  | recv =>
    simp only [Session.step] at h
    split at h
    · rename_i d ds hds
      obtain ⟨hp, rfl⟩ := guarded h
      exact .recv hp hds
    · cases h
  | destroy =>
    obtain ⟨hp, rfl⟩ := guarded h
    exact .destroy hp
  | read =>
    simp only [Session.step] at h
    split at h
    · rename_i x xs hxs
      exact .read hxs h
    · cases h
  | command =>
    simp only [Session.step] at h
    split at h
    · rename_i k ks hks
      cases k with
      | call c =>
        obtain ⟨a, ha, rfl⟩ := Option.map_eq_some_iff.1 h
        obtain ⟨halive, hstep⟩ := acts_eq_some.1 ha
        exact .ran hks halive hstep
      | connected =>
        obtain ⟨halive, rfl⟩ := guarded h
        exact .told hks halive
      | term =>
        obtain ⟨halive, rfl⟩ := guarded h
        exact .termed hks halive
    · cases h
  | message =>
    simp only [Session.step] at h
    split at h
    · rename_i i is his
      cases i with
      | post p =>
        obtain ⟨a, ha, rfl⟩ := Option.map_eq_some_iff.1 h
        obtain ⟨halive, hstep⟩ := acts_eq_some.1 ha
        exact .sent his halive hstep
      | flush =>
        obtain ⟨halive, rfl⟩ := guarded h
        exact .flushed his halive
    · cases h
  | frame w =>
    obtain ⟨a, ha, rfl⟩ := Option.map_eq_some_iff.1 h
    obtain ⟨halive, hstep⟩ := acts_eq_some.1 ha
    exact .own rfl halive hstep
  | heartbeat =>
    obtain ⟨a, ha, rfl⟩ := Option.map_eq_some_iff.1 h
    obtain ⟨halive, hstep⟩ := acts_eq_some.1 ha
    exact .own rfl halive hstep
  | expired =>
    obtain ⟨a, ha, rfl⟩ := Option.map_eq_some_iff.1 h
    obtain ⟨halive, hstep⟩ := acts_eq_some.1 ha
    exact .own rfl halive hstep
  | exit =>
    obtain ⟨hp, rfl⟩ := guarded h
    simp only [Bool.and_eq_true, Bool.or_eq_true, Bool.not_eq_true'] at hp
    exact .exit hp.1 hp.2

/-! ## What the actor writes -/

theorem haveError_replied (a : Actor) (address : CString) :
    a.replies <+: (a.haveError address).replies := by
  rcases haveError_replies a address with h | ⟨-, r, h⟩
  · exact ⟨[], by rw [h, List.append_nil]⟩
  · exact ⟨[.failure r], h.symm⟩

theorem handled_replied {a a' : Actor} {e : Event} (h : Handled env a e a') :
    a.replies <+: a'.replies := by
  cases h with
  | discarded _ | opening _ _ _ _ | requested _ _ _ | closing _ | passed _ _ | pinged _
  | returned _ | offline _ => exact List.prefix_refl _
  | authorized _ _ _ | unconnectable _ _ _ _ | refused _ _ | left _ | opened _ | unreachable _
  | rejected _ _ _ _ | confirmed _ | late _ | finished _ | abandoned _ _ =>
    exact List.prefix_append _ _
  | @denied address _ _ =>
    exact (List.prefix_append _ _).trans (haveError_replied a.signalFailure address)
  | reopened _ =>
    rw [(replays_replayFrom _ _ _).replies]
    exact List.prefix_refl _
  | pushed _ _ =>
    rw [(replays_replayFrom _ _ _).replies]
    exact List.prefix_refl _
  | @erred address _ _ => exact haveError_replied a address

theorem reacts_replied {a a' : Actor} {e : Event} (h : Reacts env a e a') :
    a.replies <+: a'.replies := by
  cases h with
  | stopped _ => exact List.prefix_refl _
  | handled _ hh => exact handled_replied hh

theorem stepped_replied {a a' : Actor} {l : Label} (h : Stepped env a l a') :
    a.replies <+: a'.replies := by
  cases h with
  | @call c _ _ hr => exact reacts_replied (a := a.called c) hr
  | post p => cases p <;> exact List.prefix_refl _
  | @frame w _ _ _ hr => exact reacts_replied (a := a.heard w) hr
  | unknown _ => exact List.prefix_refl _
  | heartbeat _ hr => exact reacts_replied hr
  | expired _ hr => exact reacts_replied hr

/-! ## Calls -/

def Command.method : Command → Bool
  | .call _ => true
  | _ => false

def Answer.verdict : Answer → Bool
  | .reply _ => true
  | _ => false

/-- The calls that wait for the actor, and the replies that wait for the application. -/
def Session.unread (s : Session) : Nat :=
  s.cmdpipe.countP Command.method + s.answers.countP Answer.verdict

theorem accept_verdict (x : Answer) (h : Handle) : (h.accept x).2 = x.verdict := by
  rcases x with ⟨_ | _⟩ | _ | _ <;> rfl

/-- What the application does with `x`. -/
inductive Reading (s : Session) (x : Answer) : Session → Prop where
  /-- not what is waited for -/
  | skipped : (x.verdict = true → s.phase.accepting = false) → Reading s x s
  | asked : s.phase = .asking → Reading s x (s.setPhase .idle)
  | returned : s.phase = .calling → x.verdict = true →
      Reading s x ((s.setHandle (s.handle.accept x).1).setPhase .idle)
  | flushed : s.phase = .flushing → x = .signal →
      Reading s x ((s.command (.call .destructor)).setPhase .closing)
  | destructed : s.phase = .closing → x.verdict = true →
      Reading s x (((s.setHandle (s.handle.accept x).1).command .term).setPhase .stopping)
  | ended : s.phase = .stopping → x = .signal → Reading s x (s.setPhase .gone)

theorem setPhase_self {p : Phase} (h : s.phase = p) : s.setPhase p = s := by
  cases s
  cases h
  rfl

theorem accept_of_not_verdict {x : Answer} (h : x.verdict = false) (k : Handle) :
    (k.accept x).1 = k := by
  rcases x with ⟨_ | _⟩ | _ | _
  · cases h
  · cases h
  · rfl
  · rfl

theorem reads_cases {x : Answer} (h : s.reads x = some s') : Reading s x s' := by
  unfold reads at h
  split at h
  · cases h
  · rename_i hp
    cases h
    rw [accept_verdict]
    cases hx : x.verdict with
    | false =>
      have hs : (s.setHandle (s.handle.accept x).1).setPhase .calling = s := by
        rw [accept_of_not_verdict hx]
        exact setPhase_self hp
      rw [if_neg Bool.false_ne_true, hs]
      exact .skipped (by simp [hx])
    | true => exact .returned hp hx
  · rename_i hp
    cases h
    exact .asked hp
  · rename_i hp
    cases h
    split
    · exact .flushed hp (by assumption)
    · exact .skipped (by simp [hp, Phase.accepting])
  · rename_i hp
    cases h
    rw [accept_verdict]
    cases hx : x.verdict with
    | false => exact .skipped (by simp [hx])
    | true => exact .destructed hp hx
  · rename_i hp
    cases h
    split
    · exact .ended hp (by assumption)
    · exact .skipped (by simp [hp, Phase.accepting])
  · cases h

/-- What the actor has written is waiting. -/
theorem unread_became {a : Actor} (h : s.actor.replies <+: a.replies) :
    (s.became a).unread + s.actor.replies.length = s.unread + a.replies.length := by
  obtain ⟨rs, hrs⟩ := h
  have hall : (rs.map Answer.reply).countP Answer.verdict = rs.length := by
    rw [List.countP_eq_length.2, List.length_map]
    intro x hx
    obtain ⟨r, -, rfl⟩ := List.mem_map.1 hx
    rfl
  simp only [Session.unread, became_cmdpipe, became_answers, ← hrs, List.drop_left,
    List.countP_append, hall, List.length_append]
  omega

/-- The calls that a step of the actor takes. -/
def asks : Label → Nat
  | .call _ => 1
  | _ => 0

theorem stepped_asks {a a' : Actor} {l : Label} (h : Stepped env a l a') :
    a'.calls = a.calls + asks l := by
  rw [stepped_calls h]
  cases l <;> rfl

/-- The calls without a reply, made or in the pipe, less the one that is waited for. -/
def Session.pace (s : Session) : Int :=
  s.actor.calls + s.unread - s.actor.replies.length - if s.phase.accepting then 1 else 0

/-- A reply that is taken for something else. -/
def Session.stray (s : Session) : Act → Bool
  | .read => !s.phase.accepting && (s.answers.head?.map Answer.verdict).getD false
  | _ => false

/-- A step of the actor, for which a call has been taken off the pipe if it is one. -/
theorem pace_became {l : Label} {a : Actor} (h : Stepped env s.actor l a) :
    (s.became a).pace = s.pace + asks l := by
  have hunread := unread_became (stepped_replied h)
  have hcalls := stepped_asks h
  simp only [pace, became_actor, became_phase, hcalls]
  omega

/-- **What one step does to the pace.** -/
theorem pace_took (hf : Formed s.actor) (hs : Took env s t s') :
    s'.pace = s.pace - if s.stray t then 1 else 0 := by
  cases hs with
  | call hp _ => simp [pace, Session.unread, stray, hp, Phase.accepting, Command.method]; omega
  | connected hp => simp [pace, Session.unread, stray, hp, Phase.accepting, Command.method]
  | post p hp => simp [pace, Session.unread, stray]
  | recv hp hds => simp [pace, Session.unread, stray]
  | destroy hp => simp [pace, Session.unread, stray, hp, Phase.accepting]
  | @read x xs _ hxs hr =>
    have hstray : s.stray .read = (!s.phase.accepting && x.verdict) := by simp [stray, hxs]
    have hread : (s.setAnswers xs).pace = s.pace - if x.verdict then 1 else 0 := by
      simp only [pace, Session.unread, setAnswers_cmdpipe, setAnswers_answers, setAnswers_actor,
        setAnswers_phase, hxs, List.countP_cons]
      cases x.verdict with
      | false => simp
      | true =>
        simp
        omega
    rw [hstray]
    cases reads_cases hr with
    | skipped hw =>
      have hw : x.verdict = true → s.phase.accepting = false := hw
      rw [hread]
      cases hx : x.verdict with
      | false => simp
      | true => simp [hw hx]
    | asked hp =>
      have hp : s.phase = .asking := hp
      have hpace : ((s.setAnswers xs).setPhase .idle).pace = (s.setAnswers xs).pace := by
        simp [pace, Session.unread, hp, Phase.accepting]
      rw [hpace, hread, hp]
      rfl
    | returned hp hx =>
      have hp : s.phase = .calling := hp
      rw [hx, if_pos rfl] at hread
      simp only [pace, Session.unread, hp, hx, Phase.accepting, setPhase_phase, setPhase_actor,
        setPhase_cmdpipe, setPhase_answers, setHandle_actor, setHandle_cmdpipe, setHandle_answers,
        setAnswers_phase, setAnswers_actor] at hread ⊢
      simp at hread ⊢
      omega
    | flushed hp hx =>
      have hp : s.phase = .flushing := hp
      subst hx
      simp [pace, Session.unread, hp, Phase.accepting, Command.method, Answer.verdict] at hread ⊢
      omega
    | destructed hp hx =>
      have hp : s.phase = .closing := hp
      simp [pace, Session.unread, hp, hx, Phase.accepting, Command.method] at hread ⊢
      omega
    | ended hp hx =>
      have hp : s.phase = .stopping := hp
      subst hx
      simp [pace, Session.unread, hp, Phase.accepting, Answer.verdict] at hread ⊢
      omega
  | @ran c ks a hks _ hst =>
    have hpace : (s.setCmdpipe ks).pace = s.pace - 1 := by
      simp only [pace, Session.unread, setCmdpipe_cmdpipe, setCmdpipe_answers, setCmdpipe_actor,
        setCmdpipe_phase, hks, List.countP_cons_of_pos (p := Command.method) (a := .call c) rfl]
      omega
    have hb := pace_became (s := s.setCmdpipe ks) (step_cases hf hst)
    rw [hb, hpace]
    simp [asks, stray]
  | told hks _ => simp [pace, Session.unread, stray, hks, Command.method, Answer.verdict]
  | termed hks _ => simp [pace, Session.unread, stray, hks, Command.method]
  | @sent p is a his _ hst =>
    have hb := pace_became (s := s.setMsgpipe is) (step_cases hf hst)
    have hpace : (((s.setMsgpipe is).became a).handling p).pace = ((s.setMsgpipe is).became a).pace :=
      rfl
    rw [hpace, hb]
    simp [asks, stray, pace, Session.unread]
  | flushed his _ => simp [pace, Session.unread, stray, Answer.verdict]
  | own ht _ hst =>
    rw [pace_became (step_cases hf hst)]
    cases t <;> cases ht <;> simp [asks, stray]
  | exit _ _ => simp [pace, Session.unread, stray, Answer.verdict]

theorem formed_took (hf : Formed s.actor) (hs : Took env s t s') : Formed s'.actor := by
  cases hs with
  | call _ _ | connected _ | post _ _ | recv _ _ | destroy _ | told _ _ | termed _ _
  | flushed _ _ | exit _ _ => exact hf
  | read _ hr => cases reads_cases hr <;> exact hf
  | ran _ _ hst => exact formed_stepped hf (step_cases hf hst)
  | sent _ _ hst => exact formed_stepped hf (step_cases hf hst)
  | own _ _ hst => exact formed_stepped hf (step_cases hf hst)

/-- The machine is in order, and no call has been made before one has returned. -/
structure Coupled (s : Session) : Prop where
  formed : Formed s.actor
  paced : s.pace ≤ 0

theorem coupled_inductive (env : Env) : (session env).Inductive Coupled where
  init s h := by
    rw [show s = .new from h]
    exact ⟨formed_new, by decide⟩
  step s t s' hc h := by
    have hs := session_cases h
    refine ⟨formed_took hc.formed hs, ?_⟩
    rw [pace_took hc.formed hs]
    have hpaced := hc.paced
    split <;> omega

/-! ## The actor on its own -/

/-- The step of the client that a step is. -/
def Act.label (s : Session) (t : Act) : Option Label :=
  match t with
  | .command =>
    match s.cmdpipe with
    | .call c :: _ => some (.call c)
    | _ => none
  | .message =>
    match s.msgpipe with
    | .post p :: _ => some (.post p)
    | _ => none
  | t => t.own

theorem session_refines (env : Env) :
    (session env).Refines (client env) Coupled Session.actor fun s t => t.label s where
  init s h := by
    rw [show s = .new from h]
    rfl
  step s t s' _ h := by
    cases session_cases h with
    | call _ _ | connected _ | post _ _ | recv _ _ | destroy _ | exit _ _ => exact .inr ⟨rfl, rfl⟩
    | read hxs hr =>
      refine .inr ⟨rfl, ?_⟩
      cases reads_cases hr <;> rfl
    | told hks _ =>
      refine .inr ⟨?_, rfl⟩
      simp only [Act.label, hks]
    | termed hks _ =>
      refine .inr ⟨?_, rfl⟩
      simp only [Act.label, hks]
    | flushed his _ =>
      refine .inr ⟨?_, rfl⟩
      simp only [Act.label, his]
    | ran hks _ hst =>
      refine .inl ⟨_, ?_, hst⟩
      simp only [Act.label, hks]
    | sent his _ hst =>
      refine .inl ⟨_, ?_, hst⟩
      simp only [Act.label, his]
    | own ht _ hst =>
      refine .inl ⟨_, ?_, hst⟩
      cases t <;> cases ht <;> rfl

theorem alive_running (h : s.alive = true) : s.actor.terminated = false := by
  simp only [alive, Bool.and_eq_true, Bool.not_eq_true'] at h
  exact h.2

/-- What is possible for the actor is not faulty. -/
theorem acts_total (env : Env) {l : Label} (hf : Formed s.actor) (halive : s.alive = true)
    (hl : s.actor.enabled l) : ∃ a, s.acts env l = some a := by
  obtain ⟨a, ha, -⟩ := step_total (l := l) hf (alive_running halive) hl
  exact ⟨a, acts_eq_some.2 ⟨halive, ha⟩⟩

/-- What is in the command pipe can be read. -/
theorem command_possible (hc : Coupled s) (halive : s.alive = true) (hne : s.cmdpipe ≠ []) :
    ∃ s', (session env).step s .command s' := by
  obtain ⟨k, ks, hks⟩ := List.exists_cons_of_ne_nil hne
  have hread : s.step env .command = (s.setCmdpipe ks).runCommand env k := by
    simp only [Session.step, hks]
  cases k with
  | call c =>
    have hl : s.actor.enabled (.call c) := by
      have hpaced := hc.paced
      rw [pace, Session.unread, hks, List.countP_cons_of_pos rfl] at hpaced
      show s.actor.calls ≤ s.actor.replies.length
      split at hpaced <;> omega
    obtain ⟨a, ha⟩ := acts_total env (s := s.setCmdpipe ks) hc.formed halive hl
    exact ⟨(s.setCmdpipe ks).became a, hread.trans (Option.map_eq_some_iff.2 ⟨a, ha, rfl⟩)⟩
  | connected => exact ⟨_, hread.trans (if_pos halive)⟩
  | term => exact ⟨_, hread.trans (if_pos halive)⟩

/-- What is in the message pipe can be read. -/
theorem message_possible (hc : Coupled s) (halive : s.alive = true) (hne : s.msgpipe ≠ []) :
    ∃ s', (session env).step s .message s' := by
  obtain ⟨i, is, his⟩ := List.exists_cons_of_ne_nil hne
  have hread : s.step env .message = (s.setMsgpipe is).runItem env i := by
    simp only [Session.step, his]
  cases i with
  | post p =>
    obtain ⟨a, ha⟩ := acts_total env (s := s.setMsgpipe is) (l := .post p) hc.formed
      halive trivial
    exact ⟨((s.setMsgpipe is).became a).handling p,
      hread.trans (Option.map_eq_some_iff.2 ⟨a, ha, rfl⟩)⟩
  | flush => exact ⟨_, hread.trans (if_pos halive)⟩

/-- **The client with its pipes is the client.** In every run of an application and its actor
the actor takes the steps of the client, a method called only when the one before has
returned; and while its thread runs it can read whatever the class has written. -/
theorem runs_client (h : (session env).Reachable s) : (client env).Reachable s.actor ∧
    (s.alive = true → (s.cmdpipe ≠ [] → ∃ s', (session env).step s .command s') ∧
      (s.msgpipe ≠ [] → ∃ s', (session env).step s .message s')) := by
  have hc : Coupled s := (coupled_inductive env).reachable s h
  exact ⟨(session_refines env).reachable (coupled_inductive env) h, fun halive =>
    ⟨command_possible hc halive, message_possible hc halive⟩⟩

/-- A message and a call are in the pipes. -/
theorem runs_client_posts : ∃ s, (session .lenient).Reachable s ∧
    s.cmdpipe = [.call (.setProducer .s)] ∧
    s.msgpipe = [.post (.streamSend (.ofBytes [115]) [])] ∧ (client .lenient).Reachable s.actor ∧
    (∃ s', (session .lenient).step s .command s') ∧
    ∃ s', (session .lenient).step s .message s' := by
  have h : ((Session.new.steps .lenient (fun _ _ => True)
      (connecting ++ [.post (.streamSend (.ofBytes [115]) []), .call (.setProducer .s)])).any
        fun s => s.cmdpipe = [.call (.setProducer .s)] ∧
          s.msgpipe = [.post (.streamSend (.ofBytes [115]) [])] ∧ s.alive = true) = true := by
    decide +kernel
  obtain ⟨s, hs, hP⟩ := (Option.any_eq_true _ _).1 h
  obtain ⟨hcmd, hmsg, halive⟩ := of_decide_eq_true hP
  obtain ⟨hclient, hread⟩ := runs_client (session_of_steps hs).of_within
  exact ⟨s, (session_of_steps hs).of_within, hcmd, hmsg, hclient,
    (hread halive).1 (by simp [hcmd]), (hread halive).2 (by simp [hmsg])⟩

/-- The steps of the actor are prompt. -/
def prompted (s : Session) (t : Act) : Prop := ∀ l, t.label s = some l → prompt s.actor l = true

instance (s : Session) (t : Act) : Decidable (prompted s t) :=
  match h : t.label s with
  | none => .isTrue fun l hl => by rw [h] at hl; cases hl
  | some l =>
    decidable_of_iff (prompt s.actor l = true)
      ⟨fun hp l' hl => by rw [h] at hl; cases hl; exact hp, fun hp => hp l h⟩

/-- A call is in the pipe, with the actor or answered. -/
theorem synchronous_inductive (env : Env) : ((session env).within prompted).Inductive
    fun s => Coupled s ∧ L4.Balanced s.actor ∧ s.pace = 0 where
  init s h := by
    rw [show s = .new from h]
    exact ⟨⟨formed_new, by decide⟩, rfl, rfl⟩
  step s t s' h hs := by
    obtain ⟨hc, hb, hpace⟩ := h
    have hc' : Coupled s' := (coupled_inductive env).step s t s' hc hs.2
    refine ⟨hc', ?_, ?_⟩
    · rcases (session_refines env).step s t s' hc hs.2 with ⟨l, hl, hst⟩ | ⟨-, heq⟩
      · exact ((balanced_inductive env).step _ l _ ⟨hc.formed, hb⟩ ⟨hs.1 l hl, hst⟩).2
      · rw [heq]
        exact hb
    · rw [pace_took hc.formed (session_cases hs.2), hpace]
      cases hstray : s.stray t with
      | false => rfl
      | true =>
        -- a reply is in the pipe, and there are no fewer calls than replies
        exfalso
        cases t <;> try cases hstray
        simp only [stray, Bool.and_eq_true, Bool.not_eq_true'] at hstray
        cases hx : s.answers with
        | nil => simp [hx] at hstray
        | cons x xs =>
          simp only [hx, List.head?_cons, Option.map_some, Option.getD_some] at hstray
          unfold L4.Balanced at hb
          simp only [pace, Session.unread, hx, List.countP_cons_of_pos hstray.2, hstray.1] at hpace
          split at hb <;> simp at hpace <;> omega

/-- **The class is synchronous.** In every run whose actor steps are prompt: while a method or
the destructor waits, its call is in the pipe, or the machine waits with it, or its reply is in
the pipe, exactly one of these; and at any other time there is no call, no reply and no
waiting, so what a method reads is the reply to its own call. -/
theorem calls_synchronous (h : ((session env).within prompted).Reachable s) :
    s.cmdpipe.countP Command.method + (if Waiting s.actor then 1 else 0) +
      s.answers.countP Answer.verdict = if s.phase.accepting then 1 else 0 := by
  obtain ⟨-, hb, hpace⟩ := (synchronous_inductive env).reachable s h
  unfold L4.Balanced at hb
  unfold pace Session.unread at hpace
  generalize (if Waiting s.actor then 1 else 0) = w at hb ⊢
  cases hacc : s.phase.accepting <;>
    simp only [hacc, Bool.false_eq_true, if_false, if_true] at hpace ⊢ <;> omega

/-- A reply waits in the pipe behind the actor. -/
theorem calls_synchronous_returns : ∃ s,
    ((session .lenient).within prompted).Reachable s ∧ s.phase = .calling ∧
    s.answers = [.reply .success] ∧ s.cmdpipe.countP Command.method = 0 ∧ ¬Waiting s.actor := by
  have h : ((Session.new.steps .lenient prompted
      (connecting ++ [.call (.setProducer .s), .command, .frame (.ok success .empty)])).any fun s =>
        s.phase = .calling ∧ s.answers = [.reply .success]) = true := by decide +kernel
  obtain ⟨s, hs, hP⟩ := (Option.any_eq_true _ _).1 h
  obtain ⟨hphase, hanswers⟩ := of_decide_eq_true hP
  have hsync := calls_synchronous (session_of_steps hs)
  have hone : s.answers.countP Answer.verdict = 1 := by
    rw [hanswers]
    rfl
  rw [hphase, hone] at hsync
  simp only [Phase.accepting, if_true] at hsync
  refine ⟨s, session_of_steps hs, hphase, hanswers, by omega, fun hw => ?_⟩
  rw [if_pos hw] at hsync
  omega

/-! ## The message pipe -/

/-- The message in an item of the pipe. -/
def Item.message : Item → Option Post
  | .post p => some p
  | .flush => none

/-- What has gone through the message pipe and what is in it, in both directions. -/
structure Flowing (s : Session) : Prop where
  posted : s.posted = s.handled ++ s.msgpipe.filterMap Item.message
  sent : s.actor.sent.filter (!spoken ·) = s.handled.map Post.wire
  received : s.received ++ s.deliveries = s.actor.passed
  shows : ∀ d, s.received.getLast? = some d → s.handle.Shows d

theorem shows_recv (h : Handle) (d : Delivery) : (h.recv d).Shows d := by
  cases d <;> simp [Handle.recv, Handle.Shows]

/-- A reply leaves the message as it is. -/
theorem shows_accept {h : Handle} {d : Delivery} (x : Answer) (hd : h.Shows d) :
    (h.accept x).1.Shows d := by
  rcases x with ⟨_ | _⟩ | _ | _ <;> cases d <;> exact hd

theorem post_not_spoken (p : Post) : spoken p.wire = false := by cases p <;> rfl

theorem speaks_filter {ws ws' : List Wire} (h : Speaks ws ws') :
    ws'.filter (!spoken ·) = ws.filter (!spoken ·) := by
  obtain ⟨vs, rfl, hvs⟩ := h
  have hnil : vs.filter (!spoken ·) = [] := by
    rw [List.filter_eq_nil_iff]
    intro v hv
    simp [hvs v hv]
  rw [List.filter_append, hnil, List.append_nil]

theorem stepped_passes {a a' : Actor} {l : Label} (h : Stepped env a l a') :
    a.passed <+: a'.passed := by
  rw [stepped_passed h]
  exact List.prefix_append _ _

/-- A step of the actor that reads no message. -/
theorem flowing_became {l : Label} {a : Actor} (hl : ∀ p, l ≠ .post p)
    (h : Stepped env s.actor l a) (hf : Flowing s) : Flowing (s.became a) where
  posted := hf.posted
  sent := by
    rcases stepped_sent h with hs | ⟨p, rfl, -⟩
    · exact (speaks_filter hs).trans hf.sent
    · exact absurd rfl (hl p)
  received := by
    obtain ⟨ds, hds⟩ := stepped_passes h
    rw [became_received, became_deliveries, became_actor, ← hds, List.drop_left,
      ← List.append_assoc, hf.received]
  shows := hf.shows

/-- The actor reads a message and sends it. -/
theorem flowing_sent {p : Post} {is : List Item} {a : Actor} (his : s.msgpipe = .post p :: is)
    (h : Stepped env s.actor (.post p) a) (hf : Flowing s) :
    Flowing (((s.setMsgpipe is).became a).handling p) := by
  cases h with
  | post =>
    have hpassed : (s.actor.handleMsgpipe p).passed = s.actor.passed := by cases p <;> rfl
    refine ⟨?_, ?_, ?_, hf.shows⟩
    · have hposted := hf.posted
      rw [his] at hposted
      simpa [Item.message] using hposted
    · have hsent := hf.sent
      simp only [handling_actor, became_actor, handling_handled, became_handled,
        setMsgpipe_handled, msgpipe_sent, List.filter_append, hsent, List.map_append]
      simp [post_not_spoken]
    · have hreceived := hf.received
      simp only [handling_received, became_received, setMsgpipe_received, handling_deliveries,
        became_deliveries, setMsgpipe_deliveries, setMsgpipe_actor, handling_actor, became_actor,
        hpassed, List.drop_length, List.append_nil]
      exact hreceived

/-- Nothing of what flows is touched. -/
theorem Flowing.same {s' : Session} (hf : Flowing s) (hposted : s'.posted = s.posted)
    (hhandled : s'.handled = s.handled)
    (hmsgpipe : s'.msgpipe.filterMap Item.message = s.msgpipe.filterMap Item.message)
    (hsent : s'.actor = s.actor) (hreceived : s'.received = s.received)
    (hdeliveries : s'.deliveries = s.deliveries)
    (hshows : ∀ d, s.handle.Shows d → s'.handle.Shows d) : Flowing s' := by
  refine ⟨?_, ?_, ?_, ?_⟩
  · rw [hposted, hhandled, hmsgpipe, hf.posted]
  · rw [hsent, hhandled, hf.sent]
  · rw [hreceived, hdeliveries, hsent, hf.received]
  · rw [hreceived]
    exact fun d hd => hshows d (hf.shows d hd)

/-- **One step loses nothing.** -/
theorem flowing_took (hform : Formed s.actor) (hf : Flowing s) (hs : Took env s t s') :
    Flowing s' := by
  cases hs with
  | call _ _ | connected _ | told _ _ | termed _ _ | exit _ _ =>
    exact hf.same rfl rfl rfl rfl rfl rfl fun _ h => h
  | post p _ => exact ⟨by simp [hf.posted, Item.message], hf.sent, hf.received, hf.shows⟩
  | @recv d ds _ hds =>
    refine ⟨hf.posted, hf.sent, ?_, ?_⟩
    · have hreceived := hf.received
      rw [hds] at hreceived
      simpa using hreceived
    · intro d' hd'
      rw [recv_received, List.getLast?_concat] at hd'
      cases hd'
      exact shows_recv s.handle d
  | destroy _ => exact hf.same rfl rfl (by simp [Item.message]) rfl rfl rfl fun _ h => h
  | @read x xs _ _ hr =>
    cases reads_cases hr with
    | skipped _ | asked _ | flushed _ _ | ended _ _ =>
      exact hf.same rfl rfl rfl rfl rfl rfl fun _ h => h
    | returned _ _ | destructed _ _ =>
      exact hf.same rfl rfl rfl rfl rfl rfl fun _ h => shows_accept x h
  | @ran c ks a _ _ hst =>
    have hf' : Flowing (s.setCmdpipe ks) := hf.same rfl rfl rfl rfl rfl rfl fun _ h => h
    exact flowing_became (fun p hp => by cases hp) (step_cases hform hst) hf'
  | sent his _ hst => exact flowing_sent his (step_cases hform hst) hf
  | flushed his _ =>
    refine hf.same rfl rfl ?_ rfl rfl rfl fun _ h => h
    rw [his]
    rfl
  | own ht _ hst =>
    refine flowing_became (fun p hp => ?_) (step_cases hform hst) hf
    subst hp
    cases t <;> cases ht

theorem flowing_inductive (env : Env) :
    (session env).Inductive fun s => Coupled s ∧ Flowing s :=
  (coupled_inductive env).strengthen
    (fun s h => by
      rw [show s = .new from h]
      exact ⟨rfl, rfl, rfl, fun d hd => by cases hd⟩)
    fun _ _ _ hc _ hf hs => flowing_took hc.formed hf (session_cases hs)

/-- **The message pipe loses nothing.** In every run, the frames of the application that the
actor has sent, followed by what it has not read, are those of the messages posted, in order;
what the application has received, followed by what it has not read, is what the actor has
passed on; and the accessors tell the message received last, whatever methods have been called
since. -/
theorem flow_exact (h : (session env).Reachable s) :
    s.actor.sent.filter (!spoken ·) ++ (s.msgpipe.filterMap Item.message).map Post.wire =
        s.posted.map Post.wire ∧
      s.received ++ s.deliveries = s.actor.passed ∧
      ∀ d, s.received.getLast? = some d → s.handle.Shows d := by
  obtain ⟨-, hf⟩ := (flowing_inductive env).reachable s h
  refine ⟨?_, hf.received, hf.shows⟩
  rw [hf.sent, hf.posted, List.map_append]

/-- One message is received while another is in the pipe. -/
theorem flow_exact_receives : ∃ s, (session .lenient).Reachable s ∧
    s.posted = [.streamSend (.ofBytes [115]) [], .streamSend (.ofBytes [115]) [[1]]] ∧
    s.msgpipe = [.post (.streamSend (.ofBytes [115]) [[1]])] ∧
    s.actor.sent.filter (!spoken ·) = [.streamSend (.ofBytes [115]) []] ∧
    s.handle.Shows (.stream .empty .empty .empty (some [])) := by
  have h : ((Session.new.steps .lenient (fun _ _ => True)
      (connecting ++ [.post (.streamSend (.ofBytes [115]) []),
        .post (.streamSend (.ofBytes [115]) [[1]]), .message,
        .frame (.streamDeliver .empty .empty .empty []), .recv])).any fun s =>
        s.posted = [.streamSend (.ofBytes [115]) [], .streamSend (.ofBytes [115]) [[1]]] ∧
        s.msgpipe = [.post (.streamSend (.ofBytes [115]) [[1]])] ∧
        s.received = [.stream .empty .empty .empty (some [])]) = true := by decide +kernel
  obtain ⟨s, hs, hP⟩ := (Option.any_eq_true _ _).1 h
  obtain ⟨hposted, hmsg, hreceived⟩ := of_decide_eq_true hP
  obtain ⟨hsent, -, hshows⟩ := flow_exact (session_of_steps hs).of_within
  refine ⟨s, (session_of_steps hs).of_within, hposted, hmsg, ?_, hshows _ (by rw [hreceived]; rfl)⟩
  rw [hposted, hmsg] at hsent
  exact List.append_inj_left' hsent rfl

end Malamute.L5
