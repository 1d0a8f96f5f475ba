import Malamute.L5App.Flow

/-!
# The application leaves

`mlm_client_destroy` writes `$FLUSH` to the message pipe and waits for the signal before it
calls the destructor on the command pipe, which the actor may read in any order with the
message pipe.

* `flushed_before_close`: the CONNECTION CLOSE is behind every message of the application.
-/
namespace Malamute.L5
open Malamute.Core Malamute.L1 Malamute.L4 Actor Session

variable {env : Env} {s s' : Session} {t : Act}

/-! ## Who closes the connection -/

section
variable {a a' : Actor} {e : Event}

theorem send_closes (a : Actor) {i : Id} (hi : i ≠ .connectionClose) :
    (a.send i).sent.count .connectionClose = a.sent.count .connectionClose := by
  have hnil : .connectionClose ∉ (a.stamped i).wire.toList := by
    intro hm
    cases i <;> simp [stamped, Proto.wire] at hm
    exact hi rfl
  rw [send_sent, List.count_append, List.count_eq_zero.2 hnil, Nat.add_zero]

theorem replay_closes (back post : List Replay) (a : Actor) :
    (replayFrom back post a).sent.count .connectionClose = a.sent.count .connectionClose := by
  have hnil : .connectionClose ∉ (post.takeWhile Replay.replayed).map Replay.wire := by
    intro hm
    obtain ⟨r, -, hr⟩ := List.mem_map.1 hm
    cases r <;> cases hr
  rw [replayFrom_sent, List.count_append, List.count_eq_zero.2 hnil, Nat.add_zero]

theorem haveError_closes (a : Actor) (address : CString) :
    (a.haveError address).sent.count .connectionClose = a.sent.count .connectionClose := by
  unfold haveError
  split
  · exact send_closes _ (by simp)
  · split <;> rfl

theorem handled_closes (h : Handled env a e a') (he : e ≠ .destructor) :
    a'.sent.count .connectionClose = a.sent.count .connectionClose := by
  cases h with
  | opening _ _ _ _ => exact send_closes _ (by simp)
  | @requested _ r _ _ _ =>
    have hsent : ((a.request r).setState .confirming).sent = a.sent ++ [r.wire] := request_sent a r
    rw [hsent, List.count_append]
    cases r <;> simp [Replay.wire]
  | closing _ => exact absurd rfl he
  | denied _ _ => exact haveError_closes a.signalFailure _
  | reopened _ => exact replay_closes _ _ a.clientIsConnected
  | @pushed _ i _ hr =>
    refine (replay_closes _ _ _).trans (send_closes _ ?_)
    cases e <;> cases hr <;> simp
  | pinged _ => exact send_closes _ (by simp)
  | erred _ _ => exact haveError_closes a _
  | _ => rfl

theorem reacts_closes (h : Reacts env a e a') (he : e ≠ .destructor) :
    a'.sent.count .connectionClose = a.sent.count .connectionClose := by
  cases h with
  | stopped _ => rfl
  | handled _ hh => exact handled_closes hh he

/-- Only the destructor closes. -/
theorem stepped_closes {l : Label} (h : Stepped env a l a') (hl : l ≠ .call .destructor) :
    a'.sent.count .connectionClose = a.sent.count .connectionClose := by
  cases h with
  | @call c _ _ hr =>
    have hc : c.event ≠ .destructor := by
      intro hc
      cases c <;> cases hc
      exact hl rfl
    exact reacts_closes (a := a.called c) hr hc
  | post p => cases p <;> exact send_closes _ (by simp)
  | @frame w e _ hp hr =>
    have he : e ≠ .destructor := by
      intro he
      have hm := protocolEvent_method hp
      rw [he] at hm
      cases hm
    exact reacts_closes (a := a.heard w) hr he
  | unknown _ => rfl
  | heartbeat _ hr => exact reacts_closes hr (by simp)
  | expired _ hr => exact reacts_closes hr (by simp)

end

/-! ## The flush -/

/-- Where a list has been put together. -/
theorem append_split {α : Type} {xs ys before after : List α} {x : α}
    (h : xs ++ ys = before ++ x :: after) :
    (∃ ks, xs = before ++ x :: ks ∧ after = ks ++ ys) ∨
      ∃ ks, before = xs ++ ks ∧ ys = ks ++ x :: after := by
  rcases List.append_eq_append_iff.1 h with hs | ⟨ks, hxs, hks⟩
  · exact .inr hs
  · cases ks with
    | nil => exact .inr ⟨[], by simpa using hxs.symm, hks.symm⟩
    | cons k ks =>
      obtain ⟨rfl, rfl⟩ := List.cons.inj hks
      exact .inl ⟨ks, hxs, rfl⟩

/-- Before `mlm_client_destroy`. -/
def Phase.early : Phase → Bool
  | .idle | .calling | .asking => true
  | _ => false

/-- The signal of the flush has been read. -/
def Phase.late : Phase → Bool
  | .closing | .stopping | .gone => true
  | _ => false

theorem Phase.not_late {p : Phase} (h : p.early = true) : p.late ≠ true := by
  cases p <;> simp [early, late] at h ⊢

/-- What the handshake keeps. -/
structure Flushing (s : Session) : Prop where
  fresh : s.phase.early = true → .flush ∉ s.msgpipe
  last : ∀ is js, s.msgpipe = is ++ .flush :: js → js = []
  signalled : .signal ∈ s.answers ∨ s.phase.late = true →
    s.exited = true ∨ s.phase.early = false ∧ s.msgpipe = []
  called : .call .destructor ∈ s.cmdpipe → s.phase.late = true
  closed : .connectionClose ∈ s.actor.sent → s.phase.late = true

/-- Before `mlm_client_destroy` nothing of it is there. -/
theorem flushing_early (he : s.phase.early = true) :
    Flushing s ↔ .flush ∉ s.msgpipe ∧ (.signal ∈ s.answers → s.exited = true) ∧
      .call .destructor ∉ s.cmdpipe ∧ .connectionClose ∉ s.actor.sent := by
  constructor
  · intro h
    refine ⟨h.fresh he, fun hs => ?_, fun hc => Phase.not_late he (h.called hc),
      fun hc => Phase.not_late he (h.closed hc)⟩
    rcases h.signalled (.inl hs) with hex | ⟨hne, -⟩
    · exact hex
    · rw [he] at hne
      cases hne
  · rintro ⟨hf, hs, hcall, hclose⟩
    refine ⟨fun _ => hf, fun is js his => ?_, ?_, fun h => absurd h hcall, fun h => absurd h hclose⟩
    · rw [his] at hf
      simp at hf
    · rintro (h | h)
      · exact .inl (hs h)
      · exact absurd h (Phase.not_late he)

/-- The actor runs behind the signal: nothing is left. -/
theorem Flushing.empty (h : Flushing s) (halive : s.alive = true)
    (hs : .signal ∈ s.answers ∨ s.phase.late = true) : s.msgpipe = [] := by
  simp only [alive, Bool.and_eq_true, Bool.not_eq_true'] at halive
  rcases h.signalled hs with hex | ⟨-, hnil⟩
  · rw [halive.1.2] at hex
    cases hex
  · exact hnil

/-- A step of the actor that reads no message. -/
theorem flushing_became {l : Label} {a : Actor} (hl : l = .call .destructor → s.phase.late = true)
    (hst : Stepped env s.actor l a) (h : Flushing s) : Flushing (s.became a) where
  fresh := h.fresh
  last := h.last
  signalled hs := by
    refine h.signalled (hs.imp_left fun hm => ?_)
    rw [became_answers, List.mem_append] at hm
    refine hm.resolve_right fun hr => ?_
    obtain ⟨r, -, hr⟩ := List.mem_map.1 hr
    cases hr
  called := h.called
  closed hc := by
    by_cases hd : l = .call .destructor
    · exact hl hd
    · refine h.closed (List.count_pos_iff.1 ?_)
      rw [← stepped_closes hst hd]
      exact List.count_pos_iff.2 hc

theorem flushing_took (hf : Formed s.actor) (h : Flushing s) (hs : Took env s t s') :
    Flushing s' := by
  cases hs with
  | @call c hp hc =>
    have he : s.phase.early = true := by rw [hp]; rfl
    obtain ⟨h1, h2, h3, h4⟩ := (flushing_early he).1 h
    refine (flushing_early rfl).2 ⟨h1, h2, ?_, h4⟩
    simp only [setPhase_cmdpipe, command_cmdpipe, List.mem_append, List.mem_singleton, h3, false_or,
      Command.call.injEq]
    exact hc.symm
  | connected hp =>
    have he : s.phase.early = true := by rw [hp]; rfl
    obtain ⟨h1, h2, h3, h4⟩ := (flushing_early he).1 h
    exact (flushing_early rfl).2 ⟨h1, h2, by simpa using h3, h4⟩
  | post p hp =>
    have he : s.phase.early = true := by rw [hp]; rfl
    obtain ⟨h1, h2, h3, h4⟩ := (flushing_early he).1 h
    exact (flushing_early (s := s.post p) he).2 ⟨by simpa using h1, h2, h3, h4⟩
  | recv _ _ => exact ⟨h.fresh, h.last, h.signalled, h.called, h.closed⟩
  | destroy hp =>
    have he : s.phase.early = true := by rw [hp]; rfl
    obtain ⟨h1, h2, h3, h4⟩ := (flushing_early he).1 h
    refine ⟨nofun, fun is js his => ?_, ?_, fun hc => absurd hc h3, fun hc => absurd hc h4⟩
    · rcases append_split his with ⟨ks, hks, -⟩ | ⟨ks, -, hks⟩
      · rw [hks] at h1
        simp at h1
      · cases ks with
        | nil => exact (List.cons.inj hks).2.symm
        | cons k ks => simp at hks
    · rintro (hs | hs)
      · exact .inl (h2 hs)
      · cases hs
  | @read x xs _ hxs hr =>
    have hmem : ∀ y, y ∈ xs → y ∈ s.answers := fun y hy => hxs ▸ List.mem_cons_of_mem _ hy
    cases reads_cases hr with
    | skipped _ =>
      exact ⟨h.fresh, h.last, fun hs => h.signalled (hs.imp_left (hmem _)), h.called, h.closed⟩
    | asked hp =>
      have he : s.phase.early = true := by rw [show s.phase = .asking from hp]; rfl
      obtain ⟨h1, h2, h3, h4⟩ := (flushing_early he).1 h
      exact (flushing_early rfl).2 ⟨h1, fun hs => h2 (hmem _ hs), h3, h4⟩
    | returned hp _ =>
      have he : s.phase.early = true := by rw [show s.phase = .calling from hp]; rfl
      obtain ⟨h1, h2, h3, h4⟩ := (flushing_early he).1 h
      exact (flushing_early rfl).2 ⟨h1, fun hs => h2 (hmem _ hs), h3, h4⟩
    | flushed _ hx =>
      refine ⟨nofun, h.last, fun _ => ?_, fun _ => rfl, fun _ => rfl⟩
      refine (h.signalled (.inl ?_)).imp_right fun hs => ⟨rfl, hs.2⟩
      rw [hxs, hx]
      exact List.mem_cons_self
    | destructed hp _ =>
      have hl : s.phase.late = true := by rw [show s.phase = .closing from hp]; rfl
      refine ⟨nofun, h.last, fun _ => ?_, fun _ => rfl, fun _ => rfl⟩
      exact (h.signalled (.inr hl)).imp_right fun hs => ⟨rfl, hs.2⟩
    | ended hp _ =>
      have hl : s.phase.late = true := by rw [show s.phase = .stopping from hp]; rfl
      refine ⟨nofun, h.last, fun _ => ?_, fun _ => rfl, fun _ => rfl⟩
      exact (h.signalled (.inr hl)).imp_right fun hs => ⟨rfl, hs.2⟩
  | @ran c ks a hks halive hst =>
    have hmem : ∀ k, k ∈ ks → k ∈ s.cmdpipe := fun k hk => hks ▸ List.mem_cons_of_mem _ hk
    have h' : Flushing (s.setCmdpipe ks) :=
      ⟨h.fresh, h.last, h.signalled, fun hc => h.called (hmem _ hc), h.closed⟩
    refine flushing_became (fun hd => h.called ?_) (step_cases hf hst) h'
    cases hd
    rw [hks]
    exact List.mem_cons_self
  | @told ks hks halive =>
    have hmem : ∀ k, k ∈ ks → k ∈ s.cmdpipe := fun k hk => hks ▸ List.mem_cons_of_mem _ hk
    exact ⟨h.fresh, h.last, fun hs => h.signalled (by simpa using hs),
      fun hc => h.called (hmem _ hc), h.closed⟩
  | @termed ks hks halive =>
    have hmem : ∀ k, k ∈ ks → k ∈ s.cmdpipe := fun k hk => hks ▸ List.mem_cons_of_mem _ hk
    exact ⟨h.fresh, h.last, h.signalled, fun hc => h.called (hmem _ hc), h.closed⟩
  | @sent p is a his halive hst =>
    have hmsg : .signal ∈ s.answers ∨ s.phase.late = true → False := by
      intro hs
      have hnil := h.empty halive hs
      rw [his] at hnil
      cases hnil
    have h' : Flushing (s.setMsgpipe is) := by
      refine ⟨fun he hm => h.fresh he (by rw [his]; exact List.mem_cons_of_mem _ hm),
        fun is' js hjs => ?_, fun hs => (hmsg hs).elim, h.called, h.closed⟩
      exact h.last (.post p :: is') js (by rw [his]; exact congrArg _ hjs)
    have hb := flushing_became (s := s.setMsgpipe is) (l := .post p) (fun hd => by cases hd)
      (step_cases hf hst) h'
    exact ⟨hb.fresh, hb.last, hb.signalled, hb.called, hb.closed⟩
  | @flushed is his halive =>
    have hnil : is = [] := h.last [] is his
    have he : s.phase.early = false := by
      cases he : s.phase.early with
      | false => rfl
      | true => exact absurd (by rw [his]; exact List.mem_cons_self) (h.fresh he)
    subst hnil
    refine ⟨fun _ => List.not_mem_nil, fun is js hjs => ?_, fun _ => .inr ⟨he, rfl⟩, h.called,
      h.closed⟩
    cases is <;> cases hjs
  | @own _ l a ht halive hst =>
    refine flushing_became (fun hd => ?_) (step_cases hf hst) h
    subst hd
    cases t <;> cases ht
  | exit _ _ => exact ⟨h.fresh, h.last, fun _ => .inl rfl, h.called, h.closed⟩

/-- **What is before a CONNECTION CLOSE, and behind it.** -/
def Closes (s : Session) : Prop :=
  ∀ before after, s.actor.sent = before ++ .connectionClose :: after →
    before.filter (!spoken ·) = s.posted.map Post.wire ∧ ∀ w ∈ after, spoken w = true

/-- No CONNECTION CLOSE has been sent. -/
theorem closes_none (h : .connectionClose ∉ s.actor.sent) : Closes s := by
  intro before after hsent
  rw [hsent] at h
  simp at h

theorem closes_became {l : Label} {a : Actor} (hp : ∀ p, l ≠ .post p)
    (hl : l = .call .destructor → s.phase.late = true) (halive : s.alive = true)
    (hst : Stepped env s.actor l a) (hflow : Flowing s) (h : Flushing s) (hc : Closes s) :
    Closes (s.became a) := by
  intro before after hsent
  obtain ⟨vs, hvs, hspoken⟩ : Speaks s.actor.sent a.sent := by
    rcases stepped_sent hst with hs | ⟨p, rfl, -⟩
    · exact hs
    · exact absurd rfl (hp p)
  have hsent : s.actor.sent ++ vs = before ++ .connectionClose :: after := hvs.symm.trans hsent
  rcases append_split hsent with ⟨ks, hks, rfl⟩ | ⟨ks, rfl, hks⟩
  · obtain ⟨hbefore, hafter⟩ := hc before ks hks
    exact ⟨hbefore, fun w hw => (List.mem_append.1 hw).elim (hafter w) (hspoken w)⟩
  · -- it is sent now: by the destructor, when no message is left
    have hd : l = .call .destructor := by
      by_contra hd
      have hcount := stepped_closes hst hd
      rw [hvs, hks] at hcount
      simp at hcount
    have hnil := h.empty halive (.inr (hl hd))
    have hposted := hflow.posted
    rw [hnil, List.filterMap_nil, List.append_nil] at hposted
    have hks' : ks.filter (!spoken ·) = [] := by
      rw [List.filter_eq_nil_iff]
      intro w hw
      simp [hspoken w (by rw [hks]; exact List.mem_append_left _ hw)]
    refine ⟨?_, fun w hw => hspoken w (by rw [hks]; simp [hw])⟩
    rw [List.filter_append, hks', List.append_nil, hflow.sent, became_posted, hposted]

theorem closes_took (hf : Formed s.actor) (hflow : Flowing s) (h : Flushing s) (hc : Closes s)
    (hs : Took env s t s') : Closes s' := by
  cases hs with
  | call _ _ | connected _ | recv _ _ | destroy _ | told _ _ | termed _ _ | flushed _ _
  | exit _ _ => exact hc
  | post p hp =>
    have he : s.phase.early = true := by rw [hp]; rfl
    exact closes_none ((flushing_early he).1 h).2.2.2
  | read _ hr => cases reads_cases hr <;> exact hc
  | @ran c ks a hks halive hst =>
    have hmem : ∀ k, k ∈ ks → k ∈ s.cmdpipe := fun k hk => hks ▸ List.mem_cons_of_mem _ hk
    have h' : Flushing (s.setCmdpipe ks) :=
      ⟨h.fresh, h.last, h.signalled, fun hc => h.called (hmem _ hc), h.closed⟩
    refine closes_became (s := s.setCmdpipe ks) (fun p hp => by cases hp) (fun hd => h.called ?_)
      halive (step_cases hf hst) ⟨hflow.posted, hflow.sent, hflow.received, hflow.shows⟩ h' hc
    cases hd
    rw [hks]
    exact List.mem_cons_self
  | @sent p is a his halive hst =>
    -- a message is left, so nobody has closed
    refine closes_none fun hm => ?_
    have hm : .connectionClose ∈ a.sent := hm
    have hcount := stepped_closes (step_cases hf hst) (by simp)
    have hnil := h.empty halive (.inr (h.closed (List.count_pos_iff.1 ?_)))
    · rw [his] at hnil
      cases hnil
    · rw [← hcount]
      exact List.count_pos_iff.2 hm
  | @own _ l a ht halive hst =>
    refine closes_became (fun p hp => ?_) (fun hd => ?_) halive (step_cases hf hst) hflow h hc
    · subst hp
      cases t <;> cases ht
    · subst hd
      cases t <;> cases ht

theorem closes_inductive (env : Env) : (session env).Inductive fun s =>
    (Coupled s ∧ Flowing s) ∧ Flushing s ∧ Closes s :=
  (flowing_inductive env).strengthen
    (fun s h => by
      rw [show s = .new from h]
      exact ⟨(flushing_early rfl).2 (by simp [Session.new, Actor.new]),
        closes_none (by simp [Session.new, Actor.new])⟩)
    fun _ _ _ hI _ h hs =>
      ⟨flushing_took hI.1.formed h.1 (session_cases hs),
        closes_took hI.1.formed hI.2 h.1 h.2 (session_cases hs)⟩

/-- **The flush comes before the close.** In every run: when the actor sends CONNECTION CLOSE,
every message the application has posted has been sent before it, in order, and none of its
messages is sent behind it. -/
theorem flushed_before_close (h : (session env).Reachable s) {before after : List Wire}
    (hsent : s.actor.sent = before ++ .connectionClose :: after) :
    before.filter (!spoken ·) = s.posted.map Post.wire ∧
      after.filter (!spoken ·) = [] := by
  obtain ⟨-, -, hc⟩ := (closes_inductive env).reachable s h
  obtain ⟨hbefore, hafter⟩ := hc before after hsent
  refine ⟨hbefore, ?_⟩
  rw [List.filter_eq_nil_iff]
  intro w hw
  simp [hafter w hw]

/-- The actor reads its command pipe as soon as it can. -/
theorem flushed_before_close_leaves : ∃ (s : Session) (before : List Wire),
    (session .lenient).Reachable s ∧ s.actor.sent = before ++ [.connectionClose] ∧
    before.filter (!spoken ·) = [.streamSend (.ofBytes [115]) []] := by
  have h : ((Session.new.steps .lenient (fun _ _ => True)
      (connecting ++ [.post (.streamSend (.ofBytes [115]) []), .destroy, .message, .message,
        .read, .command])).any fun s => s.posted = [.streamSend (.ofBytes [115]) []] ∧
          s.actor.sent.getLast? = some .connectionClose) = true := by decide +kernel
  obtain ⟨s, hs, hP⟩ := (Option.any_eq_true _ _).1 h
  obtain ⟨hposted, hlast⟩ := of_decide_eq_true hP
  obtain ⟨before, hsent⟩ := List.getLast?_eq_some_iff.1 hlast
  obtain ⟨hbefore, -⟩ := flushed_before_close (session_of_steps hs).of_within hsent
  rw [hposted] at hbefore
  exact ⟨s, before, (session_of_steps hs).of_within, hsent, hbefore⟩

end Malamute.L5
