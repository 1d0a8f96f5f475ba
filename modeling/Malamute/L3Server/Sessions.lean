import Malamute.L3Server.Answers
import Malamute.L3Server.Directory
import Malamute.L3Server.Posted
import Malamute.L3Server.Subscriptions

/-!
# What a session comes to

What the broker keeps of an open client is the stream it writes to, its place in
the selectors of the engines, and its offers. All three are what the commands
come to that the client has sent since CONNECTION OPEN (`commands`).

* `holds_written`, `listed_offers`: the selectors and the offers, in terms of
  the commands executed.
* `recited_inductive`: the commands executed for an open client are those it has
  sent.
* `session_writer`, `session_subscribed`, `session_offers`: the three, in every
  reachable state; `session_restored`: the same commands give the same three.
-/
namespace Malamute.L3
open Malamute.Core Malamute.L1 Malamute.L2 Server

/-! ## Commands -/

/-- STREAM READ, STREAM CANCEL and SERVICE OFFER. -/
def stored : Wire → Bool
  | .streamRead _ _ | .streamCancel _ | .serviceOffer _ _ => true
  | _ => false

/-- The commands of a client. -/
def commanding : Wire → Bool
  | .streamWrite _ => true
  | w => stored w

/-- The commands of a session after one more message. -/
def recite (ws : List Wire) (w : Wire) : List Wire :=
  match w with
  | .connectionOpen _ => []
  | w => if commanding w then ws ++ [w] else ws

/-- What client `c` has sent. -/
def Obs.heardFrom (c : Cid) : Obs → Option Wire
  | .received d _ _ w => if d = c then w else none
  | _ => none

/-- What client `c` has sent since its last CONNECTION OPEN, as far as it is
commands. -/
def commands (c : Cid) (t : List Obs) : List Wire := (t.filterMap (Obs.heardFrom c)).foldl recite []

/-- The command that has been executed for `c`. -/
def Obs.executed (c : Cid) : Obs → Option Wire
  | .subscribed d name p => if d = c then some (.streamRead name p) else none
  | .cancelled d name => if d = c then some (.streamCancel name) else none
  | .offered _ name o => if o.client = c then some (.serviceOffer name o.pattern) else none
  | _ => none

/-- The stream that is written to. -/
def writer (ws : List Wire) : Option Str := ws.foldl writeStep none

/-- The streams that are read, each with a pattern. -/
def subscribeStep (ps : List (Str × Str)) : Wire → List (Str × Str)
  | .streamRead name p => ps ++ [(name, p)]
  | .streamCancel name => ps.filter fun x => x.1 ≠ name
  | _ => ps

def subscriptions (ws : List Wire) : List (Str × Str) := ws.foldl subscribeStep []

/-- The pattern offered for the service `name`. -/
def offerFor (name : Str) : Wire → Option Str
  | .serviceOffer n p => if n = name then some p else none
  | _ => none

section
variable {rex : Str → Str → Bool} {s s' : Server} {c d : Cid} {k : Client} {a name p : Str}
  {t : List Obs} {e : Event}

/-! ## What the commands executed come to -/

/-- One observation, as the selectors of a stream see it. -/
theorem holds_issues {sel : List Selector} (hd : Distinct sel) {ps : List (Str × Str)} {o : Obs}
    (hsel : ∀ p, Holds sel c p ↔ (name, p) ∈ ps) (hleft : ∀ readers, o ≠ .left c readers) :
    ∀ p, Holds (runIssues sel (o.issues name)) c p ↔
      (name, p) ∈ (o.executed c).toList.foldl subscribeStep ps := by
  intro p
  cases o with
  | subscribed d n q =>
    by_cases hn : n = name
    · by_cases hc : d = c
      · simp [Obs.issues, Obs.executed, hn, hc, subscribeStep, runCommand, holds_compile, hsel]
      · have hc' : c ≠ d := fun h => hc h.symm
        simp [Obs.issues, Obs.executed, hn, hc, hc', runCommand, holds_compile, hsel]
    · have hn' : name ≠ n := fun h => hn h.symm
      by_cases hc : d = c
      · simp [Obs.issues, Obs.executed, hn, hn', hc, subscribeStep, hsel]
      · simp [Obs.issues, Obs.executed, hn, hc, hsel]
  | cancelled d n =>
    by_cases hn : n = name
    · by_cases hc : d = c
      · simp [Obs.issues, Obs.executed, hn, hc, subscribeStep, runCommand, holds_cancel hd]
      · have hc' : c ≠ d := fun h => hc h.symm
        simp [Obs.issues, Obs.executed, hn, hc, hc', runCommand, holds_cancel hd, hsel]
    · have hn' : name ≠ n := fun h => hn h.symm
      by_cases hc : d = c
      · simp [Obs.issues, Obs.executed, hn, hn', hc, subscribeStep, hsel]
      · simp [Obs.issues, Obs.executed, hn, hc, hsel]
  | left d readers =>
    have hne : c ∉ clients (Obs.issues name (.left d readers)) := by
      intro hmem
      obtain ⟨i, hi, hc⟩ := List.mem_filterMap.1 hmem
      obtain ⟨-, -, rfl⟩ := List.mem_map.1 hi
      cases hc
      exact hleft readers rfl
    rw [holds_runIssues_ne hd hne]
    exact hsel p
  | published d n m => by_cases hn : n = name <;> simp [Obs.issues, Obs.executed, hn, hsel]
  | offered d n o => by_cases hc : o.client = c <;>
      simp [Obs.issues, Obs.executed, hc, subscribeStep, hsel]
  | _ => exact hsel p

/-- **The selectors of a stream list a client that has not left for the patterns
of its commands.** -/
theorem holds_written (hleft : ∀ readers, .left c readers ∉ t) (p : Str) :
    Holds (runIssues [] (written name t)) c p ↔
      (name, p) ∈ subscriptions (t.filterMap (Obs.executed c)) := by
  suffices h : ∀ sel ps, Distinct sel → (∀ p, Holds sel c p ↔ (name, p) ∈ ps) →
      (Holds (runIssues sel (written name t)) c p ↔
        (name, p) ∈ (t.filterMap (Obs.executed c)).foldl subscribeStep ps) by
    exact h [] [] distinct_nil (by simp)
  induction t with
  | nil => exact fun sel ps _ hsel => hsel p
  | cons o t ih =>
    intro sel ps hd hsel
    have ho : ∀ readers, o ≠ .left c readers := fun readers h =>
      hleft readers (by rw [h]; exact List.mem_cons_self)
    have ht := ih (fun readers h => hleft readers (List.mem_cons_of_mem _ h))
      (runIssues sel (o.issues name)) ((o.executed c).toList.foldl subscribeStep ps)
      (distinct_runIssues hd _) (holds_issues hd hsel ho)
    rw [written_cons, runIssues_append, ht]
    cases he : o.executed c <;> simp [he]

/-- **The offers of a client that has not left are those of its commands.** -/
theorem listed_offers (hleft : ∀ readers, .left c readers ∉ t) (name : Str) :
    ((listed name t).filter fun o => o.client = c).map (·.pattern) =
      (t.filterMap (Obs.executed c)).filterMap (offerFor name) := by
  suffices h : ∀ os, ((t.foldl (listStep name) os).filter fun o => o.client = c).map (·.pattern) =
      ((os.filter fun o => o.client = c).map (·.pattern)) ++
        (t.filterMap (Obs.executed c)).filterMap (offerFor name) by
    exact h []
  induction t with
  | nil => simp
  | cons o t ih =>
    intro os
    have ht := ih (fun readers h => hleft readers (List.mem_cons_of_mem _ h)) (listStep name os o)
    -- an observation that is no offer of `c` adds nothing
    have hnone : (∀ w, o.executed c = some w → offerFor name w = none) →
        (t.filterMap (Obs.executed c)).filterMap (offerFor name) =
          ((o :: t).filterMap (Obs.executed c)).filterMap (offerFor name) := by
      intro he
      cases hx : o.executed c with
      | none => rw [List.filterMap_cons_none hx]
      | some w => rw [List.filterMap_cons_some hx, List.filterMap_cons_none (he w hx)]
    rw [List.foldl_cons, ht]
    cases o with
    | offered d n x =>
      by_cases hn : n = name <;> by_cases hc : x.client = c <;>
        simp [listStep, Obs.executed, offerFor, hn, hc]
    | left d readers =>
      have hne : d ≠ c := by
        rintro rfl
        exact hleft readers List.mem_cons_self
      have hfilter : (os.filter fun o => o.client ≠ d).filter (fun o => o.client = c) =
          os.filter fun o => o.client = c := by
        rw [List.filter_filter]
        refine List.filter_congr fun o _ => ?_
        by_cases hc : o.client = c
        · have hc' : c ≠ d := fun h => hne h.symm
          simp [hc, hc']
        · simp [hc]
      have hlist : listStep name os (.left d readers) = os.filter fun o => o.client ≠ d := rfl
      have hleaves : ∀ w, (Obs.left d readers).executed c = some w → offerFor name w = none := by
        intro w h
        cases h
      rw [hlist, hfilter, hnone hleaves]
    | subscribed d n q =>
      refine congrArg _ (hnone fun w h => ?_)
      by_cases hc : d = c
      · simp only [Obs.executed, hc, if_true, Option.some.injEq] at h
        rw [← h]
        rfl
      · simp [Obs.executed, hc] at h
    | cancelled d n =>
      refine congrArg _ (hnone fun w h => ?_)
      by_cases hc : d = c
      · simp only [Obs.executed, hc, if_true, Option.some.injEq] at h
        rw [← h]
        rfl
      · simp [Obs.executed, hc] at h
    | _ =>
      refine congrArg _ (hnone ?_)
      intro w h
      cases h

/-! ## What the trace says of one client -/

/-- The observation is neither a message of `c` nor a command executed for it. -/
def Obs.Silent (c : Cid) (o : Obs) : Prop := o.executed c = none ∧ o.heardFrom c = none

/-- The trace has grown by the commands `ws` of `c`, executed, and by no message
of `c`. -/
def Adds (c : Cid) (ws : List Wire) (s s' : Server) : Prop :=
  ∃ t, s'.trace = s.trace ++ t ∧ t.filterMap (Obs.executed c) = ws ∧
    t.filterMap (Obs.heardFrom c) = []

theorem relayed_silent (c : Cid) : Relayed (Obs.Silent c) where
  event _ _ := ⟨rfl, rfl⟩
  delivered _ _ _ _ _ _ _ := ⟨rfl, rfl⟩
  mailed _ _ := ⟨rfl, rfl⟩
  requested _ _ := ⟨rfl, rfl⟩
  dispatched _ _ _ _ := ⟨rfl, rfl⟩
  dropped _ _ := ⟨rfl, rfl⟩

theorem adds_silent (h : Grows (Obs.Silent c) s s') : Adds c [] s s' := by
  obtain ⟨t, ht, hsil⟩ := h
  exact ⟨t, ht, List.filterMap_eq_nil_iff.2 fun o ho => (hsil o ho).1,
    List.filterMap_eq_nil_iff.2 fun o ho => (hsil o ho).2⟩

theorem Adds.trans {s₁ : Server} {ws ws' : List Wire} (h : Adds c ws s s₁)
    (h' : Adds c ws' s₁ s') : Adds c (ws ++ ws') s s' := by
  obtain ⟨t, ht, he, hh⟩ := h
  obtain ⟨t', ht', he', hh'⟩ := h'
  refine ⟨t ++ t', by rw [ht', ht, List.append_assoc], ?_, ?_⟩
  · rw [List.filterMap_append, he, he']
  · rw [List.filterMap_append, hh, hh']
    rfl

/-- One command is executed. -/
theorem adds_one {o : Obs} {w : Wire} (ht : s'.trace = s.trace ++ [o])
    (he : o.executed c = some w) (hh : o.heardFrom c = none) : Adds c [w] s s' :=
  ⟨[o], ht, by rw [List.filterMap_cons_some he]; rfl, by rw [List.filterMap_cons_none hh]; rfl⟩

/-- **An event that is no command of `c`** adds nothing. -/
theorem silent_handled (h : Handled rex s d e s')
    (hc : c = d → ∀ w k a, e.command s.message = some w → ¬Open s d k a) :
    Grows (Obs.Silent c) s s' := by
  -- a command is one of another client
  have hne : ∀ {w : Wire}, e.command s.message = some w → (∃ k a, Open s d k a) → d ≠ c := by
    rintro w he ⟨k, a, ho⟩ hd
    exact hc hd.symm w k a he ho
  refine (follows_handled h).mono fun o ho => ?_
  cases o with
  | received _ _ _ _ => exact ho.elim
  | subscribed d' name p =>
    obtain ⟨rfl, he, hopen⟩ := ho
    exact ⟨if_neg (hne he hopen), rfl⟩
  | cancelled d' name =>
    obtain ⟨rfl, he, hopen⟩ := ho
    exact ⟨if_neg (hne he hopen), rfl⟩
  | offered d' name x =>
    obtain ⟨rfl, he, hopen⟩ := ho
    exact ⟨if_neg (hne he hopen), rfl⟩
  | _ => exact ⟨rfl, rfl⟩

/-- **A command of an open client** is executed. -/
theorem adds_handled {w : Wire} (h : Handled rex s c e s') (ho : Open s c k a)
    (he : e.command s.message = some w) : Adds c ([w].filter stored) s s' := by
  have henter : Adds c [] s (s.enter c e) := adds_silent (grows_one rfl ⟨rfl, rfl⟩)
  have hanswer : ∀ {u : Server} {ws : List Wire} (k : Client) (id : Id), Adds c ws s u →
      Adds c ws s (u.answer c k id) := by
    intro u ws k id hu
    have hsent : Adds c [] u (u.answer c k id) := adds_silent (grows_one rfl ⟨rfl, rfl⟩)
    have h := hu.trans hsent
    rwa [List.append_nil] at h
  have hstart : ∀ {j : Client}, s.ctx c = some j → j.state = .start → False := by
    intro j hj hs
    cases (ho.connected_of hj).symm.trans hs
  cases h with
  | wrote _ =>
    cases he
    exact hanswer _ _ (henter.trans (adds_silent (grows_same rfl)))
  | read _ =>
    cases he
    exact hanswer _ _ (henter.trans (adds_one (o := .subscribed c s.message.stream
      s.message.pattern) rfl (if_pos rfl) rfl))
  | cancelled _ =>
    cases he
    exact hanswer _ _ (henter.trans (adds_one (o := .cancelled c s.message.stream) rfl
      (if_pos rfl) rfl))
  | @offered k a s₁ _ _ hs₁ hscan =>
    cases he
    subst hs₁
    have hoffer : Adds c [.serviceOffer s.message.address s.message.pattern] s
        ((s.enter c .serviceOffer).offering c k) := by
      refine hanswer (u := _) k .ok (henter.trans (adds_one (o := .offered c s.message.address
        ⟨s.offerId, s.message.pattern, c⟩) rfl (if_pos rfl) rfl))
    have hrest := (relayed_silent c).scan hscan
    generalize (s.enter c .serviceOffer).offering c k = s₁ at hoffer hrest
    have h := hoffer.trans (adds_silent (.trans (grows_same rfl) hrest))
    rwa [List.append_nil] at h
  | opened hk hs _ _ => exact (hstart hk hs).elim
  | unopened hk hs _ => exact (hstart hk hs).elim
  | invalid _ hconn =>
    cases e <;> simp only [Event.command, reduceCtorEq] at he <;> simp [connectedState] at hconn
  | _ => cases he

theorem handled_clientId (h : Handled rex s c e s') : s'.clientId = s.clientId := by
  cases h with
  | @opened k s₁ _ _ _ hev hd =>
    have hreg : (s₁.register c k s.message.address).clientId = s₁.clientId := by
      rw [register_eq]
    rw [(drain_same hd).clientId, hreg]
    cases hev <;> rfl
  | mailed _ hm => exact (mailed_same hm).clientId
  | requested _ hm => exact (requested_same hm).clientId
  | @offered k a s₁ _ _ hs₁ hscan =>
    have hid : s₁.clientId = s.clientId := by rw [hs₁]; rfl
    exact (scan_same hscan).clientId.trans hid
  | _ => rfl

/-! ## Messages -/

/-- What the message object stands for, by its event. -/
theorem wire_command {p : Proto} {w : Wire} (h : (protocolEvent p).command p = some w) :
    p.wire = some w ∧ commanding w = true := by
  unfold protocolEvent at h
  unfold Proto.wire
  split at h <;> simp only [Event.command, reduceCtorEq, Option.some.injEq] at h
  all_goals
    rename_i hid
    subst h
    simp [hid, commanding, stored]

theorem wire_open {p : Proto} (h : protocolEvent p = .connectionOpen) :
    ∃ a, p.wire = some (.connectionOpen a) := by
  unfold protocolEvent at h
  split at h <;> cases h
  rename_i hid
  exact ⟨p.address, by simp [Proto.wire, hid]⟩

/-- A message that is neither a command nor CONNECTION OPEN. -/
theorem recite_other {p : Proto} {w : Wire} (h : (protocolEvent p).command p = none)
    (hopen : protocolEvent p ≠ .connectionOpen) (hw : p.wire = some w) (ws : List Wire) :
    recite ws w = ws := by
  unfold Proto.wire at hw
  obtain ⟨i, hid, rfl⟩ := Option.map_eq_some_iff.1 hw
  unfold protocolEvent at h hopen
  rw [hid] at h hopen
  cases i <;> first | rfl | exact absurd rfl hopen | cases h

theorem recite_command {w : Wire} (h : commanding w = true) (ws : List Wire) :
    recite ws w = ws ++ [w] := by
  cases w <;> first | rfl | cases h

theorem commands_append (c : Cid) (t t' : List Obs) :
    commands c (t ++ t') = (t'.filterMap (Obs.heardFrom c)).foldl recite (commands c t) := by
  simp [commands, List.filterMap_append, List.foldl_append]

theorem Adds.commands {ws : List Wire} (h : Adds c ws s s') :
    commands c s'.trace = commands c s.trace := by
  obtain ⟨t, ht, -, hh⟩ := h
  rw [ht, commands_append, hh]
  rfl

theorem Adds.executed {ws : List Wire} (h : Adds c ws s s') :
    s'.trace.filterMap (Obs.executed c) = s.trace.filterMap (Obs.executed c) ++ ws := by
  obtain ⟨t, ht, he, -⟩ := h
  rw [ht, List.filterMap_append, he]

theorem Adds.silent (h : Adds c [] s s') {o : Obs} (ho : o ∈ s'.trace) :
    o ∈ s.trace ∨ o.Silent c := by
  obtain ⟨t, ht, he, hh⟩ := h
  rw [ht] at ho
  refine (List.mem_append.1 ho).imp id fun ho => ⟨?_, ?_⟩
  · exact List.filterMap_eq_nil_iff.1 he o ho
  · exact List.filterMap_eq_nil_iff.1 hh o ho

/-! ## What the trace says agrees with the contexts -/

structure Recited (s : Server) : Prop where
  fresh : ∀ c, s.clientId ≤ c → ∀ o ∈ s.trace, o.Silent c
  start : ∀ c k, s.ctx c = some k → k.state = .start → s.trace.filterMap (Obs.executed c) = []
  opened : ∀ c k, s.ctx c = some k → k.state = .connected →
    s.trace.filterMap (Obs.executed c) = (commands c s.trace).filter stored ∧
      k.writer = writer (commands c s.trace)

theorem recited_new : Recited .new where
  fresh _ _ _ h := by cases h
  start _ _ h := by cases h
  opened _ _ h := by cases h

/-- A step without messages and commands, in which contexts at most change what
is not theirs to say. -/
theorem Recited.stay (h : Recited s) (hsil : ∀ c, Adds c [] s s')
    (hid : s.clientId ≤ s'.clientId)
    (hctx : ∀ c k', s'.ctx c = some k' → k'.state ≠ .zombie →
      (s.clientId ≤ c ∧ k'.state = .start) ∨
        ∃ k, s.ctx c = some k ∧ k.state = k'.state ∧ k.writer = k'.writer) : Recited s' where
  fresh c hc o ho := by
    rcases (hsil c).silent ho with ho | ho
    · exact h.fresh c (Nat.le_trans hid hc) o ho
    · exact ho
  start c k' hk' hs := by
    rw [(hsil c).executed, List.append_nil]
    rcases hctx c k' hk' (by rw [hs]; simp) with ⟨hc, -⟩ | ⟨k, hk, hst, -⟩
    · exact List.filterMap_eq_nil_iff.2 fun o ho => (h.fresh c hc o ho).1
    · exact h.start c k hk (hst.trans hs)
  opened c k' hk' hs := by
    rw [(hsil c).executed, List.append_nil, (hsil c).commands]
    rcases hctx c k' hk' (by rw [hs]; simp) with ⟨-, hst⟩ | ⟨k, hk, hst, hw⟩
    · cases hst.symm.trans hs
    · obtain ⟨he, hwr⟩ := h.opened c k hk (hst.trans hs)
      exact ⟨he, hw.symm.trans hwr⟩

theorem Recited.same (h : Recited s) (ht : s'.trace = s.trace) (hctx : s'.ctx = s.ctx)
    (hid : s'.clientId = s.clientId) : Recited s' := by
  refine h.stay (fun c => adds_silent (grows_same ht)) (Nat.le_of_eq hid.symm) ?_
  intro c k' hk' _
  exact .inr ⟨k', by rw [← hctx]; exact hk', rfl, rfl⟩

/-- An event that is no command. -/
theorem recited_expired (h : Recited s) (hh : Handled rex s d .expired s') : Recited s' := by
  refine h.stay (fun c => adds_silent (silent_handled hh fun _ w k a he => nomatch he))
    (Nat.le_of_eq (handled_clientId hh).symm) fun c k' hk' hz => ?_
  cases before_handled hh hk' hz with
  | kept hk hs _ hw _ => exact .inr ⟨_, hk, hs, hw⟩
  | commanded _ _ _ _ _ he _ => cases he
  | opened _ he _ _ _ _ _ => cases he

/-- **A message is read and handled.** -/
theorem recited_message {p : Proto} {frames : List Frame} {j : Client} (h : Recited s)
    (hr : Reg (s.hear d frames p)) (hj : s.ctx d = some j) (hp : s.message = p)
    (hh : Handled rex (s.hear d frames p) d (protocolEvent p) s') : Recited s' := by
  have hmsg : (s.hear d frames p).message = p := hp
  have htrace : (s.hear d frames p).trace =
      s.trace ++ [.received d ((s.ctx d).bind (·.address)) frames p.wire] := rfl
  have hexec : ∀ c, (s.hear d frames p).trace.filterMap (Obs.executed c) =
      s.trace.filterMap (Obs.executed c) := by
    intro c
    rw [htrace, List.filterMap_append]
    exact List.append_nil _
  -- the message is one more of `d`, and none of the others
  have hother : ∀ c, c ≠ d → commands c (s.hear d frames p).trace = commands c s.trace := by
    intro c hc
    have hnone : Obs.heardFrom c (.received d ((s.ctx d).bind (·.address)) frames p.wire) = none :=
      if_neg fun h => hc h.symm
    rw [htrace, commands_append, List.filterMap_cons_none hnone]
    rfl
  have hself : ∀ w, p.wire = some w →
      commands d (s.hear d frames p).trace = recite (commands d s.trace) w := by
    intro w hw
    have hsome : Obs.heardFrom d (.received d ((s.ctx d).bind (·.address)) frames p.wire) =
        some w := (if_pos rfl).trans hw
    rw [htrace, commands_append, List.filterMap_cons_some hsome]
    rfl
  have hkeep : (protocolEvent p).command p = none ∧ protocolEvent p ≠ .connectionOpen →
      commands d (s.hear d frames p).trace = commands d s.trace := by
    intro he
    cases hw : p.wire with
    | none =>
      have hnone : Obs.heardFrom d (.received d ((s.ctx d).bind (·.address)) frames p.wire) =
          none := (if_pos rfl).trans hw
      rw [htrace, commands_append, List.filterMap_cons_none hnone]
      rfl
    | some w => rw [hself w hw, recite_other he.1 he.2 hw]
  refine ⟨fun c hc o ho => ?_, fun c k hk hs => ?_, fun c k hk hs => ?_⟩
  · -- a client that does not exist yet
    rw [handled_clientId hh] at hc
    have hne : c ≠ d := by
      rintro rfl
      exact absurd (hr.fresh c j hj) (Nat.not_lt.2 hc)
    have hadd : Adds c [] (s.hear d frames p) s' :=
      adds_silent (silent_handled hh fun h => absurd h hne)
    rcases hadd.silent ho with ho | ho
    · rw [htrace] at ho
      rcases List.mem_append.1 ho with ho | ho
      · exact h.fresh c hc o ho
      · rw [List.mem_singleton.1 ho]
        exact ⟨rfl, if_neg fun h => hne h.symm⟩
    · exact ho
  · -- a client that has not opened its connection
    have hstart : (s.hear d frames p).ctx c = some k ∨ ∃ k₀, (s.hear d frames p).ctx c = some k₀ ∧
        k₀.state = .start := by
      cases before_handled hh hk (by rw [hs]; simp) with
      | kept hk₀ hs₀ _ _ _ => exact .inr ⟨_, hk₀, hs₀.trans hs⟩
      | commanded _ _ hs₀ hs' _ _ _ => cases (hs₀.symm.trans hs').trans hs
      | opened _ _ _ _ hs' _ _ => cases hs'.symm.trans hs
    obtain ⟨k₀, hk₀, hs₀⟩ : ∃ k₀, (s.hear d frames p).ctx c = some k₀ ∧ k₀.state = .start :=
      hstart.elim (fun h => ⟨k, h, hs⟩) id
    have hadd : Adds c [] (s.hear d frames p) s' := by
      refine adds_silent (silent_handled hh ?_)
      rintro rfl w k' a - ho
      cases (ho.connected_of hk₀).symm.trans hs₀
    rw [hadd.executed, List.append_nil, hexec]
    exact h.start c k₀ hk₀ hs₀
  · cases before_handled hh hk (by rw [hs]; simp) with
    | kept hk₀ hs₀ _ hw₀ hne =>
      obtain ⟨he, hwr⟩ := h.opened c _ hk₀ (hs₀.trans hs)
      have hadd : Adds c [] (s.hear d frames p) s' := by
        refine adds_silent (silent_handled hh fun hcd w k' a hw _ => ?_)
        rw [(hne hcd hs).1] at hw
        cases hw
      have hcommands : commands c (s.hear d frames p).trace = commands c s.trace := by
        by_cases hcd : c = d
        · have hnone := hne hcd hs
          rw [hmsg] at hnone
          rw [hcd]
          exact hkeep hnone
        · exact hother c hcd
      rw [hadd.executed, List.append_nil, hexec, hadd.commands, hcommands]
      exact ⟨he, hw₀.symm.trans hwr⟩
    | @commanded k₀ w hcd hk₀ hs₀ _ _ he hw₀ =>
      subst hcd
      obtain ⟨hex, hwr⟩ := h.opened c _ hk₀ hs₀
      obtain ⟨a, ho⟩ := hr.open_of hk₀ hs₀
      have hadd := adds_handled hh ho he
      rw [hmsg] at he
      obtain ⟨hwire, hcom⟩ := wire_command he
      rw [hadd.executed, hexec, hadd.commands, hself w hwire, recite_command hcom, hex, hw₀, hwr]
      refine ⟨(List.filter_append ..).symm, ?_⟩
      simp [writer]
    | opened hcd he hk₀ hs₀ _ _ hw₀ =>
      subst hcd
      have hadd : Adds c [] (s.hear c frames p) s' := by
        refine adds_silent (silent_handled hh fun _ w k' a hw _ => ?_)
        rw [he] at hw
        cases hw
      obtain ⟨a, hwire⟩ := wire_open he
      rw [hadd.executed, List.append_nil, hexec, hadd.commands, hself _ hwire,
        h.start c _ hk₀ hs₀, ← hw₀]
      exact ⟨rfl, (hr.start_of hk₀ hs₀).1.writer⟩

theorem recited_clientRequire (h : Recited s) {key : Key} {s₁ : Server}
    (hreq : s.clientRequire key = (c, s₁)) : Recited s₁ := by
  rcases clientRequire_cases hreq with ⟨-, rfl⟩ | ⟨-, -, rfl⟩
  · exact h
  · refine h.stay (fun c => adds_silent (grows_same rfl)) (Nat.le_succ _) fun d k' hk' _ => ?_
    rw [clientNew_eq] at hk'
    by_cases hd : d = s.clientId
    · rw [hd] at hk' ⊢
      simp only [Function.update_self, Option.some.injEq] at hk'
      exact .inl ⟨Nat.le_refl _, by rw [← hk']; rfl⟩
    · simp only [Function.update_of_ne hd] at hk'
      exact .inr ⟨k', hk', rfl, rfl⟩

theorem recited_received {parts : List Frame} (hr : Reg s) (h : Recited s)
    (hrecv : Received rex s parts s') : Recited s' := by
  have hin : ∀ p rest, Recited (s.received p rest) := fun p rest => h.same rfl rfl rfl
  cases hrecv with
  | @interrupted p rest _ => exact (hin p rest).same rfl rfl rfl
  | @ignored p rest _ => exact recited_clientRequire (hin p rest) rfl
  | @handled p rest c s₁ _ _ hreq hh =>
    obtain ⟨hr₁, j, hj, -⟩ := reg_clientRequire (reg_received hr p rest) hreq
    have hmsg : s₁.message = p := by
      rcases clientRequire_cases hreq with ⟨-, rfl⟩ | ⟨-, -, rfl⟩ <;> rfl
    exact recited_message (recited_clientRequire (hin p rest) hreq) (reg_hear hr₁ ..) hj hmsg hh

theorem recited_put (h : Recited s) (hk : s.ctx c = some k) : Recited (s.put c k) := by
  have hid : (s.put c k).clientId = s.clientId := by
    unfold Server.put
    split <;> rfl
  refine h.stay (fun d => adds_silent (grows_same (put_trace ..))) (Nat.le_of_eq hid.symm) ?_
  intro d k' hk' _
  refine .inr ?_
  unfold Server.put at hk'
  by_cases hd : d = c
  · subst hd
    split at hk'
    · simp [freeClient] at hk'
    · simp only [setClient_ctx, Function.update_self, Option.some.injEq] at hk'
      subst hk'
      exact ⟨k, hk, rfl, rfl⟩
  · have hkeep : s.ctx d = some k' := by
      split at hk'
      · simpa [freeClient, Function.update_of_ne hd] using hk'
      · simpa [Function.update_of_ne hd] using hk'
    exact ⟨k', hkeep, rfl, rfl⟩

theorem recited_moved {l : Label} (hr : Reg s) (h : Recited s) (hm : Moved rex s l s') :
    Recited s' := by
  have hpop : ∀ name st up, Recited (s.popStream name st up) := fun name st up =>
    h.same rfl rfl rfl
  -- the trace grows by nothing that is about messages and commands of clients
  have hgrow : ∀ {s₁ : Server}, Recited s₁ → (∀ c, Grows (Obs.Silent c) s₁ s') →
      s'.ctx = s₁.ctx → s'.clientId = s₁.clientId → Recited s' := by
    intro s₁ h₁ hsil hctx hid
    refine h₁.stay (fun c => adds_silent (hsil c)) (Nat.le_of_eq hid.symm) fun c k' hk' _ => ?_
    exact .inr ⟨k', by rw [← hctx]; exact hk', rfl, rfl⟩
  cases hm with
  | router _ _ hrecv => exact recited_received hr h hrecv
  | more _ hrecv => exact recited_received hr h hrecv
  | expired _ _ _ hh => exact recited_expired h hh
  | @acked name st c up k _ _ _ hk => exact recited_put (hpop name st up) hk
  | @discarded name st c m up k _ _ _ _ _ => exact (hpop name st up).same rfl rfl rfl
  | @delivered name st c m up k a _ _ _ _ =>
    exact hgrow (hpop name st up)
      (fun d => (relayed_silent d).deliver _ c k .streamMessage m (.inl rfl)) rfl rfl
  | command _ _ => exact h.same rfl rfl rfl
  | @message name st st' m targets _ _ =>
    exact hgrow h (fun d => grows_one (o := .forwarded name m targets) rfl ⟨rfl, rfl⟩) rfl rfl
  | mailbox _ hread =>
    have hsame := (mailboxRead_only hread).same
    exact hgrow h (fun d => (mailboxRead_only hread).grows (relayed_silent d).dropped) hsame.ctx
      hsame.clientId
  | @configured service mailbox s₁ _ hreads =>
    have hsame := (mailboxReads_only hreads).same
    have hcfg : Recited { s with serviceCfg := service } := h.same rfl rfl rfl
    exact hgrow hcfg (fun d => (mailboxReads_only hreads).grows (relayed_silent d).dropped)
      hsame.ctx hsame.clientId

theorem recited_inductive (rex : Str → Str → Bool) :
    (broker rex).Inductive fun s => Regular s ∧ Recited s := by
  refine (regular_inductive rex).strengthen (Q := Recited) ?_ ?_
  · rintro s rfl
    exact recited_new
  · intro s l s' hr _ h hstep
    exact recited_moved hr.reg h (moved_of_step hr.reg hr.wired hstep)

/-! ## The selectors of the engines -/

/-- The engines come to what the server has written to them, in whatever order
they read. -/
theorem final_inductive (rex : Str → Str → Bool) : (broker rex).Inductive fun s =>
    Regular s ∧ ∀ name, (s.stream name).final = runIssues [] (written name s.trace) := by
  refine (regular_inductive rex).strengthen
    (Q := fun s => ∀ name, (s.stream name).final = runIssues [] (written name s.trace)) ?_ ?_
  · rintro s rfl name
    rfl
  · intro s l s' hr _ h hstep name
    have hm := moved_of_step hr.reg hr.wired hstep
    cases hl : l.engine with
    | false =>
      obtain ⟨t, ht, -, hst, -, -⟩ := (wrote_moved hr.wired hm hl).grows
      rw [ht, written_append, runIssues_append, ← h, Stream.final, Stream.final, (hst name).1,
        (hst name).2, runIssues_append]
    | true =>
      cases hm with
      | @command name' st st' hst hcmd =>
        have hset : (s.setStreams (s.streams.set name' st')).streams = s.streams.set name' st' := rfl
        rw [stream_of_set hset]
        by_cases hn : name = name'
        · rw [if_pos hn, Stream.final_handleCommand hcmd, ← stream_of_get hst, ← hn]
          exact h name
        · rw [if_neg hn]
          exact h name
      | @message name' st st' m targets hst hmsg =>
        have hset : ((((s.setStreams (s.streams.set name' st')).linkTimes m targets.length).unlink
            m).log (.forwarded name' m targets)).streams = s.streams.set name' st' := rfl
        have hwritten : written name (s.trace ++ [.forwarded name' m targets]) =
            written name s.trace := by
          rw [written_append]
          exact List.append_nil _
        rw [stream_of_set hset]
        refine Eq.trans ?_ (congrArg (runIssues []) hwritten.symm)
        by_cases hn : name = name'
        · rw [if_pos hn, Stream.final_handleMessage hmsg, ← stream_of_get hst, ← hn]
          exact h name
        · rw [if_neg hn]
          exact h name
      | _ => cases hl

/-! ## Sessions -/

/-- Client `c` is open, and the commands of its session are `ws`. -/
structure Session (s : Server) (c : Cid) (ws : List Wire) : Prop where
  connected : ∃ k, Connected s c k
  commands : commands c s.trace = ws

/-- The stream that `c` writes to. -/
def writesTo (s : Server) (c : Cid) : Option Str := (s.ctx c).bind (·.writer)

/-- `c` is listed for pattern `p` by the engine of `name`, when it has read the
commands written to it. -/
def Subscribed (s : Server) (c : Cid) (name p : Str) : Prop := Holds (s.stream name).final c p

/-- The patterns that `c` offers for the service `name`. -/
def offersOf (s : Server) (c : Cid) (name : Str) : List Str :=
  ((s.service name).offers.items.filter fun o => o.client = c).map (·.pattern)

section
variable {ws : List Wire}

/-- A client that is open has not left. -/
theorem session_stays (h : (broker rex).Reachable s) (hs : Session s c ws) :
    ∀ readers, .left c readers ∉ s.trace := by
  intro readers hleft
  obtain ⟨k, hk⟩ := hs.connected
  have hz := (((recorded_inductive rex).reachable s h).2.left c readers hleft).2 k hk.ctx
  cases hz.symm.trans hk.state

theorem session_executed (h : (broker rex).Reachable s) (hs : Session s c ws) :
    s.trace.filterMap (Obs.executed c) = ws.filter stored := by
  obtain ⟨k, hk⟩ := hs.connected
  rw [← hs.commands]
  exact (((recited_inductive rex).reachable s h).2.opened c k hk.ctx hk.state).1

/-- **The stream a client writes to is that of its last STREAM WRITE.** -/
theorem session_writer (h : (broker rex).Reachable s) (hs : Session s c ws) :
    writesTo s c = writer ws := by
  obtain ⟨k, hk⟩ := hs.connected
  rw [writesTo, hk.ctx, ← hs.commands]
  exact (((recited_inductive rex).reachable s h).2.opened c k hk.ctx hk.state).2

/-- **The selectors list a client for what its STREAM READs and STREAM CANCELs
come to.** -/
theorem session_subscribed (h : (broker rex).Reachable s) (hs : Session s c ws) (name p : Str) :
    Subscribed s c name p ↔ (name, p) ∈ subscriptions (ws.filter stored) := by
  rw [Subscribed, ((final_inductive rex).reachable s h).2 name,
    holds_written (session_stays h hs), session_executed h hs]

/-- **The offers of a client are those of its SERVICE OFFERs**; their order is how
the server shares the work. -/
theorem session_offers (h : (broker rex).Reachable s) (hs : Session s c ws) (name : Str) :
    (offersOf s c name).Perm ((ws.filter stored).filterMap (offerFor name)) := by
  have hserved := (((posted_inductive rex).reachable s h).2).served.listed name
  have hperm := (hserved.filter fun o => o.client = c).map (·.pattern)
  rw [listed_offers (session_stays h hs), session_executed h hs] at hperm
  exact hperm

/-- What broker `s'` holds for its client `d` is what `s` holds for `c`: the stream it
writes to, its subscriptions, and its offers. -/
structure Restored (s : Server) (c : Cid) (s' : Server) (d : Cid) : Prop where
  writes : writesTo s' d = writesTo s c
  subscribed : ∀ name p, Subscribed s' d name p ↔ Subscribed s c name p
  offers : ∀ name, (offersOf s' d name).Perm (offersOf s c name)

/-- **The same commands give the same session**, on any broker and whatever else
it has seen. -/
theorem session_restored (h : (broker rex).Reachable s) (h' : (broker rex).Reachable s')
    (hs : Session s c ws) (hs' : Session s' d ws) : Restored s c s' d where
  writes := (session_writer h' hs').trans (session_writer h hs).symm
  subscribed name p :=
    (session_subscribed h' hs' name p).trans (session_subscribed h hs name p).symm
  offers name := (session_offers h' hs' name).trans (session_offers h hs name).symm

end
end
end Malamute.L3
