import Malamute.L3Server.Written
import Malamute.L2Engine.Release

/-!
# Confirmed subscriptions

A reader gets its OK when its command has been written to the command pipe.
The engine may read a message that was written later before the command, so
the OK promises nothing by itself.

* `Timely`: the step is not one of an engine that reads an item past others
  that make a difference to who gets a message.
* `followed_inductive`: in a run of such steps each engine forwards what it
  would forward if it read in the order of writing.
* `effective_of_timely`: then a message goes to those who were confirmed as
  readers before it was sent, and not to those who were confirmed to have
  cancelled.
* `overtaken`: a run in which neither is so.
-/
namespace Malamute.L3
open Malamute.Core Malamute.L1 Malamute.L2 Server

/-- What the engine of `name` has forwarded. -/
def forwardedOn (name : Str) (t : List Obs) : List (Msg × List Cid) :=
  t.filterMap fun
  | .forwarded n m targets => if n = name then some (m, targets) else none
  | _ => none

/-- An engine does not read past what makes a difference. -/
def Timely (rex : Str → Str → Bool) (s : Server) : Label → Prop
  | .command name => (s.stream name).CommandTimely rex
  | .message name => (s.stream name).MessageTimely rex
  | _ => True

instance (rex : Str → Str → Bool) (s : Server) : (l : Label) → Decidable (Timely rex s l)
  | .command name => inferInstanceAs (Decidable ((s.stream name).CommandTimely rex))
  | .message name => inferInstanceAs (Decidable ((s.stream name).MessageTimely rex))
  | .router _ _ | .more | .expired _ | .traffic _ | .mailbox | .configure _ _ => .isTrue trivial

/-- `c` is a reader of `name` with pattern `p` at the end of `t`: it has sent a
STREAM READ, and after that no STREAM CANCEL, and has not left. -/
def Reads (t : List Obs) (c : Cid) (name p : Str) : Prop :=
  ∃ t₁ t₂, t = t₁ ++ .subscribed c name p :: t₂ ∧ .cancelled c name ∉ t₂ ∧
    ∀ readers, .left c readers ∉ t₂

/-- `c` has cancelled `name`, and has not sent a STREAM READ for it since. -/
def Stopped (t : List Obs) (c : Cid) (name : Str) : Prop :=
  ∃ t₁ t₂, t = t₁ ++ .cancelled c name :: t₂ ∧ ∀ p, .subscribed c name p ∉ t₂

/-- Each engine is as if it had read everything that was written to it, except
for what is still in its pipes, in order. -/
structure Followed (rex : Str → Str → Bool) (s : Server) : Prop where
  final : ∀ name, (s.stream name).final = runIssues [] (written name s.trace)
  order : ∀ name, List.Forall₂ SameTargets (expected rex [] (written name s.trace))
    (forwardedOn name s.trace ++ expected rex (s.stream name).selectors (s.stream name).pending)
  dated : ∀ m ∈ s.trace.filterMap Obs.publication, m.mid < s.messageId
  once : (s.trace.filterMap Obs.publication).Nodup

section
variable {rex : Str → Str → Bool} {s s' : Server} {c d : Cid} {name name' p : Str} {m : Msg}
  {t : List Obs}

/-! ## The trace and the pipes -/

theorem forwardedOn_append (name : Str) (t t' : List Obs) :
    forwardedOn name (t ++ t') = forwardedOn name t ++ forwardedOn name t' :=
  List.filterMap_append

theorem forwardedOn_ours (h : ∀ o ∈ t, o.Ours) : forwardedOn name t = [] := by
  refine List.filterMap_eq_nil_iff.2 fun o ho => ?_
  have := h o ho
  cases o with
  | forwarded n m targets => exact this.elim
  | _ => rfl

theorem mem_forwardedOn {targets : List Cid} :
    (m, targets) ∈ forwardedOn name t ↔ .forwarded name m targets ∈ t := by
  simp only [forwardedOn, List.mem_filterMap]
  constructor
  · rintro ⟨o, ho, hf⟩
    cases o with
    | forwarded n m' targets' =>
      by_cases hn : n = name
      · simp only [hn, if_true, Option.some.injEq, Prod.mk.injEq] at hf
        obtain ⟨rfl, rfl⟩ := hf
        rwa [hn] at ho
      · simp [hn] at hf
    | _ => cases hf
  · intro h
    exact ⟨_, h, by simp⟩

/-- A message in what was written was published at some time. -/
theorem written_split {w w₂ : List Issue} (h : written name t = w ++ .message d m :: w₂) :
    ∃ t₁ t₂, t = t₁ ++ .published d name m :: t₂ ∧ w = written name t₁ := by
  induction t generalizing w with
  | nil => simp [written] at h
  | cons o t ih =>
    rw [written_cons] at h
    -- an observation without the message writes a part of `w`
    have hpast : (∀ i ∈ o.issues name, Stream.isCommand i = true) →
        ∃ t₁ t₂, o :: t = t₁ ++ .published d name m :: t₂ ∧ w = written name t₁ := by
      intro hcmd
      rcases List.append_eq_append_iff.1 h with ⟨r, hw, ht⟩ | ⟨r, hw, ht⟩
      · obtain ⟨t₁, t₂, rfl, rfl⟩ := ih ht
        exact ⟨o :: t₁, t₂, rfl, by rw [hw, written_cons]⟩
      · cases r with
        | nil =>
          obtain ⟨t₁, t₂, rfl, hnil⟩ := ih (w := []) ht.symm
          exact ⟨o :: t₁, t₂, rfl, by rw [written_cons, ← hnil, hw, List.append_nil,
            List.append_nil]⟩
        | cons i r =>
          obtain ⟨rfl, -⟩ := List.cons.inj ht
          have := hcmd (.message d m) (by rw [hw]; simp)
          cases this
    cases o with
    | published c n m' =>
      by_cases hn : n = name
      · simp only [Obs.issues, hn, if_true, List.singleton_append] at h
        cases w with
        | nil =>
          obtain ⟨h₁, -⟩ := List.cons.inj h
          cases h₁
          exact ⟨[], t, by rw [hn]; rfl, rfl⟩
        | cons i w₁ =>
          obtain ⟨rfl, h₂⟩ := List.cons.inj h
          obtain ⟨t₁, t₂, rfl, rfl⟩ := ih h₂
          exact ⟨_ :: t₁, t₂, rfl, by simp [written_cons, Obs.issues, hn]⟩
      · exact hpast (by simp [Obs.issues, hn])
    | subscribed c n p =>
      refine hpast fun i hi => ?_
      by_cases hn : n = name
      · simp only [Obs.issues, hn, if_true, List.mem_singleton] at hi
        rw [hi]
        rfl
      · simp [Obs.issues, hn] at hi
    | cancelled c n =>
      refine hpast fun i hi => ?_
      by_cases hn : n = name
      · simp only [Obs.issues, hn, if_true, List.mem_singleton] at hi
        rw [hi]
        rfl
      · simp [Obs.issues, hn] at hi
    | left c readers =>
      refine hpast fun i hi => ?_
      obtain ⟨-, -, rfl⟩ := List.mem_map.1 hi
      rfl
    | _ => exact hpast (by simp [Obs.issues])

/-- Something that is in a list of distinct things is there once. -/
theorem split_unique {α β : Type} {f : α → Option β} {x y : α} {b : β} {l₁ l₂ r₁ r₂ : List α}
    (hx : f x = some b) (hy : f y = some b) (h : l₁ ++ x :: l₂ = r₁ ++ y :: r₂)
    (hnd : ((l₁ ++ x :: l₂).filterMap f).Nodup) : l₁ = r₁ ∧ x = y := by
  induction l₁ generalizing r₁ with
  | nil =>
    cases r₁ with
    | nil => exact ⟨rfl, (List.cons.inj h).1⟩
    | cons z r₁ =>
      obtain ⟨rfl, h₂⟩ := List.cons.inj h
      rw [List.nil_append, List.filterMap_cons_some hx, List.nodup_cons] at hnd
      refine absurd (List.mem_filterMap.2 ⟨y, ?_, hy⟩) hnd.1
      rw [h₂]
      simp
  | cons z l₁ ih =>
    cases r₁ with
    | nil =>
      obtain ⟨rfl, h₂⟩ := List.cons.inj h
      rw [List.cons_append, List.filterMap_cons_some hy, List.nodup_cons] at hnd
      exact absurd (List.mem_filterMap.2 ⟨x, by simp, hx⟩) hnd.1
    | cons w r₁ =>
      obtain ⟨rfl, h₂⟩ := List.cons.inj h
      have hnd' : ((l₁ ++ x :: l₂).filterMap f).Nodup := by
        refine hnd.sublist ?_
        exact (List.sublist_cons_self ..).filterMap f
      obtain ⟨rfl, rfl⟩ := ih h₂ hnd'
      exact ⟨rfl, rfl⟩

/-! ## Readers -/

theorem mem_written_cancel (h : .command (.cancel c) ∈ written name t) :
    .cancelled c name ∈ t ∨ ∃ readers, .left c readers ∈ t := by
  obtain ⟨o, ho, hi⟩ := List.mem_flatMap.1 h
  cases o with
  | cancelled d n =>
    by_cases hn : n = name
    · simp only [Obs.issues, hn, if_true, List.mem_singleton, Issue.command.injEq,
        Command.cancel.injEq] at hi
      rw [hn, ← hi] at ho
      exact .inl ho
    · simp [Obs.issues, hn] at hi
  | left d readers =>
    obtain ⟨r, -, hr⟩ := List.mem_map.1 hi
    cases hr
    exact .inr ⟨readers, ho⟩
  | subscribed d n p => by_cases hn : n = name <;> simp [Obs.issues, hn] at hi
  | published d n m => by_cases hn : n = name <;> simp [Obs.issues, hn] at hi
  | _ => cases hi

theorem mem_written_compile (h : .command (.compile c p) ∈ written name t) :
    .subscribed c name p ∈ t := by
  obtain ⟨o, ho, hi⟩ := List.mem_flatMap.1 h
  cases o with
  | subscribed d n q =>
    by_cases hn : n = name
    · simp only [Obs.issues, hn, if_true, List.mem_singleton, Issue.command.injEq,
        Command.compile.injEq] at hi
      obtain ⟨rfl, rfl⟩ := hi
      rwa [hn] at ho
    · simp [Obs.issues, hn] at hi
  | left d readers =>
    obtain ⟨r, -, hr⟩ := List.mem_map.1 hi
    cases hr
  | cancelled d n => by_cases hn : n = name <;> simp [Obs.issues, hn] at hi
  | published d n m => by_cases hn : n = name <;> simp [Obs.issues, hn] at hi
  | _ => cases hi

theorem Reads.holds (h : Reads t c name p) : Holds (runIssues [] (written name t)) c p := by
  obtain ⟨t₁, t₂, rfl, hcancel, hleft⟩ := h
  rw [written_append, written_cons, runIssues_append]
  refine holds_runIssues_of_no_cancel (distinct_runIssues distinct_nil _) ?_
    (.inr (by simp [Obs.issues]))
  intro hmem
  rw [show Obs.issues name (.subscribed c name p) = [.command (.compile c p)] by
    simp [Obs.issues]] at hmem
  rcases List.mem_append.1 hmem with hmem | hmem
  · simp at hmem
  · rcases mem_written_cancel hmem with h | ⟨readers, h⟩
    · exact hcancel h
    · exact hleft readers h

theorem Stopped.not_holds (h : Stopped t c name) (p : Str) :
    ¬ Holds (runIssues [] (written name t)) c p := by
  obtain ⟨t₁, t₂, rfl, hnone⟩ := h
  have hd := distinct_runIssues distinct_nil (written name t₁)
  rw [written_append, written_cons, runIssues_append,
    show Obs.issues name (.cancelled c name) = [.command (.cancel c)] by simp [Obs.issues],
    List.singleton_append, runIssues_command]
  intro hholds
  rcases runIssues_holds_cases (distinct_runCommand hd _) hholds with h | h
  · exact ((holds_cancel hd c c p).1 h).2 rfl
  · exact hnone p (mem_written_compile h)

/-! ## Runs of timely steps -/

theorem followed_new (rex : Str → Str → Bool) : Followed rex .new where
  final _ := rfl
  order _ := .nil
  dated _ h := by cases h
  once := .nil

theorem Followed.wrote (h : Followed rex s) (hw : Wrote s s') : Followed rex s' := by
  obtain ⟨t, ht, hours, hst, hnd, hm⟩ := hw.grows
  have hid := hw.messageId
  refine ⟨fun name => ?_, fun name => ?_, ?_, ?_⟩
  · rw [ht, written_append, runIssues_append, ← h.final, Stream.final, Stream.final, (hst name).1,
      (hst name).2, runIssues_append]
  · have hfin := h.final name
    rw [Stream.final] at hfin
    rw [ht, written_append, expected_append, forwardedOn_append, forwardedOn_ours hours,
      List.append_nil, (hst name).1, (hst name).2, expected_append, hfin, ← List.append_assoc]
    exact List.rel_append (h.order name) (List.forall₂_refl _)
  · intro m hmem
    rw [ht, List.filterMap_append] at hmem
    rcases List.mem_append.1 hmem with hmem | hmem
    · exact Nat.lt_of_lt_of_le (h.dated m hmem) hid
    · exact (hm m hmem).2
  · rw [ht, List.filterMap_append]
    refine List.nodup_append.2 ⟨h.once, hnd, ?_⟩
    rintro x hx y hy rfl
    have := h.dated x hx
    have := (hm x hy).1
    omega

theorem stream_of_set {st : Stream} (h : s'.streams = s.streams.set name st) (name' : Str) :
    s'.stream name' = if name' = name then st else s.stream name' := by
  unfold stream
  rw [h, Table.get_set]
  split <;> rfl

theorem Followed.command {st st' : Stream} (h : Followed rex s) (hw : Wired s)
    (hst : s.streams.get name = some st) (ht : (s.stream name).CommandTimely rex)
    (hcmd : st.handleCommand = some st') :
    Followed rex (s.setStreams (s.streams.set name st')) := by
  have hs : s.stream name = st := stream_of_get hst
  have hset : (s.setStreams (s.streams.set name st')).streams = s.streams.set name st' := rfl
  have hget := stream_of_set hset
  refine ⟨fun name' => ?_, fun name' => ?_, h.dated, h.once⟩
  · rw [hget]
    by_cases hn : name' = name
    · rw [if_pos hn, Stream.final_handleCommand hcmd, ← hs, ← hn]
      exact h.final name'
    · rw [if_neg hn]
      exact h.final name'
  · rw [hget]
    by_cases hn : name' = name
    · have hord := h.order name'
      rw [hn, hs] at hord
      rw [hs] at ht
      rw [if_pos hn, hn]
      exact forall₂_trans hord (List.rel_append (List.forall₂_refl _)
        (expected_handleCommand (hw.distinct name st hst) ht hcmd))
    · rw [if_neg hn]
      exact h.order name'

theorem Followed.message {st st' : Stream} {targets : List Cid} (h : Followed rex s)
    (hw : Wired s) (hst : s.streams.get name = some st) (ht : (s.stream name).MessageTimely rex)
    (hmsg : st.handleMessage rex = some (st', m, targets))
    (htr : s'.trace = s.trace ++ [.forwarded name m targets])
    (hstr : s'.streams = s.streams.set name st') (hid : s'.messageId = s.messageId) :
    Followed rex s' := by
  have hs : s.stream name = st := stream_of_get hst
  have hget := stream_of_set hstr
  have hpub : s'.trace.filterMap Obs.publication = s.trace.filterMap Obs.publication := by
    rw [htr, List.filterMap_append]
    exact List.append_nil _
  have hwritten : ∀ name', written name' s'.trace = written name' s.trace := by
    intro name'
    rw [htr, written_append]
    exact List.append_nil _
  refine ⟨fun name' => ?_, fun name' => ?_, ?_, ?_⟩
  · rw [hwritten, hget]
    by_cases hn : name' = name
    · rw [if_pos hn, Stream.final_handleMessage hmsg, ← hs, ← hn]
      exact h.final name'
    · rw [if_neg hn]
      exact h.final name'
  · rw [hwritten, hget, htr, forwardedOn_append]
    by_cases hn : name' = name
    · have hord := h.order name'
      rw [hn, hs] at hord
      rw [hs] at ht
      have hone : forwardedOn name [.forwarded name m targets] = [(m, targets)] := by
        simp [forwardedOn]
      rw [if_pos hn, hn, hone, List.append_assoc]
      exact forall₂_trans hord (List.rel_append (List.forall₂_refl _)
        (expected_handleMessage (hw.distinct name st hst) ht hmsg))
    · have hn' : name ≠ name' := fun h => hn h.symm
      have hnone : forwardedOn name' [.forwarded name m targets] = [] := by
        simp [forwardedOn, hn']
      rw [if_neg hn, hnone, List.append_nil]
      exact h.order name'
  · rw [hpub, hid]
    exact h.dated
  · rw [hpub]
    exact h.once

theorem followed_moved {l : Label} (hw : Wired s) (h : Followed rex s) (ht : Timely rex s l)
    (hm : Moved rex s l s') : Followed rex s' := by
  cases hl : l.engine with
  | false => exact h.wrote (wrote_moved hw hm hl)
  | true =>
    cases hm with
    | command hst hcmd => exact h.command hw hst ht hcmd
    | message hst hmsg => exact h.message hw hst ht hmsg rfl rfl rfl
    | _ => cases hl

/-- **The engines follow the server**, if they read in time. -/
theorem followed_inductive (rex : Str → Str → Bool) :
    ((broker rex).within (Timely rex)).Inductive fun s => Regular s ∧ Followed rex s := by
  refine ((regular_inductive rex).within _).strengthen (Q := Followed rex) ?_ ?_
  · rintro s rfl
    exact followed_new rex
  · intro s l s' hr _ h hstep
    exact followed_moved hr.wired h hstep.1 (moved_of_step hr.reg hr.wired hstep.2)

/-! ## The guarantee -/

theorem mem_expected {sel : List Selector} {is : List Issue} {x : Msg × List Cid}
    (h : x ∈ expected rex sel is) :
    ∃ d w₁ w₂, is = w₁ ++ .message d x.1 :: w₂ ∧
      x.2 = Stream.receivers rex (runIssues sel w₁) d x.1 := by
  induction is generalizing sel with
  | nil => cases h
  | cons i is ih =>
    cases i with
    | command k =>
      obtain ⟨d, w₁, w₂, rfl, hx⟩ := ih h
      exact ⟨d, .command k :: w₁, w₂, rfl, hx⟩
    | message e m =>
      rcases List.mem_cons.1 h with rfl | h
      · exact ⟨e, [], is, rfl, rfl⟩
      · obtain ⟨d, w₁, w₂, rfl, hx⟩ := ih h
        exact ⟨d, .message e m :: w₁, w₂, rfl, hx⟩

theorem forall₂_left {α β : Type} {R : α → β → Prop} {l₁ : List α} {l₂ : List β} {x : α}
    (h : List.Forall₂ R l₁ l₂) (hx : x ∈ l₁) : ∃ y ∈ l₂, R x y := by
  induction h with
  | nil => cases hx
  | cons hr _ ih =>
    rcases List.mem_cons.1 hx with rfl | hx
    · exact ⟨_, List.mem_cons_self, hr⟩
    · obtain ⟨y, hy, hxy⟩ := ih hx
      exact ⟨y, List.mem_cons_of_mem _ hy, hxy⟩

/-- What is forwarded goes to those who were listed when it was published. -/
theorem Followed.targets (h : Followed rex s) {t₁ t₂ : List Obs} {targets : List Cid}
    (hs : s.trace = t₁ ++ .published d name m :: t₂)
    (hf : .forwarded name' m targets ∈ s.trace) :
    name' = name ∧ ∀ c, c ∈ targets ↔
      c ≠ d ∧ ∃ p, Holds (runIssues [] (written name t₁)) c p ∧ rex p m.subject = true := by
  have hmem : (m, targets) ∈ forwardedOn name' s.trace ++ expected rex (s.stream name').selectors
      (s.stream name').pending := List.mem_append_left _ (mem_forwardedOn.2 hf)
  obtain ⟨⟨m', due⟩, hx, hm', hsame⟩ := forall₂_left (h.order name').flip hmem
  cases hm'
  obtain ⟨e, w₁, w₂, hw, hdue⟩ := mem_expected hx
  obtain ⟨u₁, u₂, hu, rfl⟩ := written_split hw
  have hnd := h.once
  rw [hs] at hnd hu
  obtain ⟨rfl, hpub⟩ := split_unique (f := Obs.publication) rfl rfl hu hnd
  cases hpub
  refine ⟨rfl, fun c => ?_⟩
  have hdue' : due = Stream.receivers rex (runIssues [] (written name t₁)) d m := hdue
  have hmem' : c ∈ due ↔ c ∈ targets := hsame c
  rw [← hmem', hdue', mem_receivers]

/-- A published message is in the pipe until it is forwarded. -/
theorem Followed.waits (h : Followed rex s) (hp : .published d name m ∈ s.trace) :
    (∃ e, .message e m ∈ (s.stream name).msgpipe) ∨
      ∃ targets, .forwarded name m targets ∈ s.trace := by
  obtain ⟨t₁, t₂, hs⟩ := List.append_of_mem hp
  have hx : (m, Stream.receivers rex (runIssues [] (written name t₁)) d m) ∈
      expected rex [] (written name s.trace) := by
    have hone : Obs.issues name (.published d name m) = [.message d m] := by simp [Obs.issues]
    rw [hs, written_append, written_cons, hone, expected_append]
    exact List.mem_append_right _ List.mem_cons_self
  obtain ⟨⟨m', targets⟩, hy, rfl, -⟩ := forall₂_left (h.order name) hx
  rcases List.mem_append.1 hy with hy | hy
  · exact .inr ⟨targets, mem_forwardedOn.1 hy⟩
  · obtain ⟨e, w₁, w₂, hpend, -⟩ := mem_expected hy
    refine .inl ⟨e, List.mem_filter.2 ⟨?_, rfl⟩⟩
    rw [hpend]
    exact List.mem_append_right _ List.mem_cons_self

/-- **Confirmed subscriptions are effective**, in every run in which the engines
read in time. A message is forwarded as soon as it has left the pipe; it goes to
every other client that was a reader with a matching pattern when the server
processed the STREAM SEND, and to none that had cancelled. -/
theorem effective_of_timely (h : ((broker rex).within (Timely rex)).Reachable s)
    {t₁ t₂ : List Obs} (hs : s.trace = t₁ ++ .published d name m :: t₂) :
    ((∃ e, .message e m ∈ (s.stream name).msgpipe) ∨
      ∃ targets, .forwarded name m targets ∈ s.trace) ∧
    ∀ name' targets, .forwarded name' m targets ∈ s.trace →
      (∀ c p, c ≠ d → Reads t₁ c name p → rex p m.subject = true → c ∈ targets) ∧
      ∀ c, Stopped t₁ c name → c ∉ targets := by
  have hf := ((followed_inductive rex).reachable s h).2
  have hpub : .published d name m ∈ s.trace := by
    rw [hs]
    simp
  refine ⟨hf.waits hpub, fun name' targets hfwd => ?_⟩
  obtain ⟨-, hiff⟩ := hf.targets hs hfwd
  refine ⟨fun c p hne hreads hrex => (hiff c).2 ⟨hne, p, hreads.holds, hrex⟩, ?_⟩
  intro c hstop hmem
  obtain ⟨-, p, hholds, -⟩ := (hiff c).1 hmem
  exact hstop.not_holds p hholds

end

/-! ## Runs on both sides of the condition -/

/-- The stream of the runs. -/
def weather : Str := .ofBytes [119]

/-- Client 0 reads the stream and client 1 writes to it; then the engine reads
as `reading` says. -/
def readRun (reading : List Label) : List Label :=
  [.request [1] (.connectionOpen .empty), .request [2] (.connectionOpen .empty),
    .request [2] (.streamWrite weather), .request [1] (.streamRead weather .empty),
    .request [2] (.streamSend .empty [[7]])] ++ reading

/-- What client 1 sends first. -/
def firstSend : Msg := ⟨0, .empty, weather, .empty, none, 0, some [[7]]⟩

theorem effective_readRun :
    ∃ s t₁ t₂, ((broker fun _ _ => true).within (Timely fun _ _ => true)).Reachable s ∧
      s.trace = t₁ ++ .published 1 weather firstSend :: t₂ ∧
      .forwarded weather firstSend [0] ∈ s.trace ∧
      ((∃ e, .message e firstSend ∈ (s.stream weather).msgpipe) ∨
        ∃ targets, .forwarded weather firstSend targets ∈ s.trace) := by
  have hrun : ((Server.new.steps (fun _ _ => true) (Timely fun _ _ => true) 20
      (readRun [.command weather, .message weather])).any fun s =>
        .published 1 weather firstSend ∈ s.trace ∧
          .forwarded weather firstSend [0] ∈ s.trace) = true := by decide +kernel
  obtain ⟨s, hs, hp⟩ := (Option.any_eq_true _ _).1 hrun
  obtain ⟨hpub, hfwd⟩ := of_decide_eq_true hp
  obtain ⟨t₁, t₂, ht⟩ := List.append_of_mem hpub
  exact ⟨s, t₁, t₂, reachable_of_steps hs, ht, hfwd,
    (effective_of_timely (reachable_of_steps hs) ht).1⟩

/-- Client 0 cancels, and client 1 sends again. -/
def cancelledRun : List Label :=
  readRun [.message weather, .command weather, .request [1] (.streamCancel weather),
    .request [2] (.streamSend .empty [[8]]), .message weather]

def secondSend : Msg := ⟨1, .empty, weather, .empty, none, 0, some [[8]]⟩

/-- No subscription begins or ends. -/
def Obs.steady : Obs → Bool
  | .subscribed _ _ _ | .cancelled _ _ | .left _ _ => false
  | _ => true

/-- Messages overtake the commands: client 0 does not get the message that was
sent while it was a confirmed reader, and gets the one that was sent after it
had cancelled. -/
theorem overtaken : ∃ s, (broker fun _ _ => true).Reachable s ∧
    (∃ t₁ t₂, s.trace = t₁ ++ .published 1 weather firstSend :: t₂ ∧
      Reads t₁ 0 weather .empty ∧ .forwarded weather firstSend [] ∈ s.trace) ∧
    ∃ t₁ t₂, s.trace = t₁ ++ .published 1 weather secondSend :: t₂ ∧
      Stopped t₁ 0 weather ∧ .forwarded weather secondSend [0] ∈ s.trace := by
  have hrun : ((Server.new.steps (fun _ _ => true) (fun _ _ => True) 20 cancelledRun).any fun s =>
      s.trace = s.trace.take 15 ++ .published 1 weather firstSend :: s.trace.drop 16 ∧
      s.trace.take 15 = s.trace.take 11 ++ .subscribed 0 weather .empty ::
        (s.trace.take 15).drop 12 ∧
      ((s.trace.take 15).drop 12).all Obs.steady = true ∧
      .forwarded weather firstSend [] ∈ s.trace ∧
      s.trace = s.trace.take 23 ++ .published 1 weather secondSend :: s.trace.drop 24 ∧
      s.trace.take 23 = s.trace.take 19 ++ .cancelled 0 weather :: (s.trace.take 23).drop 20 ∧
      ((s.trace.take 23).drop 20).all Obs.steady = true ∧
      .forwarded weather secondSend [0] ∈ s.trace) = true := by decide +kernel
  obtain ⟨s, hs, hp⟩ := (Option.any_eq_true _ _).1 hrun
  obtain ⟨h₁, hread, hsteady₁, hfwd₁, h₂, hcancel, hsteady₂, hfwd₂⟩ := of_decide_eq_true hp
  have hnone : ∀ {t : List Obs} {o : Obs}, t.all Obs.steady = true → o.steady = false → o ∉ t := by
    intro t o hall ho hmem
    rw [List.all_eq_true.1 hall o hmem] at ho
    cases ho
  refine ⟨s, (reachable_of_steps hs).of_within, ⟨_, _, h₁, ?_, hfwd₁⟩, _, _, h₂, ?_, hfwd₂⟩
  · exact ⟨_, _, hread, hnone hsteady₁ rfl, fun _ => hnone hsteady₁ rfl⟩
  · exact ⟨_, _, hcancel, fun _ => hnone hsteady₂ rfl⟩

end Malamute.L3
