import Malamute.L2Engine.Stream
import Malamute.Core.LTS
import Mathlib.Data.List.Induction

/-!
# The table of selectors, and what CANCEL promises

`runCommands ks` is the table after the commands `ks`; `Standing c p ks` says that
client `c` has asked for pattern `p` and not cancelled since. `holds_iff_standing`:
the table lists exactly these.

`engine` is one engine between its pipes: the server writes commands and messages
and reads what comes up, and the engine reads either pipe, in any order. `log` keeps
what the engine has run and written. `selectors_exact`: after the ACK of a client the
engine writes nothing for it but the ACKs of further CANCELs, until a COMPILE for it
is run. `acks_again`: these further ACKs exist.
-/
namespace Malamute.L2
open Malamute.Core Malamute.L1

/-! ## Commands -/

/-- The selectors after the commands `ks`. -/
def runCommands (ks : List Command) : List Selector := ks.foldl runCommand []

/-- `c` has asked for `p` and not cancelled since. -/
def Standing (c : Cid) (p : Str) (ks : List Command) : Prop :=
  ∃ pre post, ks = pre ++ .compile c p :: post ∧ .cancel c ∉ post

theorem runCommands_append (ks : List Command) (k : Command) :
    runCommands (ks ++ [k]) = runCommand (runCommands ks) k := by
  simp [runCommands]

theorem not_standing_nil (c : Cid) (p : Str) : ¬Standing c p [] := by
  rintro ⟨pre, post, h, -⟩
  simp at h

/-- One more command. -/
theorem standing_append {c : Cid} {p : Str} {ks : List Command} {k : Command} :
    Standing c p (ks ++ [k]) ↔ k = .compile c p ∨ (Standing c p ks ∧ k ≠ .cancel c) := by
  constructor
  · rintro ⟨pre, post, h, hno⟩
    rcases List.eq_nil_or_concat post with rfl | ⟨post, k', rfl⟩
    · exact .inl (by simpa using (List.append_inj' h rfl).2)
    · rw [List.concat_eq_append] at h hno
      rw [← List.cons_append, ← List.append_assoc] at h
      obtain ⟨rfl, hk⟩ := List.append_inj' h rfl
      cases hk
      refine .inr ⟨⟨pre, post, rfl, fun hm => hno (List.mem_append_left _ hm)⟩, ?_⟩
      rintro rfl
      exact hno (List.mem_append_right _ List.mem_cons_self)
  · rintro (rfl | ⟨⟨pre, post, rfl, hno⟩, hk⟩)
    · exact ⟨ks, [], rfl, by simp⟩
    · refine ⟨pre, post ++ [k], by simp, fun hm => ?_⟩
      rcases List.mem_append.1 hm with hm | hm
      · exact hno hm
      · exact hk (List.mem_singleton.1 hm).symm

theorem distinct_runCommands (ks : List Command) : Distinct (runCommands ks) := by
  induction ks using List.reverseRecOn with
  | nil => exact distinct_nil
  | append_singleton ks k ih =>
    rw [runCommands_append]
    exact distinct_runCommand ih k

/-- **A client is listed for a pattern exactly if it has asked for it and not cancelled
since.** -/
theorem holds_iff_standing (ks : List Command) (c : Cid) (p : Str) :
    Holds (runCommands ks) c p ↔ Standing c p ks := by
  induction ks using List.reverseRecOn with
  | nil => exact iff_of_false (holds_nil c p) (not_standing_nil c p)
  | append_singleton ks k ih =>
    rw [runCommands_append, standing_append, ← ih]
    cases k with
    | compile d q =>
      have hk : (Command.compile d q = .compile c p) ↔ c = d ∧ p = q := by
        rw [Command.compile.injEq, @eq_comm _ d, @eq_comm _ q]
      rw [runCommand, holds_compile, hk]
      simp [or_comm]
    | cancel d =>
      rw [runCommand, holds_cancel (distinct_runCommands ks)]
      simp [eq_comm]

/-! ## The engine -/

/-- What an engine does: it runs a command, or writes to its message pipe. -/
inductive Entry where
  | ran (k : Command)
  | wrote (t : Traffic)
  deriving DecidableEq

structure Engine where
  stream : Stream
  log : List Entry

inductive Act where
  /-- the server writes to one of the pipes -/
  | push (i : Issue)
  /-- the engine reads its command pipe, its message pipe -/
  | command
  | message
  /-- the server reads an item -/
  | pop
  deriving DecidableEq

/-- What is written when a command has been run. -/
def Command.acks : Command → List Traffic
  | .compile _ _ => []
  | .cancel c => [.ack c]

/-- The item is for client `c`. -/
def Traffic.names (c : Cid) : Traffic → Prop
  | .deliver d _ => d = c
  | .ack d => d = c

namespace Engine

def new : Engine := ⟨.new, []⟩

/-- The commands that have been run. -/
def ran (e : Engine) : List Command :=
  e.log.filterMap fun | .ran k => some k | .wrote _ => none

/-- One step; `none` if it is not possible. -/
def step (rex : Str → Str → Bool) (e : Engine) : Act → Option Engine
  | .push i => some { e with stream := e.stream.push i }
  | .command =>
    match e.stream.pending.find? Stream.isCommand, e.stream.handleCommand with
    | some (.command k), some st => some ⟨st, e.log ++ .ran k :: k.acks.map .wrote⟩
    | _, _ => none
  | .message =>
    match e.stream.handleMessage rex with
    | some (st, m, targets) =>
      some ⟨st, e.log ++ (targets.map (Traffic.deliver · m)).map .wrote⟩
    | none => none
  | .pop =>
    match e.stream.up with
    | [] => none
    | _ :: up => some { e with stream := { e.stream with up := up } }

end Engine

def engine (rex : Str → Str → Bool) : LTS Engine Act where
  init e := e = .new
  step e a e' := e.step rex a = some e'

/-- The steps of `acts`, as far as they are possible. -/
def Engine.steps (rex : Str → Str → Bool) (e : Engine) : List Act → Option Engine
  | [] => some e
  | a :: acts => (e.step rex a).bind fun e' => e'.steps rex acts

theorem Engine.run_of_steps {rex : Str → Str → Bool} {acts : List Act} {e e' : Engine}
    (h : e.steps rex acts = some e') : (engine rex).Run e acts e' := by
  induction acts generalizing e with
  | nil =>
    cases h
    exact .nil _
  | cons a acts ih =>
    obtain ⟨b, hb, hrest⟩ := Option.bind_eq_some_iff.1 h
    exact LTS.Run.cons_iff.2 ⟨b, hb, ih hrest⟩

section
variable {rex : Str → Str → Bool} {e e' : Engine} {a : Act} {c : Cid}

/-- What one step does to the table and to the log. -/
theorem engine_cases (h : (engine rex).step e a e') :
    (e'.stream.selectors = e.stream.selectors ∧ e'.log = e.log) ∨
    (∃ k, e'.stream.selectors = runCommand e.stream.selectors k ∧
      e'.log = e.log ++ .ran k :: k.acks.map .wrote) ∨
    ∃ sender m, e'.stream.selectors = e.stream.selectors ∧
      e'.log = e.log ++ ((Stream.receivers rex e.stream.selectors sender m).map
        (Traffic.deliver · m)).map .wrote := by
  have h : e.step rex a = some e' := h
  cases a with
  | push i =>
    cases h
    exact .inl ⟨rfl, rfl⟩
  | pop =>
    simp only [Engine.step] at h
    split at h
    · cases h
    · cases h
      exact .inl ⟨rfl, rfl⟩
  | command =>
    simp only [Engine.step] at h
    split at h
    · rename_i k st hfind hcmd
      cases h
      obtain ⟨k', pre, post, hp, hpre, -, hsel, -⟩ := Stream.handleCommand_cases hcmd
      have hk : k = k' := by
        have hskip : ∀ j ∈ pre, ¬Stream.isCommand j = true := fun j hj => by simp [hpre j hj]
        rw [hp, List.find?_append, List.find?_eq_none.2 hskip] at hfind
        cases hfind
        rfl
      subst hk
      exact .inr (.inl ⟨k, hsel, rfl⟩)
    · cases h
  | message =>
    simp only [Engine.step] at h
    split at h
    · rename_i st m targets hmsg
      cases h
      obtain ⟨sender, pre, post, -, -, rfl, -, hsel, -⟩ := Stream.handleMessage_cases hmsg
      exact .inr (.inr ⟨sender, m, hsel, rfl⟩)
    · cases h

/-! ## After the ACK -/

/-- Whether an ACK of `c` has been written and no COMPILE for it run since, after one
more entry. -/
def letGo (c : Cid) (b : Bool) : Entry → Bool
  | .wrote (.ack d) => b || d = c
  | .ran (.compile d _) => b && d ≠ c
  | _ => b

/-- No message is written to `c` when it has been let go. -/
def silent (c : Cid) : Bool → List Entry → Bool
  | _, [] => true
  | b, .wrote (.deliver d _) :: l => (d ≠ c || !b) && silent c b l
  | b, x :: l => silent c (letGo c b x) l

theorem silent_cons (c : Cid) (b : Bool) (x : Entry) (l : List Entry) :
    silent c b (x :: l) = (silent c b [x] && silent c (letGo c b x) l) := by
  cases x with
  | ran k => cases k <;> simp [silent]
  | wrote t => cases t <;> simp [silent, letGo]

theorem silent_append (c : Cid) (b : Bool) (l l' : List Entry) :
    silent c b (l ++ l') = (silent c b l && silent c (l.foldl (letGo c) b) l') := by
  induction l generalizing b with
  | nil => simp [silent]
  | cons x l ih => rw [List.cons_append, silent_cons, ih, silent_cons c b x l, List.foldl_cons,
      Bool.and_assoc]

/-- Whoever has been let go is not listed, and no message was written to it. -/
structure Parted (e : Engine) (c : Cid) : Prop where
  unlisted : e.log.foldl (letGo c) false = true → ∀ p, ¬Holds e.stream.selectors c p
  silent : silent c false e.log = true

theorem letGo_delivers (c : Cid) (b : Bool) (ts : List Cid) (m : Msg) :
    ((ts.map (Traffic.deliver · m)).map Entry.wrote).foldl (letGo c) b = b := by
  induction ts with
  | nil => rfl
  | cons d ts ih => exact ih

theorem silent_delivers {c : Cid} {b : Bool} {ts : List Cid} {m : Msg}
    (h : b = true → c ∉ ts) :
    silent c b ((ts.map (Traffic.deliver · m)).map Entry.wrote) = true := by
  induction ts with
  | nil => rfl
  | cons d ts ih =>
    have hts := ih fun hb hm => h hb (List.mem_cons_of_mem _ hm)
    have hd : (d ≠ c || !b) = true := by
      cases b with
      | false => simp
      | true =>
        have hne : d ≠ c := fun hdc => h rfl (hdc ▸ List.mem_cons_self)
        simp [hne]
    simp only [List.map_cons, silent, hd, hts, Bool.and_self]

theorem parted_step (hd : Distinct e.stream.selectors) (h : Parted e c)
    (hs : (engine rex).step e a e') : Parted e' c := by
  obtain ⟨hun, hsil⟩ := h
  rcases engine_cases hs with ⟨hsel, hlog⟩ | ⟨k, hsel, hlog⟩ | ⟨sender, m, hsel, hlog⟩
  · exact ⟨by rw [hlog, hsel]; exact hun, by rw [hlog]; exact hsil⟩
  · cases k with
    | compile d p =>
      refine ⟨fun hgo q => ?_, ?_⟩
      · rw [hlog, List.foldl_append] at hgo
        simp only [Command.acks, List.map_nil, List.foldl_cons, List.foldl_nil, letGo,
          Bool.and_eq_true, decide_eq_true_eq] at hgo
        rw [hsel, runCommand, holds_compile]
        rintro (hq | ⟨rfl, -⟩)
        · exact hun hgo.1 q hq
        · exact hgo.2 rfl
      · rw [hlog, silent_append, hsil]
        rfl
    | cancel d =>
      refine ⟨fun hgo q => ?_, ?_⟩
      · rw [hlog, List.foldl_append] at hgo
        simp only [Command.acks, List.map_cons, List.map_nil, List.foldl_cons, List.foldl_nil,
          letGo, Bool.or_eq_true, decide_eq_true_eq] at hgo
        rw [hsel, runCommand, holds_cancel hd]
        rintro ⟨hq, hne⟩
        rcases hgo with hgo | rfl
        · exact hun hgo q hq
        · exact hne rfl
      · rw [hlog, silent_append, hsil]
        rfl
  · refine ⟨?_, ?_⟩
    · rw [hlog, hsel, List.foldl_append, letGo_delivers]
      exact hun
    · rw [hlog, silent_append, hsil, Bool.true_and]
      refine silent_delivers fun hgo hmem => ?_
      obtain ⟨-, p, hp, -⟩ := mem_receivers.1 hmem
      exact hun hgo p hp

/-- The table is that of the commands run, and `Parted` holds for everyone. -/
structure Kept (e : Engine) : Prop where
  table : e.stream.selectors = runCommands e.ran
  parted : ∀ c, Parted e c

theorem kept_inductive (rex : Str → Str → Bool) : (engine rex).Inductive Kept where
  init := by
    intro e he
    subst he
    have hp : ∀ c, Parted .new c := fun c => ⟨fun h => absurd h Bool.false_ne_true, rfl⟩
    exact ⟨rfl, hp⟩
  step := by
    intro e a e' h hs
    refine ⟨?_, fun c => parted_step (h.table ▸ distinct_runCommands _) (h.parted c) hs⟩
    rcases engine_cases hs with ⟨hsel, hlog⟩ | ⟨k, hsel, hlog⟩ | ⟨sender, m, hsel, hlog⟩
    · rw [hsel, h.table, Engine.ran, Engine.ran, hlog]
    · have hran : e'.ran = e.ran ++ [k] := by
        rw [Engine.ran, hlog]
        cases k <;> simp [Engine.ran, Command.acks]
      rw [hsel, h.table, hran, runCommands_append]
    · have hran : e'.ran = e.ran := by
        rw [Engine.ran, hlog, List.filterMap_append, List.filterMap_map, List.filterMap_map]
        simp [Engine.ran, Function.comp_def]
      rw [hsel, h.table, hran]

/-- Without a COMPILE for it, a client that has been let go is written nothing but
ACKs. -/
theorem silent_acks {l : List Entry} (h : silent c true l = true)
    (hno : ∀ p, .ran (.compile c p) ∉ l) (m : Msg) : .wrote (.deliver c m) ∉ l := by
  induction l with
  | nil => exact List.not_mem_nil
  | cons x l ih =>
    rw [silent_cons, Bool.and_eq_true] at h
    have hgo : letGo c true x = true := by
      cases x with
      | ran k =>
        cases k with
        | compile d p =>
          have hne : d ≠ c := by
            rintro rfl
            exact hno p List.mem_cons_self
          simp [letGo, hne]
        | cancel d => rfl
      | wrote t => cases t <;> rfl
    have h2 := h.2
    rw [hgo] at h2
    have hl := ih h2 fun p hp => hno p (List.mem_cons_of_mem _ hp)
    intro hm
    rcases List.mem_cons.1 hm with rfl | hm
    · simp [silent] at h
    · exact hl hm

/-! ## The ACKs -/

/-- Every ACK comes directly after the CANCEL it answers. -/
def Answering (l : List Entry) : Prop :=
  ∀ x y d, l = x ++ .wrote (.ack d) :: y → ∃ x', x = x' ++ [.ran (.cancel d)]

theorem answering_append {l l' : List Entry} (h : Answering l) (h' : Answering l') :
    Answering (l ++ l') := by
  intro x y d hxy
  rcases List.append_eq_append_iff.1 hxy with ⟨z, hx, hz⟩ | ⟨z, hl, hz⟩
  · obtain ⟨z', rfl⟩ := h' z y d hz
    exact ⟨l ++ z', by rw [hx, List.append_assoc]⟩
  · cases z with
    | nil =>
      -- the ACK is the first item of `l'`, which therefore is not answering
      obtain ⟨z', hz'⟩ := h' [] y d hz.symm
      simp at hz'
    | cons w z =>
      rw [List.cons_append] at hz
      obtain ⟨rfl, -⟩ := List.cons.inj hz
      exact h x z d hl

theorem answering_block (k : Command) : Answering (.ran k :: k.acks.map .wrote) := by
  intro x y d hxy
  cases k with
  | compile client pattern =>
    rw [Command.acks, List.map_nil] at hxy
    have hmem : Entry.wrote (.ack d) ∈ [Entry.ran (.compile client pattern)] := by
      rw [hxy]
      exact List.mem_append_right _ List.mem_cons_self
    simp at hmem
  | cancel =>
    rw [Command.acks, List.map_cons, List.map_nil] at hxy
    rcases x with _ | ⟨w, _ | ⟨w', x⟩⟩
    · simp at hxy
    · simp only [List.cons_append, List.nil_append, List.cons.injEq, Entry.wrote.injEq,
        Traffic.ack.injEq] at hxy
      obtain ⟨rfl, rfl, -⟩ := hxy
      exact ⟨[], rfl⟩
    · simp at hxy

theorem answering_delivers (ts : List Cid) (m : Msg) :
    Answering ((ts.map (Traffic.deliver · m)).map .wrote) := by
  intro x y d hxy
  have hmem : Entry.wrote (.ack d) ∈ (ts.map (Traffic.deliver · m)).map Entry.wrote := by
    rw [hxy]
    exact List.mem_append_right _ List.mem_cons_self
  simp at hmem

theorem answering_inductive (rex : Str → Str → Bool) :
    (engine rex).Inductive fun e => Answering e.log where
  init := by
    intro e he x y d hxy
    subst he
    simp [Engine.new] at hxy
  step := by
    intro e a e' h hs
    rcases engine_cases hs with ⟨-, hlog⟩ | ⟨k, -, hlog⟩ | ⟨sender, m, -, hlog⟩
    · rwa [hlog]
    · rw [hlog]
      exact answering_append h (answering_block k)
    · rw [hlog]
      exact answering_append h (answering_delivers _ _)

/-- Between two ACKs of a client there is another CANCEL for it. -/
theorem cancelled_again {pre post rest : List Entry}
    (h : Answering (pre ++ .wrote (.ack c) :: (post ++ rest)))
    (hm : .wrote (.ack c) ∈ post) : .ran (.cancel c) ∈ post := by
  obtain ⟨x, y, rfl⟩ := List.append_of_mem hm
  obtain ⟨z, hz⟩ := h (pre ++ .wrote (.ack c) :: x) (y ++ rest) c (by simp)
  rcases List.eq_nil_or_concat x with rfl | ⟨x, w, rfl⟩
  · simpa using (List.append_inj' hz rfl).2
  · rw [List.concat_eq_append, ← List.cons_append, ← List.append_assoc] at hz
    have hw := (List.append_inj' hz rfl).2
    rw [List.cons.injEq] at hw
    rw [List.concat_eq_append, hw.1]
    simp

/-! ## The table and the ACKs -/

/-- **The selectors list who asked and did not cancel, each once; after the ACK of a
client the engine writes nothing that names it but the ACKs of further CANCELs, until a
COMPILE for it is run.** -/
theorem selectors_exact (rex : Str → Str → Bool) :
    (∀ ks, Distinct (runCommands ks) ∧
      ∀ c p, Holds (runCommands ks) c p ↔ Standing c p ks) ∧
    ∀ e, (engine rex).Reachable e → e.stream.selectors = runCommands e.ran ∧
      ∀ c pre post rest, e.log = pre ++ .wrote (.ack c) :: (post ++ rest) →
        (∀ p, .ran (.compile c p) ∉ post) →
        ∀ t, .wrote t ∈ post → t.names c → t = .ack c ∧ .ran (.cancel c) ∈ post := by
  refine ⟨fun ks => ⟨distinct_runCommands ks, holds_iff_standing ks⟩, fun e he => ?_⟩
  have hk := (kept_inductive rex).reachable e he
  refine ⟨hk.table, fun c pre post rest hlog hno t ht hnames => ?_⟩
  have hsil := (hk.parted c).silent
  rw [hlog, silent_append, Bool.and_eq_true, silent_cons, Bool.and_eq_true] at hsil
  have hpost := hsil.2.2
  rw [silent_append, Bool.and_eq_true] at hpost
  have hgo : letGo c (pre.foldl (letGo c) false) (.wrote (.ack c)) = true := by simp [letGo]
  rw [hgo] at hpost
  cases t with
  | deliver d m =>
    cases (hnames : d = c)
    exact absurd ht (silent_acks hpost.1 hno m)
  | ack d =>
    cases (hnames : d = c)
    exact ⟨rfl, cancelled_again (hlog ▸ (answering_inductive rex).reachable e he) ht⟩

end

/-- Client 0 is let go, and a message is written to client 1 only. -/
theorem selectors_exact_letGo : ∃ (e : Engine) (m : Msg),
    (engine fun _ _ => true).Reachable e ∧ e.log = [.ran (.compile 0 .empty),
      .ran (.compile 1 .empty), .ran (.cancel 0), .wrote (.ack 0), .wrote (.deliver 1 m)] ∧
    ∀ t, Entry.wrote t ∈ [Entry.wrote (.deliver 1 m)] → ¬t.names 0 := by
  let m : Msg := ⟨0, .empty, .empty, .empty, none, 0, none⟩
  have h : Engine.new.steps (fun _ _ => true) [.push (.command (.compile 0 .empty)),
      .push (.command (.compile 1 .empty)), .push (.command (.cancel 0)), .push (.message 2 m),
      .command, .command, .command, .message] =
      some ⟨⟨[⟨.empty, [1]⟩], [], [.ack 0, .deliver 1 m]⟩, [.ran (.compile 0 .empty),
        .ran (.compile 1 .empty), .ran (.cancel 0), .wrote (.ack 0), .wrote (.deliver 1 m)]⟩ := by
    rfl
  have hr : (engine fun _ _ => true).Reachable _ := ⟨_, _, rfl, Engine.run_of_steps h⟩
  refine ⟨_, m, hr, rfl, fun t ht hn => ?_⟩
  obtain ⟨-, hc⟩ := ((selectors_exact fun _ _ => true).2 _ hr).2 0
    [.ran (.compile 0 .empty), .ran (.compile 1 .empty), .ran (.cancel 0)]
    [.wrote (.deliver 1 m)] [] rfl (by simp) t ht hn
  simp at hc

/-- Two CANCELs of one client: the second ACK names it after the first. -/
theorem acks_again : ¬∀ (rex : Str → Str → Bool) (e : Engine), (engine rex).Reachable e →
    ∀ c pre post rest, e.log = pre ++ .wrote (.ack c) :: (post ++ rest) →
      (∀ p, .ran (.compile c p) ∉ post) → ∀ t, .wrote t ∈ post → ¬t.names c := by
  have h : Engine.new.steps (fun _ _ => true) [.push (.command (.cancel 0)),
      .push (.command (.cancel 0)), .command, .command] =
      some ⟨⟨[], [], [.ack 0, .ack 0]⟩,
        [.ran (.cancel 0), .wrote (.ack 0), .ran (.cancel 0), .wrote (.ack 0)]⟩ :=
    rfl
  intro hall
  exact hall _ _ ⟨_, _, rfl, Engine.run_of_steps h⟩ 0 [.ran (.cancel 0)]
    [.ran (.cancel 0), .wrote (.ack 0)] [] rfl (by simp) (.ack 0) (by simp) rfl

end Malamute.L2
