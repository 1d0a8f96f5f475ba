import Malamute.L2Queue.Msgq
import Mathlib.Data.List.Nodup
import Mathlib.Tactic.Tauto

/-!
# Stream engines (`src/src/mlm_stream_simple.c`)

One engine per stream, with a table of selectors: for each pattern the clients
that asked for it. The server talks to it over two pipes, commands (COMPILE,
CANCEL) on one and messages on the other; the engine answers on the second
(forwarded messages, ACKs of CANCEL).

`Stream.pending` is what the server has written and the engine has not read,
in the order of writing. The two pipes are its two subsequences: `cmdpipe` and
`msgpipe`. The engine sees two FIFO queues and not how they interleave, so it
may read the first command or the first message (`handleCommand`,
`handleMessage`).

Pattern matching is the parameter `rex`.

* `Holds sel c p`: client `c` is listed for pattern `p`. `holds_compile` and
  `holds_cancel` are the meaning of the two commands.
* `Distinct`: one selector per pattern, no client twice in a selector.
* `holds_runIssues_of_no_cancel`, `runIssues_holds_cases`: what a sequence of
  commands does to one client.
-/
namespace Malamute.L2
open Malamute.Core Malamute.L1

/-- The identity of a client context: the pointer the pipes carry. -/
abbrev Cid := Nat

/-- mirrors src/src/mlm_stream_simple.c:27-31 -/
structure Selector where
  pattern : Str
  clients : List Cid
  deriving DecidableEq

inductive Command where
  | compile (client : Cid) (pattern : Str)
  | cancel (client : Cid)
  deriving DecidableEq

/-- What the server writes to an engine. -/
inductive Issue where
  | command (k : Command)
  | message (sender : Cid) (m : Msg)
  deriving DecidableEq

/-- What an engine writes to the server. -/
inductive Traffic where
  | deliver (client : Cid) (m : Msg)
  /-- `MLM_STREAM_ACK_CANCEL` -/
  | ack (client : Cid)
  deriving DecidableEq

/-! ## Selectors -/

/-- A duplicate client is ignored. -/
def Selector.add (client : Cid) (s : Selector) : Selector where
  pattern := s.pattern
  clients := if client ∈ s.clients then s.clients else s.clients ++ [client]

/-- mirrors src/src/mlm_stream_simple.c:111-133 -/
def compile (client : Cid) (pattern : Str) : List Selector → List Selector
  | [] => [⟨pattern, [client]⟩]
  | s :: sel =>
    if s.pattern = pattern then s.add client :: sel else s :: compile client pattern sel

/-- mirrors src/src/mlm_stream_simple.c:135-145: the first occurrence in each
selector -/
def cancel (client : Cid) (sel : List Selector) : List Selector :=
  sel.map fun s => { s with clients := s.clients.erase client }

def runCommand (sel : List Selector) : Command → List Selector
  | .compile c p => compile c p sel
  | .cancel c => cancel c sel

/-- The selectors after all commands among `is`. -/
def runIssues (sel : List Selector) (is : List Issue) : List Selector :=
  is.foldl (fun sel i => match i with | .command k => runCommand sel k | .message _ _ => sel) sel

def Holds (sel : List Selector) (c : Cid) (p : Str) : Prop :=
  ∃ s ∈ sel, s.pattern = p ∧ c ∈ s.clients

instance (sel : List Selector) (c : Cid) (p : Str) : Decidable (Holds sel c p) :=
  inferInstanceAs (Decidable (∃ s ∈ sel, s.pattern = p ∧ c ∈ s.clients))

/-- Patterns are pairwise distinct, and so are the clients of one pattern. -/
structure Distinct (sel : List Selector) : Prop where
  patterns : (sel.map Selector.pattern).Nodup
  clients : ∀ s ∈ sel, s.clients.Nodup

theorem distinct_nil : Distinct [] := ⟨by simp, by simp⟩

@[simp] theorem holds_nil (c : Cid) (p : Str) : ¬ Holds [] c p := by simp [Holds]

theorem holds_cons (s : Selector) (sel : List Selector) (c : Cid) (p : Str) :
    Holds (s :: sel) c p ↔ (s.pattern = p ∧ c ∈ s.clients) ∨ Holds sel c p := by
  simp [Holds]

@[simp] theorem Selector.add_pattern (c : Cid) (s : Selector) : (s.add c).pattern = s.pattern :=
  rfl

theorem Selector.mem_add {c d : Cid} {s : Selector} : d ∈ (s.add c).clients ↔ d = c ∨ d ∈ s.clients := by
  unfold add
  by_cases hc : c ∈ s.clients
  · simp only [hc, if_true]
    constructor
    · exact .inr
    · rintro (rfl | h)
      · exact hc
      · exact h
  · simp [hc, or_comm]

theorem Selector.nodup_add {c : Cid} {s : Selector} (h : s.clients.Nodup) :
    (s.add c).clients.Nodup := by
  unfold add
  by_cases hc : c ∈ s.clients
  · simpa [hc] using h
  · simp only [hc, if_false]
    exact List.Nodup.append h (by simp) (List.disjoint_singleton.2 hc)

theorem mem_compile_pattern {c : Cid} {p q : Str} {sel : List Selector} :
    q ∈ (compile c p sel).map Selector.pattern ↔ q = p ∨ q ∈ sel.map Selector.pattern := by
  induction sel with
  | nil => simp [compile]
  | cons s sel ih =>
    by_cases hs : s.pattern = p
    · simp [compile, hs]
    · simp only [compile, hs, if_false, List.map_cons, List.mem_cons, ih]
      tauto

theorem Distinct.tail {s : Selector} {sel : List Selector} (h : Distinct (s :: sel)) :
    Distinct sel := by
  refine ⟨?_, fun t ht => h.clients t (List.mem_cons_of_mem _ ht)⟩
  have := h.patterns
  simp only [List.map_cons, List.nodup_cons] at this
  exact this.2

theorem distinct_compile {sel : List Selector} (h : Distinct sel) (c : Cid) (p : Str) :
    Distinct (compile c p sel) := by
  induction sel with
  | nil => exact ⟨by simp [compile], by simp [compile]⟩
  | cons s sel ih =>
    have hp := h.patterns
    simp only [List.map_cons, List.nodup_cons] at hp
    by_cases hs : s.pattern = p
    · simp only [compile, hs, if_true]
      refine ⟨by simpa only [List.map_cons, List.nodup_cons, Selector.add_pattern] using hp, ?_⟩
      intro t ht
      rcases List.mem_cons.1 ht with rfl | ht
      · exact Selector.nodup_add (h.clients s List.mem_cons_self)
      · exact h.tail.clients t ht
    · simp only [compile, hs, if_false]
      obtain ⟨hp', hc'⟩ := ih h.tail
      refine ⟨?_, ?_⟩
      · simp only [List.map_cons, List.nodup_cons, mem_compile_pattern]
        refine ⟨?_, hp'⟩
        rintro (h | h)
        · exact hs h
        · exact hp.1 h
      · intro t ht
        rcases List.mem_cons.1 ht with rfl | ht
        · exact h.clients _ List.mem_cons_self
        · exact hc' t ht

theorem distinct_cancel {sel : List Selector} (h : Distinct sel) (c : Cid) :
    Distinct (cancel c sel) := by
  refine ⟨?_, fun t ht => ?_⟩
  · simpa [cancel, Function.comp_def] using h.patterns
  · obtain ⟨s, hs, rfl⟩ := List.mem_map.1 ht
    exact (h.clients s hs).erase c

/-- COMPILE adds exactly one subscription. -/
theorem holds_compile {sel : List Selector} (c : Cid) (p : Str) (d : Cid) (q : Str) :
    Holds (compile c p sel) d q ↔ Holds sel d q ∨ (d = c ∧ q = p) := by
  induction sel with
  | nil => simp [compile, Holds, eq_comm, and_comm]
  | cons s sel ih =>
    by_cases hs : s.pattern = p
    · simp only [compile, hs, if_true, holds_cons, Selector.add_pattern, Selector.mem_add]
      constructor
      · rintro (⟨h1, rfl | h2⟩ | h)
        · exact .inr ⟨rfl, h1.symm⟩
        · exact .inl (.inl ⟨h1, h2⟩)
        · exact .inl (.inr h)
      · rintro ((⟨h1, h2⟩ | h) | ⟨rfl, rfl⟩)
        · exact .inl ⟨h1, .inr h2⟩
        · exact .inr h
        · exact .inl ⟨rfl, .inl rfl⟩
    · simp only [compile, hs, if_false, holds_cons, ih, or_assoc]

/-- CANCEL removes every subscription of one client. -/
theorem holds_cancel {sel : List Selector} (hd : Distinct sel) (c d : Cid) (q : Str) :
    Holds (cancel c sel) d q ↔ Holds sel d q ∧ d ≠ c := by
  unfold Holds cancel
  simp only [List.mem_map]
  constructor
  · rintro ⟨_, ⟨s, hs, rfl⟩, hp, hm⟩
    have := (List.Nodup.mem_erase_iff (hd.clients s hs)).1 hm
    exact ⟨⟨s, hs, hp, this.2⟩, this.1⟩
  · rintro ⟨⟨s, hs, hp, hm⟩, hne⟩
    exact ⟨_, ⟨s, hs, rfl⟩, hp, (List.Nodup.mem_erase_iff (hd.clients s hs)).2 ⟨hne, hm⟩⟩

/-! ## Command sequences -/

theorem distinct_runCommand {sel : List Selector} (h : Distinct sel) (k : Command) :
    Distinct (runCommand sel k) := by
  cases k with
  | compile c p => exact distinct_compile h c p
  | cancel c => exact distinct_cancel h c

@[simp] theorem runIssues_nil (sel : List Selector) : runIssues sel [] = sel := rfl

@[simp] theorem runIssues_command (sel : List Selector) (k : Command) (is : List Issue) :
    runIssues sel (.command k :: is) = runIssues (runCommand sel k) is := rfl

@[simp] theorem runIssues_message (sel : List Selector) (c : Cid) (m : Msg) (is : List Issue) :
    runIssues sel (.message c m :: is) = runIssues sel is := rfl

theorem runIssues_append (sel : List Selector) (is js : List Issue) :
    runIssues sel (is ++ js) = runIssues (runIssues sel is) js := by
  simp [runIssues, List.foldl_append]

theorem distinct_runIssues {sel : List Selector} (h : Distinct sel) (is : List Issue) :
    Distinct (runIssues sel is) := by
  induction is generalizing sel with
  | nil => exact h
  | cons i is ih =>
    cases i with
    | command k => exact ih (distinct_runCommand h k)
    | message c m => exact ih h

/-- A client listed now, or in a COMPILE to come, is listed at the end unless a
CANCEL for it is to come. -/
theorem holds_runIssues_of_no_cancel {sel : List Selector} (hd : Distinct sel) {is : List Issue}
    {c : Cid} (hno : Issue.command (.cancel c) ∉ is) {p : Str}
    (h : Holds sel c p ∨ Issue.command (.compile c p) ∈ is) : Holds (runIssues sel is) c p := by
  induction is generalizing sel with
  | nil => simpa using h
  | cons i is ih =>
    have hno' : Issue.command (.cancel c) ∉ is := fun h => hno (List.mem_cons_of_mem _ h)
    cases i with
    | message d m =>
      refine ih hd hno' ?_
      simpa using h
    | command k =>
      refine ih (distinct_runCommand hd k) hno' ?_
      cases k with
      | compile d q =>
        simp only [runCommand, holds_compile]
        simp only [List.mem_cons, Issue.command.injEq, Command.compile.injEq] at h
        tauto
      | cancel d =>
        have hne : c ≠ d := by
          rintro rfl; exact hno List.mem_cons_self
        simp only [runCommand, holds_cancel hd]
        simp only [List.mem_cons, Issue.command.injEq, reduceCtorEq, false_or] at h
        tauto

/-- A client listed at the end is listed now or in a COMPILE to come. -/
theorem runIssues_holds_cases {sel : List Selector} (hd : Distinct sel) {is : List Issue} {c : Cid}
    {p : Str} (h : Holds (runIssues sel is) c p) :
    Holds sel c p ∨ Issue.command (.compile c p) ∈ is := by
  induction is generalizing sel with
  | nil => exact .inl h
  | cons i is ih =>
    cases i with
    | message d m =>
      rcases ih hd h with h | h
      · exact .inl h
      · exact .inr (List.mem_cons_of_mem _ h)
    | command k =>
      rcases ih (distinct_runCommand hd k) h with h | h
      · cases k with
        | compile d q =>
          rcases (holds_compile ..).1 h with h | ⟨rfl, rfl⟩
          · exact .inl h
          · exact .inr List.mem_cons_self
        | cancel d => exact .inl ((holds_cancel hd ..).1 h).1
      · exact .inr (List.mem_cons_of_mem _ h)

/-! ## The engine and its pipes -/

/-- A stream: the engine's selectors and the contents of its pipes.
mirrors src/src/mlm_server.c:50-54 and src/src/mlm_stream_simple.c:69-77 -/
structure Stream where
  selectors : List Selector
  pending : List Issue
  up : List Traffic

namespace Stream

def new : Stream := ⟨[], [], []⟩

def isCommand : Issue → Bool
  | .command _ => true
  | .message _ _ => false

def cmdpipe (st : Stream) : List Issue := st.pending.filter isCommand

def msgpipe (st : Stream) : List Issue := st.pending.filter (fun i => !isCommand i)

/-- The server writes to one of the two pipes. -/
def push (st : Stream) (i : Issue) : Stream := { st with pending := st.pending ++ [i] }

/-- mirrors src/src/mlm_stream_simple.c:166-178: read the first command;
`none` if the command pipe is empty -/
def handleCommand (st : Stream) : Option Stream :=
  match st.pending.find? isCommand with
  | some (.command k) => some {
      selectors := runCommand st.selectors k
      pending := st.pending.eraseP isCommand
      up := match k with
        | .compile _ _ => st.up
        | .cancel c => st.up ++ [.ack c] }
  | _ => none

/-- The clients a message of `sender` is forwarded to, in order.
mirrors src/src/mlm_stream_simple.c:206-217 -/
def receivers (rex : Str → Str → Bool) (sel : List Selector) (sender : Cid) (m : Msg) : List Cid :=
  (sel.filter fun s => rex s.pattern m.subject).flatMap fun s => s.clients.filter (· ≠ sender)

/-- mirrors src/src/mlm_stream_simple.c:196-220: read the first message;
`none` if the message pipe is empty -/
def handleMessage (rex : Str → Str → Bool) (st : Stream) : Option (Stream × Msg × List Cid) :=
  match st.pending.find? (fun i => !isCommand i) with
  | some (.message sender m) =>
    let targets := receivers rex st.selectors sender m
    some ({ selectors := st.selectors
            pending := st.pending.eraseP (fun i => !isCommand i)
            up := st.up ++ targets.map (.deliver · m) }, m, targets)
  | _ => none

/-- Client `c` is in a selector, or in a command or an item of traffic that has
not been read. The sender that comes with a message does not count: the engine
compares it and never follows it. -/
inductive Names (st : Stream) (c : Cid) : Prop where
  | selector (p : Str) : Holds st.selectors c p → Names st c
  | compile (p : Str) : .command (.compile c p) ∈ st.pending → Names st c
  | cancel : .command (.cancel c) ∈ st.pending → Names st c
  | deliver (m : Msg) : .deliver c m ∈ st.up → Names st c
  | ack : .ack c ∈ st.up → Names st c

end Stream

theorem find_command {is : List Issue} {i : Issue} (h : is.find? Stream.isCommand = some i) :
    ∃ k pre post, i = .command k ∧ is = pre ++ .command k :: post ∧
      (∀ j ∈ pre, Stream.isCommand j = false) ∧ is.eraseP Stream.isCommand = pre ++ post := by
  induction is with
  | nil => cases h
  | cons j is ih =>
    cases j with
    | command k => cases h; exact ⟨k, [], is, rfl, rfl, by simp, rfl⟩
    | message c m =>
      obtain ⟨k, pre, post, rfl, rfl, hm, he⟩ := ih h
      refine ⟨k, .message c m :: pre, post, rfl, rfl, ?_, ?_⟩
      · simpa [Stream.isCommand] using hm
      · rw [List.eraseP_cons_of_neg (by simp [Stream.isCommand]), he]; rfl

theorem find_message {is : List Issue} {i : Issue}
    (h : is.find? (fun i => !Stream.isCommand i) = some i) :
    ∃ c m pre post, i = .message c m ∧ is = pre ++ .message c m :: post ∧
      (∀ j ∈ pre, Stream.isCommand j = true) ∧
      is.eraseP (fun i => !Stream.isCommand i) = pre ++ post := by
  induction is with
  | nil => cases h
  | cons j is ih =>
    cases j with
    | message c m => cases h; exact ⟨c, m, [], is, rfl, rfl, by simp, rfl⟩
    | command k =>
      obtain ⟨c, m, pre, post, rfl, rfl, hm, he⟩ := ih h
      refine ⟨c, m, .command k :: pre, post, rfl, rfl, ?_, ?_⟩
      · simpa [Stream.isCommand] using hm
      · rw [List.eraseP_cons_of_neg (by simp [Stream.isCommand]), he]; rfl

theorem runIssues_messages {sel : List Selector} {is : List Issue}
    (h : ∀ i ∈ is, Stream.isCommand i = false) : runIssues sel is = sel := by
  induction is with
  | nil => rfl
  | cons i is ih =>
    cases i with
    | command k => have := h _ List.mem_cons_self; cases this
    | message c m => exact ih fun j hj => h j (List.mem_cons_of_mem _ hj)

/-- What reading one command does. -/
theorem Stream.handleCommand_cases {st st' : Stream} (h : st.handleCommand = some st') :
    ∃ k pre post, st.pending = pre ++ .command k :: post ∧
      (∀ j ∈ pre, Stream.isCommand j = false) ∧
      st'.pending = pre ++ post ∧ st'.selectors = runCommand st.selectors k ∧
      st'.up = st.up ++ (match k with | .compile _ _ => [] | .cancel c => [.ack c]) := by
  unfold handleCommand at h
  split at h
  · rename_i k hf
    obtain ⟨k', pre, post, hk, hp, hm, he⟩ := find_command hf
    cases hk; cases h
    refine ⟨k, pre, post, hp, hm, he, rfl, ?_⟩
    cases k <;> simp
  · cases h

/-- What reading one message does. -/
theorem Stream.handleMessage_cases {rex : Str → Str → Bool} {st st' : Stream} {m : Msg}
    {targets : List Cid} (h : st.handleMessage rex = some (st', m, targets)) :
    ∃ sender pre post, st.pending = pre ++ .message sender m :: post ∧
      (∀ j ∈ pre, Stream.isCommand j = true) ∧ targets = receivers rex st.selectors sender m ∧
      st'.pending = pre ++ post ∧ st'.selectors = st.selectors ∧
      st'.up = st.up ++ targets.map (.deliver · m) := by
  unfold handleMessage at h
  split at h
  · rename_i sender m' hf
    obtain ⟨c', m'', pre, post, hk, hp, hm, he⟩ := find_message hf
    cases hk; cases h
    exact ⟨sender, pre, post, hp, hm, rfl, he, rfl, rfl⟩
  · cases h

namespace Stream
variable {st st' : Stream} {c : Cid}

theorem not_names_new (c : Cid) : ¬ new.Names c := by
  rintro (⟨p, s, hs, -⟩ | ⟨p, h⟩ | h | ⟨m, h⟩ | h)
  · cases hs
  all_goals cases h

/-- What a write adds to the names. -/
theorem names_push {i : Issue} (h : (st.push i).Names c) :
    st.Names c ∨ (∃ p, i = .command (.compile c p)) ∨ i = .command (.cancel c) := by
  cases h with
  | selector p h => exact .inl (.selector p h)
  | compile p h =>
    rcases List.mem_append.1 h with h | h
    · exact .inl (.compile p h)
    · exact .inr (.inl ⟨p, (List.mem_singleton.1 h).symm⟩)
  | cancel h =>
    rcases List.mem_append.1 h with h | h
    · exact .inl (.cancel h)
    · exact .inr (.inr (List.mem_singleton.1 h).symm)
  | deliver m h => exact .inl (.deliver m h)
  | ack h => exact .inl (.ack h)

/-- An item that has been read from the message pipe is gone. -/
theorem names_up {up : List Traffic} (hup : ∀ t ∈ up, t ∈ st.up)
    (h : ({ st with up := up } : Stream).Names c) : st.Names c := by
  cases h with
  | selector p h => exact .selector p h
  | compile p h => exact .compile p h
  | cancel h => exact .cancel h
  | deliver m h => exact .deliver m (hup _ h)
  | ack h => exact .ack (hup _ h)

/-- The engine names nobody who was not named before: a command moves a name
into the selectors or into an ACK. -/
theorem names_handleCommand (hd : Distinct st.selectors) (h : st.handleCommand = some st')
    (hn : st'.Names c) : st.Names c := by
  obtain ⟨k, pre, post, hp, -, hp', hs, hu⟩ := handleCommand_cases h
  have hmem : ∀ i ∈ st'.pending, i ∈ st.pending := by
    intro i hi
    rw [hp'] at hi
    rw [hp]
    simp only [List.mem_append, List.mem_cons] at hi ⊢
    tauto
  have hk : .command k ∈ st.pending := by rw [hp]; simp
  cases hn with
  | compile p h => exact .compile p (hmem _ h)
  | cancel h => exact .cancel (hmem _ h)
  | selector p h =>
    rw [hs] at h
    cases k with
    | compile d q =>
      rcases (holds_compile ..).1 h with h | ⟨rfl, rfl⟩
      · exact .selector p h
      · exact .compile p hk
    | cancel d => exact .selector p ((holds_cancel hd ..).1 h).1
  | deliver m h =>
    rw [hu, List.mem_append] at h
    rcases h with h | h
    · exact .deliver m h
    · cases k with
      | compile d q => cases h
      | cancel d => simp at h
  | ack h =>
    rw [hu, List.mem_append] at h
    rcases h with h | h
    · exact .ack h
    · cases k with
      | compile d q => cases h
      | cancel d =>
        simp only [List.mem_singleton, Traffic.ack.injEq] at h
        subst h
        exact .cancel hk

end Stream

/-- Messages and commands travel on different pipes: reading a message does not
change what the commands lead to. -/
theorem runIssues_skip_message (sel : List Selector) (pre : List Issue) (c : Cid) (m : Msg)
    (post : List Issue) :
    runIssues sel (pre ++ .message c m :: post) = runIssues sel (pre ++ post) := by
  simp [runIssues_append]

theorem runIssues_first_command {sel : List Selector} {pre post : List Issue} (k : Command)
    (h : ∀ i ∈ pre, Stream.isCommand i = false) :
    runIssues sel (pre ++ .command k :: post) = runIssues (runCommand sel k) (pre ++ post) := by
  simp [runIssues_append, runIssues_messages h]

theorem mem_receivers {rex : Str → Str → Bool} {sel : List Selector} {sender c : Cid} {m : Msg} :
    c ∈ Stream.receivers rex sel sender m ↔
      c ≠ sender ∧ ∃ p, Holds sel c p ∧ rex p m.subject = true := by
  simp only [Stream.receivers, List.mem_flatMap, List.mem_filter, decide_eq_true_eq, Holds]
  constructor
  · rintro ⟨s, ⟨hs, hr⟩, hc, hne⟩
    exact ⟨hne, s.pattern, ⟨s, hs, rfl, hc⟩, hr⟩
  · rintro ⟨hne, p, ⟨s, hs, rfl, hc⟩, hr⟩
    exact ⟨s, ⟨hs, hr⟩, hc, hne⟩

/-- A forwarded message goes to clients that a selector names. -/
theorem Stream.names_handleMessage {rex : Str → Str → Bool} {st st' : Stream} {c : Cid} {m : Msg}
    {targets : List Cid} (h : st.handleMessage rex = some (st', m, targets)) (hn : st'.Names c) :
    st.Names c := by
  obtain ⟨sender, pre, post, hp, -, rfl, hp', hs, hu⟩ := handleMessage_cases h
  have hmem : ∀ i ∈ st'.pending, i ∈ st.pending := by
    intro i hi
    rw [hp'] at hi
    rw [hp]
    simp only [List.mem_append, List.mem_cons] at hi ⊢
    tauto
  cases hn with
  | selector p h => rw [hs] at h; exact .selector p h
  | compile p h => exact .compile p (hmem _ h)
  | cancel h => exact .cancel (hmem _ h)
  | ack h =>
    rw [hu, List.mem_append] at h
    rcases h with h | h
    · exact .ack h
    · obtain ⟨d, -, hd⟩ := List.mem_map.1 h
      cases hd
  | deliver m' h =>
    rw [hu, List.mem_append] at h
    rcases h with h | h
    · exact .deliver m' h
    · obtain ⟨d, hmem, hd⟩ := List.mem_map.1 h
      cases hd
      obtain ⟨-, p, hp, -⟩ := mem_receivers.1 hmem
      exact .selector p hp

end Malamute.L2
