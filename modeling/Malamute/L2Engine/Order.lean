import Malamute.L2Engine.Stream

/-!
# Commands and messages out of order

An engine that read its two pipes in the order in which the server wrote to
them would forward what `expected` says. It may read them in another order, and
then a command changes who gets a message on the other side of it, if one of
its clients is listed for the subject before the command and not after it, or
the other way round (`indifferent`).

`expected_handleCommand`, `expected_handleMessage`: a step that is timely
forwards each message to the clients that would get it in order.
-/
namespace Malamute.L2
open Malamute.Core Malamute.L1

def Command.client : Command → Cid
  | compile c _ => c
  | cancel c => c

/-- Client `c` is listed for a pattern that matches. -/
def listed (rex : Str → Str → Bool) (sel : List Selector) (c : Cid) (subject : Str) : Bool :=
  sel.any fun s => rex s.pattern subject && decide (c ∈ s.clients)

/-- The clients of the commands in `is`. -/
def clients (is : List Issue) : List Cid :=
  is.filterMap fun
  | .command k => some k.client
  | .message _ _ => none

/-- It makes no difference to the message whether it is read before or after
`is`. -/
def indifferent (rex : Str → Str → Bool) (sel : List Selector) (is : List Issue) : Issue → Bool
  | .message d m => (clients is).all fun c =>
    c = d || listed rex (runIssues sel is) c m.subject = listed rex sel c m.subject
  | .command _ => true

namespace Stream

/-- The next command may be read: the messages written before it do not mind. -/
def CommandTimely (rex : Str → Str → Bool) (st : Stream) : Prop :=
  ∀ k ∈ st.pending.find? isCommand, ∀ i ∈ st.pending.takeWhile (fun i => !isCommand i),
    indifferent rex st.selectors [k] i = true

/-- The next message may be read: it does not mind the commands written before
it. -/
def MessageTimely (rex : Str → Str → Bool) (st : Stream) : Prop :=
  ∀ i ∈ st.pending.find? (fun i => !isCommand i),
    indifferent rex st.selectors (st.pending.takeWhile isCommand) i = true

instance (rex : Str → Str → Bool) (st : Stream) : Decidable (st.CommandTimely rex) :=
  inferInstanceAs (Decidable (∀ _ ∈ _, _))

instance (rex : Str → Str → Bool) (st : Stream) : Decidable (st.MessageTimely rex) :=
  inferInstanceAs (Decidable (∀ _ ∈ _, _))

end Stream

/-- What the engine forwards if it reads `is` in order: each message, with the
clients it goes to. -/
def expected (rex : Str → Str → Bool) : List Selector → List Issue → List (Msg × List Cid)
  | _, [] => []
  | sel, .command k :: is => expected rex (runCommand sel k) is
  | sel, .message c m :: is => (m, Stream.receivers rex sel c m) :: expected rex sel is

/-- The same message to the same clients. -/
def SameTargets (x y : Msg × List Cid) : Prop := x.1 = y.1 ∧ ∀ c, c ∈ x.2 ↔ c ∈ y.2

section
variable {rex : Str → Str → Bool} {sel sel' : List Selector} {is js : List Issue} {c d : Cid}
  {m : Msg} {subject : Str}

/-! ## Who is listed -/

theorem listed_iff : listed rex sel c subject = true ↔ ∃ p, Holds sel c p ∧ rex p subject = true := by
  simp only [listed, List.any_eq_true, Bool.and_eq_true, decide_eq_true_eq, Holds]
  constructor
  · rintro ⟨s, hs, hr, hc⟩
    exact ⟨s.pattern, ⟨s, hs, rfl, hc⟩, hr⟩
  · rintro ⟨p, ⟨s, hs, rfl, hc⟩, hr⟩
    exact ⟨s, hs, hr, hc⟩

theorem mem_receivers_iff :
    c ∈ Stream.receivers rex sel d m ↔ c ≠ d ∧ listed rex sel c m.subject = true := by
  rw [mem_receivers, listed_iff]

/-- A command is about one client. -/
theorem holds_runCommand_ne (hd : Distinct sel) {k : Command} (h : c ≠ k.client) (p : Str) :
    Holds (runCommand sel k) c p ↔ Holds sel c p := by
  cases k with
  | compile e q =>
    have hne : c ≠ e := h
    simp only [runCommand, holds_compile, hne, false_and, or_false]
  | cancel e =>
    have hne : c ≠ e := h
    simp only [runCommand, holds_cancel hd, ne_eq, hne, not_false_eq_true, and_true]

theorem holds_runIssues_ne (hd : Distinct sel) (h : c ∉ clients is) (p : Str) :
    Holds (runIssues sel is) c p ↔ Holds sel c p := by
  induction is generalizing sel with
  | nil => rfl
  | cons i is ih =>
    cases i with
    | command k =>
      simp only [clients, List.filterMap_cons, List.mem_cons, not_or] at h
      rw [runIssues_command, ih (distinct_runCommand hd k) h.2, holds_runCommand_ne hd h.1]
    | message e m => exact ih hd h

theorem mem_receivers_of_indifferent (hd : Distinct sel)
    (h : indifferent rex sel is (.message d m) = true) (c : Cid) :
    c ∈ Stream.receivers rex (runIssues sel is) d m ↔ c ∈ Stream.receivers rex sel d m := by
  simp only [mem_receivers_iff]
  by_cases hcd : c = d
  · simp [hcd]
  · by_cases hc : c ∈ clients is
    · simp only [indifferent, List.all_eq_true, Bool.or_eq_true, decide_eq_true_eq] at h
      rw [(h c hc).resolve_left hcd]
    · simp only [listed_iff, holds_runIssues_ne hd hc]

/-! ## Reading in order -/

theorem expected_append (sel : List Selector) (is js : List Issue) :
    expected rex sel (is ++ js) = expected rex sel is ++ expected rex (runIssues sel is) js := by
  induction is generalizing sel with
  | nil => rfl
  | cons i is ih =>
    cases i with
    | command k => exact ih (runCommand sel k)
    | message c m =>
      rw [List.cons_append, expected, expected, ih, List.cons_append, runIssues_message]

theorem expected_commands (h : ∀ i ∈ is, Stream.isCommand i = true) : expected rex sel is = [] := by
  induction is generalizing sel with
  | nil => rfl
  | cons i is ih =>
    cases i with
    | command k => exact ih fun j hj => h j (List.mem_cons_of_mem _ hj)
    | message c m => cases h _ List.mem_cons_self

theorem SameTargets.trans {x y z : Msg × List Cid} (h : SameTargets x y) (h' : SameTargets y z) :
    SameTargets x z := ⟨h.1.trans h'.1, fun c => (h.2 c).trans (h'.2 c)⟩

instance : Std.Refl SameTargets := ⟨fun _ => ⟨rfl, fun _ => .rfl⟩⟩

theorem forall₂_trans {l₁ l₂ l₃ : List (Msg × List Cid)} (h : List.Forall₂ SameTargets l₁ l₂)
    (h' : List.Forall₂ SameTargets l₂ l₃) : List.Forall₂ SameTargets l₁ l₃ := by
  induction h generalizing l₃ with
  | nil => exact h'
  | cons hx _ ih =>
    cases h' with
    | cons hy h' => exact .cons (hx.trans hy) (ih h')

/-- Messages alone go to those that the selectors list. -/
theorem expected_messages (h : ∀ i ∈ is, Stream.isCommand i = false)
    (hs : ∀ d m, .message d m ∈ is →
      ∀ c, c ∈ Stream.receivers rex sel d m ↔ c ∈ Stream.receivers rex sel' d m) :
    List.Forall₂ SameTargets (expected rex sel is) (expected rex sel' is) := by
  induction is with
  | nil => exact .nil
  | cons i is ih =>
    cases i with
    | command k => cases h _ List.mem_cons_self
    | message d m =>
      refine .cons ⟨rfl, hs d m List.mem_cons_self⟩ (ih ?_ ?_)
      · exact fun j hj => h j (List.mem_cons_of_mem _ hj)
      · exact fun d m hm => hs d m (List.mem_cons_of_mem _ hm)

/-! ## Timely steps -/

/-- The pipes, seen from their first items. -/
theorem find_command_of_split {pre p : List Issue} {k : Command}
    (h : ∀ i ∈ pre, Stream.isCommand i = false) :
    (pre ++ .command k :: p).find? Stream.isCommand = some (.command k) ∧
      (pre ++ .command k :: p).takeWhile (fun i => !Stream.isCommand i) = pre := by
  have hpre : ∀ i ∈ pre, (!Stream.isCommand i) = true := by
    intro i hi
    rw [h i hi]
    rfl
  refine ⟨?_, ?_⟩
  · rw [List.find?_append, List.find?_eq_none.2 (by simpa using h)]
    rfl
  · rw [List.takeWhile_append_of_pos hpre]
    simp [Stream.isCommand]

theorem find_message_of_split {pre p : List Issue} (h : ∀ i ∈ pre, Stream.isCommand i = true) :
    (pre ++ .message d m :: p).find? (fun i => !Stream.isCommand i) = some (.message d m) ∧
      (pre ++ .message d m :: p).takeWhile Stream.isCommand = pre := by
  refine ⟨?_, ?_⟩
  · rw [List.find?_append, List.find?_eq_none.2 (by simpa using h)]
    rfl
  · rw [List.takeWhile_append_of_pos h]
    simp [Stream.isCommand]

variable {st st' : Stream} {targets : List Cid}

/-- **A timely command** leaves what is expected as it is. -/
theorem expected_handleCommand (hd : Distinct st.selectors) (ht : st.CommandTimely rex)
    (h : st.handleCommand = some st') :
    List.Forall₂ SameTargets (expected rex st.selectors st.pending)
      (expected rex st'.selectors st'.pending) := by
  obtain ⟨k, pre, post, hp, hpre, hp', hs, -⟩ := Stream.handleCommand_cases h
  obtain ⟨hfind, htake⟩ := find_command_of_split (k := k) (p := post) hpre
  unfold Stream.CommandTimely at ht
  rw [hp, hfind, htake] at ht
  rw [hp, hp', hs, expected_append, expected_append, runIssues_messages hpre,
    runIssues_messages hpre]
  refine List.rel_append (expected_messages hpre fun d m hm c => ?_) (List.forall₂_refl _)
  have hone : runCommand st.selectors k = runIssues st.selectors [.command k] := rfl
  rw [hone]
  exact (mem_receivers_of_indifferent hd (ht _ rfl _ hm) c).symm

/-- **A timely message** goes to those it is expected to go to. -/
theorem expected_handleMessage (hd : Distinct st.selectors) (ht : st.MessageTimely rex)
    (h : st.handleMessage rex = some (st', m, targets)) :
    List.Forall₂ SameTargets (expected rex st.selectors st.pending)
      ((m, targets) :: expected rex st'.selectors st'.pending) := by
  obtain ⟨sender, pre, post, hp, hpre, rfl, hp', hs, -⟩ := Stream.handleMessage_cases h
  obtain ⟨hfind, htake⟩ := find_message_of_split (d := sender) (m := m) (p := post) hpre
  unfold Stream.MessageTimely at ht
  rw [hp, hfind, htake] at ht
  rw [hp, hp', hs, expected_append, expected_append, expected_commands hpre]
  exact .cons ⟨rfl, mem_receivers_of_indifferent hd (ht _ rfl)⟩ (List.forall₂_refl _)

end
end Malamute.L2
