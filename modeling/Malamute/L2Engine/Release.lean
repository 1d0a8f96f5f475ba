import Malamute.L2Engine.Stream
import Mathlib.Data.List.Count

/-!
# Letting go of a client

A client may be forgotten once no engine can name it any more. `releases c`
counts the CANCELs of `c` an engine has not read and the ACKs the server has
not read; `final` is what the selectors come to when the engine has read all
its commands. Reading a command or a message changes neither
(`releases_handleCommand`, `final_handleCommand` and so on), so both are moved
by the server alone.

`names_cases`: whoever is named in a stream or its pipes is in `final` or has a
release on its way. For forwarded messages this rests on `Tracked`: the ACK of
a client comes after all messages to it.
-/
namespace Malamute.L2.Stream
open Malamute.L1

def releases (c : Cid) (st : Stream) : Nat :=
  st.pending.count (.command (.cancel c)) + st.up.count (.ack c)

def final (st : Stream) : List Selector := runIssues st.selectors st.pending

/-- The addressee of every forwarded message is still listed, or is about to be
released, behind the message. -/
def Tracked (st : Stream) : Prop :=
  ∀ c m pre post, st.up = pre ++ .deliver c m :: post →
    (∃ p, Holds st.selectors c p) ∨ .command (.cancel c) ∈ st.pending ∨ .ack c ∈ post

variable {st st' : Stream} {c : Cid}

@[simp] theorem releases_new (c : Cid) : new.releases c = 0 := rfl

@[simp] theorem final_new : new.final = [] := rfl

theorem tracked_new : Tracked new := by
  intro c m pre post h
  cases pre <;> cases h

theorem releases_pos (h : 0 < st.releases c) :
    .command (.cancel c) ∈ st.pending ∨ .ack c ∈ st.up := by
  unfold releases at h
  by_cases hp : .command (.cancel c) ∈ st.pending
  · exact .inl hp
  · right
    rw [List.count_eq_zero.2 hp, Nat.zero_add] at h
    exact List.count_pos_iff.1 h

theorem releases_pos_of_cancel (h : .command (.cancel c) ∈ st.pending) : 0 < st.releases c := by
  have := List.count_pos_iff.2 h
  unfold releases
  omega

theorem releases_pos_of_ack (h : .ack c ∈ st.up) : 0 < st.releases c := by
  have := List.count_pos_iff.2 h
  unfold releases
  omega

/-! ## Writing -/

theorem releases_push (st : Stream) (i : Issue) (c : Cid) :
    (st.push i).releases c = st.releases c + if i = .command (.cancel c) then 1 else 0 := by
  unfold releases push
  rw [List.count_append, List.count_singleton]
  simp only [beq_iff_eq]
  omega

theorem final_push_command (st : Stream) (k : Command) :
    (st.push (.command k)).final = runCommand st.final k := by
  simp [final, push, runIssues_append]

theorem final_push_message (st : Stream) (d : Cid) (m : Msg) :
    (st.push (.message d m)).final = st.final := by
  simp [final, push, runIssues_append]

theorem Tracked.push (h : Tracked st) (i : Issue) : Tracked (st.push i) := by
  intro c m pre post hup
  rcases h c m pre post hup with hs | hp | ha
  · exact .inl hs
  · exact .inr (.inl (List.mem_append_left _ hp))
  · exact .inr (.inr ha)

/-! ## Reading -/

theorem final_handleCommand (h : st.handleCommand = some st') : st'.final = st.final := by
  obtain ⟨k, pre, post, hp, hpre, hp', hs, -⟩ := handleCommand_cases h
  unfold final
  rw [hp, hp', hs, runIssues_first_command k hpre]

theorem releases_handleCommand (h : st.handleCommand = some st') (c : Cid) :
    st'.releases c = st.releases c := by
  obtain ⟨k, pre, post, hp, -, hp', -, hu⟩ := handleCommand_cases h
  unfold releases
  rw [hp, hp', hu]
  cases k with
  | compile d p =>
    have hne : (Issue.command (.compile d p) == Issue.command (.cancel c)) = false := by simp
    simp only [List.count_append, List.count_cons, hne, List.append_nil]
    simp
  | cancel d =>
    simp only [List.count_append, List.count_cons, List.count_nil, beq_iff_eq,
      Issue.command.injEq, Command.cancel.injEq, Traffic.ack.injEq]
    omega

theorem Tracked.handleCommand (hd : Distinct st.selectors) (ht : Tracked st)
    (h : st.handleCommand = some st') : Tracked st' := by
  obtain ⟨k, pre, post, hp, -, hp', hs, hu⟩ := handleCommand_cases h
  -- a CANCEL that is pending is still pending, or was the command that has been read
  have hpend : ∀ c, .command (.cancel c) ∈ st.pending →
      .command (.cancel c) ∈ st'.pending ∨ k = .cancel c := by
    intro c hc
    rw [hp] at hc
    rw [hp']
    simp only [List.mem_append, List.mem_cons, Issue.command.injEq] at hc ⊢
    tauto
  cases k with
  | compile d q =>
    intro c m pre' post' hup
    rw [hu, List.append_nil] at hup
    rcases ht c m pre' post' hup with ⟨p, hc⟩ | hc | hc
    · exact .inl ⟨p, by rw [hs]; exact (holds_compile ..).2 (.inl hc)⟩
    · rcases hpend c hc with hc | hc
      · exact .inr (.inl hc)
      · cases hc
    · exact .inr (.inr hc)
  | cancel d =>
    intro c m pre' post' hup
    rw [hu] at hup
    -- the new ACK is the last item
    rcases List.eq_nil_or_concat post' with rfl | ⟨post'', t, rfl⟩
    · have := List.append_inj_right' hup rfl
      cases this
    · rw [List.concat_eq_append, ← List.cons_append, ← List.append_assoc] at hup
      have hlast := List.append_inj_right' hup rfl
      have hinit := List.append_inj_left' hup rfl
      cases hlast
      rw [List.concat_eq_append]
      by_cases hc : c = d
      · subst hc
        exact .inr (.inr (by simp))
      · rcases ht c m pre' post'' hinit with ⟨p, h⟩ | h | h
        · exact .inl ⟨p, by rw [hs]; exact (holds_cancel hd ..).2 ⟨h, hc⟩⟩
        · rcases hpend c h with h | h
          · exact .inr (.inl h)
          · cases h
            exact absurd rfl hc
        · exact .inr (.inr (List.mem_append_left _ h))

variable {rex : Str → Str → Bool} {m : Msg} {targets : List Cid}

theorem final_handleMessage (h : st.handleMessage rex = some (st', m, targets)) :
    st'.final = st.final := by
  obtain ⟨sender, pre, post, hp, -, -, hp', hs, -⟩ := handleMessage_cases h
  unfold final
  rw [hp, hp', hs, runIssues_skip_message]

theorem releases_handleMessage (h : st.handleMessage rex = some (st', m, targets)) (c : Cid) :
    st'.releases c = st.releases c := by
  obtain ⟨sender, pre, post, hp, -, -, hp', -, hu⟩ := handleMessage_cases h
  have hacks : (targets.map (Traffic.deliver · m)).count (.ack c) = 0 := by
    rw [List.count_eq_zero]
    intro hc
    obtain ⟨d, -, hd⟩ := List.mem_map.1 hc
    cases hd
  have hne : (Issue.message sender m == Issue.command (.cancel c)) = false := by simp
  unfold releases
  rw [hp, hp', hu]
  simp only [List.count_append, List.count_cons, hne, hacks]
  simp

theorem Tracked.handleMessage (ht : Tracked st)
    (h : st.handleMessage rex = some (st', m, targets)) : Tracked st' := by
  obtain ⟨sender, pre, post, hp, -, rfl, hp', hs, hu⟩ := handleMessage_cases h
  intro c m' pre' post' hup
  rw [hu] at hup
  rcases List.append_eq_append_iff.1 hup with ⟨as, -, hnew⟩ | ⟨as, hold, hrest⟩
  · -- the item is one of those that have just been forwarded
    left
    have hmem : Traffic.deliver c m' ∈
        (receivers rex st.selectors sender m).map (Traffic.deliver · m) := by
      rw [hnew]; simp
    obtain ⟨d, hd, he⟩ := List.mem_map.1 hmem
    cases he
    obtain ⟨-, p, hp, -⟩ := mem_receivers.1 hd
    exact ⟨p, by rw [hs]; exact hp⟩
  · cases as with
    | nil =>
      left
      have hmem : Traffic.deliver c m' ∈
          (receivers rex st.selectors sender m).map (Traffic.deliver · m) := by
        rw [← List.nil_append (List.map _ _), ← hrest]; simp
      obtain ⟨d, hd, he⟩ := List.mem_map.1 hmem
      cases he
      obtain ⟨-, p, hp, -⟩ := mem_receivers.1 hd
      exact ⟨p, by rw [hs]; exact hp⟩
    | cons t as =>
      rw [List.cons_append] at hrest
      cases hrest
      rcases ht c m' pre' as hold with h | h | h
      · exact .inl (by rw [hs]; exact h)
      · refine .inr (.inl ?_)
        rw [hp] at h
        rw [hp']
        simpa using h
      · exact .inr (.inr (List.mem_append_left _ h))

/-- The server reads the first item of the message pipe. -/
theorem releases_pop {t : Traffic} {up : List Traffic} (h : st.up = t :: up) (c : Cid) :
    st.releases c = ({ st with up := up } : Stream).releases c + if t = .ack c then 1 else 0 := by
  unfold releases
  rw [h, List.count_cons]
  simp only [beq_iff_eq]
  omega

theorem Tracked.pop (ht : Tracked st) {t : Traffic} {up : List Traffic} (h : st.up = t :: up) :
    Tracked { st with up := up } := by
  intro c m pre post hup
  exact ht c m (t :: pre) post (by rw [h, show up = _ from hup]; rfl)

/-! ## Who is named -/

theorem names_cases (hd : Distinct st.selectors) (ht : Tracked st) (h : st.Names c) :
    0 < st.releases c ∨ ∃ p, Holds st.final c p := by
  have hlisted : ∀ p, (Holds st.selectors c p ∨ .command (.compile c p) ∈ st.pending) →
      0 < st.releases c ∨ ∃ p, Holds st.final c p := by
    intro p hp
    by_cases hc : .command (.cancel c) ∈ st.pending
    · exact .inl (releases_pos_of_cancel hc)
    · exact .inr ⟨p, holds_runIssues_of_no_cancel hd hc hp⟩
  cases h with
  | selector p h => exact hlisted p (.inl h)
  | compile p h => exact hlisted p (.inr h)
  | cancel h => exact .inl (releases_pos_of_cancel h)
  | ack h => exact .inl (releases_pos_of_ack h)
  | deliver m h =>
    obtain ⟨pre, post, hup⟩ := List.append_of_mem h
    rcases ht c m pre post hup with ⟨p, hp⟩ | hc | ha
    · exact hlisted p (.inl hp)
    · exact .inl (releases_pos_of_cancel hc)
    · refine .inl (releases_pos_of_ack ?_)
      rw [hup]
      exact List.mem_append_right _ (List.mem_cons_of_mem _ ha)

end Malamute.L2.Stream
