import Malamute.L2Engine.Stream
import Mathlib.Data.List.Count
import Mathlib.Data.List.Induction

/-!
# Who gets a stream message

`Subscribed cs c p`: in the command sequence `cs`, COMPILE of `(c, p)` was not
followed by CANCEL of `c`. The selector table represents exactly these pairs
(`holds_selectorsAfter`).

`forwarded` is what the engine writes for one message after `cs`. A client gets
one copy per selector that lists it and matches (`count_receivers`), and
selectors are per pattern, so

* `forwarded_exactly_once_iff`: every subscriber other than the sender gets
  the message exactly once, and nobody else gets it, iff no client other than
  the sender is subscribed with two patterns that both match the subject;
* `forwarded_twice`: two overlapping patterns of one reader are enough for two
  copies.
-/
namespace Malamute.L2
open Malamute.Core Malamute.L1

def Subscribed (cs : List Command) (c : Cid) (p : Str) : Prop :=
  ∃ pre post, cs = pre ++ .compile c p :: post ∧ Command.cancel c ∉ post

/-- The selectors of an engine that has processed `cs`. -/
def selectorsAfter (cs : List Command) : List Selector := cs.foldl runCommand []

theorem selectorsAfter_snoc (cs : List Command) (k : Command) :
    selectorsAfter (cs ++ [k]) = runCommand (selectorsAfter cs) k := by
  simp [selectorsAfter]

theorem distinct_selectorsAfter (cs : List Command) : Distinct (selectorsAfter cs) := by
  induction cs using List.reverseRecOn with
  | nil => exact distinct_nil
  | append_singleton cs k ih => rw [selectorsAfter_snoc]; exact distinct_runCommand ih k

theorem subscribed_nil (c : Cid) (p : Str) : ¬ Subscribed [] c p := by
  rintro ⟨pre, post, h, -⟩
  cases pre <;> cases h

theorem subscribed_compile (cs : List Command) (d : Cid) (q : Str) (c : Cid) (p : Str) :
    Subscribed (cs ++ [.compile d q]) c p ↔ Subscribed cs c p ∨ (c = d ∧ p = q) := by
  constructor
  · rintro ⟨pre, post, h, hno⟩
    rcases List.eq_nil_or_concat post with rfl | ⟨post, k, rfl⟩
    · have := List.append_inj_right' h rfl
      cases this; exact .inr ⟨rfl, rfl⟩
    · rw [List.concat_eq_append, ← List.cons_append, ← List.append_assoc] at h
      refine .inl ⟨pre, post, List.append_inj_left' h rfl, fun hm => hno ?_⟩
      rw [List.concat_eq_append]; exact List.mem_append_left _ hm
  · rintro (⟨pre, post, rfl, hno⟩ | ⟨rfl, rfl⟩)
    · refine ⟨pre, post ++ [.compile d q], by simp, ?_⟩
      simpa using hno
    · exact ⟨cs, [], rfl, by simp⟩

theorem subscribed_cancel (cs : List Command) (d c : Cid) (p : Str) :
    Subscribed (cs ++ [.cancel d]) c p ↔ Subscribed cs c p ∧ c ≠ d := by
  constructor
  · rintro ⟨pre, post, h, hno⟩
    rcases List.eq_nil_or_concat post with rfl | ⟨post, k, rfl⟩
    · have := List.append_inj_right' h rfl
      cases this
    · rw [List.concat_eq_append] at h hno
      rw [← List.cons_append, ← List.append_assoc] at h
      have hk : [Command.cancel d] = [k] := List.append_inj_right' h rfl
      cases hk
      simp only [List.mem_append, List.mem_singleton, not_or, Command.cancel.injEq] at hno
      exact ⟨⟨pre, post, List.append_inj_left' h rfl, hno.1⟩, hno.2⟩
  · rintro ⟨⟨pre, post, rfl, hno⟩, hne⟩
    refine ⟨pre, post ++ [.cancel d], by simp, ?_⟩
    simp only [List.mem_append, List.mem_singleton, not_or, Command.cancel.injEq]
    exact ⟨hno, hne⟩

/-- The selector table represents the subscriptions. -/
theorem holds_selectorsAfter (cs : List Command) (c : Cid) (p : Str) :
    Holds (selectorsAfter cs) c p ↔ Subscribed cs c p := by
  induction cs using List.reverseRecOn with
  | nil => simp [selectorsAfter, subscribed_nil]
  | append_singleton cs k ih =>
    rw [selectorsAfter_snoc]
    cases k with
    | compile d q => simp only [runCommand, holds_compile, subscribed_compile, ih]
    | cancel d =>
      simp only [runCommand, holds_cancel (distinct_selectorsAfter cs), subscribed_cancel, ih]

/-! ## Copies of one message -/

/-- The selectors that forward a message with this subject to `c`. -/
def matching (rex : Str → Str → Bool) (subject : Str) (sel : List Selector) (c : Cid) :
    List Selector := sel.filter fun s => rex s.pattern subject && decide (c ∈ s.clients)

/-- A client gets one copy for each of its selectors that match. -/
theorem count_receivers (rex : Str → Str → Bool) {sel : List Selector} (hd : Distinct sel)
    (sender : Cid) (m : Msg) {c : Cid} (hc : c ≠ sender) :
    (Stream.receivers rex sel sender m).count c = (matching rex m.subject sel c).length := by
  induction sel with
  | nil => rfl
  | cons s sel ih =>
    have hcount : (s.clients.filter (· ≠ sender)).count c = if c ∈ s.clients then 1 else 0 := by
      rw [List.count_filter (by simpa using hc)]
      exact (hd.clients s List.mem_cons_self).count
    simp only [Stream.receivers, matching] at ih ⊢
    by_cases hr : rex s.pattern m.subject = true
    · rw [List.filter_cons_of_pos (by simpa using hr), List.flatMap_cons, List.count_append,
        hcount, ih hd.tail]
      by_cases hm : c ∈ s.clients
      · rw [if_pos hm, List.filter_cons_of_pos (by simp [hr, hm]), List.length_cons]
        omega
      · rw [if_neg hm, List.filter_cons_of_neg (by simp [hm])]
        omega
    · rw [List.filter_cons_of_neg (by simpa using hr), List.filter_cons_of_neg (by simp [hr])]
      exact ih hd.tail

theorem mem_matching {rex : Str → Str → Bool} {subject : Str} {sel : List Selector} {c : Cid}
    {s : Selector} :
    s ∈ matching rex subject sel c ↔ s ∈ sel ∧ rex s.pattern subject = true ∧ c ∈ s.clients := by
  simp [matching]

/-- Selectors of one table are told apart by their patterns. -/
theorem Distinct.eq_of_pattern {sel : List Selector} (hd : Distinct sel) {s t : Selector}
    (hs : s ∈ sel) (ht : t ∈ sel) (h : s.pattern = t.pattern) : s = t :=
  List.inj_on_of_nodup_map hd.patterns hs ht h

/-- One copy at most iff the matching patterns of the client are one at most. -/
theorem length_matching_le_one_iff {rex : Str → Str → Bool} {subject : Str} {sel : List Selector}
    (hd : Distinct sel) (c : Cid) :
    (matching rex subject sel c).length ≤ 1 ↔
      ∀ p q, Holds sel c p → Holds sel c q → rex p subject = true → rex q subject = true →
        p = q := by
  constructor
  · rintro h p q ⟨s, hs, rfl, hcs⟩ ⟨t, ht, rfl, hct⟩ hp hq
    have hs' : s ∈ matching rex subject sel c := mem_matching.2 ⟨hs, hp, hcs⟩
    have ht' : t ∈ matching rex subject sel c := mem_matching.2 ⟨ht, hq, hct⟩
    rcases hm : matching rex subject sel c with _ | ⟨x, _ | ⟨y, l⟩⟩
    · rw [hm] at hs'; cases hs'
    · rw [hm, List.mem_singleton] at hs' ht'
      rw [hs', ht']
    · rw [hm] at h; simp at h
  · intro h
    have hnd : (matching rex subject sel c).Nodup :=
      (List.Nodup.of_map _ hd.patterns).filter _
    rcases hm : matching rex subject sel c with _ | ⟨x, _ | ⟨y, l⟩⟩
    · simp
    · simp
    · exfalso
      have hx : x ∈ matching rex subject sel c := by rw [hm]; simp
      have hy : y ∈ matching rex subject sel c := by rw [hm]; simp
      rw [mem_matching] at hx hy
      have hp := h x.pattern y.pattern ⟨x, hx.1, rfl, hx.2.2⟩ ⟨y, hy.1, rfl, hy.2.2⟩ hx.2.1 hy.2.1
      have hxy := hd.eq_of_pattern hx.1 hy.1 hp
      rw [hm, hxy] at hnd
      simp at hnd

/-- What the engine writes for one message after the commands `cs`. -/
def forwarded (rex : Str → Str → Bool) (cs : List Command) (sender : Cid) (m : Msg) :
    List Traffic :=
  match Stream.handleMessage rex ⟨selectorsAfter cs, [.message sender m], []⟩ with
  | some (st, _) => st.up
  | none => []

theorem forwarded_eq (rex : Str → Str → Bool) (cs : List Command) (sender : Cid) (m : Msg) :
    forwarded rex cs sender m =
      (Stream.receivers rex (selectorsAfter cs) sender m).map (.deliver · m) := by
  simp [forwarded, Stream.handleMessage, Stream.isCommand]

theorem count_forwarded (rex : Str → Str → Bool) (cs : List Command) (sender : Cid) (m : Msg)
    (c : Cid) : (forwarded rex cs sender m).count (.deliver c m) =
      (Stream.receivers rex (selectorsAfter cs) sender m).count c := by
  rw [forwarded_eq]
  exact List.count_map_of_injective _ (fun a => Traffic.deliver a m) (fun a b h => by cases h; rfl) c

/-- Every subscriber but the sender gets the message exactly once, nobody else
gets it. -/
structure ExactlyOnce (rex : Str → Str → Bool) (cs : List Command) (sender : Cid) (m : Msg) :
    Prop where
  once : ∀ c, c ≠ sender → (∃ p, Subscribed cs c p ∧ rex p m.subject = true) →
    (forwarded rex cs sender m).count (.deliver c m) = 1
  nobodyElse : ∀ c, (c = sender ∨ ¬ ∃ p, Subscribed cs c p ∧ rex p m.subject = true) →
    (forwarded rex cs sender m).count (.deliver c m) = 0

/-- **Delivery is exact iff no reader holds two matching patterns.** -/
theorem forwarded_exactly_once_iff (rex : Str → Str → Bool) (cs : List Command) (sender : Cid)
    (m : Msg) : ExactlyOnce rex cs sender m ↔
      ∀ c, c ≠ sender → ∀ p q, Subscribed cs c p → Subscribed cs c q →
        rex p m.subject = true → rex q m.subject = true → p = q := by
  have hd := distinct_selectorsAfter cs
  constructor
  · rintro ⟨hone, -⟩ c hc p q hp hq hrp hrq
    have h1 := hone c hc ⟨p, hp, hrp⟩
    rw [count_forwarded, count_receivers rex hd sender m hc] at h1
    exact (length_matching_le_one_iff hd c).1 (le_of_eq h1) p q
      ((holds_selectorsAfter ..).2 hp) ((holds_selectorsAfter ..).2 hq) hrp hrq
  · intro h
    refine ⟨fun c hc hsub => ?_, fun c hc => ?_⟩
    · obtain ⟨p, hp, hr⟩ := hsub
      have hle : (matching rex m.subject (selectorsAfter cs) c).length ≤ 1 := by
        refine (length_matching_le_one_iff hd c).2 fun p q hp hq hrp hrq => ?_
        exact h c hc p q ((holds_selectorsAfter ..).1 hp) ((holds_selectorsAfter ..).1 hq) hrp hrq
      have hpos : c ∈ Stream.receivers rex (selectorsAfter cs) sender m :=
        mem_receivers.2 ⟨hc, p, (holds_selectorsAfter ..).2 hp, hr⟩
      have := List.count_pos_iff.2 hpos
      rw [count_forwarded]
      rw [count_receivers rex hd sender m hc] at this ⊢
      omega
    · rw [count_forwarded, List.count_eq_zero, mem_receivers]
      rintro ⟨hne, p, hp, hr⟩
      rcases hc with rfl | hno
      · exact hne rfl
      · exact hno ⟨p, (holds_selectorsAfter ..).1 hp, hr⟩

/-- One reader with the patterns "a" and "." on one stream: a message with
subject "a" is forwarded to it twice ("." matches every subject here). -/
theorem forwarded_twice :
    let a : Str := .ofBytes [97]
    let dot : Str := .ofBytes [46]
    let rex : Str → Str → Bool := fun p s => p = dot || p = s
    let m : Msg := ⟨0, .empty, .empty, a, none, 0, some []⟩
    let cs : List Command := [.compile 1 a, .compile 1 dot]
    (∃ p, Subscribed cs 1 p ∧ rex p m.subject = true) ∧
      (forwarded rex cs 0 m).count (.deliver 1 m) = 2 ∧ ¬ ExactlyOnce rex cs 0 m := by
  intro a dot rex m cs
  have hsub : ∃ p, Subscribed cs 1 p ∧ rex p m.subject = true :=
    ⟨a, ⟨[], [.compile 1 dot], rfl, by decide⟩, by decide⟩
  have htwo : (forwarded rex cs 0 m).count (.deliver 1 m) = 2 := by decide
  refine ⟨hsub, htwo, fun h => ?_⟩
  have := h.once 1 (by decide) hsub
  rw [htwo] at this
  cases this

end Malamute.L2
