import Mathlib.Data.List.Nodup

/-!
# What goes into a queue and what comes out

A bounded queue is fed items, refuses some of them, holds some and hands the
rest out. `Ledger sent lost got held` says that the books are in order: every
item that went in is accounted for, and what was not refused comes out in the
order in which it went in.

`put`, `pass`, `take` and `lose` are what may happen to an item;
`once`, `order` and `prefix` are what the books then say.
-/
namespace Malamute.Core

variable {α : Type} [DecidableEq α]

structure Ledger (sent lost got held : List α) : Prop where
  nodup : sent.Nodup
  lost_sent : ∀ x ∈ lost, x ∈ sent
  flow : got ++ held = sent.filter (fun x => x ∉ lost)

namespace Ledger
variable {sent lost got held : List α} {x y : α}

theorem nil : Ledger ([] : List α) [] [] [] := ⟨.nil, by simp, rfl⟩

/-- A new item goes in. -/
theorem put (h : Ledger sent lost got held) (hx : x ∉ sent) :
    Ledger (sent ++ [x]) lost got (held ++ [x]) where
  nodup := by
    rw [List.nodup_append]
    refine ⟨h.nodup, by simp, ?_⟩
    intro a ha b hb hab
    rw [hab, List.mem_singleton.1 hb] at ha
    exact hx ha
  lost_sent y hy := List.mem_append_left _ (h.lost_sent y hy)
  flow := by
    have hlost : x ∉ lost := fun hl => hx (h.lost_sent x hl)
    rw [← List.append_assoc, h.flow, List.filter_append]
    simp [hlost]

/-- The oldest item comes out. -/
theorem take (h : Ledger sent lost got (x :: held)) : Ledger sent lost (got ++ [x]) held where
  nodup := h.nodup
  lost_sent := h.lost_sent
  flow := by rw [← h.flow]; simp

/-- A new item comes straight out of an empty queue. -/
theorem pass (h : Ledger sent lost got []) (hx : x ∉ sent) :
    Ledger (sent ++ [x]) lost (got ++ [x]) [] := (h.put hx).take

theorem mem_sent (h : Ledger sent lost got held) (hx : x ∈ got ∨ x ∈ held) :
    x ∈ sent ∧ x ∉ lost := by
  have hmem : x ∈ sent.filter (fun x => x ∉ lost) := by
    rw [← h.flow]
    exact List.mem_append.2 hx
  simpa using hmem

/-- An item that is held is refused, wherever it stands. -/
theorem lose {pre post : List α} (h : Ledger sent lost got (pre ++ x :: post)) :
    Ledger sent (lost ++ [x]) got (pre ++ post) where
  nodup := h.nodup
  lost_sent y hy := by
    rcases List.mem_append.1 hy with hy | hy
    · exact h.lost_sent y hy
    · rw [List.mem_singleton.1 hy]
      exact (h.mem_sent (.inr (by simp))).1
  flow := by
    have hsplit : (got ++ pre ++ x :: post).Nodup := by
      rw [List.append_assoc, h.flow]
      exact h.nodup.filter _
    have hx : x ∉ got ++ (pre ++ post) := by
      rw [← List.append_assoc]
      exact ((List.nodup_middle.1 hsplit).notMem)
    have hkeep : (got ++ (pre ++ post)).filter (fun y => y ≠ x) = got ++ (pre ++ post) := by
      refine List.filter_eq_self.2 fun y hy => ?_
      have : y ≠ x := fun hyx => hx (hyx ▸ hy)
      simpa using this
    have hfilter : sent.filter (fun y => y ∉ lost ++ [x]) =
        (sent.filter (fun y => y ∉ lost)).filter (fun y => y ≠ x) := by
      rw [List.filter_filter]
      congr 1
      funext y
      by_cases hy : y = x <;> simp [hy]
    rw [hfilter, ← h.flow]
    simp only [List.filter_append, List.filter_cons] at hkeep ⊢
    simpa using hkeep.symm

/-- What has come out since, and what is held now, was held or is new. -/
theorem since {sent' lost' got' held' : List α} (h : Ledger sent lost got held)
    (h' : Ledger (sent ++ sent') (lost ++ lost') (got ++ got') held') :
    (got' ++ held').Sublist (held ++ sent') := by
  have hkeep : (sent.filter fun x => x ∉ lost ++ lost').Sublist (got ++ held) := by
    rw [h.flow]
    refine List.monotone_filter_right sent fun x hx => ?_
    have hx : x ∉ lost ++ lost' := of_decide_eq_true hx
    exact decide_eq_true fun hl => hx (List.mem_append_left _ hl)
  have hall := hkeep.append (List.filter_sublist (l := sent') (p := fun x => x ∉ lost ++ lost'))
  rw [← List.filter_append, ← h'.flow, List.append_assoc, List.append_assoc] at hall
  exact (List.append_sublist_append_left got).1 hall

/-! ## What the books say -/

/-- **Every item is in exactly one place.** -/
theorem once (h : Ledger sent lost got held) (hx : x ∈ sent) :
    got.count x + held.count x + (if x ∈ lost then 1 else 0) = 1 := by
  have hcount : got.count x + held.count x = (sent.filter (fun y => y ∉ lost)).count x := by
    rw [← h.flow, List.count_append]
  rw [hcount]
  by_cases hl : x ∈ lost
  · have hnot : x ∉ sent.filter (fun y => y ∉ lost) := by simp [hl]
    rw [List.count_eq_zero.2 hnot]
    simp [hl]
  · rw [List.count_eq_one_of_mem (h.nodup.filter _) (by simp [hx, hl])]
    simp [hl]

/-- **An item does not come out before an earlier one.** -/
theorem order {s₁ s₂ : List α} (h : Ledger (s₁ ++ y :: s₂) lost got held) (hx : x ∈ s₁)
    (hl : x ∉ lost) (hy : y ∈ got) : ∃ g₁ g₂, got = g₁ ++ y :: g₂ ∧ x ∈ g₁ := by
  obtain ⟨g₁, g₂, rfl⟩ := List.append_of_mem hy
  refine ⟨g₁, g₂, rfl, ?_⟩
  have hylost : y ∉ lost := (h.mem_sent (.inl (by simp))).2
  have hyg₁ : y ∉ g₁ := by
    have hnodup : (g₁ ++ y :: (g₂ ++ held)).Nodup := by
      have hf := h.nodup.filter (fun x => decide (x ∉ lost))
      rw [← h.flow] at hf
      simpa using hf
    intro hmem
    exact (List.nodup_append.1 hnodup).2.2 y hmem y (by simp) rfl
  have hys₁ : y ∉ s₁ := by
    intro hmem
    exact (List.nodup_append.1 h.nodup).2.2 y hmem y (by simp) rfl
  -- both lists stop before the first `y`
  have hflow : g₁ ++ y :: (g₂ ++ held) =
      s₁.filter (fun x => x ∉ lost) ++ y :: s₂.filter (fun x => x ∉ lost) := by
    have hf := h.flow
    simp only [List.filter_append, List.filter_cons, hylost, not_false_eq_true, decide_true,
      if_true] at hf
    simpa using hf
  have hfirst : g₁ = s₁.filter (fun x => x ∉ lost) := by
    have htake := congrArg (List.takeWhile (fun z => decide (z ≠ y))) hflow
    have hg : ∀ z ∈ g₁, z ≠ y := fun z hz hzy => hyg₁ (hzy ▸ hz)
    have hs : ∀ z ∈ s₁.filter (fun x => decide (x ∉ lost)), z ≠ y :=
      fun z hz hzy => hys₁ (hzy ▸ (List.mem_filter.1 hz).1)
    rw [List.takeWhile_append_of_pos (by simpa using hg),
      List.takeWhile_append_of_pos (by simpa using hs)] at htake
    simpa using htake
  rw [hfirst]
  simp [hx, hl]

end Ledger
end Malamute.Core
