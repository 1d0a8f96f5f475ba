import Mathlib.Data.List.Basic
import Mathlib.Logic.Function.Basic

/-!
# A log of items, each with a receiver

What has been handed out to many receivers, in the order in which that was done. A receiver may
miss some of its items; the log then forgets them (`thin`). `pairwise_copies` says that items
stay in order when some of them are repeated.
-/
namespace Malamute.Core.Log

variable {α β : Type}

/-- Of the items of each receiver only some are left. -/
theorem thin {ι : Type} [DecidableEq ι] {dest : α → ι} (log : List α) (kept : ι → List α)
    (h : ∀ i, (kept i).Sublist (log.filter (dest · = i))) :
    ∃ log' : List α, log'.Sublist log ∧ ∀ i, log'.filter (dest · = i) = kept i := by
  induction log generalizing kept with
  | nil => exact ⟨[], .slnil, fun i => (List.sublist_nil.1 (h i)).symm⟩
  | cons x log ih =>
    have hother : ∀ i, i ≠ dest x → (kept i).Sublist (log.filter (dest · = i)) := fun i hi => by
      have hx : decide (dest x = i) = false := decide_eq_false (Ne.symm hi)
      simpa [List.filter_cons, hx] using h i
    have hown : (kept (dest x)).Sublist (x :: log.filter (dest · = dest x)) := by
      simpa [List.filter_cons] using h (dest x)
    rcases List.sublist_cons_iff.1 hown with hskip | ⟨rest, hrest, hsub⟩
    · -- `x` is forgotten
      obtain ⟨log', hlog, hkept⟩ := ih kept fun i => by
        by_cases hi : i = dest x
        · rw [hi]
          exact hskip
        · exact hother i hi
      exact ⟨log', hlog.cons x, hkept⟩
    · obtain ⟨log', hlog, hkept⟩ := ih (Function.update kept (dest x) rest) fun i => by
        by_cases hi : i = dest x
        · rw [hi, Function.update_self]
          exact hsub
        · rw [Function.update_of_ne hi]
          exact hother i hi
      refine ⟨x :: log', hlog.cons_cons x, fun i => ?_⟩
      by_cases hi : i = dest x
      · have hi' := hkept (dest x)
        rw [Function.update_self] at hi'
        rw [hi, List.filter_cons, if_pos (by simp), hi', hrest]
      · have hi' := hkept i
        rw [Function.update_of_ne hi] at hi'
        rw [List.filter_cons, if_neg (by simpa using Ne.symm hi), hi']

/-- The same for a part of each item. -/
theorem thin_map {ι : Type} [DecidableEq ι] {dest : α → ι} {f : α → β} {log : List α}
    (kept : ι → List β) (h : ∀ i, (kept i).Sublist ((log.filter (dest · = i)).map f)) :
    ∃ log' : List α, log'.Sublist log ∧ ∀ i, (log'.filter (dest · = i)).map f = kept i := by
  choose items hitems using fun i => List.sublist_map_iff.1 (h i)
  obtain ⟨log', hlog, hkept⟩ := thin log items fun i => (hitems i).1
  exact ⟨log', hlog, fun i => by rw [hkept i, (hitems i).2]⟩

/-- Each of the items `xs` may come any number of times. -/
theorem pairwise_copies {R : β → β → Prop} (hR : ∀ y, R y y) {f : α → β} {copies : α → List β}
    {before after : List β} {xs : List α} (hc : ∀ x ∈ xs, ∀ y ∈ copies x, y = f x)
    (h : (before ++ xs.map f ++ after).Pairwise R) :
    (before ++ xs.flatMap copies ++ after).Pairwise R := by
  have hmem : ∀ y ∈ xs.flatMap copies, y ∈ xs.map f := fun y hy => by
    obtain ⟨x, hx, hy⟩ := List.mem_flatMap.1 hy
    exact List.mem_map.2 ⟨x, hx, (hc x hx y hy).symm⟩
  have hpair : (xs.map f).Pairwise R → (xs.flatMap copies).Pairwise R := by
    intro hxs
    refine List.pairwise_flatMap.2 ⟨fun x hx => ?_, ?_⟩
    · refine List.pairwise_of_forall_mem_list fun y hy z hz => ?_
      rw [hc x hx y hy, hc x hx z hz]
      exact hR _
    · refine (List.pairwise_map.1 hxs).imp_of_mem fun {x x'} hx hx' hr => ?_
      intro y hy z hz
      rw [hc x hx y hy, hc x' hx' z hz]
      exact hr
  rw [List.append_assoc, List.pairwise_append] at h ⊢
  obtain ⟨hbefore, hrest, hcross⟩ := h
  rw [List.pairwise_append] at hrest ⊢
  obtain ⟨hxs, hafter, hlater⟩ := hrest
  refine ⟨hbefore, ⟨hpair hxs, hafter, fun y hy => hlater y (hmem y hy)⟩, fun y hy z hz => ?_⟩
  rcases List.mem_append.1 hz with hz | hz
  · exact hcross y hy z (List.mem_append_left _ (hmem z hz))
  · exact hcross y hy z (List.mem_append_right _ hz)

/-- What `f` picks, `g` picks too. -/
theorem filterMap_sublist {f g : α → Option β} {xs : List α}
    (h : ∀ x ∈ xs, ∀ y, f x = some y → g x = some y) :
    (xs.filterMap f).Sublist (xs.filterMap g) := by
  induction xs with
  | nil => exact .slnil
  | cons x xs ih =>
    have hxs := ih fun z hz => h z (List.mem_cons_of_mem _ hz)
    cases hf : f x with
    | none =>
      rw [List.filterMap_cons_none hf]
      cases hg : g x with
      | none => rwa [List.filterMap_cons_none hg]
      | some y =>
        rw [List.filterMap_cons_some hg]
        exact hxs.cons y
    | some y =>
      rw [List.filterMap_cons_some hf,
        List.filterMap_cons_some (h x List.mem_cons_self y hf)]
      exact hxs.cons_cons y

end Malamute.Core.Log
