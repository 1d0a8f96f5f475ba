import Mathlib.Algebra.GroupWithZero.Nat
import Mathlib.Data.List.Nodup
import Mathlib.Algebra.BigOperators.Group.List.Basic

/-!
# Tables: finite maps with unique keys

An association list that carries the proof that no key occurs twice. `get`
after `set`, `del` and `map` is what a map should give (`get_set`, `get_del`,
`get_map`); `sum` adds a measure over the values, and `sum_set` says how one
update changes it, which is what counting arguments over all entries use.
-/
namespace Malamute.Core

structure Table (κ ν : Type) where
  entries : List (κ × ν)
  nodup : (entries.map Prod.fst).Nodup

namespace Table
variable {κ ν μ : Type} [DecidableEq κ]

def empty : Table κ ν := ⟨[], by simp⟩

def get (t : Table κ ν) (k : κ) : Option ν := (t.entries.find? (fun p => p.1 = k)).map Prod.snd

def del (t : Table κ ν) (k : κ) : Table κ ν where
  entries := t.entries.filter (fun p => p.1 ≠ k)
  nodup := t.nodup.sublist (List.filter_sublist.map Prod.fst)

theorem not_mem_del (t : Table κ ν) (k : κ) : k ∉ (t.del k).entries.map Prod.fst := by
  simp [del]

/-- The value stored under `k` becomes `v`. -/
def set (t : Table κ ν) (k : κ) (v : ν) : Table κ ν where
  entries := (t.del k).entries ++ [(k, v)]
  nodup := by
    simp only [List.map_append, List.map_cons, List.map_nil]
    exact List.Nodup.append (t.del k).nodup (by simp)
      (List.disjoint_singleton.2 (t.not_mem_del k))

/-- Change the value stored under `k`, if there is one. -/
def modify (t : Table κ ν) (k : κ) (f : ν → ν) : Table κ ν :=
  match t.get k with
  | none => t
  | some v => t.set k (f v)

/-- Store `v` under `k` unless there is a value already. -/
def ensure (t : Table κ ν) (k : κ) (v : ν) : Table κ ν :=
  match t.get k with
  | none => t.set k v
  | some _ => t

omit [DecidableEq κ] in
/-- Change every value. -/
def map (t : Table κ ν) (f : ν → μ) : Table κ μ where
  entries := t.entries.map (fun p => (p.1, f p.2))
  nodup := by simpa [Function.comp_def] using t.nodup

omit [DecidableEq κ] in
def keys (t : Table κ ν) : List κ := t.entries.map Prod.fst

omit [DecidableEq κ] in
/-- The total of a measure over the values. -/
def sum (t : Table κ ν) (f : ν → Nat) : Nat := (t.entries.map (fun p => f p.2)).sum

/-! ## Lookup -/

@[simp] theorem get_empty (k : κ) : (empty : Table κ ν).get k = none := rfl

theorem get_del (t : Table κ ν) (k j : κ) : (t.del k).get j = if j = k then none else t.get j := by
  unfold get del
  simp only [List.find?_filter]
  split
  · rename_i h; subst h
    simp only [Option.map_eq_none_iff, List.find?_eq_none]
    intro p _; simp
  · rename_i h
    congr 2; funext p
    by_cases hp : p.1 = j <;> simp [hp, h]

theorem get_set (t : Table κ ν) (k j : κ) (v : ν) :
    (t.set k v).get j = if j = k then some v else t.get j := by
  have hd := get_del t k j
  unfold get at hd ⊢
  simp only [set, List.find?_append, List.find?_singleton, Option.map_or, hd]
  split
  · rename_i h; simp [h]
  · rename_i h
    have : ¬ k = j := fun e => h e.symm
    simp [this]

@[simp] theorem get_set_self (t : Table κ ν) (k : κ) (v : ν) : (t.set k v).get k = some v := by
  simp [get_set]

theorem get_set_ne (t : Table κ ν) {k j : κ} (v : ν) (h : j ≠ k) : (t.set k v).get j = t.get j := by
  simp [get_set, h]

@[simp] theorem get_del_self (t : Table κ ν) (k : κ) : (t.del k).get k = none := by
  simp [get_del]

theorem get_map (t : Table κ ν) (f : ν → μ) (k : κ) : (t.map f).get k = (t.get k).map f := by
  simp only [get, map, List.find?_map, Option.map_map]
  rfl

theorem get_modify (t : Table κ ν) (k j : κ) (f : ν → ν) :
    (t.modify k f).get j = if j = k then (t.get k).map f else t.get j := by
  unfold modify
  cases h : t.get k with
  | none => by_cases hj : j = k <;> simp [hj, h]
  | some v => simp [get_set]

theorem set_set (t : Table κ ν) (k : κ) (v w : ν) : (t.set k v).set k w = t.set k w := by
  simp only [set, del, List.filter_append, List.filter_filter, mk.injEq]
  simp

theorem get_ensure (t : Table κ ν) (k j : κ) (v : ν) :
    (t.ensure k v).get j = if j = k then some ((t.get k).getD v) else t.get j := by
  unfold ensure
  cases h : t.get k with
  | none => simp [get_set]
  | some w => by_cases hj : j = k <;> simp [hj, h]

theorem get_of_mem {t : Table κ ν} {k : κ} {v : ν} (h : (k, v) ∈ t.entries) : t.get k = some v := by
  have hnd := t.nodup
  unfold get
  generalize t.entries = l at h hnd
  induction l with
  | nil => cases h
  | cons p l ih =>
    simp only [List.map_cons, List.nodup_cons] at hnd
    rcases List.mem_cons.1 h with rfl | h
    · simp
    · have hp : ¬ p.1 = k := by
        rintro rfl; exact hnd.1 (List.mem_map.2 ⟨_, h, rfl⟩)
      rw [List.find?_cons_of_neg (by simpa using hp)]
      exact ih h hnd.2

theorem mem_of_get {t : Table κ ν} {k : κ} {v : ν} (h : t.get k = some v) : (k, v) ∈ t.entries := by
  simp only [get, Option.map_eq_some_iff] at h
  obtain ⟨p, hp, rfl⟩ := h
  have h1 := List.mem_of_find?_eq_some hp
  have h2 := List.find?_some hp
  simp only [decide_eq_true_eq] at h2
  rw [← h2]; exact h1

/-! ## Sums -/

omit [DecidableEq κ] in
@[simp] theorem sum_empty (f : ν → Nat) : (empty : Table κ ν).sum f = 0 := rfl

/-- Taking one key out of a sum. -/
theorem sum_del (t : Table κ ν) (f : ν → Nat) (k : κ) :
    t.sum f = (t.del k).sum f + ((t.get k).map f).getD 0 := by
  have hnd := t.nodup
  unfold sum del get
  simp only
  generalize t.entries = l at hnd
  induction l with
  | nil => rfl
  | cons p l ih =>
    simp only [List.map_cons, List.nodup_cons] at hnd
    by_cases hp : p.1 = k
    · have hl : l.filter (fun q => q.1 ≠ k) = l := by
        refine List.filter_eq_self.2 fun q hq => ?_
        simp only [ne_eq, decide_eq_true_eq]
        rintro rfl; exact hnd.1 (List.mem_map.2 ⟨q, hq, hp.symm⟩)
      rw [List.filter_cons_of_neg (by simp [hp]), hl, List.find?_cons_of_pos (by simp [hp])]
      simp [Nat.add_comm]
    · rw [List.filter_cons_of_pos (by simp [hp]), List.find?_cons_of_neg (by simp [hp])]
      simp only [List.map_cons, List.sum_cons, ih hnd.2]
      omega

theorem sum_set (t : Table κ ν) (f : ν → Nat) (k : κ) (v : ν) :
    (t.set k v).sum f = (t.del k).sum f + f v := by
  simp [sum, set]

theorem sum_modify (t : Table κ ν) (f : ν → Nat) {k : κ} {v : ν} (g : ν → ν)
    (h : t.get k = some v) : (t.modify k g).sum f + f v = t.sum f + f (g v) := by
  have hd := sum_del t f k
  unfold modify
  rw [h] at hd ⊢
  simp only [Option.map_some, Option.getD_some] at hd ⊢
  rw [sum_set]; omega

theorem modify_of_get {t : Table κ ν} {k : κ} {v : ν} (h : t.get k = some v) (g : ν → ν) :
    t.modify k g = t.set k (g v) := by
  simp [modify, h]

theorem sum_set_of_get (t : Table κ ν) (f : ν → Nat) {k : κ} {v : ν} (w : ν)
    (h : t.get k = some v) : (t.set k w).sum f + f v = t.sum f + f w := by
  have := sum_modify t f (fun _ => w) h
  rwa [modify_of_get h] at this

theorem sum_set_new (t : Table κ ν) (f : ν → Nat) {k : κ} (v : ν) (h : t.get k = none) :
    (t.set k v).sum f = t.sum f + f v := by
  have hd := sum_del t f k
  rw [h] at hd
  simp only [Option.map_none, Option.getD_none] at hd
  rw [sum_set]; omega

/-- A key without a value counts as one whose value measures nothing. -/
theorem sum_set_getD (t : Table κ ν) {f : ν → Nat} (k : κ) (v : ν) {d : ν} (hd : f d = 0) :
    (t.set k v).sum f + f ((t.get k).getD d) = t.sum f + f v := by
  cases h : t.get k with
  | none => rw [sum_set_new t f v h, Option.getD_none, hd, Nat.add_zero]
  | some w => exact sum_set_of_get t f v h

theorem sum_ensure (t : Table κ ν) {f : ν → Nat} (k : κ) {d : ν} (hd : f d = 0) :
    (t.ensure k d).sum f = t.sum f := by
  unfold ensure
  cases h : t.get k with
  | none => rw [sum_set_new t f d h, hd, Nat.add_zero]
  | some w => rfl

omit [DecidableEq κ] in
theorem sum_map (t : Table κ ν) (g : ν → μ) (f : μ → Nat) :
    (t.map g).sum f = t.sum (fun v => f (g v)) := by
  simp [sum, map, Function.comp_def]

theorem le_sum {t : Table κ ν} {k : κ} {v : ν} (f : ν → Nat) (h : t.get k = some v) :
    f v ≤ t.sum f := by
  have hd := sum_del t f k
  rw [h] at hd
  simp only [Option.map_some, Option.getD_some] at hd
  omega

theorem exists_of_sum_pos {t : Table κ ν} {f : ν → Nat} (h : 0 < t.sum f) :
    ∃ k v, t.get k = some v ∧ 0 < f v := by
  have hl : ∀ l : List (κ × ν), 0 < (l.map (fun p => f p.2)).sum → ∃ p ∈ l, 0 < f p.2 := by
    intro l
    induction l with
    | nil => intro h; simp at h
    | cons p l ih =>
      intro h
      simp only [List.map_cons, List.sum_cons] at h
      by_cases hp : 0 < f p.2
      · exact ⟨p, List.mem_cons_self, hp⟩
      · obtain ⟨q, hq, hf⟩ := ih (by omega)
        exact ⟨q, List.mem_cons_of_mem _ hq, hf⟩
  obtain ⟨p, hp, hf⟩ := hl t.entries h
  exact ⟨p.1, p.2, get_of_mem hp, hf⟩

end Table
end Malamute.Core
