import Mathlib.Data.List.Nodup
import Mathlib.Data.List.Induction

/-!
# Taking turns in a list

A list from which the first item that meets a request is served and moves to the
end; items join at the end, and some may be dropped. `Legal xs ts` says that the
turns `ts` are possible from `xs`: who is served is the first that meets the
request, and nobody joins twice.

`served_between`: of two items that meet the same requests, between two turns of
one the other has exactly one, as long as both stay in the list. Whoever has been
served stands behind the other, whatever happens to the rest.
-/
namespace Malamute.Core

/-- What happens to the list. -/
inductive Turn (α : Type) where
  | join (x : α)
  | drop (p : α → Bool)
  /-- `x` is served by a request that `p` says who meets -/
  | serve (p : α → Bool) (x : α)

namespace RoundRobin
variable {α : Type} [DecidableEq α]

/-- The list after one turn. -/
def turn (xs : List α) : Turn α → List α
  | .join x => xs ++ [x]
  | .drop p => xs.filter fun x => !p x
  | .serve _ x => xs.erase x ++ [x]

/-- The list after the turns `ts`. -/
def arranged (xs : List α) (ts : List (Turn α)) : List α := ts.foldl turn xs

/-- The turn is possible. -/
def Possible (xs : List α) : Turn α → Prop
  | .join x => x ∉ xs
  | .drop _ => True
  | .serve p x => xs.find? p = some x

/-- The turns are possible, one after the other. -/
def Legal (xs : List α) : List (Turn α) → Prop
  | [] => True
  | t :: ts => Possible xs t ∧ Legal (turn xs t) ts

/-- The turn is one of `x`. -/
def serves (x : α) : Turn α → Bool
  | .serve _ y => y = x
  | _ => false

/-- `x` stands before `y`. -/
def Precedes (x y : α) (xs : List α) : Prop := List.Sublist [x, y] xs

/-- `x` is in the list at all times. -/
def Stays (x : α) (xs : List α) (ts : List (Turn α)) : Prop :=
  ∀ us, us <+: ts → x ∈ arranged xs us

variable {xs : List α} {ts us : List (Turn α)} {t : Turn α} {x y : α} {p : α → Bool}

/-! ## Any number of turns -/

theorem arranged_append (xs : List α) (ts us : List (Turn α)) :
    arranged xs (ts ++ us) = arranged (arranged xs ts) us := List.foldl_append

theorem legal_cons : Legal xs (t :: ts) ↔ Possible xs t ∧ Legal (turn xs t) ts := Iff.rfl

theorem legal_append : Legal xs (ts ++ us) ↔ Legal xs ts ∧ Legal (arranged xs ts) us := by
  induction ts generalizing xs with
  | nil => simp [Legal, arranged]
  | cons t ts ih =>
    rw [List.cons_append, Legal, Legal, ih, and_assoc]
    rfl

omit [DecidableEq α] in
theorem mem_of_possible (h : Possible xs (.serve p x)) : x ∈ xs ∧ p x = true :=
  ⟨List.mem_of_find?_eq_some h, List.find?_some h⟩

theorem nodup_turn (h : xs.Nodup) (ht : Possible xs t) : (turn xs t).Nodup := by
  cases t with
  | join x => exact List.nodup_append.2 ⟨h, List.nodup_singleton x, by
      intro a ha b hb hab
      rw [List.mem_singleton.1 hb] at hab
      exact ht (hab ▸ ha)⟩
  | drop p => exact h.filter _
  | serve p x => exact List.nodup_append.2 ⟨h.erase x, List.nodup_singleton x, by
      intro a ha b hb hab
      rw [List.mem_singleton.1 hb] at hab
      exact h.not_mem_erase (hab ▸ ha)⟩

theorem nodup_arranged (h : xs.Nodup) (ht : Legal xs ts) : (arranged xs ts).Nodup := by
  induction ts generalizing xs with
  | nil => exact h
  | cons t ts ih => exact ih (nodup_turn h ht.1) ht.2

theorem stays_cons : Stays x xs (t :: ts) ↔ x ∈ xs ∧ Stays x (turn xs t) ts := by
  constructor
  · intro h
    refine ⟨h [] (List.nil_prefix ..), fun us hus => ?_⟩
    exact h (t :: us) (List.cons_prefix_cons.2 ⟨rfl, hus⟩)
  · rintro ⟨hx, hrest⟩ us hus
    cases us with
    | nil => exact hx
    | cons u us =>
      obtain ⟨rfl, hrus⟩ := List.cons_prefix_cons.1 hus
      exact hrest us hrus

/-! ## Who stands before whom -/

/-- A turn of another item leaves the order of two that stay as it is. -/
theorem precedes_turn (h : Precedes x y xs) (ht : serves x t = false) (ht' : serves y t = false)
    (hx : x ∈ turn xs t) (hy : y ∈ turn xs t) : Precedes x y (turn xs t) := by
  cases t with
  | join z => exact List.Sublist.trans h (List.sublist_append_left ..)
  | drop p =>
    have hf := List.Sublist.filter (fun z => !p z) h
    have hkeep : [x, y].filter (fun z => !p z) = [x, y] := by
      have hx := (List.mem_filter.1 hx).2
      have hy := (List.mem_filter.1 hy).2
      simp only [List.filter_cons, hx, hy, if_true, List.filter_nil]
    rwa [hkeep] at hf
  | serve p z =>
    have hzx : z ≠ x := of_decide_eq_false ht
    have hzy : z ≠ y := of_decide_eq_false ht'
    have he := List.Sublist.erase z h
    rw [List.erase_cons_tail (by simpa using hzx.symm),
      List.erase_cons_tail (by simpa using hzy.symm), List.erase_nil] at he
    exact List.Sublist.trans he (List.sublist_append_left ..)

/-- Whoever is served stands behind the others. -/
theorem precedes_serve (hy : y ∈ xs) (hne : y ≠ x) : Precedes y x (turn xs (.serve p x)) := by
  have hmem : y ∈ xs.erase x := (List.mem_erase_of_ne hne).2 hy
  exact List.Sublist.append (List.singleton_sublist.2 hmem) (List.Sublist.refl [x])

omit [DecidableEq α] in
/-- Whoever stands behind another that meets the request is not served. -/
theorem not_served_behind (hnd : xs.Nodup) (h : Precedes y x xs) (hne : y ≠ x) (hp : p y = true) :
    ¬Possible xs (.serve p x) := by
  intro hfind
  obtain ⟨-, pre, post, rfl, hpre⟩ := List.find?_eq_some_iff_append.1 hfind
  -- `y` is not before `x`, as it meets the request
  have hnot : y ∉ pre := fun hy => by simpa [hp] using hpre y hy
  have hx : x ∉ post := by
    have hnd' := (List.nodup_append.1 hnd).2.1
    exact (List.nodup_cons.1 hnd').1
  obtain ⟨l, r, hl, hlpre, hr⟩ := List.sublist_append_iff.1 h
  rcases l with _ | ⟨z, l⟩
  · rw [List.nil_append] at hl
    rw [← hl] at hr
    rcases List.sublist_cons_iff.1 hr with hr | ⟨r', hr', -⟩
    · exact hx (hr.subset (by simp))
    · exact hne (List.cons.inj hr').1
  · have hz : y = z := (List.cons.inj hl).1
    exact hnot (hlpre.subset (hz ▸ List.mem_cons_self))

/-! ## Turns of two items -/

/-- Both items meet the same requests. -/
def Alike (x y : α) (ts : List (Turn α)) : Prop := ∀ p z, .serve p z ∈ ts → p x = p y

/-- The other item has had its turn: it has no second one before `x` has. -/
theorem served_none (hne : y ≠ x) (hnd : xs.Nodup) (hl : Legal xs ts) (halike : Alike x y ts)
    (hx : Stays x xs ts) (hy : Stays y xs ts) (h : Precedes x y xs)
    (hno : ∀ t ∈ ts, serves x t = false) : ts.countP (serves y) = 0 := by
  induction ts generalizing xs with
  | nil => rfl
  | cons t ts ih =>
    rw [stays_cons] at hx hy
    have hy' : serves y t = false := by
      by_contra hsy
      rw [Bool.not_eq_false] at hsy
      cases t with
      | join z => cases hsy
      | drop p => cases hsy
      | serve p z =>
        have hz : z = y := of_decide_eq_true hsy
        subst hz
        have hp := (mem_of_possible hl.1).2
        rw [← halike p z List.mem_cons_self] at hp
        exact not_served_behind hnd h hne.symm hp hl.1
    have hx0 := hx.2 [] (List.nil_prefix ..)
    have hy0 := hy.2 [] (List.nil_prefix ..)
    rw [List.countP_cons_of_neg (by simp [hy'])]
    exact ih (nodup_turn hnd hl.1) hl.2
      (fun p z hz => halike p z (List.mem_cons_of_mem _ hz)) hx.2 hy.2
      (precedes_turn h (hno t List.mem_cons_self) hy' hx0 hy0)
      fun t ht => hno t (List.mem_cons_of_mem _ ht)

/-- **Between two turns of `x` there is one of `y`**, if both stay and meet the same
requests. -/
theorem served_between (hne : y ≠ x) (hnd : xs.Nodup) (hl : Legal xs (ts ++ [.serve p x]))
    (halike : Alike x y (ts ++ [.serve p x])) (hx : Stays x xs ts) (hy : Stays y xs ts)
    (h : Precedes y x xs) (hno : ∀ t ∈ ts, serves x t = false) : ts.countP (serves y) = 1 := by
  induction ts generalizing xs with
  | nil =>
    -- `y` stands before `x` and is passed over
    have hp := (mem_of_possible hl.1).2
    rw [halike p x List.mem_cons_self] at hp
    exact absurd hl.1 (not_served_behind hnd h hne hp)
  | cons t ts ih =>
    rw [stays_cons] at hx hy
    have hx0 := hx.2 [] (List.nil_prefix ..)
    have hy0 := hy.2 [] (List.nil_prefix ..)
    have hno' : ∀ t ∈ ts, serves x t = false := fun t ht => hno t (List.mem_cons_of_mem _ ht)
    have halike' : Alike x y (ts ++ [.serve p x]) := fun q z hz =>
      halike q z (List.mem_cons_of_mem _ hz)
    have hnd' := nodup_turn hnd hl.1
    cases hsy : serves y t with
    | false =>
      rw [List.countP_cons_of_neg (by simp [hsy])]
      exact ih hnd' hl.2 halike' hx.2 hy.2
        (precedes_turn h hsy (hno t List.mem_cons_self) hy0 hx0) hno'
    | true =>
      rw [List.countP_cons_of_pos hsy]
      have hafter : Precedes x y (turn xs t) := by
        cases t with
        | join z => cases hsy
        | drop q => cases hsy
        | serve q z =>
          rw [show z = y from of_decide_eq_true hsy]
          exact precedes_serve hx.1 hne.symm
      rw [served_none hne hnd' (legal_append.1 hl.2).1
        (fun q z hz => halike' q z (List.mem_append_left _ hz)) hx.2 hy.2 hafter hno']

end RoundRobin
end Malamute.Core
