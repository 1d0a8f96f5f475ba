import Mathlib.Logic.Function.Iterate
import Mathlib.Data.List.Chain

/-!
# Searching forward and backward

`least p lo n` and `greatest p hi` are the nearest numbers with `p` from `lo` up to `n`
and below `hi`. `seek` is the loop

    while (cur == stop && more (pos))
        cur = read (pos = step (pos));

with at most `n` rounds, and `seek_eq_ok_iff` says where it ends without a word about
its recursion. `calls_iff` is about one call after the other: each one answers the next
of a list and the last one that there are no more.
-/
namespace Malamute.Core.Scan

/-! ## The nearest -/

section Nearest
variable {p : Nat → Bool} {lo hi n i : Nat}

/-- The least number with `p` from `lo` on, below `n`. -/
def least (p : Nat → Bool) (lo n : Nat) : Option Nat := (List.range' lo (n - lo)).find? p

/-- The greatest number with `p` below `hi`. -/
def greatest (p : Nat → Bool) : Nat → Option Nat
  | 0 => none
  | hi + 1 => if p hi then some hi else greatest p hi

/-- All of them from `lo` on, below `n`. -/
def hits (p : Nat → Bool) (lo n : Nat) : List Nat := (List.range' lo (n - lo)).filter p

theorem least_eq_some :
    least p lo n = some i ↔ p i = true ∧ lo ≤ i ∧ i < n ∧ ∀ j, lo ≤ j → j < i → p j = false := by
  rw [least, List.find?_range'_eq_some]
  simp only [List.mem_range'_1, Bool.not_eq_true']
  constructor
  · rintro ⟨hp, ⟨hlo, hn⟩, hj⟩
    exact ⟨hp, hlo, by omega, hj⟩
  · rintro ⟨hp, hlo, hn, hj⟩
    exact ⟨hp, ⟨hlo, by omega⟩, hj⟩

theorem least_eq_none : least p lo n = none ↔ ∀ j, lo ≤ j → j < n → p j = false := by
  rw [least, List.find?_range'_eq_none]
  simp only [Bool.not_eq_true']
  exact ⟨fun h j hlo hn => h j hlo (by omega), fun h j hlo hn => h j hlo (by omega)⟩

theorem greatest_eq_some :
    greatest p hi = some i ↔ p i = true ∧ i < hi ∧ ∀ j, i < j → j < hi → p j = false := by
  induction hi with
  | zero => simp [greatest]
  | succ hi ih =>
    rw [greatest]
    by_cases hp : p hi
    · rw [if_pos hp, Option.some.injEq]
      constructor
      · rintro rfl
        exact ⟨hp, by omega, fun j h h' => by omega⟩
      · rintro ⟨-, hi', hj⟩
        by_contra hne
        have := hj hi (by omega) (by omega)
        rw [hp] at this
        cases this
    · rw [if_neg hp, ih]
      constructor
      · rintro ⟨hpi, hi', hj⟩
        refine ⟨hpi, by omega, fun j h h' => ?_⟩
        obtain rfl | h' : j = hi ∨ j < hi := by omega
        · simpa using hp
        · exact hj j h h'
      · rintro ⟨hpi, hi', hj⟩
        refine ⟨hpi, ?_, fun j h h' => hj j h (by omega)⟩
        obtain rfl | h' : i = hi ∨ i < hi := by omega
        · exact absurd hpi hp
        · exact h'

theorem greatest_eq_none : greatest p hi = none ↔ ∀ j < hi, p j = false := by
  induction hi with
  | zero => simp [greatest]
  | succ hi ih =>
    rw [greatest]
    by_cases hp : p hi
    · rw [if_pos hp]
      constructor
      · intro h
        cases h
      · intro h
        have := h hi (by omega)
        rw [hp] at this
        cases this
    · rw [if_neg hp, ih]
      constructor
      · intro h j hj
        obtain rfl | hj : j = hi ∨ j < hi := by omega
        · simpa using hp
        · exact h j hj
      · exact fun h j hj => h j (by omega)

theorem mem_hits : i ∈ hits p lo n ↔ p i = true ∧ lo ≤ i ∧ i < n := by
  rw [hits, List.mem_filter, List.mem_range'_1]
  constructor
  · rintro ⟨⟨hlo, hn⟩, hp⟩
    exact ⟨hp, hlo, by omega⟩
  · rintro ⟨hp, hlo, hn⟩
    exact ⟨⟨hlo, by omega⟩, hp⟩

theorem hits_eq_nil : hits p lo n = [] ↔ least p lo n = none := by
  rw [hits, least, List.filter_eq_nil_iff, List.find?_eq_none]

theorem hits_congr {q : Nat → Bool} (h : ∀ i, lo ≤ i → i < n → p i = q i) :
    hits p lo n = hits q lo n := by
  apply List.filter_congr
  intro i hi
  rw [List.mem_range'_1] at hi
  exact h i hi.1 (by omega)

theorem hits_pairwise (p : Nat → Bool) (lo n : Nat) : (hits p lo n).Pairwise (· < ·) :=
  List.Pairwise.filter p List.pairwise_lt_range'

theorem hits_append {m : Nat} (hlo : lo ≤ m) (hn : m ≤ n) :
    hits p lo n = hits p lo m ++ hits p m n := by
  have happend : List.range' lo (m - lo) ++ List.range' (lo + 1 * (m - lo)) (n - m) =
      List.range' lo (m - lo + (n - m)) := List.range'_append
  rw [show lo + 1 * (m - lo) = m by omega, show m - lo + (n - m) = n - lo by omega] at happend
  rw [hits, hits, hits, ← List.filter_append, happend]

/-- Cut at one of them. -/
theorem hits_eq_append (hp : p i = true) (hlo : lo ≤ i) (hn : i < n) :
    hits p lo n = hits p lo i ++ i :: hits p (i + 1) n := by
  have hcons : hits p i n = i :: hits p (i + 1) n := by
    rw [hits, hits, show n - i = n - (i + 1) + 1 by omega, List.range'_succ,
      List.filter_cons_of_pos hp]
  rw [hits_append hlo (Nat.le_of_lt hn), hcons]

/-- If there are none from `m` on. -/
theorem hits_eq_of_lt {m : Nat} (hlo : lo ≤ m) (hn : m ≤ n) (h : ∀ i ∈ hits p lo n, i < m) :
    hits p lo n = hits p lo m := by
  rw [hits_append hlo hn] at h ⊢
  have hnil : hits p m n = [] := by
    apply List.eq_nil_iff_forall_not_mem.2
    intro i hi
    have := h i (List.mem_append.2 (.inr hi))
    have := (mem_hits.1 hi).2.1
    omega
  rw [hnil, List.append_nil]

/-- The least is the first, and the others come after it. -/
theorem hits_eq_cons (h : least p lo n = some i) : hits p lo n = i :: hits p (i + 1) n := by
  obtain ⟨hp, hlo, hn, hj⟩ := least_eq_some.1 h
  have hnil : hits p lo i = [] := hits_eq_nil.2 (least_eq_none.2 hj)
  rw [hits_eq_append hp hlo hn, hnil, List.nil_append]

/-- Below the bound the greatest is the last, and the others come before it. -/
theorem hits_reverse_eq_cons (h : greatest p hi = some i) :
    (hits p 0 hi).reverse = i :: (hits p 0 i).reverse := by
  obtain ⟨hp, hlt, hj⟩ := greatest_eq_some.1 h
  have hnil : hits p (i + 1) hi = [] :=
    hits_eq_nil.2 (least_eq_none.2 fun j hlo hn => hj j (by omega) hn)
  rw [hits_eq_append hp (Nat.zero_le i) hlt, hnil, List.reverse_append]
  rfl

theorem hits_eq_cons_iff {xs : List Nat} :
    hits p lo n = i :: xs ↔ least p lo n = some i ∧ xs = hits p (i + 1) n := by
  constructor
  · intro h
    cases hleast : least p lo n with
    | none => rw [hits_eq_nil.2 hleast] at h; cases h
    | some j =>
      rw [hits_eq_cons hleast] at h
      cases h
      exact ⟨rfl, rfl⟩
  · rintro ⟨h, rfl⟩
    exact hits_eq_cons h

theorem hits_reverse_eq_nil : (hits p 0 hi).reverse = [] ↔ greatest p hi = none := by
  rw [List.reverse_eq_nil_iff, greatest_eq_none, hits, List.filter_eq_nil_iff]
  simp only [List.mem_range'_1, Bool.not_eq_true]
  exact ⟨fun h j hj => h j (by omega), fun h j hj => h j (by omega)⟩

theorem hits_reverse_eq_cons_iff {xs : List Nat} :
    (hits p 0 hi).reverse = i :: xs ↔ greatest p hi = some i ∧ xs = (hits p 0 i).reverse := by
  constructor
  · intro h
    cases hgreatest : greatest p hi with
    | none => rw [hits_reverse_eq_nil.2 hgreatest] at h; cases h
    | some j =>
      rw [hits_reverse_eq_cons hgreatest] at h
      cases h
      exact ⟨rfl, rfl⟩
  · rintro ⟨h, rfl⟩
    exact hits_reverse_eq_cons h

end Nearest

/-! ## The loop -/

section Loop
variable {κ β ε : Type} [DecidableEq β]

def seek (read : κ → Except ε β) (endless : ε) (stop : β) (more : κ → Bool) (step : κ → κ) :
    Nat → β → κ → Except ε (β × κ)
  | 0, _, _ => .error endless
  | n + 1, cur, pos =>
    if cur = stop ∧ more pos then do
      let cur ← read (step pos)
      seek read endless stop more step n cur (step pos)
    else .ok (cur, pos)

/-- What the loop has before it after `m` rounds. -/
def sees (read : κ → Except ε β) (step : κ → κ) (cur : β) (pos : κ) : Nat → Except ε β
  | 0 => .ok cur
  | m + 1 => read (step^[m + 1] pos)

variable {read : κ → Except ε β} {endless : ε} {stop cur cur' : β} {more : κ → Bool} {step : κ → κ}
  {n : Nat} {pos pos' : κ}

/-- It ends after `m` rounds, with `cur'` at `pos'`. -/
def EndsAfter (read : κ → Except ε β) (stop : β) (more : κ → Bool) (step : κ → κ) (cur : β)
    (pos : κ) (cur' : β) (pos' : κ) (m : Nat) : Prop :=
  pos' = step^[m] pos ∧ sees read step cur pos m = .ok cur' ∧ ¬(cur' = stop ∧ more pos') ∧
    ∀ j < m, sees read step cur pos j = .ok stop ∧ more (step^[j] pos)

omit [DecidableEq β] in
theorem endsAfter_zero :
    EndsAfter read stop more step cur pos cur' pos' 0 ↔
      cur' = cur ∧ pos' = pos ∧ ¬(cur = stop ∧ more pos) := by
  constructor
  · rintro ⟨rfl, hcur, hend, -⟩
    cases hcur
    exact ⟨rfl, rfl, hend⟩
  · rintro ⟨rfl, rfl, hend⟩
    exact ⟨rfl, rfl, hend, fun j hj => absurd hj (Nat.not_lt_zero j)⟩

omit [DecidableEq β] in
/-- The first round, and the rounds after it. -/
theorem endsAfter_succ {m : Nat} :
    EndsAfter read stop more step cur pos cur' pos' (m + 1) ↔
      cur = stop ∧ more pos ∧ ∃ c, read (step pos) = .ok c ∧
        EndsAfter read stop more step c (step pos) cur' pos' m := by
  constructor
  · rintro ⟨rfl, hcur, hend, hj⟩
    obtain ⟨hstop, hmore⟩ := hj 0 (by omega)
    cases hstop
    refine ⟨rfl, hmore, ?_⟩
    -- what is read at the first step: the stop byte, unless it is also the last
    obtain ⟨c, hc⟩ : ∃ c, read (step pos) = .ok c := by
      cases m with
      | zero => exact ⟨cur', hcur⟩
      | succ m => exact ⟨_, (hj 1 (by omega)).1⟩
    have hsees : ∀ j, sees read step c (step pos) j = sees read step stop pos (j + 1) := by
      intro j
      cases j with
      | zero => exact hc.symm
      | succ j => rfl
    refine ⟨c, hc, rfl, (hsees m).trans hcur, hend, fun j hjm => ?_⟩
    exact ⟨(hsees j).trans (hj (j + 1) (by omega)).1, (hj (j + 1) (by omega)).2⟩
  · rintro ⟨rfl, hmore, c, hc, rfl, hcur, hend, hj⟩
    have hsees : ∀ j, sees read step cur pos (j + 1) = sees read step c (step pos) j := by
      intro j
      cases j with
      | zero => exact hc
      | succ j => rfl
    refine ⟨rfl, (hsees m).trans hcur, hend, fun j hjm => ?_⟩
    cases j with
    | zero => exact ⟨rfl, hmore⟩
    | succ j => exact ⟨(hsees j).trans (hj j (by omega)).1, (hj j (by omega)).2⟩

theorem seek_eq_ok_iff :
    seek read endless stop more step n cur pos = .ok (cur', pos') ↔
      ∃ m < n, EndsAfter read stop more step cur pos cur' pos' m := by
  induction n generalizing cur pos with
  | zero => simp [seek]
  | succ n ih =>
    rw [seek]
    by_cases hgo : cur = stop ∧ more pos
    · rw [if_pos hgo]
      constructor
      · intro h
        cases hread : read (step pos) with
        | error e => simp [hread, bind, Except.bind] at h
        | ok c =>
          obtain ⟨m, hm, hends⟩ := ih.1 (by simpa [hread, bind, Except.bind] using h)
          exact ⟨m + 1, by omega, endsAfter_succ.2 ⟨hgo.1, hgo.2, c, hread, hends⟩⟩
      · rintro ⟨m, hm, hends⟩
        cases m with
        | zero => exact absurd hgo (endsAfter_zero.1 hends).2.2
        | succ m =>
          obtain ⟨-, -, c, hread, hends⟩ := endsAfter_succ.1 hends
          simpa [hread, bind, Except.bind] using ih.2 ⟨m, by omega, hends⟩
    · rw [if_neg hgo]
      constructor
      · intro h
        cases h
        exact ⟨0, by omega, endsAfter_zero.2 ⟨rfl, rfl, hgo⟩⟩
      · rintro ⟨m, hm, hends⟩
        cases m with
        | zero =>
          obtain ⟨rfl, rfl, -⟩ := endsAfter_zero.1 hends
          rfl
        | succ m =>
          obtain ⟨hstop, hmore, -⟩ := endsAfter_succ.1 hends
          exact absurd ⟨hstop, hmore⟩ hgo

theorem seek_of_not (h : ¬(cur = stop ∧ more pos)) :
    seek read endless stop more step (n + 1) cur pos = .ok (cur, pos) := by
  rw [seek, if_neg h]

end Loop

/-! ## One call after the other -/

section Calls
variable {σ α ε : Type}

/-- `n` calls: the answers, and the state after the last. -/
def calls (f : σ → Except ε (α × σ)) : Nat → σ → Except ε (List α × σ)
  | 0, s => .ok ([], s)
  | n + 1, s => do
    let (a, s) ← f s
    let (as, s) ← calls f n s
    return (a :: as, s)

/-- One call of `g`, and then `n` of `f`. -/
def callsAfter (g f : σ → Except ε (α × σ)) (n : Nat) (s : σ) : Except ε (List α × σ) := do
  let (a, s) ← g s
  let (as, s) ← calls f n s
  return (a :: as, s)

variable {f g : σ → Except ε (α × σ)} {s s' : σ} {a : α} {as : List α} {n : Nat}

theorem callsAfter_eq_ok :
    callsAfter g f n s = .ok (a :: as, s') ↔
      ∃ t, g s = .ok (a, t) ∧ calls f n t = .ok (as, s') := by
  rw [callsAfter]
  cases hg : g s with
  | error e => simp [bind, Except.bind]
  | ok r =>
    obtain ⟨b, t⟩ := r
    cases hc : calls f n t with
    | error e => simp [bind, Except.bind, hc]
    | ok q =>
      obtain ⟨bs, u⟩ := q
      simp only [bind, Except.bind, hc, pure, Except.pure, Except.ok.injEq, Prod.mk.injEq,
        List.cons.injEq]
      constructor
      · rintro ⟨⟨rfl, rfl⟩, rfl⟩
        exact ⟨t, ⟨rfl, rfl⟩, by rw [hc]⟩
      · rintro ⟨t', ⟨rfl, rfl⟩, h⟩
        rw [hc, Except.ok.injEq, Prod.mk.injEq] at h
        exact ⟨⟨rfl, h.1⟩, h.2⟩

theorem first_of_callsAfter {r : List α × σ} (h : callsAfter g f n s = .ok r) :
    ∃ q, g s = .ok q := by
  cases hg : g s with
  | error e =>
    rw [callsAfter, hg] at h
    cases h
  | ok q => exact ⟨q, rfl⟩

theorem calls_succ (f : σ → Except ε (α × σ)) (n : Nat) (s : σ) :
    calls f (n + 1) s = callsAfter f f n s := rfl

theorem callsAfter_congr {s'' : σ} (h : g s = f s'') :
    callsAfter g f n s = calls f (n + 1) s'' := by
  rw [calls_succ, callsAfter, callsAfter, h]

theorem calls_succ_eq_ok :
    calls f (n + 1) s = .ok (a :: as, s') ↔ ∃ t, f s = .ok (a, t) ∧ calls f n t = .ok (as, s') :=
  callsAfter_eq_ok

variable {answer : Nat → α} {fin : α} {c : Nat}

/-- Steps that look only at where they lead. -/
theorem isChain_cons_iff {P : Nat → Prop} {xs : List Nat} :
    List.IsChain (fun _ x => P x) (c :: xs) ↔ ∀ x ∈ xs, P x := by
  induction xs generalizing c with
  | nil => simp
  | cons x xs ih => rw [List.isChain_cons_cons, ih, List.forall_mem_cons]

/-- From a state at `c`, as many calls as there are numbers ahead, and one more, answer
them in turn and then `fin`, if and only if each step from one to the next is good and
the last call is. -/
theorem calls_iff (At : Nat → σ → Prop) (ahead : Nat → List Nat) (Step : Nat → Nat → Prop)
    (End : Nat → Prop)
    (step : ∀ {c s x xs}, At c s → ahead c = x :: xs →
      ((∃ t, f s = .ok (answer x, t)) ↔ Step c x) ∧
        ∀ t, f s = .ok (answer x, t) → At x t ∧ ahead x = xs)
    (last : ∀ {c s}, At c s → ahead c = [] → ((∃ t, f s = .ok (fin, t)) ↔ End c))
    (h : At c s) :
    (∃ t, calls f ((ahead c).length + 1) s = .ok ((ahead c).map answer ++ [fin], t)) ↔
      List.IsChain Step (c :: ahead c) ∧ End ((c :: ahead c).getLast (List.cons_ne_nil _ _)) := by
  generalize hxs : ahead c = xs
  induction xs generalizing c s with
  | nil =>
    constructor
    · rintro ⟨t, ht⟩
      obtain ⟨t', hf, -⟩ := calls_succ_eq_ok.1 ht
      exact ⟨List.isChain_singleton c, (last h hxs).1 ⟨t', hf⟩⟩
    · rintro ⟨-, hend⟩
      obtain ⟨t, hf⟩ := (last h hxs).2 hend
      exact ⟨t, calls_succ_eq_ok.2 ⟨t, hf, rfl⟩⟩
  | cons x xs ih =>
    obtain ⟨hstep, hnext⟩ := step h hxs
    rw [List.isChain_cons_cons, List.getLast_cons (List.cons_ne_nil x xs), and_assoc]
    constructor
    · rintro ⟨u, hu⟩
      obtain ⟨t, hf, hrest⟩ := calls_succ_eq_ok.1 hu
      obtain ⟨hat, hahead⟩ := hnext t hf
      exact ⟨hstep.1 ⟨t, hf⟩, (ih hat hahead).1 ⟨u, hrest⟩⟩
    · rintro ⟨hgood, hrest⟩
      obtain ⟨t, hf⟩ := hstep.2 hgood
      obtain ⟨hat, hahead⟩ := hnext t hf
      obtain ⟨u, hu⟩ := (ih hat hahead).2 hrest
      exact ⟨u, calls_succ_eq_ok.2 ⟨t, hf, hu⟩⟩

end Calls
end Malamute.Core.Scan
