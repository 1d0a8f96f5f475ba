import Mathlib.Algebra.GroupWithZero.Nat
import Mathlib.Logic.Function.Iterate
import Malamute.Core.Partial

/-!
# Counted loops over a counter that wraps

`count k n body` is the loop

    for (i = 0; i < n; i += k) body (i);

with `uint i`: the counter is a `UInt32`, the bound any number. `rounds` is a number of
rounds whatever the bound says; `rounds_eq_ok_iff` is the rule for a body of which each
round is known, and the condition under which it goes well. `count_eq_ok_iff` ties the two
together for a `k` that divides 2^32: the loop ends if and only if the bound leaves room for
one more step below 2^32, after as many rounds as it takes to get to the bound; for a higher
bound the counter goes round without ever reaching it.
-/
namespace Malamute.Core.Loop
variable {ε ι σ : Type}

/-! ## Rounds -/

/-- The first `m` rounds from `i` on. -/
def rounds (step : ι → ι) (body : ι → σ → Except ε σ) : Nat → ι → σ → Except ε σ
  | 0, _, s => .ok s
  | m + 1, i, s => do
    let s ← body i s
    rounds step body m (step i) s

/-- `for (; more (i); i = step (i)) body (i);` with at most `n` rounds. -/
def loop (endless : ε) (more : ι → Bool) (step : ι → ι) (body : ι → σ → Except ε σ) :
    Nat → ι → σ → Except ε (ι × σ)
  | 0, _, _ => .error endless
  | n + 1, i, s =>
    if more i then do
      let s ← body i s
      loop endless more step body n (step i) s
    else .ok (i, s)

variable {endless : ε} {more : ι → Bool} {step : ι → ι} {body : ι → σ → Except ε σ}
  {i j : ι} {s t : σ} {m n : Nat}

theorem rounds_succ_eq_ok :
    rounds step body (m + 1) i s = .ok t ↔
      ∃ u, body i s = .ok u ∧ rounds step body m (step i) u = .ok t := by
  rw [rounds, bind_eq_ok]

/-- Rounds that take `trace 0` to `trace m`, each only under its condition `P`. -/
theorem rounds_eq_ok_iff {P : Nat → Prop} [DecidablePred P] {e : ε} (trace : Nat → σ)
    (h : ∀ l < m, body (step^[l] i) (trace l) = if P l then .ok (trace (l + 1)) else .error e) :
    rounds step body m i (trace 0) = .ok t ↔ (∀ l < m, P l) ∧ t = trace m := by
  induction m generalizing i trace P with
  | zero =>
    refine ⟨fun ht => ⟨fun l hl => absurd hl (Nat.not_lt_zero l), (Except.ok.inj ht).symm⟩, ?_⟩
    exact fun ht => congrArg Except.ok ht.2.symm
  | succ m ih =>
    have hrest := ih (i := step i) (P := fun l => P (l + 1)) (fun l => trace (l + 1))
      fun l hl => h (l + 1) (by omega)
    have hfirst : body i (trace 0) = if P 0 then .ok (trace 1) else .error e := h 0 (Nat.succ_pos m)
    rw [rounds_succ_eq_ok, hfirst]
    constructor
    · rintro ⟨u, hu, hrun⟩
      split at hu
      · rename_i hP
        cases hu
        obtain ⟨hall, ht⟩ := hrest.1 hrun
        refine ⟨fun l hl => ?_, ht⟩
        cases l with
        | zero => exact hP
        | succ l => exact hall l (Nat.lt_of_succ_lt_succ hl)
      · cases hu
    · rintro ⟨hall, ht⟩
      refine ⟨trace 1, if_pos (hall 0 (Nat.succ_pos m)), hrest.2 ⟨fun l hl => ?_, ht⟩⟩
      exact hall (l + 1) (Nat.succ_lt_succ hl)

/-- The loop ends with the first counter for which there is no more to do. -/
theorem loop_eq_ok_iff :
    loop endless more step body n i s = .ok (j, t) ↔
      ∃ m < n, (∀ l < m, more (step^[l] i) = true) ∧ more (step^[m] i) = false ∧
        j = step^[m] i ∧ rounds step body m i s = .ok t := by
  induction n generalizing i s with
  | zero =>
    constructor
    · intro h
      cases h
    · rintro ⟨m, hm, -⟩
      omega
  | succ n ih =>
    rw [loop]
    by_cases hi : more i = true
    · rw [if_pos hi, bind_eq_ok]
      constructor
      · rintro ⟨u, hb, h⟩
        obtain ⟨m, hm, hmore, hstop, hj, hrest⟩ := ih.1 h
        refine ⟨m + 1, by omega, fun l hl => ?_, hstop, hj, rounds_succ_eq_ok.2 ⟨u, hb, hrest⟩⟩
        cases l with
        | zero => exact hi
        | succ l => exact hmore l (Nat.lt_of_succ_lt_succ hl)
      · rintro ⟨m, hm, hmore, hstop, hj, hrun⟩
        cases m with
        | zero => exact absurd (hi.symm.trans hstop) Bool.noConfusion
        | succ m =>
          obtain ⟨u, hu, hrest⟩ := rounds_succ_eq_ok.1 hrun
          have hmore' : ∀ l < m, more (step^[l] (step i)) = true := fun l hl =>
            hmore (l + 1) (Nat.succ_lt_succ hl)
          exact ⟨u, hu, ih.2 ⟨m, by omega, hmore', hstop, hj, hrest⟩⟩
    · rw [if_neg hi]
      constructor
      · intro h
        cases h
        exact ⟨0, by omega, fun l hl => absurd hl (Nat.not_lt_zero l), Bool.eq_false_iff.2 hi, rfl,
          rfl⟩
      · rintro ⟨m, -, hmore, -, hj, hrun⟩
        cases m with
        | zero =>
          cases hrun
          exact congrArg Except.ok (Prod.ext hj.symm rfl)
        | succ m => exact absurd (hmore 0 (Nat.succ_pos m)) hi

/-! ## The counter -/

/-- `for (i = 0; i < n; i += k) body (i);` with `uint i`. -/
def count (endless : ε) (k n : Nat) (body : UInt32 → σ → Except ε σ) (s : σ) :
    Except ε (UInt32 × σ) :=
  loop endless (fun i => i.toNat < n) (fun i => i + UInt32.ofNat k) body (2 ^ 32) 0 s

/-- The rounds it takes to get from 0 to `n` or over it in steps of `k`. -/
def turns (k n : Nat) : Nat := (n + k - 1) / k

theorem iterate_add (k l : Nat) :
    (fun i : UInt32 => i + UInt32.ofNat k)^[l] 0 = UInt32.ofNat (l * k) := by
  induction l with
  | zero => simp
  | succ l ih => rw [Function.iterate_succ_apply', ih, ← UInt32.ofNat_add, Nat.succ_mul]

variable {k : Nat}

theorem lt_turns (hk : 0 < k) : m < turns k n ↔ m * k < n := by
  rw [turns, Nat.lt_div_iff_mul_lt hk]
  omega

theorem le_turns_mul (hk : 0 < k) : n ≤ turns k n * k := by
  have h := (lt_turns (m := turns k n) (n := n) hk).not
  omega

/-- A multiple of `k` from `n` on is not below the end of the rounds. -/
theorem turns_mul_le (hk : 0 < k) (hn : n ≤ m * k) : turns k n * k ≤ m * k := by
  apply Nat.mul_le_mul_right
  have h := (lt_turns (m := m) (n := n) hk).not
  omega

/-- With a step left between the bound and 2^32 the last counter leaves one, too. -/
theorem turns_mul_add_le (hdvd : k ∣ 2 ^ 32) (hn : n + k ≤ 2 ^ 32) :
    turns k n * k + k ≤ 2 ^ 32 := by
  have hk : 0 < k := Nat.pos_of_dvd_of_pos hdvd (by decide)
  obtain ⟨q, hq⟩ := hdvd
  have hq' : (q - 1) * k = 2 ^ 32 - k := by
    rw [Nat.sub_mul, hq, Nat.mul_comm q k, Nat.one_mul]
  have hle := turns_mul_le (m := q - 1) hk (by omega : n ≤ (q - 1) * k)
  omega

/-- A counter that is a multiple of `k` is at most `2 ^ 32 - k`. -/
theorem toNat_mul_add_le (hdvd : k ∣ 2 ^ 32) (m : Nat) :
    (UInt32.ofNat (m * k)).toNat + k ≤ 2 ^ 32 := by
  obtain ⟨q, hq⟩ := hdvd
  have hmod : m * k % 2 ^ 32 = k * (m % q) := by
    rw [hq, Nat.mul_comm m k, Nat.mul_mod_mul_left]
  have hpos : 0 < q := Nat.pos_of_ne_zero fun h => by
    rw [h] at hq
    simp at hq
  rw [UInt32.toNat_ofNat', hmod, ← Nat.mul_succ, hq]
  exact Nat.mul_le_mul_left k (Nat.mod_lt m hpos)

/-- The loop ends if and only if there is a step left between the bound and 2^32 and all
its rounds go well. -/
theorem count_eq_ok_iff {body : UInt32 → σ → Except ε σ} {i : UInt32} (hdvd : k ∣ 2 ^ 32) :
    count endless k n body s = .ok (i, t) ↔
      n + k ≤ 2 ^ 32 ∧ i = UInt32.ofNat (turns k n * k) ∧
        rounds (fun i => i + UInt32.ofNat k) body (turns k n) 0 s = .ok t := by
  have hk : 0 < k := Nat.pos_of_dvd_of_pos hdvd (by decide)
  have hroom := turns_mul_add_le (n := n) hdvd
  -- the counter in round `l`
  have hnum {l : Nat} (hl : l * k < 2 ^ 32) : (UInt32.ofNat (l * k)).toNat = l * k :=
    UInt32.toNat_ofNat_of_lt' hl
  rw [count, loop_eq_ok_iff]
  simp only [iterate_add, decide_eq_true_eq, decide_eq_false_iff_not, Nat.not_lt]
  constructor
  · rintro ⟨m, -, hmore, hstop, hi, hrun⟩
    have hlast : n + k ≤ 2 ^ 32 := by
      have := toNat_mul_add_le hdvd m
      omega
    have hturns := hroom hlast
    obtain rfl : m = turns k n := by
      obtain hlt | heq | hgt := Nat.lt_trichotomy m (turns k n)
      · have := (lt_turns hk).1 hlt
        rw [hnum (by omega)] at hstop
        omega
      · exact heq
      · have := hmore _ hgt
        rw [hnum (by omega)] at this
        have := le_turns_mul (n := n) hk
        omega
    exact ⟨hlast, hi, hrun⟩
  · rintro ⟨hlast, hi, hrun⟩
    have hturns := hroom hlast
    refine ⟨turns k n, ?_, fun l hl => ?_, ?_, hi, hrun⟩
    · have := Nat.le_mul_of_pos_right (turns k n) hk
      omega
    · have := (lt_turns hk).1 hl
      rw [hnum (by omega)]
      exact this
    · rw [hnum (by omega)]
      exact le_turns_mul hk

end Malamute.Core.Loop
