import Mathlib.Data.Set.Card
import Malamute.L1Bits.Algebra

/-!
# Counting the ones (`zbits_ones`)

`bits_set` is an `int`, which overflows from 2^31 on, and the counter is a `uint`.
`counts_iff`: for a sound bitmap the count is the number of indices at which `zbits_get`
gives 1 if and only if the used bytes can be gone through, the ones can be counted and a
`uint` can name each of them.
-/
namespace Malamute.L1
open Malamute.Core
namespace Zbits

/-- mirrors src/src/zbits.c:40-59 -/
def sBitCount : List UInt8 := [
  0, 1, 1, 2, 1, 2, 2, 3, 1, 2, 2, 3, 2, 3, 3, 4,
  1, 2, 2, 3, 2, 3, 3, 4, 2, 3, 3, 4, 3, 4, 4, 5,
  1, 2, 2, 3, 2, 3, 3, 4, 2, 3, 3, 4, 3, 4, 4, 5,
  2, 3, 3, 4, 3, 4, 4, 5, 3, 4, 4, 5, 4, 5, 5, 6,
  1, 2, 2, 3, 2, 3, 3, 4, 2, 3, 3, 4, 3, 4, 4, 5,
  2, 3, 3, 4, 3, 4, 4, 5, 3, 4, 4, 5, 4, 5, 5, 6,
  2, 3, 3, 4, 3, 4, 4, 5, 3, 4, 4, 5, 4, 5, 5, 6,
  3, 4, 4, 5, 4, 5, 5, 6, 4, 5, 5, 6, 5, 6, 6, 7,
  1, 2, 2, 3, 2, 3, 3, 4, 2, 3, 3, 4, 3, 4, 4, 5,
  2, 3, 3, 4, 3, 4, 4, 5, 3, 4, 4, 5, 4, 5, 5, 6,
  2, 3, 3, 4, 3, 4, 4, 5, 3, 4, 4, 5, 4, 5, 5, 6,
  3, 4, 4, 5, 4, 5, 5, 6, 4, 5, 5, 6, 5, 6, 6, 7,
  2, 3, 3, 4, 3, 4, 4, 5, 3, 4, 4, 5, 4, 5, 5, 6,
  3, 4, 4, 5, 4, 5, 5, 6, 4, 5, 5, 6, 5, 6, 6, 7,
  3, 4, 4, 5, 4, 5, 5, 6, 4, 5, 5, 6, 5, 6, 6, 7,
  4, 5, 5, 6, 5, 6, 6, 7, 5, 6, 6, 7, 6, 7, 7, 8]

/-- `bits_set += n` for an `int` that is not negative; overflow is undefined. -/
def addInt (bitsSet : Nat) (n : UInt8) : Except BitsFault Nat :=
  if bitsSet + n.toNat < 2 ^ 31 then .ok (bitsSet + n.toNat) else .error .conversion

/-- `bits_set += s_bit_count [self->data [cur_size]]` -/
def countByte (b : Zbits) (curSize : UInt32) (bitsSet : Nat) : Except BitsFault Nat := do
  addInt bitsSet (entry sBitCount (← b.read curSize))

/-- mirrors src/src/zbits.c:207-217 -/
def zbitsOnes (b : Zbits) : Except BitsFault Int :=
  if b.used ≤ b.size then do
    let (_, bitsSet) ← Loop.count .endless 1 b.used b.countByte 0
    return bitsSet
  else .error .assertion

/-- The count is the number of indices at which `zbits_get` gives 1. -/
def Counts (b : Zbits) : Prop :=
  b.zbitsOnes = .ok (Set.ncard {i : UInt32 | b.get i = .ok true} : Int)

variable {b : Zbits} {n : Nat}

/-! ## The count -/

theorem toNat_bitCount (x : UInt8) :
    (entry sBitCount x).toNat = ((List.range 8).filter fun j => x.toNat.testBit j).length := by
  apply forall_byte (P := fun x =>
    (entry sBitCount x).toNat = ((List.range 8).filter fun j => x.toNat.testBit j).length)
  decide +kernel

/-- The ones in the first `n` bytes. -/
def onesBelow (b : Zbits) (n : Nat) : Nat := (Scan.hits b.bit 0 (8 * n)).length

theorem onesBelow_succ (b : Zbits) (n : Nat) :
    b.onesBelow (n + 1) = b.onesBelow n + (entry sBitCount (b.byteAt n)).toNat := by
  have hbyte : Scan.hits b.bit (8 * n) (8 * (n + 1)) =
      ((List.range 8).filter fun j => (b.byteAt n).toNat.testBit j).map (8 * n + ·) := by
    rw [Scan.hits, show 8 * (n + 1) - 8 * n = 8 by omega, List.range'_eq_map_range, List.filter_map]
    refine congrArg _ (List.filter_congr fun j hj => ?_)
    exact bit_of_byteAt (List.mem_range.1 hj)
  rw [onesBelow, Scan.hits_append (m := 8 * n) (Nat.zero_le _) (by omega), List.length_append,
    hbyte, List.length_map, toNat_bitCount]
  rfl

theorem onesBelow_mono {m n : Nat} (h : m ≤ n) : b.onesBelow m ≤ b.onesBelow n := by
  induction h with
  | refl => exact Nat.le_refl _
  | step _ ih =>
    rw [onesBelow_succ]
    omega

theorem countByte_eq (h : n < b.size) (hn : n < 2 ^ 32) :
    b.countByte (UInt32.ofNat n) (b.onesBelow n) =
      if b.onesBelow (n + 1) < 2 ^ 31 then .ok (b.onesBelow (n + 1)) else .error .conversion := by
  have hlt : n < b.data.length := h
  have hread : b.read (UInt32.ofNat n) = .ok (b.byteAt n) := by
    rw [read_eq_ok, UInt32.toNat_ofNat_of_lt' hn, byteAt,
      List.getD_eq_getElem _ _ hlt]
    exact List.getElem?_eq_getElem hlt
  rw [countByte, hread, ok_bind, addInt, onesBelow_succ]

/-- The count is that of all ones in the bytes used, if they can be gone through and
counted. -/
theorem zbitsOnes_eq_ok {r : Int} :
    b.zbitsOnes = .ok r ↔ b.used ≤ b.size ∧ b.used < 2 ^ 32 ∧ b.onesBelow b.used < 2 ^ 31 ∧
      r = b.onesBelow b.used := by
  have hturns : Loop.turns 1 b.used = b.used := by
    unfold Loop.turns
    omega
  unfold zbitsOnes
  rw [guard_eq_ok]
  refine and_congr_right fun hle => ?_
  have hrounds {t : Nat} (hused : b.used < 2 ^ 32) :
      Loop.rounds (fun i => i + UInt32.ofNat 1) b.countByte b.used 0 (b.onesBelow 0) = .ok t ↔
        (∀ l < b.used, b.onesBelow (l + 1) < 2 ^ 31) ∧ t = b.onesBelow b.used := by
    refine Loop.rounds_eq_ok_iff (e := .conversion) b.onesBelow fun l hl => ?_
    rw [Loop.iterate_add, Nat.mul_one]
    exact countByte_eq (by omega) (by omega)
  constructor
  · intro h
    obtain ⟨⟨k, t⟩, hloop, hr⟩ := bind_eq_ok.1 h
    obtain ⟨hroom, -, hrun⟩ := (Loop.count_eq_ok_iff (by decide)).1 hloop
    rw [hturns] at hrun
    obtain ⟨hall, rfl⟩ := (hrounds (by omega)).1 hrun
    refine ⟨by omega, ?_, (Except.ok.inj hr).symm⟩
    obtain hzero | hpos := Nat.eq_zero_or_pos b.used
    · rw [hzero]
      exact Nat.two_pow_pos 31
    · have := hall (b.used - 1) (by omega)
      rwa [Nat.sub_add_cancel hpos] at this
  · rintro ⟨hused, hlt, rfl⟩
    refine bind_eq_ok.2 ⟨(_, b.onesBelow b.used), (Loop.count_eq_ok_iff (by decide)).2
      ⟨by omega, rfl, ?_⟩, rfl⟩
    rw [hturns]
    refine (hrounds hused).2 ⟨fun l hl => ?_, rfl⟩
    exact Nat.lt_of_le_of_lt (onesBelow_mono (Nat.succ_le_of_lt hl)) hlt

/-! ## The indices -/

/-- The indices at which `zbits_get` gives 1 are the ones that fit a `uint`. -/
theorem ncard_get (b : Zbits) :
    Set.ncard {i : UInt32 | b.get i = .ok true} = (b.ones.filter fun i => i < 2 ^ 32).length := by
  have himage : UInt32.toNat '' {i : UInt32 | b.get i = .ok true} =
      ↑(b.ones.filter fun i => i < 2 ^ 32).toFinset := by
    ext i
    simp only [Set.mem_image, Set.mem_ofPred_eq, List.coe_toFinset, List.mem_filter, mem_ones,
      decide_eq_true_eq]
    constructor
    · rintro ⟨n, hn, rfl⟩
      have hlt : n.toNat < b.bits := by
        by_contra h
        rw [get_of_not_lt h] at hn
        cases hn
      rw [get_eq hlt] at hn
      exact ⟨⟨Except.ok.inj hn, hlt⟩, n.toNat_lt⟩
    · rintro ⟨⟨hbit, hlt⟩, hi⟩
      have hnum : (UInt32.ofNat i).toNat = i := UInt32.toNat_ofNat_of_lt' hi
      exact ⟨UInt32.ofNat i, by rw [get_eq (by rwa [hnum]), hnum, hbit], hnum⟩
  have hnodup : (b.ones.filter fun i => i < 2 ^ 32).Nodup :=
    ((Scan.hits_pairwise _ _ _).imp fun h => Nat.ne_of_lt h).filter _
  rw [← Set.ncard_image_of_injective _ fun _ _ => UInt32.toNat_inj.1, himage, Set.ncard_coe_finset,
    List.toFinset_card_of_nodup hnodup]

/-- All ones of a sound bitmap are in the bytes used. -/
theorem onesBelow_used (hb : b.Sound) : b.onesBelow b.used = b.ones.length := by
  have hbits : b.bits = 8 * b.size := rfl
  have hle := hb.used_le
  have hnil : Scan.hits b.bit (8 * b.used) b.bits = [] := by
    rw [Scan.hits_eq_nil, Scan.least_eq_none]
    exact fun i hi _ => hb.bit hi
  rw [ones, Scan.hits_append (m := 8 * b.used) (Nat.zero_le _) (by omega), hnil, List.append_nil]
  rfl

theorem counts_iff (hb : b.Sound) :
    b.Counts ↔ b.used < 2 ^ 32 ∧ b.ones.length < 2 ^ 31 ∧ ∀ i, b.bit i = true → i < 2 ^ 32 := by
  have hall : (∀ i, b.bit i = true → i < 2 ^ 32) ↔ ∀ i ∈ b.ones, i < 2 ^ 32 := by
    refine forall_congr' fun i => ?_
    rw [mem_ones]
    refine ⟨fun h hi => h hi.1, fun h hi => h ⟨hi, ?_⟩⟩
    by_contra hlt
    rw [bit_of_bits_le (Nat.le_of_not_lt hlt)] at hi
    cases hi
  unfold Counts
  rw [zbitsOnes_eq_ok, ncard_get, onesBelow_used hb, hall]
  constructor
  · rintro ⟨-, hused, hlt, heq⟩
    refine ⟨hused, hlt, fun i hi => ?_⟩
    have hfilter := List.length_filter_eq_length_iff.1 (Int.ofNat.inj heq)
    exact of_decide_eq_true (hfilter i hi)
  · rintro ⟨hused, hlt, hfit⟩
    refine ⟨hb.used_le, hused, hlt, ?_⟩
    exact congrArg _ (List.length_filter_eq_length_iff.2 fun i hi => decide_eq_true (hfit i hi))

end Zbits
end Malamute.L1
