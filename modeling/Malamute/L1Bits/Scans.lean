import Malamute.L1Bits.Bits

/-!
# What the scans find

A scan looks for the bits that are not `flip`: with `flip = false` for ones, with `true`
for zeros. `Window` ties the masked byte to the bits it stands for, and
`endsAfter_up` and `endsAfter_down` turn a run of the loop into the stretch of bits it
has passed over; only a loop that goes round the end of `uint` is left out there.

`look_up` and `look_down` are the results: when a scan upwards or downwards gives the
nearest hit.
-/
namespace Malamute.L1
open Malamute.Core

/-! ## Bytes -/

/-- The byte a scan passes over. -/
def stopByte (flip : Bool) : UInt8 := if flip then 255 else 0

/-- The byte whose set bits are the hits. -/
def key (flip : Bool) (x : UInt8) : UInt8 := if flip then 255 - x else x

/-- Bit `j` of the byte is a hit. -/
def off (flip : Bool) (x : UInt8) (j : Nat) : Bool := x.toNat.testBit j != flip

variable {flip : Bool} {x cur cur' : UInt8} {j : Nat}

theorem forall_byte {P : UInt8 → Prop} (h : ∀ n : Fin 256, P (UInt8.ofNat n)) (x : UInt8) :
    P x := by
  have := h ⟨x.toNat, x.toNat_lt⟩
  rwa [UInt8.ofNat_toNat] at this

theorem testBit_first (x : UInt8) (h : x ≠ 0) :
    (entry sFirstBitOn x).toNat < 8 ∧ x.toNat.testBit (entry sFirstBitOn x).toNat = true ∧
      ∀ j < (entry sFirstBitOn x).toNat, x.toNat.testBit j = false := by
  revert h
  apply forall_byte (P := fun x => x ≠ 0 → (entry sFirstBitOn x).toNat < 8 ∧
    x.toNat.testBit (entry sFirstBitOn x).toNat = true ∧
      ∀ j < (entry sFirstBitOn x).toNat, x.toNat.testBit j = false)
  decide +kernel

theorem testBit_last (x : UInt8) (h : x ≠ 0) :
    (entry sLastBitOn x).toNat < 8 ∧ x.toNat.testBit (entry sLastBitOn x).toNat = true ∧
      ∀ j < 8, (entry sLastBitOn x).toNat < j → x.toNat.testBit j = false := by
  revert h
  apply forall_byte (P := fun x => x ≠ 0 → (entry sLastBitOn x).toNat < 8 ∧
    x.toNat.testBit (entry sLastBitOn x).toNat = true ∧
      ∀ j < 8, (entry sLastBitOn x).toNat < j → x.toNat.testBit j = false)
  decide +kernel

theorem testBit_complement (x : UInt8) :
    ∀ j < 8, (255 - x).toNat.testBit j = !x.toNat.testBit j := by
  apply forall_byte (P := fun x => ∀ j < 8, (255 - x).toNat.testBit j = !x.toNat.testBit j)
  decide +kernel

theorem eq_zero_of_testBit (x : UInt8) (h : ∀ j < 8, x.toNat.testBit j = false) : x = 0 := by
  by_contra hne
  obtain ⟨hlt, hset, -⟩ := testBit_first x hne
  rw [h _ hlt] at hset
  cases hset

theorem testBit_key (hj : j < 8) : (key flip x).toNat.testBit j = off flip x j := by
  cases flip
  · simp [key, off]
  · simp [key, off, testBit_complement x j hj]

theorem off_stopByte (hj : j < 8) : off flip (stopByte flip) j = false := by
  rw [← testBit_key hj]
  cases flip
  · simp [key, stopByte]
  · simp [key, stopByte]

theorem eq_stopByte (h : ∀ j < 8, off flip x j = false) : x = stopByte flip := by
  have hkey : key flip x = 0 := eq_zero_of_testBit _ fun j hj => (testBit_key hj).trans (h j hj)
  cases flip
  · exact hkey
  · have : (255 - x).toNat = 0 := congrArg UInt8.toNat hkey
    apply UInt8.toNat_inj.1
    have hlt := x.toNat_lt
    rw [UInt8.toNat_sub_of_le _ _ (by rw [UInt8.le_iff_toNat_le]; simp; omega)] at this
    simp [stopByte] at this ⊢
    omega

theorem key_ne_zero (h : x ≠ stopByte flip) : key flip x ≠ 0 := by
  intro hkey
  apply h
  apply eq_stopByte
  intro j hj
  rw [← testBit_key hj, hkey]
  exact Nat.zero_testBit j

/-! ## The bits a byte stands for -/

namespace Zbits

/-- Bit `i` is not `flip`. -/
def hit (b : Zbits) (flip : Bool) (i : Nat) : Bool := b.bit i != flip

variable {b : Zbits} {q : Nat → Bool} {n : Nat} {k k' : UInt32}

theorem read_eq_ok : b.read k = .ok x ↔ b.data[k.toNat]? = some x := by
  unfold read
  cases b.data[k.toNat]? <;> simp

theorem read_lt (h : b.read k = .ok x) : k.toNat < b.size :=
  (List.getElem?_eq_some_iff.1 (read_eq_ok.1 h)).1

theorem exists_read (h : k.toNat < b.size) : ∃ x, b.read k = .ok x :=
  ⟨_, read_eq_ok.2 (List.getElem?_eq_getElem h)⟩

theorem bit_of_read (h : b.read k = .ok x) (hj : j < 8) :
    b.bit (8 * k.toNat + j) = x.toNat.testBit j := by
  have hdiv : (8 * k.toNat + j) / 8 = k.toNat := by omega
  have hmod : (8 * k.toNat + j) % 8 = j := by omega
  rw [bit, hdiv, hmod, List.getD_eq_getElem?_getD, read_eq_ok.1 h, Option.getD_some]

/-- The hits of the byte are the hits with `q` among the bits of byte `n`. -/
def Window (b : Zbits) (flip : Bool) (q : Nat → Bool) (cur : UInt8) (n : Nat) : Prop :=
  ∀ j < 8, off flip cur j = (b.hit flip (8 * n + j) && q (8 * n + j))

theorem window_of_read (flip : Bool) (h : b.read k = .ok x)
    (hq : ∀ j < 8, q (8 * k.toNat + j) = true) : b.Window flip q x k.toNat := by
  intro j hj
  rw [hq j hj, Bool.and_true, hit, bit_of_read h hj, off]

theorem Window.no_hit (h : b.Window flip q (stopByte flip) n) {i : Nat} (hi : i / 8 = n)
    (hq : q i = true) : b.hit flip i = false := by
  have hj := h (i % 8) (by omega)
  rw [off_stopByte (by omega), show 8 * n + i % 8 = i by omega, hq, Bool.and_true] at hj
  exact hj.symm

theorem Window.first (h : b.Window flip q cur n) (hne : cur ≠ stopByte flip) :
    ∃ j < 8, (entry sFirstBitOn (key flip cur)).toNat = j ∧ b.hit flip (8 * n + j) = true ∧
      q (8 * n + j) = true ∧
      ∀ i, 8 * n ≤ i → i < 8 * n + j → q i = true → b.hit flip i = false := by
  obtain ⟨hlt, hset, hlow⟩ := testBit_first _ (key_ne_zero hne)
  rw [testBit_key hlt, h _ hlt, Bool.and_eq_true] at hset
  refine ⟨_, hlt, rfl, hset.1, hset.2, fun i hi hi' hq => ?_⟩
  have hj := hlow (i - 8 * n) (by omega)
  rw [testBit_key (by omega), h _ (by omega), show 8 * n + (i - 8 * n) = i by omega, hq,
    Bool.and_true] at hj
  exact hj

theorem Window.last (h : b.Window flip q cur n) (hne : cur ≠ stopByte flip) :
    ∃ j < 8, (entry sLastBitOn (key flip cur)).toNat = j ∧ b.hit flip (8 * n + j) = true ∧
      q (8 * n + j) = true ∧
      ∀ i, 8 * n + j < i → i < 8 * n + 8 → q i = true → b.hit flip i = false := by
  obtain ⟨hlt, hset, hhigh⟩ := testBit_last _ (key_ne_zero hne)
  rw [testBit_key hlt, h _ hlt, Bool.and_eq_true] at hset
  refine ⟨_, hlt, rfl, hset.1, hset.2, fun i hi hi' hq => ?_⟩
  have hj := hhigh (i - 8 * n) (by omega) (by omega)
  rw [testBit_key (by omega), h _ (by omega), show 8 * n + (i - 8 * n) = i by omega, hq,
    Bool.and_true] at hj
  exact hj

theorem Window.ne_stopByte (h : b.Window flip q cur n) {i : Nat} (hi : i / 8 = n)
    (hhit : b.hit flip i = true) (hq : q i = true) : cur ≠ stopByte flip := by
  rintro rfl
  rw [h.no_hit hi hq] at hhit
  cases hhit

/-- Without a hit the byte is the stop byte. -/
theorem Window.eq_stop (h : b.Window flip q cur n)
    (hno : ∀ j < 8, q (8 * n + j) = true → b.hit flip (8 * n + j) = false) :
    cur = stopByte flip := by
  apply eq_stopByte
  intro j hj
  rw [h j hj, Bool.and_eq_false_iff]
  cases hq : q (8 * n + j) with
  | true => exact .inl (hno j hj hq)
  | false => exact .inr rfl

/-! ## What is before the loop after some rounds -/

theorem iterate_succ_toNat (k : UInt32) (m : Nat) :
    ((fun n : UInt32 => n + 1)^[m] k).toNat = (k.toNat + m) % 2 ^ 32 := by
  induction m with
  | zero => exact (Nat.mod_eq_of_lt k.toNat_lt).symm
  | succ m ih =>
    rw [Function.iterate_succ_apply', UInt32.toNat_add, ih, UInt32.toNat_one]
    omega

theorem iterate_pred_toNat (k : UInt32) {m : Nat} (hm : m ≤ k.toNat) :
    ((fun n : UInt32 => n - 1)^[m] k).toNat = k.toNat - m := by
  induction m with
  | zero => rfl
  | succ m ih =>
    have hlt := k.toNat_lt
    rw [Function.iterate_succ_apply', UInt32.toNat_sub, ih (by omega), UInt32.toNat_one]
    omega

/-! ## Upwards -/

/-- A scan over ones or zeros with `byte_nbr` going up: from byte `k` of which `cur` is
left, that is, its bits from `lo` on. -/
def lookUp (b : Zbits) (flip : Bool) (cur : UInt8) (k : UInt32) : Except BitsFault (Int × Zbits) :=
  b.look (stopByte flip) (fun n => n.toNat < b.used) (fun n => n + 1)
    (fun x => entry sFirstBitOn (key flip x)) cur k

/-- Its loop has gone on for `m` rounds. -/
def EndsUp (b : Zbits) (flip : Bool) (cur : UInt8) (k : UInt32) (cur' : UInt8) (k' : UInt32)
    (m : Nat) : Prop :=
  Scan.EndsAfter b.read (stopByte flip) (fun n => n.toNat < b.used) (fun n => n + 1) cur k cur' k' m

variable {lo hi m : Nat}

/-- The byte seen on the way up, and the bits it stands for. -/
theorem window_of_sees_up (hcur : b.Window flip (fun i => lo ≤ i) cur k.toNat)
    (hlo : lo ≤ 8 * k.toNat + 8) (hm : k.toNat + m < 2 ^ 32)
    (hsees : Scan.sees b.read (fun n => n + 1) cur k m = .ok cur') :
    b.Window flip (fun i => lo ≤ i) cur' (k.toNat + m) := by
  cases m with
  | zero =>
    cases hsees
    exact hcur
  | succ m =>
    have hnum : ((fun n : UInt32 => n + 1)^[m + 1] k).toNat = k.toNat + (m + 1) := by
      rw [iterate_succ_toNat, Nat.mod_eq_of_lt hm]
    have hwin := window_of_read flip (q := fun i => lo ≤ i) hsees fun j hj => by
      rw [hnum]
      exact decide_eq_true (by omega)
    rwa [hnum] at hwin

theorem sees_up (hcur : b.Window flip (fun i => lo ≤ i) cur k.toNat) (hlo : lo ≤ 8 * k.toNat + 8)
    (hk : k.toNat + m < b.size) (hm : k.toNat + m < 2 ^ 32) :
    ∃ c, Scan.sees b.read (fun n => n + 1) cur k m = .ok c ∧
      b.Window flip (fun i => lo ≤ i) c (k.toNat + m) := by
  obtain ⟨c, hc⟩ : ∃ c, Scan.sees b.read (fun n => n + 1) cur k m = .ok c := by
    cases m with
    | zero => exact ⟨cur, rfl⟩
    | succ m =>
      refine exists_read ?_
      rw [iterate_succ_toNat, Nat.mod_eq_of_lt hm]
      exact hk
  exact ⟨c, hc, window_of_sees_up hcur hlo hm hc⟩

/-- The bits passed over as long as only stop bytes are seen. -/
theorem no_hit_up (hcur : b.Window flip (fun i => lo ≤ i) cur k.toNat) (hlo : lo ≤ 8 * k.toNat + 8)
    (hm : k.toNat + m ≤ 2 ^ 32)
    (hstop : ∀ j < m, Scan.sees b.read (fun n => n + 1) cur k j = .ok (stopByte flip))
    {i : Nat} (hi : 8 * k.toNat ≤ i) (hi' : i < 8 * (k.toNat + m)) (hq : lo ≤ i) :
    b.hit flip i = false := by
  obtain ⟨j, hj⟩ : ∃ j, i / 8 = k.toNat + j := ⟨i / 8 - k.toNat, by omega⟩
  have hwin := window_of_sees_up hcur hlo (by omega) (hstop j (by omega))
  exact hwin.no_hit hj (decide_eq_true hq)

/-- Short of the end of `uint` the loop ends where the first hit is, or behind the bytes
used. -/
theorem EndsUp.at (h : b.EndsUp flip cur k cur' k' m)
    (hcur : b.Window flip (fun i => lo ≤ i) cur k.toNat) (hlo : 8 * k.toNat ≤ lo)
    (hlo' : lo ≤ 8 * k.toNat + 8) (hk : k.toNat < b.size) (hm : k.toNat + m < 2 ^ 32) :
    k'.toNat = k.toNat + m ∧ k.toNat + m < b.size ∧ (m = 0 ∨ k.toNat + m ≤ b.used) ∧
      b.Window flip (fun i => lo ≤ i) cur' (k.toNat + m) ∧
      (∀ i, lo ≤ i → i < 8 * (k.toNat + m) → b.hit flip i = false) ∧
      ¬(cur' = stopByte flip ∧ k.toNat + m < b.used) := by
  obtain ⟨rfl, hsees, hend, hall⟩ := h
  have hnum : ((fun n : UInt32 => n + 1)^[m] k).toNat = k.toNat + m := by
    rw [iterate_succ_toNat, Nat.mod_eq_of_lt hm]
  have hpassed : ∀ i, lo ≤ i → i < 8 * (k.toNat + m) → b.hit flip i = false := fun i hi hi' =>
    no_hit_up hcur hlo' (by omega) (fun j hj => (hall j hj).1) (by omega) hi' hi
  simp only [hnum, decide_eq_true_eq] at hend
  have hwin := window_of_sees_up hcur hlo' hm hsees
  cases m with
  | zero => exact ⟨hnum, hk, .inl rfl, hwin, hpassed, hend⟩
  | succ m =>
    have hmore : k.toNat + m < b.used := by
      have := (hall m (by omega)).2
      simp only [iterate_succ_toNat, decide_eq_true_eq] at this
      omega
    have hlt := read_lt hsees
    rw [hnum] at hlt
    exact ⟨hnum, hlt, .inr (by omega), hwin, hpassed, hend⟩

/-- Where the hits and the bytes used let it end, it ends. -/
theorem exists_endsUp (hcur : b.Window flip (fun i => lo ≤ i) cur k.toNat)
    (hlo' : lo ≤ 8 * k.toNat + 8) (hk : k.toNat + m < b.size) (hm : k.toNat + m < 2 ^ 32)
    (hused : m = 0 ∨ k.toNat + m ≤ b.used)
    (hpassed : ∀ i, lo ≤ i → i < 8 * (k.toNat + m) → b.hit flip i = false)
    (hend : (∃ i, i / 8 = k.toNat + m ∧ lo ≤ i ∧ b.hit flip i = true) ∨ b.used ≤ k.toNat + m) :
    ∃ cur' k', b.EndsUp flip cur k cur' k' m := by
  have hnum : ∀ j ≤ m, ((fun n : UInt32 => n + 1)^[j] k).toNat = k.toNat + j := fun j hj => by
    rw [iterate_succ_toNat, Nat.mod_eq_of_lt (by omega)]
  obtain ⟨cur', hsees, hlast⟩ := sees_up hcur hlo' hk hm
  refine ⟨cur', _, rfl, hsees, ?_, fun j hj => ?_⟩
  · rintro ⟨hstop, hmore⟩
    simp only [hnum m (Nat.le_refl m), decide_eq_true_eq] at hmore
    obtain ⟨i, hi, hq, hhit⟩ | hle := hend
    · exact hlast.ne_stopByte hi hhit (decide_eq_true hq) hstop
    · omega
  · obtain ⟨c, hc, hwin⟩ := sees_up hcur hlo' (m := j) (by omega) (by omega)
    have hstop := hwin.eq_stop fun j' hj' hq => hpassed _ (of_decide_eq_true hq) (by omega)
    refine ⟨hstop ▸ hc, ?_⟩
    simp only [hnum j (by omega), decide_eq_true_eq]
    omega

/-! ## The answer -/

/-- The answer of a scan that has found `i`, or nothing. -/
def answer : Option Nat → Int
  | none => -1
  | some i => i

theorem moveTo_eq_ok {r : Int} {t : Zbits} :
    b.moveTo k = .ok (r, t) ↔ k.toNat < 2 ^ 31 ∧ r = k.toNat ∧ t = { b with cursor := k } := by
  unfold moveTo
  by_cases h : k.toNat < 2 ^ 31
  · rw [if_pos h, Except.ok.injEq, Prod.mk.injEq]
    exact ⟨fun ⟨hr, ht⟩ => ⟨h, hr.symm, ht.symm⟩, fun ⟨_, hr, ht⟩ => ⟨hr.symm, ht.symm⟩⟩
  · rw [if_neg h]
    constructor
    · intro he
      cases he
    · rintro ⟨hlt, -⟩
      exact absurd hlt h

/-- What a scan says of the bitmap: nothing but its cursor has changed. -/
theorem look_state {stop : UInt8} {more step index} {r : Int} {t : Zbits}
    (h : b.look stop more step index cur k = .ok (r, t)) :
    r = -1 ∧ t = b ∨ ∃ c : UInt32, c.toNat < 2 ^ 31 ∧ r = c.toNat ∧ t = { b with cursor := c } := by
  unfold look at h
  cases hseek : Scan.seek b.read .endless stop more step (2 ^ 32) cur k with
  | error e =>
    simp only [hseek, bind, Except.bind] at h
    cases h
  | ok p =>
    obtain ⟨cur', k'⟩ := p
    simp only [hseek, bind, Except.bind] at h
    split at h
    · obtain ⟨hlt, hr, ht⟩ := moveTo_eq_ok.1 h
      exact .inr ⟨_, hlt, hr, ht⟩
    · cases h
      exact .inl ⟨rfl, rfl⟩

theorem look_eq_ok {stop : UInt8} {more step index} {r : Int} {t : Zbits} :
    b.look stop more step index cur k = .ok (r, t) ↔ ∃ m < 2 ^ 32, ∃ cur' k',
      Scan.EndsAfter b.read stop more step cur k cur' k' m ∧
        ((cur' ≠ stop ∧ b.moveTo (k' * 8 + (index cur').toUInt32) = .ok (r, t)) ∨
          (cur' = stop ∧ r = -1 ∧ t = b)) := by
  unfold look
  constructor
  · intro h
    cases hseek : Scan.seek b.read .endless stop more step (2 ^ 32) cur k with
    | error e =>
      simp only [hseek, bind, Except.bind] at h
      cases h
    | ok p =>
      obtain ⟨cur', k'⟩ := p
      obtain ⟨m, hm, hends⟩ := Scan.seek_eq_ok_iff.1 hseek
      refine ⟨m, hm, cur', k', hends, ?_⟩
      simp only [hseek, bind, Except.bind] at h
      split at h
      · exact .inl ⟨‹_›, h⟩
      · cases h
        exact .inr ⟨not_not.1 ‹_›, rfl, rfl⟩
  · rintro ⟨m, hm, cur', k', hends, hout⟩
    have hseek : Scan.seek b.read .endless stop more step (2 ^ 32) cur k = .ok (cur', k') :=
      Scan.seek_eq_ok_iff.2 ⟨m, hm, hends⟩
    simp only [hseek, bind, Except.bind]
    obtain ⟨hne, hmove⟩ | ⟨rfl, rfl, rfl⟩ := hout
    · rw [if_pos hne, hmove]
    · rw [if_neg (not_not.2 rfl)]
      rfl

/-- A hit in the first byte ends the loop before it begins. -/
theorem look_of_ne {stop : UInt8} {more step index} (h : cur ≠ stop) :
    b.look stop more step index cur k = b.moveTo (k * 8 + (index cur).toUInt32) := by
  have hseek : Scan.seek b.read .endless stop more step (2 ^ 32) cur k = .ok (cur, k) :=
    Scan.seek_of_not (n := 2 ^ 32 - 1) fun hgo => h hgo.1
  unfold look
  rw [hseek]
  exact if_pos h

/-- The nearest hit from `lo` on is in reach of a scan that starts in byte `n`, and if
there is none, the scan ends before the end of the data. -/
def InReach (b : Zbits) (flip : Bool) (lo n : Nat) : Prop :=
  match Scan.least (b.hit flip) lo b.bits with
  | some i => i < 2 ^ 31 ∧ (i / 8 = n ∨ i / 8 ≤ b.used)
  | none => b.used ≤ n ∨ b.used < b.size ∧ b.used < 2 ^ 32

theorem inReach_some {i n : Nat} (h : Scan.least (b.hit flip) lo b.bits = some i) :
    b.InReach flip lo n ↔ i < 2 ^ 31 ∧ (i / 8 = n ∨ i / 8 ≤ b.used) := by
  unfold InReach
  rw [h]

theorem inReach_none (h : Scan.least (b.hit flip) lo b.bits = none) :
    b.InReach flip lo n ↔ b.used ≤ n ∨ b.used < b.size ∧ b.used < 2 ^ 32 := by
  unfold InReach
  rw [h]

/-- What it has found is the nearest: all before it were passed over. -/
theorem EndsUp.found (h : b.EndsUp flip cur k cur' k' m)
    (hcur : b.Window flip (fun i => lo ≤ i) cur k.toNat) (hlo : 8 * k.toNat ≤ lo)
    (hlo' : lo ≤ 8 * k.toNat + 8) (hk : k.toNat < b.size) (hm : k.toNat + m < 2 ^ 32)
    (hne : cur' ≠ stopByte flip) :
    ∃ j < 8, (entry sFirstBitOn (key flip cur')).toNat = j ∧
      Scan.least (b.hit flip) lo b.bits = some (8 * (k.toNat + m) + j) := by
  obtain ⟨hk', hsize, -, hwin, hpassed, -⟩ := h.at hcur hlo hlo' hk hm
  obtain ⟨j, hj, hindex, hhit, hq, hbefore⟩ := hwin.first hne
  have hbits : b.bits = 8 * b.size := rfl
  refine ⟨j, hj, hindex, Scan.least_eq_some.2 ⟨hhit, of_decide_eq_true hq, by omega, ?_⟩⟩
  intro i hi hi'
  by_cases h : i < 8 * (k.toNat + m)
  · exact hpassed i hi h
  · exact hbefore i (by omega) hi' (decide_eq_true hi)

/-- Past the last value of `uint` the answer is wrong: all hits up to there were passed
over, and there are none. -/
theorem EndsUp.wrapped (h : b.EndsUp flip cur k cur' k' m)
    (hcur : b.Window flip (fun i => lo ≤ i) cur k.toNat) (hlo : 8 * k.toNat ≤ lo)
    (hlo' : lo ≤ 8 * k.toNat + 8) (hm : 2 ^ 32 ≤ k.toNat + m) :
    cur' ≠ stopByte flip ∧
      ∀ i < 2 ^ 31, answer (Scan.least (b.hit flip) lo b.bits) ≠ answer (some i) := by
  obtain ⟨rfl, hsees, hend, hall⟩ := h
  have hk32 := k.toNat_lt
  have hused : 2 ^ 32 ≤ b.used := by
    have := (hall (2 ^ 32 - 1 - k.toNat) (by omega)).2
    simp only [iterate_succ_toNat, decide_eq_true_eq] at this
    omega
  constructor
  · intro hstop
    refine hend ⟨hstop, ?_⟩
    have := ((fun n : UInt32 => n + 1)^[m] k).toNat_lt
    simp only [decide_eq_true_eq]
    omega
  · intro i hi heq
    cases hleast : Scan.least (b.hit flip) lo b.bits with
    | none => rw [hleast, answer, answer] at heq; omega
    | some i' =>
      obtain ⟨hhit, hlo'', -, -⟩ := Scan.least_eq_some.1 hleast
      rw [hleast, answer, answer] at heq
      rw [no_hit_up (m := 2 ^ 32 - k.toNat) hcur hlo' (by omega)
        (fun j hj => (hall j (by omega)).1) (by omega) (by omega) hlo''] at hhit
      cases hhit

theorem inReach_of_lookUp (hcur : b.Window flip (fun i => lo ≤ i) cur k.toNat)
    (hlo : 8 * k.toNat ≤ lo) (hlo' : lo ≤ 8 * k.toNat + 8) (hk : k.toNat < b.size) {t : Zbits}
    (h : b.lookUp flip cur k = .ok (answer (Scan.least (b.hit flip) lo b.bits), t)) :
    b.InReach flip lo k.toNat := by
  obtain ⟨m, hm, cur', k', hends, hout⟩ := look_eq_ok.1 h
  have hends : b.EndsUp flip cur k cur' k' m := hends
  by_cases hwrap : k.toNat + m < 2 ^ 32
  · obtain ⟨hk', hsize, hused, -, -, hend⟩ := hends.at hcur hlo hlo' hk hwrap
    obtain ⟨hne, hmove⟩ | ⟨hstop, hnone, -⟩ := hout
    · obtain ⟨j, hj, -, hleast⟩ := hends.found hcur hlo hlo' hk hwrap hne
      obtain ⟨hlt, hanswer, -⟩ := moveTo_eq_ok.1 hmove
      rw [hleast] at hanswer
      have : 8 * (k.toNat + m) + j = _ := Int.ofNat.inj hanswer
      rw [← this] at hlt
      rw [inReach_some hleast]
      omega
    · have : ¬k.toNat + m < b.used := fun h => hend ⟨hstop, h⟩
      cases hleast : Scan.least (b.hit flip) lo b.bits with
      | none => rw [inReach_none hleast]; omega
      | some i => rw [hleast, answer] at hnone; omega
  · obtain ⟨hne, hwrong⟩ := hends.wrapped hcur hlo hlo' (by omega)
    obtain ⟨-, hmove⟩ | ⟨hstop, -, -⟩ := hout
    · obtain ⟨hlt, hanswer, -⟩ := moveTo_eq_ok.1 hmove
      exact absurd hanswer (hwrong _ hlt)
    · exact absurd hstop hne

theorem lookUp_of_inReach (hcur : b.Window flip (fun i => lo ≤ i) cur k.toNat)
    (hlo : 8 * k.toNat ≤ lo) (hlo' : lo ≤ 8 * k.toNat + 8) (hk : k.toNat < b.size)
    (h : b.InReach flip lo k.toNat) :
    ∃ t, b.lookUp flip cur k = .ok (answer (Scan.least (b.hit flip) lo b.bits), t) := by
  have hbits : b.bits = 8 * b.size := rfl
  cases hleast : Scan.least (b.hit flip) lo b.bits with
  | some i =>
    rw [inReach_some hleast] at h
    obtain ⟨hhit, hi, hn, hbefore⟩ := Scan.least_eq_some.1 hleast
    obtain ⟨m, hm⟩ : ∃ m, i / 8 = k.toNat + m := ⟨i / 8 - k.toNat, by omega⟩
    obtain ⟨cur', k', hends⟩ := exists_endsUp (m := m) hcur hlo' (by omega) (by omega)
      (by omega) (fun i' h h' => hbefore i' h (by omega)) (.inl ⟨i, hm, hi, hhit⟩)
    obtain ⟨hk', -, -, hwin, -, -⟩ := hends.at hcur hlo hlo' hk (by omega)
    have hne := hwin.ne_stopByte hm hhit (decide_eq_true hi)
    obtain ⟨j, hj, hindex, hfound⟩ := hends.found hcur hlo hlo' hk (by omega) hne
    have hij : i = 8 * (k.toNat + m) + j := Option.some.inj (hleast.symm.trans hfound)
    have hnum : (k' * 8 + (entry sFirstBitOn (key flip cur')).toUInt32).toNat = i := by
      rw [UInt32.toNat_add, UInt32.toNat_mul, UInt8.toNat_toUInt32, hk', hindex]
      simp
      omega
    have hmove := (moveTo_eq_ok (b := b)).2 ⟨hnum.symm ▸ h.1, congrArg Int.ofNat hnum.symm, rfl⟩
    exact ⟨_, look_eq_ok.2 ⟨m, by omega, cur', k', hends, .inl ⟨hne, hmove⟩⟩⟩
  | none =>
    rw [inReach_none hleast] at h
    have hno := Scan.least_eq_none.1 hleast
    obtain ⟨m, hm, hused, hle, hsize⟩ : ∃ m, k.toNat + m < 2 ^ 32 ∧
        (m = 0 ∨ k.toNat + m ≤ b.used) ∧ b.used ≤ k.toNat + m ∧ k.toNat + m < b.size :=
      ⟨b.used - k.toNat, by have := k.toNat_lt; omega⟩
    obtain ⟨cur', k', hends⟩ := exists_endsUp (m := m) hcur hlo' hsize hm hused
      (fun i hi hi' => hno i hi (by omega)) (.inr hle)
    have hstop : cur' = stopByte flip := by
      by_contra hne
      obtain ⟨j, hj, -, hfound⟩ := hends.found hcur hlo hlo' hk hm hne
      rw [hleast] at hfound
      cases hfound
    exact ⟨b, look_eq_ok.2 ⟨m, by omega, cur', k', hends, .inr ⟨hstop, rfl, rfl⟩⟩⟩

/-- A scan upwards answers with the nearest hit exactly if that is in reach. -/
theorem lookUp_iff (hcur : b.Window flip (fun i => lo ≤ i) cur k.toNat) (hlo : 8 * k.toNat ≤ lo)
    (hlo' : lo ≤ 8 * k.toNat + 8) (hk : k.toNat < b.size) :
    (∃ t, b.lookUp flip cur k = .ok (answer (Scan.least (b.hit flip) lo b.bits), t)) ↔
      b.InReach flip lo k.toNat :=
  ⟨fun ⟨_, h⟩ => inReach_of_lookUp hcur hlo hlo' hk h, lookUp_of_inReach hcur hlo hlo' hk⟩

/-! ## Downwards -/

/-- A scan over ones or zeros with `byte_nbr` going down while there is `more`: from byte
`k` of which `cur` is left, that is, its bits below `hi`. -/
def lookDown (b : Zbits) (flip : Bool) (more : UInt32 → Bool) (cur : UInt8) (k : UInt32) :
    Except BitsFault (Int × Zbits) :=
  b.look (stopByte flip) more (fun n => n - 1) (fun x => entry sLastBitOn (key flip x)) cur k

/-- Its loop has gone on for `m` rounds. -/
def EndsDown (b : Zbits) (flip : Bool) (more : UInt32 → Bool) (cur : UInt8) (k : UInt32)
    (cur' : UInt8) (k' : UInt32) (m : Nat) : Prop :=
  Scan.EndsAfter b.read (stopByte flip) more (fun n => n - 1) cur k cur' k' m

variable {more : UInt32 → Bool}

theorem window_of_sees_down (hcur : b.Window flip (fun i => i < hi) cur k.toNat)
    (hhi : 8 * k.toNat ≤ hi) (hm : m ≤ k.toNat)
    (hsees : Scan.sees b.read (fun n => n - 1) cur k m = .ok cur') :
    b.Window flip (fun i => i < hi) cur' (k.toNat - m) := by
  cases m with
  | zero =>
    cases hsees
    exact hcur
  | succ m =>
    have hnum := iterate_pred_toNat k hm
    have hwin := window_of_read flip (q := fun i => i < hi) hsees fun j hj => by
      rw [hnum]
      exact decide_eq_true (by omega)
    rwa [hnum] at hwin

theorem no_hit_down (hcur : b.Window flip (fun i => i < hi) cur k.toNat) (hhi : 8 * k.toNat ≤ hi)
    (hhi' : hi ≤ 8 * k.toNat + 8) (hm : m ≤ k.toNat + 1)
    (hstop : ∀ j < m, Scan.sees b.read (fun n => n - 1) cur k j = .ok (stopByte flip))
    {i : Nat} (hi' : 8 * k.toNat + 8 ≤ i + 8 * m) (hq : i < hi) : b.hit flip i = false := by
  obtain ⟨j, hj⟩ : ∃ j, i / 8 + j = k.toNat := ⟨k.toNat - i / 8, by omega⟩
  have hwin := window_of_sees_down hcur hhi (by omega) (hstop j (by omega))
  exact hwin.no_hit (by omega) (decide_eq_true hq)

/-- Down to byte 0 the loop ends where the last hit is, or where there is no more. -/
theorem EndsDown.at (h : b.EndsDown flip more cur k cur' k' m)
    (hcur : b.Window flip (fun i => i < hi) cur k.toNat) (hhi : 8 * k.toNat ≤ hi)
    (hhi' : hi ≤ 8 * k.toNat + 8) (hm : m ≤ k.toNat) :
    k'.toNat = k.toNat - m ∧ b.Window flip (fun i => i < hi) cur' (k.toNat - m) ∧
      (∀ i < hi, 8 * (k.toNat - m) + 8 ≤ i → b.hit flip i = false) ∧
      (m = 0 ∨ more k) ∧ ¬(cur' = stopByte flip ∧ more k') := by
  obtain ⟨rfl, hsees, hend, hall⟩ := h
  have hnum := iterate_pred_toNat k hm
  have hpassed : ∀ i < hi, 8 * (k.toNat - m) + 8 ≤ i → b.hit flip i = false := fun i hq hi' =>
    no_hit_down hcur hhi hhi' (m := m) (by omega) (fun j hj => (hall j hj).1) (by omega) hq
  have hwin := window_of_sees_down hcur hhi hm hsees
  cases m with
  | zero => exact ⟨hnum, hwin, hpassed, .inl rfl, hend⟩
  | succ m => exact ⟨hnum, hwin, hpassed, .inr (hall 0 (by omega)).2, hend⟩

theorem EndsDown.found (h : b.EndsDown flip more cur k cur' k' m)
    (hcur : b.Window flip (fun i => i < hi) cur k.toNat) (hhi : 8 * k.toNat ≤ hi)
    (hhi' : hi ≤ 8 * k.toNat + 8) (hm : m ≤ k.toNat) (hne : cur' ≠ stopByte flip) :
    ∃ j < 8, (entry sLastBitOn (key flip cur')).toNat = j ∧
      Scan.greatest (b.hit flip) hi = some (8 * (k.toNat - m) + j) := by
  obtain ⟨-, hwin, hpassed, -, -⟩ := h.at hcur hhi hhi' hm
  obtain ⟨j, hj, hindex, hhit, hq, hafter⟩ := hwin.last hne
  refine ⟨j, hj, hindex, Scan.greatest_eq_some.2 ⟨hhit, of_decide_eq_true hq, ?_⟩⟩
  intro i hi' hq'
  by_cases h : 8 * (k.toNat - m) + 8 ≤ i
  · exact hpassed i hq' h
  · exact hafter i hi' (by omega) (decide_eq_true hq')

/-- The bytes the loop sees on its way down to byte `k - m`, if there are no hits before. -/
theorem sees_down (hcur : b.Window flip (fun i => i < hi) cur k.toNat) (hhi : 8 * k.toNat ≤ hi)
    (hk : k.toNat < b.size) (hm : m ≤ k.toNat) :
    ∃ c, Scan.sees b.read (fun n => n - 1) cur k m = .ok c ∧
      b.Window flip (fun i => i < hi) c (k.toNat - m) := by
  obtain ⟨c, hc⟩ : ∃ c, Scan.sees b.read (fun n => n - 1) cur k m = .ok c := by
    cases m with
    | zero => exact ⟨cur, rfl⟩
    | succ m =>
      refine exists_read ?_
      rw [iterate_pred_toNat k hm]
      omega
  exact ⟨c, hc, window_of_sees_down hcur hhi hm hc⟩

theorem stops_down (hcur : b.Window flip (fun i => i < hi) cur k.toNat) (hhi : 8 * k.toNat ≤ hi)
    (hk : k.toNat < b.size) (hm : m ≤ k.toNat)
    (hpassed : ∀ i < hi, 8 * (k.toNat - m) ≤ i → b.hit flip i = false) :
    Scan.sees b.read (fun n => n - 1) cur k m = .ok (stopByte flip) := by
  obtain ⟨c, hc, hwin⟩ := sees_down hcur hhi hk hm
  have hstop := hwin.eq_stop fun j hj hq => hpassed _ (of_decide_eq_true hq) (by omega)
  exact hstop ▸ hc

theorem exists_endsDown (more : UInt32 → Bool)
    (hcur : b.Window flip (fun i => i < hi) cur k.toNat) (hhi : 8 * k.toNat ≤ hi)
    (hk : k.toNat < b.size) (hm : m ≤ k.toNat)
    (hmore : ∀ n : UInt32, k.toNat - m < n.toNat → n.toNat ≤ k.toNat → more n)
    (hpassed : ∀ i < hi, 8 * (k.toNat - m) + 8 ≤ i → b.hit flip i = false)
    (hend : (∃ i, i / 8 = k.toNat - m ∧ i < hi ∧ b.hit flip i = true) ∨
      ∀ n : UInt32, n.toNat = k.toNat - m → ¬more n) :
    ∃ cur' k', b.EndsDown flip more cur k cur' k' m := by
  obtain ⟨cur', hsees, hlast⟩ := sees_down hcur hhi hk hm
  refine ⟨cur', _, rfl, hsees, ?_, fun j hj => ⟨?_, ?_⟩⟩
  · rintro ⟨hstop, hgo⟩
    obtain ⟨i, hi, hq, hhit⟩ | hle := hend
    · exact hlast.ne_stopByte hi hhit (decide_eq_true hq) hstop
    · exact hle _ (iterate_pred_toNat k hm) hgo
  · exact stops_down hcur hhi hk (by omega) fun i hq hi => hpassed i hq (by omega)
  · have hnum := iterate_pred_toNat k (m := j) (by omega)
    exact hmore _ (by omega) (by omega)

/-- Short of going below byte 0: the answer is the nearest hit exactly if that fits an
`int`, and is in byte `k` unless there is more. -/
theorem EndsDown.answers (h : b.EndsDown flip more cur k cur' k' m)
    (hcur : b.Window flip (fun i => i < hi) cur k.toNat) (hhi : 8 * k.toNat ≤ hi)
    (hhi' : hi ≤ 8 * k.toNat + 8) (hm : m ≤ k.toNat) {t : Zbits}
    (hout : (cur' ≠ stopByte flip ∧
        b.moveTo (k' * 8 + (entry sLastBitOn (key flip cur')).toUInt32) =
          .ok (answer (Scan.greatest (b.hit flip) hi), t)) ∨
      (cur' = stopByte flip ∧ answer (Scan.greatest (b.hit flip) hi) = -1 ∧ t = b)) :
    (∀ i, Scan.greatest (b.hit flip) hi = some i → i < 2 ^ 31 ∧ (i / 8 = k.toNat ∨ more k)) ∧
      (Scan.greatest (b.hit flip) hi = none → ¬more k') := by
  obtain ⟨hk', -, -, hmore, hend⟩ := h.at hcur hhi hhi' hm
  obtain ⟨hne, hmove⟩ | ⟨hstop, hnone, -⟩ := hout
  · obtain ⟨j, hj, -, hfound⟩ := h.found hcur hhi hhi' hm hne
    obtain ⟨hlt, hanswer, -⟩ := moveTo_eq_ok.1 hmove
    rw [hfound] at hanswer ⊢
    have heq : 8 * (k.toNat - m) + j = _ := Int.ofNat.inj hanswer
    rw [← heq] at hlt
    refine ⟨fun i hi => ?_, fun h => by cases h⟩
    cases hi
    obtain rfl | hgo := hmore
    · exact ⟨hlt, .inl (by omega)⟩
    · exact ⟨hlt, .inr hgo⟩
  · refine ⟨fun i hi => ?_, fun _ hgo => hend ⟨hstop, hgo⟩⟩
    rw [hi, answer] at hnone
    omega

theorem lookDown_of_some (hcur : b.Window flip (fun i => i < hi) cur k.toNat)
    (hhi : 8 * k.toNat ≤ hi) (hhi' : hi ≤ 8 * k.toNat + 8) (hk : k.toNat < b.size) {i : Nat}
    (hi : Scan.greatest (b.hit flip) hi = some i) (hlt : i < 2 ^ 31)
    (hmore : ∀ n : UInt32, i / 8 < n.toNat → n.toNat ≤ k.toNat → more n) :
    ∃ t, b.lookDown flip more cur k = .ok (i, t) := by
  have hk32 := k.toNat_lt
  obtain ⟨hhit, hq, hafter⟩ := Scan.greatest_eq_some.1 hi
  obtain ⟨m, hm⟩ : ∃ m, i / 8 + m = k.toNat := ⟨k.toNat - i / 8, by omega⟩
  obtain ⟨cur', k', hends⟩ := exists_endsDown (m := m) more hcur hhi hk (by omega)
    (fun n hn hn' => hmore n (by omega) hn') (fun i' h h' => hafter i' (by omega) h)
    (.inl ⟨i, by omega, hq, hhit⟩)
  obtain ⟨hk', hwin, -⟩ := hends.at hcur hhi hhi' (by omega)
  have hne := hwin.ne_stopByte (by omega) hhit (decide_eq_true hq)
  obtain ⟨j, hj, hindex, hfound⟩ := hends.found hcur hhi hhi' (by omega) hne
  have hij : i = 8 * (k.toNat - m) + j := Option.some.inj (hi.symm.trans hfound)
  have hnum : (k' * 8 + (entry sLastBitOn (key flip cur')).toUInt32).toNat = i := by
    rw [UInt32.toNat_add, UInt32.toNat_mul, UInt8.toNat_toUInt32, hk', hindex]
    simp
    omega
  have hmove := (moveTo_eq_ok (b := b)).2 ⟨hnum.symm ▸ hlt, congrArg Int.ofNat hnum.symm, rfl⟩
  exact ⟨_, look_eq_ok.2 ⟨m, by omega, cur', k', hends, .inl ⟨hne, hmove⟩⟩⟩

theorem lookDown_of_none (hcur : b.Window flip (fun i => i < hi) cur k.toNat)
    (hhi : 8 * k.toNat ≤ hi) (hhi' : hi ≤ 8 * k.toNat + 8) (hk : k.toNat < b.size)
    (hi : Scan.greatest (b.hit flip) hi = none) (hm : m ≤ k.toNat)
    (hmore : ∀ n : UInt32, k.toNat - m < n.toNat → n.toNat ≤ k.toNat → more n)
    (hend : ∀ n : UInt32, n.toNat = k.toNat - m → ¬more n) :
    b.lookDown flip more cur k = .ok (-1, b) := by
  have hk32 := k.toNat_lt
  have hno := Scan.greatest_eq_none.1 hi
  obtain ⟨cur', k', hends⟩ := exists_endsDown more hcur hhi hk hm hmore
    (fun i' h _ => hno i' h) (.inr hend)
  have hstop : cur' = stopByte flip := by
    by_contra hne
    obtain ⟨j, -, -, hfound⟩ := hends.found hcur hhi hhi' hm hne
    rw [hi] at hfound
    cases hfound
  exact look_eq_ok.2 ⟨m, by omega, cur', k', hends, .inr ⟨hstop, rfl, rfl⟩⟩

/-! ## Down to byte 0 (`zbits_prev`) -/

theorem endsDown_le (h : b.EndsDown flip (fun n => 0 < n) cur k cur' k' m) : m ≤ k.toNat := by
  by_contra hgt
  have hmore := (h.2.2.2 k.toNat (by omega)).2
  have hnum := iterate_pred_toNat k (Nat.le_refl k.toNat)
  rw [decide_eq_true_eq, UInt32.lt_iff_toNat_lt, hnum] at hmore
  simp at hmore

/-- What it answers is the nearest hit. -/
theorem lookDown_sound (hcur : b.Window flip (fun i => i < hi) cur k.toNat)
    (hhi : 8 * k.toNat ≤ hi) (hhi' : hi ≤ 8 * k.toNat + 8) (hk : 8 * k.toNat + 8 ≤ 2 ^ 32)
    {r : Int} {t : Zbits} (h : b.lookDown flip (fun n => 0 < n) cur k = .ok (r, t)) :
    r = answer (Scan.greatest (b.hit flip) hi) := by
  obtain ⟨m, -, cur', k', hends, hout⟩ := look_eq_ok.1 h
  have hends : b.EndsDown flip (fun n => 0 < n) cur k cur' k' m := hends
  have hm := endsDown_le hends
  obtain ⟨hk', hwin, hpassed, -, hend⟩ := hends.at hcur hhi hhi' hm
  obtain ⟨hne, hmove⟩ | ⟨hstop, hnone, -⟩ := hout
  · obtain ⟨j, hj, hindex, hfound⟩ := hends.found hcur hhi hhi' hm hne
    obtain ⟨-, hr, -⟩ := moveTo_eq_ok.1 hmove
    have hnum : (k' * 8 + (entry sLastBitOn (key flip cur')).toUInt32).toNat =
        8 * (k.toNat - m) + j := by
      rw [UInt32.toNat_add, UInt32.toNat_mul, UInt8.toNat_toUInt32, hk', hindex]
      simp
      omega
    rw [hr, hfound, hnum, answer]
  · have hzero : k.toNat - m = 0 := by
      by_contra hpos
      apply hend
      rw [decide_eq_true_eq, UInt32.lt_iff_toNat_lt, hk']
      exact ⟨hstop, Nat.pos_of_ne_zero hpos⟩
    have : Scan.greatest (b.hit flip) hi = none := by
      refine Scan.greatest_eq_none.2 fun i hi => ?_
      subst hstop
      rw [hzero] at hwin hpassed
      by_cases h : i / 8 = 0
      · exact hwin.no_hit h (decide_eq_true hi)
      · exact hpassed i hi (by omega)
    rw [hnone, this, answer]

theorem lookDown_pos_iff (hcur : b.Window flip (fun i => i < hi) cur k.toNat)
    (hhi : 8 * k.toNat ≤ hi) (hhi' : hi ≤ 8 * k.toNat + 8) (hk : k.toNat < b.size) :
    (∃ t, b.lookDown flip (fun n => 0 < n) cur k =
        .ok (answer (Scan.greatest (b.hit flip) hi), t)) ↔
      ∀ i, Scan.greatest (b.hit flip) hi = some i → i < 2 ^ 31 := by
  constructor
  · rintro ⟨t, h⟩ i hi
    obtain ⟨m, -, cur', k', hends, hout⟩ := look_eq_ok.1 h
    have hends : b.EndsDown flip (fun n => 0 < n) cur k cur' k' m := hends
    exact ((hends.answers hcur hhi hhi' (endsDown_le hends) hout).1 i hi).1
  · intro h
    cases hi : Scan.greatest (b.hit flip) hi with
    | some i =>
      refine lookDown_of_some hcur hhi hhi' hk hi (h i hi) fun n hn _ => ?_
      rw [decide_eq_true_eq, UInt32.lt_iff_toNat_lt]
      exact Nat.zero_lt_of_lt hn
    | none =>
      refine ⟨b, lookDown_of_none hcur hhi hhi' hk hi (Nat.le_refl _) (fun n hn _ => ?_) ?_⟩
      · rw [decide_eq_true_eq, UInt32.lt_iff_toNat_lt]
        exact Nat.zero_lt_of_lt hn
      · intro n hn
        rw [decide_eq_true_eq, UInt32.lt_iff_toNat_lt, hn, Nat.sub_self]
        exact Nat.lt_irrefl 0

/-! ## Down while there are bytes used (`zbits_prev_zero`) -/

/-- The nearest hit below `hi` is in reach of a scan down from byte `n`: the loop goes on
only if byte `n` is one of those used. If there is no hit at all, it goes below byte 0,
to the byte with the last number of `uint`. -/
def InReachDown (b : Zbits) (flip : Bool) (hi n : Nat) : Prop :=
  match Scan.greatest (b.hit flip) hi with
  | some i => i < 2 ^ 31 ∧ (i / 8 = n ∨ n < b.used)
  | none => b.used ≤ n ∨ b.used < 2 ^ 32 ∧ b.data[2 ^ 32 - 1]? = some (stopByte flip)

theorem inReachDown_some {i n : Nat} (h : Scan.greatest (b.hit flip) hi = some i) :
    b.InReachDown flip hi n ↔ i < 2 ^ 31 ∧ (i / 8 = n ∨ n < b.used) := by
  unfold InReachDown
  rw [h]

theorem inReachDown_none (h : Scan.greatest (b.hit flip) hi = none) :
    b.InReachDown flip hi n ↔
      b.used ≤ n ∨ b.used < 2 ^ 32 ∧ b.data[2 ^ 32 - 1]? = some (stopByte flip) := by
  unfold InReachDown
  rw [h]

theorem iterate_pred_wraps (k : UInt32) :
    ((fun n : UInt32 => n - 1)^[k.toNat + 1] k).toNat = 2 ^ 32 - 1 := by
  rw [Function.iterate_succ_apply', UInt32.toNat_sub, iterate_pred_toNat k (Nat.le_refl _),
    Nat.sub_self]
  rfl

/-- Below byte 0 there is nothing more to answer than that there is no hit. -/
theorem below_zero {t : Zbits} (hcur : b.Window flip (fun i => i < hi) cur k.toNat)
    (hhi : 8 * k.toNat ≤ hi) (hhi' : hi ≤ 8 * k.toNat + 8) (hm : k.toNat < m)
    (h : b.EndsDown flip (fun n => n.toNat < b.used) cur k cur' k' m)
    (hout : (cur' ≠ stopByte flip ∧
        b.moveTo (k' * 8 + (entry sLastBitOn (key flip cur')).toUInt32) =
          .ok (answer (Scan.greatest (b.hit flip) hi), t)) ∨
      (cur' = stopByte flip ∧ answer (Scan.greatest (b.hit flip) hi) = -1 ∧ t = b)) :
    Scan.greatest (b.hit flip) hi = none ∧ b.used < 2 ^ 32 ∧
      b.data[2 ^ 32 - 1]? = some (stopByte flip) := by
  obtain ⟨rfl, hsees, hend, hall⟩ := h
  have hnone : Scan.greatest (b.hit flip) hi = none := Scan.greatest_eq_none.2 fun i hi =>
    no_hit_down hcur hhi hhi' (Nat.le_refl _) (fun j hj => (hall j (by omega)).1) (by omega) hi
  obtain ⟨-, hmove⟩ | ⟨hstop, -, -⟩ := hout
  · obtain ⟨-, hanswer, -⟩ := moveTo_eq_ok.1 hmove
    rw [hnone, answer] at hanswer
    omega
  · have hused : b.used < 2 ^ 32 := by
      by_contra hge
      apply hend
      have := ((fun n : UInt32 => n - 1)^[m] k).toNat_lt
      refine ⟨hstop, ?_⟩
      simp only [decide_eq_true_eq]
      omega
    refine ⟨hnone, hused, ?_⟩
    -- it has ended at the first byte after the wrap, with a stop
    have hm' : m = k.toNat + 1 := by
      by_contra hne
      have := (hall (k.toNat + 1) (by omega)).2
      simp only [iterate_pred_wraps, decide_eq_true_eq] at this
      omega
    subst hm'
    have := read_eq_ok.1 hsees
    rwa [iterate_pred_wraps, hstop] at this

theorem lookDown_used_iff (hcur : b.Window flip (fun i => i < hi) cur k.toNat)
    (hhi : 8 * k.toNat ≤ hi) (hhi' : hi ≤ 8 * k.toNat + 8) (hk : k.toNat < b.size)
    (hk32 : k.toNat + 1 < 2 ^ 32) :
    (∃ t, b.lookDown flip (fun n => n.toNat < b.used) cur k =
        .ok (answer (Scan.greatest (b.hit flip) hi), t)) ↔ b.InReachDown flip hi k.toNat := by
  constructor
  · rintro ⟨t, h⟩
    obtain ⟨m, -, cur', k', hends, hout⟩ := look_eq_ok.1 h
    have hends : b.EndsDown flip (fun n => n.toNat < b.used) cur k cur' k' m := hends
    by_cases hm : m ≤ k.toNat
    · obtain ⟨hsome, hnone⟩ := hends.answers hcur hhi hhi' hm hout
      cases hi : Scan.greatest (b.hit flip) hi with
      | some i =>
        rw [inReachDown_some hi]
        simpa only [decide_eq_true_eq] using hsome i hi
      | none =>
        rw [inReachDown_none hi]
        have hmore := hnone hi
        rw [(hends.at hcur hhi hhi' hm).1, decide_eq_true_eq] at hmore
        exact .inl (by omega)
    · obtain ⟨hnone, hused, hbyte⟩ := below_zero hcur hhi hhi' (by omega) hends hout
      exact (inReachDown_none hnone).2 (.inr ⟨hused, hbyte⟩)
  · intro h
    cases hi : Scan.greatest (b.hit flip) hi with
    | some i =>
      rw [inReachDown_some hi] at h
      obtain ⟨-, hq, -⟩ := Scan.greatest_eq_some.1 hi
      refine lookDown_of_some hcur hhi hhi' hk hi h.1 fun n hn hn' => ?_
      rw [decide_eq_true_eq]
      omega
    | none =>
      rw [inReachDown_none hi] at h
      by_cases hused : b.used ≤ k.toNat
      · refine ⟨b, lookDown_of_none (m := 0) hcur hhi hhi' hk hi (Nat.zero_le _) ?_ ?_⟩
        · intro n hn hn'
          omega
        · intro n hn
          rw [decide_eq_true_eq]
          omega
      · obtain hle | ⟨hlt, hbyte⟩ := h
        · exact absurd hle hused
        have hno := Scan.greatest_eq_none.1 hi
        have hread : b.read ((fun n : UInt32 => n - 1)^[k.toNat + 1] k) = .ok (stopByte flip) := by
          rw [read_eq_ok, iterate_pred_wraps, hbyte]
        refine ⟨b, look_eq_ok.2 ⟨k.toNat + 1, hk32, stopByte flip, _,
          ⟨rfl, hread, ?_, fun j hj => ⟨?_, ?_⟩⟩, .inr ⟨rfl, rfl, rfl⟩⟩⟩
        · rintro ⟨-, hgo⟩
          simp only [iterate_pred_wraps, decide_eq_true_eq] at hgo
          omega
        · exact stops_down hcur hhi hk (by omega) fun i hq _ => hno i hq
        · simp only [iterate_pred_toNat k (m := j) (by omega), decide_eq_true_eq]
          omega

end Zbits
end Malamute.L1
