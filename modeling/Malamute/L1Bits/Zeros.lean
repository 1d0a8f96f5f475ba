import Malamute.L1Bits.Ones

/-!
# Scanning the zeros and inserting

The masks of `zbits_next_zero` and `zbits_prev_zero` keep the current bit, so both find
it again when it is clear, and the loop of `zbits_prev_zero` goes on for as long as
`byte_nbr` is one of the bytes used, also below byte 0. `zeroScans_iff` says when the
scans over the zeros and `zbits_insert` are exact nevertheless; each conjunct is about one
of the functions.
-/
namespace Malamute.L1
open Malamute.Core
namespace Zbits

/-- Bit `i` is clear. -/
def zero (b : Zbits) (i : Nat) : Bool := !b.bit i

/-- The indices of the bits that are clear, in order. -/
def zeros (b : Zbits) : List Nat := Scan.hits b.zero 0 b.bits

/-- `zbits_insert` sets the least clear bit and answers with it; if there is none, it
answers -1 and the bits and the bytes used are as before. -/
def Inserts (b : Zbits) : Prop :=
  ∃ t, b.insert = .ok (answer (Scan.least b.zero 0 b.bits), t) ∧ t.bits = b.bits ∧
    match Scan.least b.zero 0 b.bits with
    | some i => ∀ j < b.bits, t.bit j = (b.bit j || decide (j = i))
    | none => t.data = b.data ∧ t.used = b.used

/-- What the scans over the zeros are for; nothing outside the data is read. -/
structure ZeroScans (b : Zbits) : Prop where
  firstZero : ∃ t, b.firstZero = .ok (answer (Scan.least b.zero 0 b.bits), t)
  nextZero : ∃ t, b.nextZero = .ok (answer (Scan.least b.zero (b.cursor.toNat + 1) b.bits), t)
  prevZero : ∃ t, b.prevZero = .ok (answer (Scan.greatest b.zero b.cursor.toNat), t)
  insert : b.Inserts
  /-- repeated inserts hand out all that is clear, each index once -/
  inserts : ∃ t, Scan.calls Zbits.insert b.zeros.length b =
    .ok (b.zeros.map fun i : Nat => (i : Int), t) ∧ t.zeros = []

variable {b t : Zbits} {i : Nat}

theorem hit_true (b : Zbits) : b.hit true = b.zero := by
  funext i
  simp [hit, zero]

theorem zero_eq_true : b.zero i = true ↔ b.bit i = false := by
  rw [zero, Bool.not_eq_true']

theorem zero_eq_false : b.zero i = false ↔ b.bit i = true := by
  rw [zero, Bool.not_eq_false']

/-! ## One call -/

theorem setTrailing : ∀ n < 8, ∀ j < 8,
    (setTrailingBits.getD n 0).toNat.testBit j = decide (j < n) := by decide

theorem setLeading : ∀ n < 8, ∀ j < 8,
    (setLeadingBits.getD n 0).toNat.testBit j = decide (n < j) := by decide

/-- `zbits_next_zero` looks at the bits from the cursor on. -/
theorem nextZero_eq (h : b.cursor.toNat < b.bits) :
    ∃ cur, b.nextZero = b.lookUp true cur (b.cursor / 8) ∧
      b.Window true (fun i => b.cursor.toNat ≤ i) cur (b.cursor / 8).toNat := by
  have hbits : b.bits = 8 * b.size := rfl
  obtain ⟨x, hx⟩ := exists_read (b := b) (k := b.cursor / 8) (by rw [toNat_div_eight]; omega)
  refine ⟨x ||| mask setTrailingBits (b.cursor % 8), ?_, fun j hj => ?_⟩
  · unfold nextZero
    dsimp only
    rw [hx]
    rfl
  · have hmask := setTrailing (b.cursor.toNat % 8) (by omega) j hj
    rw [hit, bit_of_read hx hj, off, UInt8.toNat_or, Nat.testBit_or, mask, toNat_mod_eight, hmask,
      toNat_div_eight]
    by_cases hlt : j < b.cursor.toNat % 8
    · simp [hlt, show ¬b.cursor.toNat ≤ 8 * (b.cursor.toNat / 8) + j by omega]
    · simp [hlt, show b.cursor.toNat ≤ 8 * (b.cursor.toNat / 8) + j by omega]

/-- `zbits_prev_zero` looks at the bits up to the cursor. -/
theorem prevZero_eq (h : b.cursor.toNat < b.bits) :
    ∃ cur, b.prevZero = b.lookDown true (fun n => n.toNat < b.used) cur (b.cursor / 8) ∧
      b.Window true (fun i => i < b.cursor.toNat + 1) cur (b.cursor / 8).toNat := by
  have hbits : b.bits = 8 * b.size := rfl
  obtain ⟨x, hx⟩ := exists_read (b := b) (k := b.cursor / 8) (by rw [toNat_div_eight]; omega)
  refine ⟨x ||| mask setLeadingBits (b.cursor % 8), ?_, fun j hj => ?_⟩
  · unfold prevZero
    dsimp only
    rw [hx]
    rfl
  · have hmask := setLeading (b.cursor.toNat % 8) (by omega) j hj
    rw [hit, bit_of_read hx hj, off, UInt8.toNat_or, Nat.testBit_or, mask, toNat_mod_eight, hmask,
      toNat_div_eight]
    by_cases hlt : b.cursor.toNat % 8 < j
    · simp [hlt, show ¬8 * (b.cursor.toNat / 8) + j < b.cursor.toNat + 1 by omega]
    · simp [hlt, show 8 * (b.cursor.toNat / 8) + j < b.cursor.toNat + 1 by omega]

/-- The bit at the cursor itself is found. -/
theorem nextZero_from_iff (h : b.cursor.toNat < b.bits) :
    (∃ t, b.nextZero = .ok (answer (Scan.least b.zero b.cursor.toNat b.bits), t)) ↔
      b.InReach true b.cursor.toNat (b.cursor.toNat / 8) := by
  have hbits : b.bits = 8 * b.size := rfl
  obtain ⟨cur, heq, hcur⟩ := nextZero_eq h
  have hiff := lookUp_iff hcur (by rw [toNat_div_eight]; omega) (by rw [toNat_div_eight]; omega)
    (by rw [toNat_div_eight]; omega)
  rwa [← heq, hit_true, toNat_div_eight] at hiff

theorem prevZero_from_iff (h : b.cursor.toNat < b.bits) :
    (∃ t, b.prevZero = .ok (answer (Scan.greatest b.zero (b.cursor.toNat + 1)), t)) ↔
      b.InReachDown true (b.cursor.toNat + 1) (b.cursor.toNat / 8) := by
  have hbits : b.bits = 8 * b.size := rfl
  have hlt := b.cursor.toNat_lt
  obtain ⟨cur, heq, hcur⟩ := prevZero_eq h
  have hiff := lookDown_used_iff hcur (by rw [toNat_div_eight]; omega)
    (by rw [toNat_div_eight]; omega) (by rw [toNat_div_eight]; omega)
    (by rw [toNat_div_eight]; omega)
  rwa [← heq, hit_true, toNat_div_eight] at hiff

theorem CursorAt.nextZero_from_iff {c : Nat} (h : b.CursorAt c t) :
    (∃ u, t.nextZero = .ok (answer (Scan.least b.zero c b.bits), u)) ↔
      b.InReach true c (c / 8) := by
  obtain ⟨hc, n, rfl, rfl⟩ := h
  exact Zbits.nextZero_from_iff (b := { b with cursor := n }) hc

/-- Behind the data there is nothing to read. -/
theorem read_outside (h : b.bits ≤ b.cursor.toNat) (x : UInt8) :
    b.read (b.cursor / 8) ≠ .ok x := by
  intro hread
  have hbits : b.bits = 8 * b.size := rfl
  have hlt := read_lt hread
  rw [toNat_div_eight] at hlt
  omega

theorem nextZero_outside (h : b.bits ≤ b.cursor.toNat) {r : Int} : b.nextZero ≠ .ok (r, t) := by
  unfold nextZero
  dsimp only
  cases hread : b.read (b.cursor / 8) with
  | error e => simp [bind, Except.bind]
  | ok x => exact absurd hread (read_outside h x)

theorem prevZero_outside (h : b.bits ≤ b.cursor.toNat) {r : Int} : b.prevZero ≠ .ok (r, t) := by
  unfold prevZero
  dsimp only
  cases hread : b.read (b.cursor / 8) with
  | error e => simp [bind, Except.bind]
  | ok x => exact absurd hread (read_outside h x)

theorem toNat_found {c : UInt32} {j : Nat} {x : UInt8} (hx : x.toNat = j)
    (hj : 8 * (c.toNat / 8) + j = c.toNat) : c / 8 * 8 + x.toUInt32 = c := by
  have hlt := c.toNat_lt
  apply UInt32.toNat_inj.1
  rw [UInt32.toNat_add, UInt32.toNat_mul, UInt8.toNat_toUInt32, toNat_div_eight, hx]
  simp
  omega

theorem nextZero_of_clear (h : b.cursor.toNat < b.bits) (hclear : b.bit b.cursor.toNat = false) :
    b.nextZero = b.moveTo b.cursor := by
  obtain ⟨cur, heq, hcur⟩ := nextZero_eq h
  have hhit : b.hit true b.cursor.toNat = true := by rw [hit, hclear]; rfl
  have hne := hcur.ne_stopByte (toNat_div_eight _).symm hhit (decide_eq_true (Nat.le_refl _))
  obtain ⟨j, hj, hindex, -, hq, hbefore⟩ := hcur.first hne
  rw [toNat_div_eight] at hq hbefore
  have hfound : 8 * (b.cursor.toNat / 8) + j = b.cursor.toNat := by
    by_contra hother
    have hle := of_decide_eq_true hq
    rw [hbefore _ (by omega) (by omega) (decide_eq_true (Nat.le_refl _))] at hhit
    cases hhit
  unfold lookUp at heq
  rw [heq, look_of_ne hne, toNat_found hindex hfound]

theorem prevZero_of_clear (h : b.cursor.toNat < b.bits) (hclear : b.bit b.cursor.toNat = false) :
    b.prevZero = b.moveTo b.cursor := by
  obtain ⟨cur, heq, hcur⟩ := prevZero_eq h
  have hhit : b.hit true b.cursor.toNat = true := by rw [hit, hclear]; rfl
  have hne := hcur.ne_stopByte (toNat_div_eight _).symm hhit (decide_eq_true (Nat.lt_succ_self _))
  obtain ⟨j, hj, hindex, -, hq, hafter⟩ := hcur.last hne
  rw [toNat_div_eight] at hq hafter
  have hfound : 8 * (b.cursor.toNat / 8) + j = b.cursor.toNat := by
    by_contra hother
    have hle := of_decide_eq_true hq
    rw [hafter _ (by omega) (by omega) (decide_eq_true (Nat.lt_succ_self _))] at hhit
    cases hhit
  unfold lookDown at heq
  rw [heq, look_of_ne hne, toNat_found hindex hfound]

/-! ## `zbits_next_zero` and `zbits_prev_zero` -/

theorem least_of_set {n c : Nat} (h : b.bit c = true) :
    Scan.least b.zero c n = Scan.least b.zero (c + 1) n := by
  have hzero : b.zero c = false := zero_eq_false.2 h
  cases hleast : Scan.least b.zero (c + 1) n with
  | some i =>
    obtain ⟨hi, hlo, hn, hj⟩ := Scan.least_eq_some.1 hleast
    refine Scan.least_eq_some.2 ⟨hi, by omega, hn, fun j hlo' hlt => ?_⟩
    obtain rfl | hlo' : j = c ∨ c + 1 ≤ j := by omega
    · exact hzero
    · exact hj j hlo' hlt
  | none =>
    refine Scan.least_eq_none.2 fun j hlo' hlt => ?_
    obtain rfl | hlo' : j = c ∨ c + 1 ≤ j := by omega
    · exact hzero
    · exact Scan.least_eq_none.1 hleast j hlo' hlt

theorem greatest_of_set {c : Nat} (h : b.bit c = true) :
    Scan.greatest b.zero (c + 1) = Scan.greatest b.zero c := by
  rw [Scan.greatest, if_neg (by rw [zero_eq_false.2 h]; decide)]

/-- `zbits_next_zero` finds the next one only from a bit that is set. -/
theorem nextZero_iff :
    (∃ t, b.nextZero = .ok (answer (Scan.least b.zero (b.cursor.toNat + 1) b.bits), t)) ↔
      b.cursor.toNat < b.bits ∧ b.bit b.cursor.toNat = true ∧
        b.InReach true (b.cursor.toNat + 1) (b.cursor.toNat / 8) := by
  by_cases hlt : b.cursor.toNat < b.bits
  · cases hbit : b.bit b.cursor.toNat with
    | true =>
      have hiff := nextZero_from_iff hlt
      unfold InReach at hiff ⊢
      rw [hit_true, least_of_set hbit] at hiff
      rw [hit_true, hiff]
      exact ⟨fun h => ⟨hlt, rfl, h⟩, fun h => h.2.2⟩
    | false =>
      constructor
      · rintro ⟨t, ht⟩
        rw [nextZero_of_clear hlt hbit, moveTo_eq_ok] at ht
        obtain ⟨-, hanswer, -⟩ := ht
        cases hleast : Scan.least b.zero (b.cursor.toNat + 1) b.bits with
        | none =>
          rw [hleast, answer] at hanswer
          omega
        | some i =>
          have := (Scan.least_eq_some.1 hleast).2.1
          rw [hleast, answer] at hanswer
          omega
      · rintro ⟨-, h, -⟩
        cases h
  · constructor
    · rintro ⟨t, ht⟩
      exact absurd ht (nextZero_outside (Nat.le_of_not_lt hlt))
    · exact fun h => absurd h.1 hlt

theorem prevZero_iff :
    (∃ t, b.prevZero = .ok (answer (Scan.greatest b.zero b.cursor.toNat), t)) ↔
      b.cursor.toNat < b.bits ∧ b.bit b.cursor.toNat = true ∧
        b.InReachDown true b.cursor.toNat (b.cursor.toNat / 8) := by
  by_cases hlt : b.cursor.toNat < b.bits
  · cases hbit : b.bit b.cursor.toNat with
    | true =>
      have hiff := prevZero_from_iff hlt
      unfold InReachDown at hiff ⊢
      rw [hit_true, greatest_of_set hbit] at hiff
      rw [hit_true, hiff]
      exact ⟨fun h => ⟨hlt, rfl, h⟩, fun h => h.2.2⟩
    | false =>
      constructor
      · rintro ⟨t, ht⟩
        rw [prevZero_of_clear hlt hbit, moveTo_eq_ok] at ht
        obtain ⟨-, hanswer, -⟩ := ht
        cases hgreatest : Scan.greatest b.zero b.cursor.toNat with
        | none =>
          rw [hgreatest, answer] at hanswer
          omega
        | some i =>
          have := (Scan.greatest_eq_some.1 hgreatest).2.1
          rw [hgreatest, answer] at hanswer
          omega
      · rintro ⟨-, h, -⟩
        cases h
  · constructor
    · rintro ⟨t, ht⟩
      exact absurd ht (prevZero_outside (Nat.le_of_not_lt hlt))
    · exact fun h => absurd h.1 hlt

/-! ## `zbits_first_zero` -/

theorem firstZero_eq (h : 0 < b.size) :
    b.firstZero = if b.bit 0 then nextZero { b with cursor := 0 } else
      .ok (0, { b with cursor := 0 }) := by
  have hget : get { b with cursor := 0 } 0 = .ok (b.bit 0) :=
    get_eq (b := { b with cursor := 0 }) (cursorAt_zero h).1
  unfold firstZero
  dsimp only
  rw [hget]
  cases b.bit 0 <;> rfl

theorem size_pos_of_firstZero {r : Int × Zbits} (h : b.firstZero = .ok r) : 0 < b.size := by
  by_contra hsize
  have hget : get { b with cursor := 0 } 0 = .error .assertion := get_of_not_lt fun hlt => by
    have hbits : Zbits.bits { b with cursor := 0 } = 8 * b.size := rfl
    omega
  unfold firstZero at h
  dsimp only at h
  rw [hget] at h
  cases h

theorem firstZero_iff (hpos : 0 < b.size) :
    (∃ t, b.firstZero = .ok (answer (Scan.least b.zero 0 b.bits), t)) ↔ b.InReach true 0 0 := by
  have hat := cursorAt_zero hpos
  rw [firstZero_eq hpos]
  cases hbit : b.bit 0 with
  | true =>
    rw [if_pos rfl]
    exact hat.nextZero_from_iff
  | false =>
    have hleast : Scan.least b.zero 0 b.bits = some 0 := Scan.least_eq_some.2
      ⟨zero_eq_true.2 hbit, Nat.le_refl 0, hat.1, fun j _ h => by omega⟩
    rw [hleast, inReach_some ((hit_true b).symm ▸ hleast)]
    exact ⟨fun _ => ⟨by decide, .inl rfl⟩, fun _ => ⟨_, rfl⟩⟩

theorem firstZero_state {r : Int} (h : b.firstZero = .ok (r, t)) :
    r = -1 ∧ t = { b with cursor := 0 } ∨
      ∃ c : UInt32, c.toNat < 2 ^ 31 ∧ r = c.toNat ∧ t = { b with cursor := c } := by
  have hpos := size_pos_of_firstZero h
  rw [firstZero_eq hpos] at h
  cases hbit : b.bit 0 with
  | true =>
    rw [hbit, if_pos rfl] at h
    obtain ⟨cur, heq, -⟩ := nextZero_eq (b := { b with cursor := 0 }) (cursorAt_zero hpos).1
    exact look_state (heq ▸ h)
  | false =>
    rw [hbit, if_neg Bool.false_ne_true] at h
    cases h
    exact .inr ⟨0, by decide, rfl, rfl⟩

/-! ## `zbits_set` and `zbits_insert` -/

theorem testBit_bitSet_entry : ∀ n < 8, ∀ j < 8,
    (sBitSet.getD n 0).toNat.testBit j = decide (j = n) := by decide

theorem bit_write {n : UInt32} {x : UInt8} (h : n.toNat < b.size) (i : Nat) :
    (b.write n x).bit i = if i / 8 = n.toNat then x.toNat.testBit (i % 8) else b.bit i := by
  unfold bit write
  dsimp only
  rw [List.getD_eq_getElem?_getD, List.getElem?_set, List.getD_eq_getElem?_getD]
  by_cases hi : i / 8 = n.toNat
  · rw [if_pos hi.symm, if_pos (show n.toNat < b.data.length from h), if_pos hi, Option.getD_some]
  · rw [if_neg (Ne.symm hi), if_neg hi]

theorem set_eq {n : UInt32} (h : n.toNat < b.bits) :
    ∃ t, b.set n = .ok t ∧ t.bits = b.bits ∧ t.used = max b.used (n.toNat / 8 + 1) ∧
      ∀ j, t.bit j = (b.bit j || decide (j = n.toNat)) := by
  have hbits : b.bits = 8 * b.size := rfl
  have hlt := n.toNat_lt
  have hdiv := toNat_div_eight n
  have hsize : (n / 8).toNat < b.size := by omega
  obtain ⟨x, hx⟩ := exists_read hsize
  have hnext : (n / 8 + 1).toNat = n.toNat / 8 + 1 := by
    rw [UInt32.toNat_add, hdiv, UInt32.toNat_one]
    omega
  have hbit : ∀ j, (b.write (n / 8) (x ||| mask sBitSet (n % 8))).bit j =
      (b.bit j || decide (j = n.toNat)) := by
    intro j
    rw [bit_write hsize]
    by_cases hj : j / 8 = (n / 8).toNat
    · have hread := bit_of_read hx (j := j % 8) (by omega)
      rw [← hj, Nat.div_add_mod] at hread
      rw [if_pos hj, UInt8.toNat_or, Nat.testBit_or, mask, toNat_mod_eight,
        testBit_bitSet_entry _ (by omega) _ (by omega), hread]
      congr 1
      exact decide_eq_decide.2 (by omega)
    · rw [if_neg hj, decide_eq_false (by rintro rfl; exact hj hdiv.symm), Bool.or_false]
  have hlength : (b.write (n / 8) (x ||| mask sBitSet (n % 8))).bits = b.bits :=
    congrArg (8 * ·) List.length_set
  unfold set
  dsimp only
  rw [if_pos h, hx, hnext]
  by_cases hused : b.used < n.toNat / 8 + 1
  · refine ⟨_, if_pos hused, hlength, ?_, hbit⟩
    exact (Nat.max_eq_right (Nat.le_of_lt hused)).symm
  · refine ⟨_, if_neg hused, hlength, ?_, hbit⟩
    exact (Nat.max_eq_left (Nat.le_of_not_lt hused)).symm

theorem insert_of_firstZero {i : Nat} (hi : i < b.bits) {u : Zbits}
    (h : b.firstZero = .ok ((i : Int), u)) :
    ∃ t, b.insert = .ok ((i : Int), t) ∧ t.bits = b.bits ∧ t.used = max b.used (i / 8 + 1) ∧
      ∀ j, t.bit j = (b.bit j || decide (j = i)) := by
  obtain ⟨hr, -⟩ | ⟨c, hc, hr, rfl⟩ := firstZero_state h
  · omega
  · obtain rfl : i = c.toNat := Int.ofNat.inj hr
    obtain ⟨t, hset, hbits, hused, hbit⟩ := set_eq (b := { b with cursor := c }) hi
    have hcast : UInt32.ofNat ((c.toNat : Int).toNat) = c := UInt32.ofNat_toNat
    refine ⟨t, ?_, hbits, hused, hbit⟩
    unfold insert
    simp only [h, bind, Except.bind, Int.natCast_nonneg, if_true, hcast, hset]
    rfl

/-- What `zbits_insert` answers is what `zbits_first_zero` answers. -/
theorem firstZero_of_insert {r : Int} (h : b.insert = .ok (r, t)) :
    ∃ u, b.firstZero = .ok (r, u) := by
  unfold insert at h
  cases hfirst : b.firstZero with
  | error e => simp [hfirst, bind, Except.bind] at h
  | ok p =>
    obtain ⟨i, u⟩ := p
    simp only [hfirst, bind, Except.bind] at h
    split at h
    · cases hset : u.set (UInt32.ofNat i.toNat) with
      | error e => simp [hset] at h
      | ok v =>
        simp only [hset, pure, Except.pure, Except.ok.injEq, Prod.mk.injEq] at h
        exact ⟨u, by rw [h.1]⟩
    · simp only [pure, Except.pure, Except.ok.injEq, Prod.mk.injEq] at h
      exact ⟨u, by rw [h.1]⟩

theorem inserts_iff (hpos : 0 < b.size) : b.Inserts ↔ b.InReach true 0 0 := by
  rw [← firstZero_iff hpos]
  constructor
  · rintro ⟨t, ht, -⟩
    exact firstZero_of_insert ht
  · rintro ⟨u, hu⟩
    unfold Inserts
    cases hleast : Scan.least b.zero 0 b.bits with
    | some i =>
      obtain ⟨-, -, hi, -⟩ := Scan.least_eq_some.1 hleast
      rw [hleast] at hu
      obtain ⟨t, ht, hbits, -, hbit⟩ := insert_of_firstZero hi hu
      exact ⟨t, ht, hbits, fun j _ => hbit j⟩
    | none =>
      rw [hleast] at hu
      obtain ⟨-, rfl⟩ | ⟨c, -, hr, -⟩ := firstZero_state hu
      · refine ⟨{ b with cursor := 0 }, ?_, rfl, rfl, rfl⟩
        unfold insert
        simp only [hu, bind, Except.bind, answer]
        rfl
      · rw [answer] at hr
        omega

/-! ## Inserting until the bitmap is full -/

/-- Inserting the indices one after the other, each in the bytes used then or the next. -/
def Chained : Nat → List Nat → Prop
  | _, [] => True
  | used, i :: is => i < 2 ^ 31 ∧ i / 8 ≤ used ∧ Chained (max used (i / 8 + 1)) is

theorem chained_iff {used : Nat} {is : List Nat} (hsorted : is.Pairwise (· < ·)) :
    Chained used is ↔
      ∀ i ∈ is, i < 2 ^ 31 ∧ (i / 8 ≤ used ∨ ∃ j ∈ is, j < i ∧ i / 8 ≤ j / 8 + 1) := by
  induction is generalizing used with
  | nil => simp [Chained]
  | cons x xs ih =>
    obtain ⟨hx, hxs⟩ := List.pairwise_cons.1 hsorted
    rw [Chained, ih hxs]
    constructor
    · rintro ⟨hlt, hle, hall⟩ i hi
      obtain rfl | hi := List.mem_cons.1 hi
      · exact ⟨hlt, .inl hle⟩
      · have hxi := hx i hi
        obtain ⟨hlt', hle' | ⟨j, hj, hji, hle'⟩⟩ := hall i hi
        · by_cases h : i / 8 ≤ used
          · exact ⟨hlt', .inl h⟩
          · exact ⟨hlt', .inr ⟨x, List.mem_cons_self, hxi, by omega⟩⟩
        · exact ⟨hlt', .inr ⟨j, List.mem_cons_of_mem x hj, hji, hle'⟩⟩
    · intro h
      obtain ⟨hlt, hle⟩ := h x List.mem_cons_self
      refine ⟨hlt, ?_, fun i hi => ?_⟩
      · obtain hle | ⟨j, hj, hjx, -⟩ := hle
        · exact hle
        · obtain rfl | hj := List.mem_cons.1 hj
          · omega
          · have := hx j hj
            omega
      · obtain ⟨hlt', hle' | ⟨j, hj, hji, hle'⟩⟩ := h i (List.mem_cons_of_mem x hi)
        · exact ⟨hlt', .inl (by omega)⟩
        · obtain rfl | hj := List.mem_cons.1 hj
          · exact ⟨hlt', .inl (by omega)⟩
          · exact ⟨hlt', .inr ⟨j, hj, hji, hle'⟩⟩

/-- After the least clear bit is set, the others are left. -/
theorem zeros_eq_cons (h : Scan.least b.zero 0 b.bits = some i) (hbits : t.bits = b.bits)
    (hbit : ∀ j, t.bit j = (b.bit j || decide (j = i))) : b.zeros = i :: t.zeros := by
  obtain ⟨-, -, hi, hbefore⟩ := Scan.least_eq_some.1 h
  have hzero : ∀ j, t.zero j = (b.zero j && !decide (j = i)) := fun j => by
    rw [zero, hbit, Bool.not_or, zero]
  have hnil : Scan.hits t.zero 0 (i + 1) = [] := by
    apply Scan.hits_eq_nil.2
    apply Scan.least_eq_none.2
    intro j _ hj
    rw [hzero]
    obtain rfl | hj : j = i ∨ j < i := by omega
    · simp
    · rw [hbefore j (Nat.zero_le j) hj, Bool.false_and]
  have hrest : Scan.hits t.zero (i + 1) b.bits = Scan.hits b.zero (i + 1) b.bits := by
    apply Scan.hits_congr
    intro j hj _
    rw [hzero, decide_eq_false (by omega), Bool.not_false, Bool.and_true]
  rw [zeros, zeros, hbits, Scan.hits_eq_cons h, Scan.hits_append (Nat.zero_le _) hi, hnil, hrest,
    List.nil_append]

theorem calls_insert_iff (b : Zbits) :
    (∃ t, Scan.calls Zbits.insert b.zeros.length b =
        .ok (b.zeros.map (fun i : Nat => (i : Int)), t) ∧ t.zeros = []) ↔
      Chained b.used b.zeros := by
  generalize hzeros : b.zeros = is
  induction is generalizing b with
  | nil =>
    exact ⟨fun _ => trivial, fun _ => ⟨b, rfl, hzeros⟩⟩
  | cons x xs ih =>
    have hleast : Scan.least b.zero 0 b.bits = some x := (Scan.hits_eq_cons_iff.1 hzeros).1
    have hx : x < b.bits := (Scan.least_eq_some.1 hleast).2.2.1
    have hfirst := firstZero_iff (b := b) (Nat.pos_of_mul_pos_left (Nat.zero_lt_of_lt hx))
    rw [hleast, inReach_some ((hit_true b).symm ▸ hleast)] at hfirst
    -- one insert, and the bitmap it leaves
    have hnext : ∀ {u}, b.firstZero = .ok ((x : Int), u) → ∃ t, b.insert = .ok ((x : Int), t) ∧
        t.zeros = xs ∧ t.used = max b.used (x / 8 + 1) := by
      intro u hu
      obtain ⟨t, ht, hbits, hused, hbit⟩ := insert_of_firstZero hx hu
      have := hzeros.symm.trans (zeros_eq_cons hleast hbits hbit)
      exact ⟨t, ht, (List.cons.inj this).2.symm, hused⟩
    rw [Chained]
    constructor
    · rintro ⟨t, ht, hfull⟩
      obtain ⟨s, hs, hrest⟩ := Scan.calls_succ_eq_ok.1 ht
      obtain ⟨u, hu⟩ := firstZero_of_insert hs
      obtain ⟨hlt, hle⟩ := hfirst.1 ⟨u, hu⟩
      obtain ⟨s', hs', hzeros', hused⟩ := hnext hu
      obtain rfl : s = s' := congrArg Prod.snd (Except.ok.inj (hs.symm.trans hs'))
      rw [← hused]
      exact ⟨hlt, by omega, (ih s hzeros').1 ⟨t, hrest, hfull⟩⟩
    · rintro ⟨hlt, hle, hchained⟩
      obtain ⟨u, hu⟩ := hfirst.2 ⟨hlt, .inr hle⟩
      obtain ⟨s, hs, hzeros', hused⟩ := hnext hu
      rw [← hused] at hchained
      obtain ⟨t, ht, hfull⟩ := (ih s hzeros').2 hchained
      exact ⟨t, Scan.calls_succ_eq_ok.2 ⟨s, hs, ht⟩, hfull⟩

/-! ## All of them -/

/-- The scans over the zeros and the inserts are exact if and only if the first zero is in
reach from byte 0; the bit at the cursor is set, and the next and the previous zero are in
reach from there; and each zero is in the bytes used or the next, or close to a zero
before it, at an index that fits an `int`. -/
theorem zeroScans_iff (b : Zbits) :
    b.ZeroScans ↔ b.InReach true 0 0 ∧
      (b.cursor.toNat < b.bits ∧ b.bit b.cursor.toNat = true ∧
        b.InReach true (b.cursor.toNat + 1) (b.cursor.toNat / 8) ∧
        b.InReachDown true b.cursor.toNat (b.cursor.toNat / 8)) ∧
      ∀ i ∈ b.zeros, i < 2 ^ 31 ∧
        (i / 8 ≤ b.used ∨ ∃ j ∈ b.zeros, j < i ∧ i / 8 ≤ j / 8 + 1) := by
  have hinserts := calls_insert_iff b
  have hsorted : b.zeros.Pairwise (· < ·) := Scan.hits_pairwise _ _ _
  rw [chained_iff hsorted] at hinserts
  constructor
  · intro h
    obtain ⟨hlt, hbit, hnext⟩ := nextZero_iff.1 h.nextZero
    obtain ⟨-, -, hprev⟩ := prevZero_iff.1 h.prevZero
    obtain ⟨t, ht⟩ := h.firstZero
    have hpos := size_pos_of_firstZero ht
    exact ⟨(firstZero_iff hpos).1 h.firstZero, ⟨hlt, hbit, hnext, hprev⟩, hinserts.1 h.inserts⟩
  · rintro ⟨hfirst, ⟨hlt, hbit, hnext, hprev⟩, hall⟩
    have hpos : 0 < b.size := Nat.pos_of_mul_pos_left (Nat.zero_lt_of_lt hlt)
    constructor
    · exact (firstZero_iff hpos).2 hfirst
    · exact nextZero_iff.2 ⟨hlt, hbit, hnext⟩
    · exact prevZero_iff.2 ⟨hlt, hbit, hprev⟩
    · exact (inserts_iff hpos).2 hfirst
    · exact hinserts.2 hall

/-- 64 bits, all set. -/
def fullWord : Zbits where
  data := [255, 255, 255, 255, 255, 255, 255, 255]
  used := 8
  cursor := 63
  words := rfl

/-- In a new bitmap the zero after bit 0 is bit 0 again. When 64 inserts have filled it,
the next one reads the byte behind the data instead of answering -1, and
`zbits_prev_zero` one far behind it. -/
theorem repeats_first_zero :
    (new 64 rfl).nextZero = .ok (0, new 64 rfl) ∧
      ¬(new 64 rfl).ZeroScans ∧
      Scan.calls Zbits.insert 64 (new 64 rfl) =
        .ok ((List.range 64).map fun i : Nat => (i : Int), fullWord) ∧
      fullWord.insert = .error .bounds ∧ fullWord.prevZero = .error .bounds := by
  have hnext : (new 64 rfl).nextZero = .ok (0, new 64 rfl) := by rfl
  refine ⟨hnext, fun h => ?_, by decide +kernel, by rfl, by rfl⟩
  obtain ⟨t, ht⟩ := h.nextZero
  have hleast : Scan.least (new 64 rfl).zero 1 64 = some 1 := by decide +kernel
  have := congrArg Prod.fst (Except.ok.inj (hnext.symm.trans ht))
  change (0 : Int) = answer (Scan.least (new 64 rfl).zero 1 64) at this
  rw [hleast] at this
  cases this

end Zbits
end Malamute.L1
