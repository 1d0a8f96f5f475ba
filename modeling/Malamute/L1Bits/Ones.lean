import Malamute.L1Bits.Scans

/-!
# Scanning the ones

`forward` and `backward` call `zbits_first` and `zbits_last`, and then `zbits_next` and
`zbits_prev` as often as there are ones. `onesScans_iff` says for which bitmaps they give
the ones in order and then -1: the byte behind those used must be inside the data, because
`zbits_next` reads it before it gives up, and the last bit must be clear, because
`zbits_last` answers 0 if it is set.
-/
namespace Malamute.L1
open Malamute.Core
namespace Zbits

/-- The indices of the bits that are set, in order. -/
def ones (b : Zbits) : List Nat := Scan.hits b.bit 0 b.bits

/-- All of them with `zbits_first` and `zbits_next`. -/
def forward (b : Zbits) : Except BitsFault (List Int × Zbits) :=
  Scan.callsAfter first next b.ones.length b

/-- All of them with `zbits_last` and `zbits_prev`. -/
def backward (b : Zbits) : Except BitsFault (List Int × Zbits) :=
  Scan.callsAfter last prev b.ones.length b

/-- The scans give the ones in order and then -1, and read nothing outside the data. -/
structure OnesScans (b : Zbits) : Prop where
  forward : ∃ t, b.forward = .ok (b.ones.map (fun i : Nat => (i : Int)) ++ [-1], t)
  backward : ∃ t, b.backward = .ok (b.ones.reverse.map (fun i : Nat => (i : Int)) ++ [-1], t)

variable {b t : Zbits} {i : Nat}

theorem hit_false (b : Zbits) : b.hit false = b.bit := by
  funext i
  simp [hit]

theorem mem_ones : i ∈ b.ones ↔ b.bit i = true ∧ i < b.bits := by
  rw [ones, Scan.mem_hits]
  exact ⟨fun h => ⟨h.1, h.2.2⟩, fun h => ⟨h.1, Nat.zero_le i, h.2⟩⟩

/-! ## One call -/

theorem testBit_bitSet (x : UInt8) :
    ∀ n < 8, decide (x &&& sBitSet.getD n 0 ≠ 0) = x.toNat.testBit n := by
  apply forall_byte (P := fun x => ∀ n < 8, decide (x &&& sBitSet.getD n 0 ≠ 0) = x.toNat.testBit n)
  decide +kernel

theorem toNat_mod_eight (n : UInt32) : (n % 8).toNat = n.toNat % 8 := UInt32.toNat_mod n 8

theorem toNat_div_eight (n : UInt32) : (n / 8).toNat = n.toNat / 8 := UInt32.toNat_div n 8

theorem get_eq {n : UInt32} (h : n.toNat < b.bits) : b.get n = .ok (b.bit n.toNat) := by
  have hbits : b.bits = 8 * b.size := rfl
  obtain ⟨x, hx⟩ := exists_read (b := b) (k := n / 8) (by rw [toNat_div_eight]; omega)
  have hbit := bit_of_read hx (j := n.toNat % 8) (by omega)
  rw [toNat_div_eight, Nat.div_add_mod] at hbit
  unfold get
  dsimp only
  rw [if_pos h, hx, hbit, ← testBit_bitSet x _ (by omega), ← toNat_mod_eight]
  rfl

theorem get_of_not_lt {n : UInt32} (h : ¬n.toNat < b.bits) : b.get n = .error .assertion := by
  unfold get
  exact if_neg h

theorem clearTrailing : ∀ n < 8, ∀ j < 8,
    (clearTrailingBits.getD n 0).toNat.testBit j = decide (n < j) := by decide

theorem clearLeading : ∀ n < 8, ∀ j < 8,
    (clearLeadingBits.getD n 0).toNat.testBit j = decide (j < n) := by decide

/-- `zbits_next` looks at the bits above the cursor. -/
theorem next_eq (h : b.cursor.toNat < b.bits) :
    ∃ cur, b.next = b.lookUp false cur (b.cursor / 8) ∧
      b.Window false (fun i => b.cursor.toNat + 1 ≤ i) cur (b.cursor / 8).toNat := by
  have hbits : b.bits = 8 * b.size := rfl
  obtain ⟨x, hx⟩ := exists_read (b := b) (k := b.cursor / 8) (by rw [toNat_div_eight]; omega)
  refine ⟨x &&& mask clearTrailingBits (b.cursor % 8), ?_, fun j hj => ?_⟩
  · unfold next
    dsimp only
    rw [hx]
    rfl
  · rw [hit_false, bit_of_read hx hj, off, UInt8.toNat_and, Nat.testBit_and, mask, toNat_mod_eight,
      clearTrailing _ (by omega) j hj, Bool.bne_false, toNat_div_eight]
    congr 1
    exact decide_eq_decide.2 (by omega)

/-- `zbits_prev` looks at the bits below the cursor. -/
theorem prev_eq (h : b.cursor.toNat < b.bits) :
    ∃ cur, b.prev = b.lookDown false (fun n => 0 < n) cur (b.cursor / 8) ∧
      b.Window false (fun i => i < b.cursor.toNat) cur (b.cursor / 8).toNat := by
  have hbits : b.bits = 8 * b.size := rfl
  obtain ⟨x, hx⟩ := exists_read (b := b) (k := b.cursor / 8) (by rw [toNat_div_eight]; omega)
  refine ⟨x &&& mask clearLeadingBits (b.cursor % 8), ?_, fun j hj => ?_⟩
  · unfold prev
    dsimp only
    rw [hx]
    rfl
  · rw [hit_false, bit_of_read hx hj, off, UInt8.toNat_and, Nat.testBit_and, mask, toNat_mod_eight,
      clearLeading _ (by omega) j hj, Bool.bne_false, toNat_div_eight]
    congr 1
    exact decide_eq_decide.2 (by omega)

theorem next_iff (h : b.cursor.toNat < b.bits) :
    (∃ t, b.next = .ok (answer (Scan.least b.bit (b.cursor.toNat + 1) b.bits), t)) ↔
      b.InReach false (b.cursor.toNat + 1) (b.cursor.toNat / 8) := by
  have hbits : b.bits = 8 * b.size := rfl
  obtain ⟨cur, heq, hcur⟩ := next_eq h
  have hiff := lookUp_iff hcur (by rw [toNat_div_eight]; omega) (by rw [toNat_div_eight]; omega)
    (by rw [toNat_div_eight]; omega)
  rwa [← heq, hit_false, toNat_div_eight] at hiff

theorem prev_iff (h : b.cursor.toNat < b.bits) :
    (∃ t, b.prev = .ok (answer (Scan.greatest b.bit b.cursor.toNat), t)) ↔
      ∀ i, Scan.greatest b.bit b.cursor.toNat = some i → i < 2 ^ 31 := by
  have hbits : b.bits = 8 * b.size := rfl
  obtain ⟨cur, heq, hcur⟩ := prev_eq h
  have hiff := lookDown_pos_iff hcur (by rw [toNat_div_eight]; omega)
    (by rw [toNat_div_eight]; omega) (by rw [toNat_div_eight]; omega)
  rwa [← heq, hit_false] at hiff

theorem prev_sound (h : b.cursor.toNat < b.bits) {r : Int} (hr : b.prev = .ok (r, t)) :
    r = answer (Scan.greatest b.bit b.cursor.toNat) := by
  have hlt := b.cursor.toNat_lt
  obtain ⟨cur, heq, hcur⟩ := prev_eq h
  have hsound := lookDown_sound hcur (by rw [toNat_div_eight]; omega)
    (by rw [toNat_div_eight]; omega) (by rw [toNat_div_eight]; omega) (heq ▸ hr)
  rwa [hit_false] at hsound

/-- Only the cursor moves, to the bit found. -/
theorem cursor_of_look {stop more step index cur k} {x : Nat}
    (h : b.look stop more step index cur k = .ok ((x : Int), t)) :
    ∃ c : UInt32, t = { b with cursor := c } ∧ c.toNat = x := by
  obtain ⟨hr, -⟩ | ⟨c, -, hr, ht⟩ := look_state h
  · omega
  · exact ⟨c, ht, by omega⟩

/-! ## All the calls -/

/-- The bitmap with its cursor at `c`. -/
def CursorAt (b : Zbits) (c : Nat) (t : Zbits) : Prop :=
  c < b.bits ∧ ∃ n : UInt32, t = { b with cursor := n } ∧ n.toNat = c

variable {c x : Nat}

theorem CursorAt.next_iff (h : b.CursorAt c t) :
    (∃ u, t.next = .ok (answer (Scan.least b.bit (c + 1) b.bits), u)) ↔
      b.InReach false (c + 1) (c / 8) := by
  obtain ⟨hc, n, rfl, rfl⟩ := h
  exact Zbits.next_iff (b := { b with cursor := n }) hc

theorem CursorAt.prev_iff (h : b.CursorAt c t) :
    (∃ u, t.prev = .ok (answer (Scan.greatest b.bit c), u)) ↔
      ∀ i, Scan.greatest b.bit c = some i → i < 2 ^ 31 := by
  obtain ⟨hc, n, rfl, rfl⟩ := h
  exact Zbits.prev_iff (b := { b with cursor := n }) hc

theorem CursorAt.prev_sound (h : b.CursorAt c t) {r : Int} {u : Zbits}
    (hr : t.prev = .ok (r, u)) : r = answer (Scan.greatest b.bit c) := by
  obtain ⟨hc, n, rfl, rfl⟩ := h
  exact Zbits.prev_sound (b := { b with cursor := n }) hc hr

theorem CursorAt.next (h : b.CursorAt c t) (hx : x < b.bits) {u : Zbits}
    (ht : t.next = .ok ((x : Int), u)) : b.CursorAt x u := by
  obtain ⟨hc, n, rfl, rfl⟩ := h
  obtain ⟨cur, heq, -⟩ := next_eq (b := { b with cursor := n }) hc
  obtain ⟨m, rfl, hm⟩ := cursor_of_look (heq ▸ ht)
  exact ⟨hx, m, rfl, hm⟩

theorem CursorAt.prev (h : b.CursorAt c t) (hx : x < b.bits) {u : Zbits}
    (ht : t.prev = .ok ((x : Int), u)) : b.CursorAt x u := by
  obtain ⟨hc, n, rfl, rfl⟩ := h
  obtain ⟨cur, heq, -⟩ := prev_eq (b := { b with cursor := n }) hc
  obtain ⟨m, rfl, hm⟩ := cursor_of_look (heq ▸ ht)
  exact ⟨hx, m, rfl, hm⟩

/-- The calls of `zbits_next` from a cursor on. -/
theorem calls_next_iff (h : b.CursorAt c t) :
    (∃ u, Scan.calls Zbits.next ((Scan.hits b.bit (c + 1) b.bits).length + 1) t =
        .ok ((Scan.hits b.bit (c + 1) b.bits).map (fun i : Nat => (i : Int)) ++ [-1], u)) ↔
      List.IsChain (fun c x => x < 2 ^ 31 ∧ (x / 8 = c / 8 ∨ x / 8 ≤ b.used))
          (c :: Scan.hits b.bit (c + 1) b.bits) ∧
        (b.used ≤ (c :: Scan.hits b.bit (c + 1) b.bits).getLast (List.cons_ne_nil _ _) / 8 ∨
          b.used < b.size ∧ b.used < 2 ^ 32) := by
  refine Scan.calls_iff b.CursorAt (fun c => Scan.hits b.bit (c + 1) b.bits) _
    (fun c => b.used ≤ c / 8 ∨ b.used < b.size ∧ b.used < 2 ^ 32) ?_ ?_ h
  · intro c s x xs hat hahead
    obtain ⟨hleast, rfl⟩ := Scan.hits_eq_cons_iff.1 hahead
    obtain ⟨-, -, hx, -⟩ := Scan.least_eq_some.1 hleast
    have hiff := hat.next_iff
    rw [inReach_some ((hit_false b).symm ▸ hleast), hleast] at hiff
    exact ⟨hiff, fun t ht => ⟨hat.next hx ht, rfl⟩⟩
  · intro c s hat hahead
    have hleast := Scan.hits_eq_nil.1 hahead
    have hiff := hat.next_iff
    rw [inReach_none ((hit_false b).symm ▸ hleast), hleast] at hiff
    exact hiff

/-- The calls of `zbits_prev` from a cursor down. -/
theorem calls_prev_iff (h : b.CursorAt c t) :
    (∃ u, Scan.calls Zbits.prev ((Scan.hits b.bit 0 c).reverse.length + 1) t =
        .ok ((Scan.hits b.bit 0 c).reverse.map (fun i : Nat => (i : Int)) ++ [-1], u)) ↔
      List.IsChain (fun _ x => x < 2 ^ 31) (c :: (Scan.hits b.bit 0 c).reverse) ∧ True := by
  refine Scan.calls_iff b.CursorAt (fun c => (Scan.hits b.bit 0 c).reverse) _ (fun _ => True)
    ?_ ?_ h
  · intro c s x xs hat hahead
    obtain ⟨hgreatest, rfl⟩ := Scan.hits_reverse_eq_cons_iff.1 hahead
    obtain ⟨-, hx, -⟩ := Scan.greatest_eq_some.1 hgreatest
    have hiff := hat.prev_iff
    rw [hgreatest] at hiff
    simp only [Option.some.injEq, forall_eq'] at hiff
    exact ⟨hiff, fun t ht => ⟨hat.prev (by have := hat.1; omega) ht, rfl⟩⟩
  · intro c s hat hahead
    have hgreatest := Scan.hits_reverse_eq_nil.1 hahead
    have hiff := hat.prev_iff
    rw [hgreatest] at hiff
    exact ⟨fun _ => trivial, fun _ => hiff.2 fun i hi => by cases hi⟩

/-! ## Forward -/

theorem mem_hits_one : i ∈ Scan.hits b.bit (0 + 1) b.bits ↔ i ∈ b.ones ∧ 0 < i := by
  rw [Scan.mem_hits, mem_ones]
  exact ⟨fun h => ⟨⟨h.1, h.2.2⟩, h.2.1⟩, fun h => ⟨h.1.1, h.2, h.1.2⟩⟩

/-- All steps from bit 0 on are good exactly if all ones are in the bytes used or the
next, and the last is answered if there is a byte behind those used. -/
theorem chain_next_iff (hpos : 0 < b.size) :
    (List.IsChain (fun c x => x < 2 ^ 31 ∧ (x / 8 = c / 8 ∨ x / 8 ≤ b.used))
        (0 :: Scan.hits b.bit (0 + 1) b.bits) ∧
      (b.used ≤ (0 :: Scan.hits b.bit (0 + 1) b.bits).getLast (List.cons_ne_nil _ _) / 8 ∨
        b.used < b.size ∧ b.used < 2 ^ 32)) ↔
      b.used < b.size ∧ b.used < 2 ^ 32 ∧ ∀ i ∈ b.ones, i < 2 ^ 31 ∧ i / 8 ≤ b.used := by
  have hbits : b.bits = 8 * b.size := rfl
  constructor
  · rintro ⟨hchain, hend⟩
    have hall := hchain.cons_induction (fun x => x < 2 ^ 31 ∧ x / 8 ≤ b.used) _
      (fun c x hstep hc => ⟨hstep.1, by omega⟩) ⟨by omega, by omega⟩
    have hlast : (0 :: Scan.hits b.bit (0 + 1) b.bits).getLast (List.cons_ne_nil _ _) / 8 < b.size ∧
        (0 :: Scan.hits b.bit (0 + 1) b.bits).getLast (List.cons_ne_nil _ _) < 2 ^ 31 := by
      obtain h | h := List.mem_cons.1
        (List.getLast_mem (List.cons_ne_nil 0 (Scan.hits b.bit (0 + 1) b.bits)))
      · rw [h]
        omega
      · have := (mem_ones.1 (mem_hits_one.1 h).1).2
        exact ⟨by omega, (hall _ h).1⟩
    refine ⟨by omega, by omega, fun i hi => ?_⟩
    obtain rfl | hpos := Nat.eq_zero_or_pos i
    · omega
    · exact hall i (mem_hits_one.2 ⟨hi, hpos⟩)
  · rintro ⟨hsize, hused, hall⟩
    refine ⟨?_, .inr ⟨hsize, hused⟩⟩
    have hchain := Scan.isChain_cons_iff (c := 0).2 fun x hx => hall x (mem_hits_one.1 hx).1
    exact hchain.imp fun c x hx => ⟨hx.1, .inr hx.2⟩

theorem cursorAt_zero (h : 0 < b.size) : b.CursorAt 0 { b with cursor := 0 } :=
  ⟨Nat.mul_pos (by decide) h, 0, rfl, rfl⟩

theorem first_eq (h : 0 < b.size) :
    b.first = if b.bit 0 then .ok (0, { b with cursor := 0 }) else
      Zbits.next { b with cursor := 0 } := by
  have hget : get { b with cursor := 0 } 0 = .ok (b.bit 0) :=
    get_eq (b := { b with cursor := 0 }) (cursorAt_zero h).1
  unfold first
  dsimp only
  rw [hget]
  rfl

/-- Only a bitmap that has bits has a first one to look at. -/
theorem size_pos_of_first {r : Int × Zbits} (h : b.first = .ok r) : 0 < b.size := by
  by_contra hsize
  have hget : get { b with cursor := 0 } 0 = .error .assertion := get_of_not_lt fun hlt => by
    have hbits : Zbits.bits { b with cursor := 0 } = 8 * b.size := rfl
    omega
  unfold first at h
  dsimp only at h
  rw [hget] at h
  cases h

theorem forward_iff (hpos : 0 < b.size) :
    (∃ t, b.forward = .ok (b.ones.map (fun i : Nat => (i : Int)) ++ [-1], t)) ↔
      b.used < b.size ∧ b.used < 2 ^ 32 ∧ ∀ i ∈ b.ones, i < 2 ^ 31 ∧ i / 8 ≤ b.used := by
  have hat := cursorAt_zero hpos
  rw [← chain_next_iff hpos, ← calls_next_iff hat]
  unfold forward
  cases hbit : b.bit 0 with
  | true =>
    have hleast : Scan.least b.bit 0 b.bits = some 0 :=
      Scan.least_eq_some.2 ⟨hbit, Nat.le_refl 0, hat.1, fun j _ h => by omega⟩
    have hones : b.ones = 0 :: Scan.hits b.bit (0 + 1) b.bits := Scan.hits_eq_cons hleast
    rw [hones]
    constructor
    · rintro ⟨t, ht⟩
      obtain ⟨u, hu, hrest⟩ := Scan.callsAfter_eq_ok.1 ht
      rw [first_eq hpos, hbit] at hu
      cases hu
      exact ⟨t, hrest⟩
    · rintro ⟨t, ht⟩
      exact ⟨t, Scan.callsAfter_eq_ok.2 ⟨_, by rw [first_eq hpos, hbit]; rfl, ht⟩⟩
  | false =>
    have hones : b.ones = Scan.hits b.bit (0 + 1) b.bits := by
      unfold ones Scan.hits
      obtain ⟨n, hn⟩ : ∃ n, b.bits = n + 1 := ⟨b.bits - 1, by have := hat.1; omega⟩
      rw [hn, Nat.sub_zero, List.range'_succ, List.filter_cons_of_neg (by simp [hbit])]
      rfl
    have hcalls : Scan.callsAfter first Zbits.next b.ones.length b =
        Scan.calls Zbits.next (b.ones.length + 1) { b with cursor := 0 } :=
      Scan.callsAfter_congr (by rw [first_eq hpos, hbit]; rfl)
    rw [hcalls, hones]

/-! ## Backward -/

theorem cursorAt_last (h : 0 < b.size) :
    b.CursorAt ((b.bits - 1) % 2 ^ 32) { b with cursor := UInt32.ofNat (b.bits - 1) } := by
  have := (cursorAt_zero h).1
  refine ⟨?_, _, rfl, UInt32.toNat_ofNat'⟩
  omega

theorem last_eq (h : 0 < b.size) :
    b.last = if b.bit ((b.bits - 1) % 2 ^ 32) then
        .ok (0, { b with cursor := UInt32.ofNat (b.bits - 1) }) else
      Zbits.prev { b with cursor := UInt32.ofNat (b.bits - 1) } := by
  have hnum : (UInt32.ofNat (b.bits - 1)).toNat = (b.bits - 1) % 2 ^ 32 := UInt32.toNat_ofNat'
  have hget : get { b with cursor := UInt32.ofNat (b.bits - 1) } (UInt32.ofNat (b.bits - 1)) =
      .ok (b.bit ((b.bits - 1) % 2 ^ 32)) := by
    have hlt := (cursorAt_last h).1
    rw [← hnum] at hlt ⊢
    exact get_eq (b := { b with cursor := UInt32.ofNat (b.bits - 1) }) hlt
  unfold last
  dsimp only
  rw [hget]
  rfl

theorem sixty_three_le (h : 0 < b.size) : 63 ≤ (b.bits - 1) % 2 ^ 32 := by
  have hbits : b.bits = 8 * b.size := rfl
  have hwords : b.size % 8 = 0 := b.words
  omega

/-- If a bit from `c` on is set, so is the first of the ones going down. -/
theorem exists_ones_reverse {c : Nat} (hi : i ∈ b.ones) (hc : c ≤ i) :
    ∃ g xs, b.ones.reverse = g :: xs ∧ c ≤ g := by
  obtain ⟨hbit, hlt⟩ := mem_ones.1 hi
  cases hg : Scan.greatest b.bit b.bits with
  | none =>
    rw [Scan.greatest_eq_none.1 hg i hlt] at hbit
    cases hbit
  | some g =>
    refine ⟨g, _, Scan.hits_reverse_eq_cons hg, ?_⟩
    by_contra hgc
    rw [(Scan.greatest_eq_some.1 hg).2.2 i (by omega) hlt] at hbit
    cases hbit

theorem backward_iff (hpos : 0 < b.size) :
    (∃ t, b.backward = .ok (b.ones.reverse.map (fun i : Nat => (i : Int)) ++ [-1], t)) ↔
      ∀ i ∈ b.ones, i < 2 ^ 31 ∧ i < (b.bits - 1) % 2 ^ 32 := by
  have hat := cursorAt_last hpos
  have h63 := sixty_three_le hpos
  unfold backward
  cases hbit : b.bit ((b.bits - 1) % 2 ^ 32) with
  | true =>
    have hmem : (b.bits - 1) % 2 ^ 32 ∈ b.ones := mem_ones.2 ⟨hbit, hat.1⟩
    constructor
    · rintro ⟨t, ht⟩
      -- the answer is 0, and the first of the ones going down is not
      obtain ⟨g, xs, hones, hg⟩ := exists_ones_reverse hmem (Nat.le_refl _)
      rw [hones] at ht
      obtain ⟨u, hu, -⟩ := Scan.callsAfter_eq_ok.1 ht
      rw [last_eq hpos, hbit] at hu
      have : (0 : Int) = g := congrArg Prod.fst (Except.ok.inj hu)
      omega
    · intro h
      have := (h _ hmem).2
      omega
  | false =>
    have hcalls : Scan.callsAfter last Zbits.prev b.ones.length b =
        Scan.calls Zbits.prev (b.ones.length + 1)
          { b with cursor := UInt32.ofNat (b.bits - 1) } :=
      Scan.callsAfter_congr (by rw [last_eq hpos, hbit]; rfl)
    rw [hcalls]
    by_cases hbelow : ∀ i ∈ b.ones, i < (b.bits - 1) % 2 ^ 32
    · have hones : b.ones = Scan.hits b.bit 0 ((b.bits - 1) % 2 ^ 32) :=
        Scan.hits_eq_of_lt (Nat.zero_le _) (by have := hat.1; omega) hbelow
      have hiff := calls_prev_iff hat
      rw [← hones, List.length_reverse, and_true] at hiff
      rw [hiff, Scan.isChain_cons_iff]
      constructor
      · exact fun h i hi => ⟨h i (List.mem_reverse.2 hi), hbelow i hi⟩
      · exact fun h i hi => (h i (List.mem_reverse.1 hi)).1
    · -- the first call answers with one below the last bit, if at all
      constructor
      · rintro ⟨t, ht⟩
        obtain ⟨i, hi, hge⟩ : ∃ i ∈ b.ones, (b.bits - 1) % 2 ^ 32 ≤ i := by
          by_contra hno
          exact hbelow fun i hi => by_contra fun hge => hno ⟨i, hi, by omega⟩
        obtain ⟨g, xs, hones, hg⟩ := exists_ones_reverse hi hge
        rw [hones] at ht
        obtain ⟨u, hu, -⟩ := Scan.calls_succ_eq_ok.1 ht
        have hanswer : (g : Int) = _ := hat.prev_sound hu
        cases hgreatest : Scan.greatest b.bit ((b.bits - 1) % 2 ^ 32) with
        | none =>
          rw [hgreatest, answer] at hanswer
          omega
        | some g' =>
          have := (Scan.greatest_eq_some.1 hgreatest).2.1
          rw [hgreatest, answer] at hanswer
          omega
      · exact fun h => absurd (fun i hi => (h i hi).2) hbelow

/-! ## All the ones -/

/-- The scans over the ones are exact if and only if there is a byte behind those used,
the last bit that `zbits_last` looks at and all from there on are clear, and the ones are
in the bytes used or the next, at indices that fit an `int`. -/
theorem onesScans_iff (b : Zbits) :
    b.OnesScans ↔ b.used < b.size ∧ b.used < 2 ^ 32 ∧
      ∀ i, b.bit i = true → i < b.bits →
        i < 2 ^ 31 ∧ i < (b.bits - 1) % 2 ^ 32 ∧ i / 8 ≤ b.used := by
  constructor
  · intro h
    have hpos : 0 < b.size := by
      obtain ⟨t, ht⟩ := h.forward
      obtain ⟨u, hu⟩ := Scan.first_of_callsAfter ht
      exact size_pos_of_first hu
    obtain ⟨hsize, hused, hall⟩ := (forward_iff hpos).1 h.forward
    have hall' := (backward_iff hpos).1 h.backward
    refine ⟨hsize, hused, fun i hbit hi => ?_⟩
    have hmem : i ∈ b.ones := mem_ones.2 ⟨hbit, hi⟩
    exact ⟨(hall i hmem).1, (hall' i hmem).2, (hall i hmem).2⟩
  · rintro ⟨hsize, hused, hall⟩
    have hpos : 0 < b.size := by omega
    constructor
    · apply (forward_iff hpos).2
      refine ⟨hsize, hused, fun i hi => ?_⟩
      have := hall i (mem_ones.1 hi).1 (mem_ones.1 hi).2
      exact ⟨this.1, this.2.2⟩
    · apply (backward_iff hpos).2
      intro i hi
      have := hall i (mem_ones.1 hi).1 (mem_ones.1 hi).2
      exact ⟨this.1, this.2.1⟩

/-- Of 64 bits the last one is set. -/
def lastOfWord : Zbits where
  data := [0, 0, 0, 0, 0, 0, 0, 128]
  used := 8
  cursor := 0
  words := rfl

/-- `zbits_last` answers 0 for it, and once `zbits_next` has answered 63, the next call
reads the byte behind the data. -/
theorem misses_last_bit : (new 64 rfl).set 63 = .ok lastOfWord ∧
    lastOfWord.ones = [63] ∧ lastOfWord.last = .ok (0, { lastOfWord with cursor := 63 }) ∧
    lastOfWord.forward = .error .bounds ∧ ¬lastOfWord.OnesScans := by
  have hforward : lastOfWord.forward = .error .bounds := by rfl
  refine ⟨rfl, by decide +kernel, rfl, hforward, fun h => ?_⟩
  obtain ⟨t, ht⟩ := h.forward
  rw [hforward] at ht
  cases ht

end Zbits
end Malamute.L1
