import Mathlib.Data.List.GetD
import Malamute.Core.Loop
import Malamute.Core.Partial
import Malamute.L1Bits.Zeros

/-!
# Bitmap algebra (`zbits_and`, `zbits_or`, `zbits_xor`, `zbits_not`)

The loops work on an `int64_t` at a time, with a `uint` counter; the sizes are `size_t`,
so `data_size` is what is left of a count of used bytes modulo 2^32. A word is its eight
bytes: the operators of C work on each of them. The source may be the target itself: each
round reads a word of both before it writes that word.

`forWords_eq_ok` says when such a loop ends and what is in the bitmap then, and from it
come `and_iff`, `join_iff` (for OR and XOR) and `not_iff`: when the target becomes the
bitwise combination of the two and is `Sound` again.
-/
namespace Malamute.L1
open Malamute.Core
namespace Zbits

/-! ## Memory -/

/-- An `int64_t` in memory. -/
abbrev Word := Vector UInt8 8

/-- The byte at `i`; a bitmap is zero outside its data. -/
def byteAt (b : Zbits) (i : Nat) : UInt8 := b.data.getD i 0

/-- The bytes from `lo` up to `hi` become those of `f`. -/
def fill (b : Zbits) (lo hi : Nat) (f : Nat → UInt8) : Zbits where
  data := b.data.mapIdx fun i x => if lo ≤ i ∧ i < hi then f i else x
  used := b.used
  cursor := b.cursor
  words := by rw [List.length_mapIdx]; exact b.words

/-- `self->used = n` -/
def setUsed (b : Zbits) (n : Nat) : Zbits := { b with used := n }

/-- `*(int64_t *) (self->data + n)` -/
def readWord (b : Zbits) (n : UInt32) : Except BitsFault Word :=
  if n.toNat + 8 ≤ b.size then .ok (Vector.ofFn fun j => b.byteAt (n.toNat + j))
  else .error .bounds

/-- `*(int64_t *) (self->data + n) = w` -/
def writeWord (b : Zbits) (n : UInt32) (w : Word) : Except BitsFault Zbits :=
  if n.toNat + 8 ≤ b.size then
    .ok (b.fill n.toNat (n.toNat + 8) fun i => w.toList.getD (i - n.toNat) 0)
  else .error .bounds

/-- `memset (self->data + n, x, self->size - n)` -/
def memset (b : Zbits) (n : UInt32) (x : UInt8) : Except BitsFault Zbits :=
  if n.toNat ≤ b.size then .ok (b.fill n.toNat b.size fun _ => x) else .error .bounds

/-- `for (cur_size = 0; cur_size < n; cur_size += sizeof (int64_t)) body` -/
def forWords (n : Nat) (body : UInt32 → Zbits → Except BitsFault Zbits) (b : Zbits) :
    Except BitsFault (UInt32 × Zbits) :=
  Loop.count .endless 8 n body b

/-! ## The operations -/

/-- One round of the loops with a source: the word at `n` becomes what `f` makes of it and
of the one there in the source. -/
def combine (f : UInt8 → UInt8 → UInt8) (source : Zbits) (n : UInt32) (b : Zbits) :
    Except BitsFault Zbits := do
  b.writeWord n (Vector.zipWith f (← b.readWord n) (← source.readWord n))

/-- mirrors src/src/zbits.c:223-235 -/
def and (b source : Zbits) : Except BitsFault Zbits :=
  if source.used ≤ b.size then do
    let dataSize := UInt32.ofNat (if b.used < source.used then b.used else source.used)
    let (curSize, b) ← forWords dataSize.toNat (combine (fun x y => x &&& y) source) b
    b.memset curSize 0
  else .error .assertion

/-- `zbits_or` and `zbits_xor`. -/
def join (f : UInt8 → UInt8 → UInt8) (b source : Zbits) : Except BitsFault Zbits :=
  if source.used ≤ b.size then do
    let dataSize := UInt32.ofNat (if b.used > source.used then b.used else source.used)
    let (_, b) ← forWords dataSize.toNat (combine f source) b
    return b.setUsed dataSize.toNat
  else .error .assertion

/-- mirrors src/src/zbits.c:241-253 -/
def or (b source : Zbits) : Except BitsFault Zbits := join (fun x y => x ||| y) b source

/-- mirrors src/src/zbits.c:259-271 -/
def xor (b source : Zbits) : Except BitsFault Zbits := join (fun x y => x ^^^ y) b source

/-- mirrors src/src/zbits.c:277-290 -/
def not (b : Zbits) : Except BitsFault Zbits :=
  if b.used ≤ b.size then do
    let (curSize, b) ← forWords b.used (fun n b => do
      b.writeWord n (Vector.map (fun x => ~~~x) (← b.readWord n))) b
    let b ← b.memset curSize 0xFF
    return b.setUsed b.size
  else .error .assertion

variable {b c t : Zbits} {i lo hi n : Nat} {f g : Nat → UInt8}

/-! ## Bytes -/

theorem bit_eq (b : Zbits) (i : Nat) : b.bit i = (b.byteAt (i / 8)).toNat.testBit (i % 8) := rfl

theorem byteAt_of_le (h : b.size ≤ i) : b.byteAt i = 0 :=
  List.getD_eq_default b.data 0 h

theorem eq_of_byteAt (hsize : b.size = c.size) (hused : b.used = c.used)
    (hcursor : b.cursor = c.cursor) (h : ∀ i < b.size, b.byteAt i = c.byteAt i) : b = c := by
  have hdata : b.data = c.data := by
    refine List.ext_getElem hsize fun i hi hi' => ?_
    have := h i hi
    unfold byteAt at this
    rwa [List.getD_eq_getElem _ _ hi, List.getD_eq_getElem _ _ hi'] at this
  cases b
  cases c
  simp_all

@[simp] theorem size_fill : (b.fill lo hi f).size = b.size := List.length_mapIdx

@[simp] theorem size_setUsed : (b.setUsed n).size = b.size := rfl

@[simp] theorem used_setUsed : (b.setUsed n).used = n := rfl

@[simp] theorem byteAt_setUsed : (b.setUsed n).byteAt i = b.byteAt i := rfl

@[simp] theorem used_fill : (b.fill lo hi f).used = b.used := rfl

theorem byteAt_fill :
    (b.fill lo hi f).byteAt i = if lo ≤ i ∧ i < hi ∧ i < b.size then f i else b.byteAt i := by
  by_cases hi' : i < b.size
  · have hlt : i < b.data.length := hi'
    unfold byteAt fill
    rw [List.getD_eq_getElem _ _ (by rwa [List.length_mapIdx]), List.getElem_mapIdx,
      List.getD_eq_getElem _ _ hlt]
    simp only [hi', and_true]
  · have hle : b.size ≤ i := Nat.le_of_not_lt hi'
    rw [byteAt_of_le hle, byteAt_of_le (size_fill.symm ▸ hle), if_neg fun h => hi' h.2.2]

theorem fill_congr (h : ∀ i, lo ≤ i → i < hi → f i = g i) : b.fill lo hi f = b.fill lo hi g := by
  refine eq_of_byteAt (by simp) rfl rfl fun i _ => ?_
  rw [byteAt_fill, byteAt_fill]
  split
  · rename_i hi'
    exact h i hi'.1 hi'.2.1
  · rfl

theorem fill_self (lo : Nat) : b.fill lo lo f = b := by
  refine eq_of_byteAt (by simp) rfl rfl fun i _ => ?_
  rw [byteAt_fill, if_neg fun h => by omega]

/-! ## Words -/

theorem readWord_of_le {n : UInt32} (h : n.toNat + 8 ≤ b.size) :
    b.readWord n = .ok (Vector.ofFn fun j => b.byteAt (n.toNat + j)) := if_pos h

theorem readWord_of_not_le {n : UInt32} (h : ¬n.toNat + 8 ≤ b.size) :
    b.readWord n = .error .bounds := if_neg h

/-- A word is written byte by byte. -/
theorem writeWord_of_le {n : UInt32} {w : Word} (h : n.toNat + 8 ≤ b.size)
    (hf : ∀ j : Fin 8, w[j] = f (n.toNat + j)) :
    b.writeWord n w = .ok (b.fill n.toNat (n.toNat + 8) f) := by
  refine (if_pos h).trans (congrArg Except.ok (fill_congr fun i hlo hhi => ?_))
  obtain ⟨j, rfl⟩ := Nat.exists_eq_add_of_le hlo
  have hj : j < 8 := by omega
  rw [← hf ⟨j, hj⟩]
  simp [hj]

theorem combine_eq (f : UInt8 → UInt8 → UInt8) (c : Zbits) (n : UInt32) (b : Zbits) :
    combine f c n b = if n.toNat + 8 ≤ min b.size c.size then
      .ok (b.fill n.toNat (n.toNat + 8) fun i => f (b.byteAt i) (c.byteAt i))
    else .error .bounds := by
  have hmin : n.toNat + 8 ≤ min b.size c.size ↔ n.toNat + 8 ≤ b.size ∧ n.toNat + 8 ≤ c.size :=
    Nat.le_min
  unfold combine
  by_cases hb : n.toNat + 8 ≤ b.size
  · by_cases hc : n.toNat + 8 ≤ c.size
    · rw [readWord_of_le hb, readWord_of_le hc, if_pos (hmin.2 ⟨hb, hc⟩)]
      exact writeWord_of_le hb fun j => by simp
    · rw [readWord_of_le hb, readWord_of_not_le hc, if_neg fun h => hc (hmin.1 h).2]
      rfl
  · rw [readWord_of_not_le hb, if_neg fun h => hb (hmin.1 h).1]
    rfl

/-- One round of the loop of `zbits_not`. -/
theorem complement_eq (n : UInt32) (b : Zbits) :
    (do b.writeWord n (Vector.map (fun x => ~~~x) (← b.readWord n)) : Except BitsFault Zbits) =
      if n.toNat + 8 ≤ b.size then .ok (b.fill n.toNat (n.toNat + 8) fun i => ~~~b.byteAt i)
      else .error .bounds := by
  by_cases hb : n.toNat + 8 ≤ b.size
  · rw [readWord_of_le hb, if_pos hb]
    exact writeWord_of_le hb fun j => by simp
  · rw [readWord_of_not_le hb, if_neg hb]
    rfl

/-- A round of `body` makes of the bytes of the word at `n` what `g` says, in a bitmap of
`size` bytes and for the words below `lim`. -/
def Wordwise (body : UInt32 → Zbits → Except BitsFault Zbits) (size lim : Nat)
    (g : Nat → UInt8 → UInt8) : Prop :=
  ∀ n b, b.size = size → body n b = if n.toNat + 8 ≤ lim then
    .ok (b.fill n.toNat (n.toNat + 8) fun i => g i (b.byteAt i)) else .error .bounds

theorem wordwise_combine (f : UInt8 → UInt8 → UInt8) (c : Zbits) (size : Nat) :
    Wordwise (combine f c) size (min size c.size) fun i x => f x (c.byteAt i) := by
  intro n b hb
  rw [combine_eq, hb]

/-- The bytes of the words in which the first `n` bytes are. -/
def wordBytes (n : Nat) : Nat := Loop.turns 8 n * 8

theorem wordBytes_eq (n : Nat) : wordBytes n = (n + 7) / 8 * 8 := rfl

/-- Words do not stick out of a bitmap. -/
theorem wordBytes_le_iff (b : Zbits) : wordBytes n ≤ b.size ↔ n ≤ b.size := by
  have hwords : b.size % 8 = 0 := b.words
  rw [wordBytes_eq]
  omega

theorem le_wordBytes (n : Nat) : n ≤ wordBytes n := by
  rw [wordBytes_eq]
  omega

/-- The rounds of a loop over words: each makes one word more what it should be, if the word
is there. -/
theorem rounds_words {body : UInt32 → Zbits → Except BitsFault Zbits} {lim m : Nat}
    {g : Nat → UInt8 → UInt8} (hw : Wordwise body b.size lim g) (hm : m * 8 < 2 ^ 32) :
    Loop.rounds (fun i => i + UInt32.ofNat 8) body m 0 b = .ok t ↔
      (∀ l < m, l * 8 + 8 ≤ lim) ∧ t = b.fill 0 (m * 8) fun i => g i (b.byteAt i) := by
  have hrounds : Loop.rounds (fun i => i + UInt32.ofNat 8) body m 0
      (b.fill 0 (0 * 8) fun i => g i (b.byteAt i)) = .ok t ↔
        (∀ l < m, l * 8 + 8 ≤ lim) ∧ t = b.fill 0 (m * 8) fun i => g i (b.byteAt i) := by
    refine Loop.rounds_eq_ok_iff (P := fun l => l * 8 + 8 ≤ lim) (e := .bounds)
      (fun l => b.fill 0 (l * 8) fun i => g i (b.byteAt i)) fun l hl => ?_
    have hlt : l * 8 < 2 ^ 32 := by omega
    have hnum : (UInt32.ofNat (l * 8)).toNat = l * 8 := UInt32.toNat_ofNat_of_lt' hlt
    rw [Loop.iterate_add, hw _ _ size_fill, hnum]
    congr 2
    refine eq_of_byteAt (by simp) rfl rfl fun i hi => ?_
    rw [size_fill, size_fill] at hi
    rw [byteAt_fill, byteAt_fill, byteAt_fill, size_fill]
    by_cases hword : l * 8 ≤ i
    · by_cases hi' : i < l * 8 + 8
      · rw [if_pos ⟨hword, hi', hi⟩, if_neg fun h => by omega, if_pos ⟨by omega, by omega, hi⟩]
      · rw [if_neg fun h => hi' h.2.1, if_neg fun h => by omega, if_neg fun h => by omega]
    · rw [if_neg fun h => hword h.1, if_pos ⟨by omega, by omega, hi⟩,
        if_pos ⟨by omega, by omega, hi⟩]
  rwa [fill_self] at hrounds

/-- **A loop over words** ends if and only if the counter has room for one more word and
all words are there. -/
theorem forWords_eq_ok {body : UInt32 → Zbits → Except BitsFault Zbits} {lim : Nat}
    {g : Nat → UInt8 → UInt8} {k : UInt32} (hw : Wordwise body b.size lim g) :
    forWords n body b = .ok (k, t) ↔ n + 8 ≤ 2 ^ 32 ∧ wordBytes n ≤ lim ∧
      k = UInt32.ofNat (wordBytes n) ∧
        t = b.fill 0 (wordBytes n) fun i => g i (b.byteAt i) := by
  have hdvd : 8 ∣ 2 ^ 32 := by decide
  have hall : (∀ l < Loop.turns 8 n, l * 8 + 8 ≤ lim) ↔ wordBytes n ≤ lim := by
    unfold wordBytes
    constructor
    · intro h
      obtain hzero | hpos := Nat.eq_zero_or_pos (Loop.turns 8 n)
      · rw [hzero]
        omega
      · have := h (Loop.turns 8 n - 1) (by omega)
        omega
    · intro h l hl
      omega
  rw [forWords, Loop.count_eq_ok_iff hdvd]
  refine and_congr_right fun hroom => ?_
  have hturns := Loop.turns_mul_add_le hdvd hroom
  rw [rounds_words hw (by omega), hall]
  exact and_left_comm

/-! ## What the operations leave -/

theorem memset_eq_ok {x : UInt8} {k : UInt32} :
    b.memset k x = .ok t ↔ k.toNat ≤ b.size ∧ t = b.fill k.toNat b.size fun _ => x := by
  rw [memset, guard_eq_ok, Except.ok.injEq, eq_comm (a := t)]

theorem toNat_wordBytes {n : Nat} (h : n + 8 ≤ 2 ^ 32) :
    (UInt32.ofNat (wordBytes n)).toNat = wordBytes n := by
  have hlt : wordBytes n < 2 ^ 32 := by
    have := Loop.turns_mul_add_le (k := 8) (by decide) h
    unfold wordBytes
    omega
  exact UInt32.toNat_ofNat_of_lt' hlt

theorem and_eq_ok {d : Nat} (hd : min b.used c.used % 2 ^ 32 = d) :
    b.and c = .ok t ↔ c.used ≤ b.size ∧ d + 8 ≤ 2 ^ 32 ∧ wordBytes d ≤ min b.size c.size ∧
      t = (b.fill 0 (wordBytes d) fun i => b.byteAt i &&& c.byteAt i).fill (wordBytes d) b.size
        fun _ => 0 := by
  have hmin : (if b.used < c.used then b.used else c.used) = min b.used c.used := by
    split <;> omega
  have hnum : (UInt32.ofNat (min b.used c.used)).toNat = d := by rw [UInt32.toNat_ofNat', hd]
  have hloop {k s} := forWords_eq_ok (n := d) (t := s) (k := k)
    (wordwise_combine (fun x y => x &&& y) c b.size)
  unfold Zbits.and
  dsimp only
  rw [hmin, hnum, guard_eq_ok, bind_eq_ok]
  refine and_congr_right fun _ => ?_
  constructor
  · rintro ⟨⟨k, s⟩, hrun, hset⟩
    obtain ⟨hroom, hlim, rfl, rfl⟩ := hloop.1 hrun
    obtain ⟨-, ht⟩ := memset_eq_ok.1 hset
    rw [toNat_wordBytes hroom, size_fill] at ht
    exact ⟨hroom, hlim, ht⟩
  · rintro ⟨hroom, hlim, rfl⟩
    refine ⟨_, hloop.2 ⟨hroom, hlim, rfl, rfl⟩, memset_eq_ok.2 ?_⟩
    rw [toNat_wordBytes hroom, size_fill]
    exact ⟨by omega, rfl⟩

theorem join_eq_ok {f : UInt8 → UInt8 → UInt8} {d : Nat}
    (hd : max b.used c.used % 2 ^ 32 = d) :
    b.join f c = .ok t ↔ c.used ≤ b.size ∧ d + 8 ≤ 2 ^ 32 ∧ wordBytes d ≤ min b.size c.size ∧
      t = (b.fill 0 (wordBytes d) fun i => f (b.byteAt i) (c.byteAt i)).setUsed d := by
  have hmax : (if b.used > c.used then b.used else c.used) = max b.used c.used := by
    split <;> omega
  have hnum : (UInt32.ofNat (max b.used c.used)).toNat = d := by rw [UInt32.toNat_ofNat', hd]
  have hloop {k s} := forWords_eq_ok (n := d) (t := s) (k := k) (wordwise_combine f c b.size)
  unfold join
  dsimp only
  rw [hmax, hnum, guard_eq_ok, bind_eq_ok]
  refine and_congr_right fun _ => ?_
  constructor
  · rintro ⟨⟨k, s⟩, hrun, ht⟩
    obtain ⟨hroom, hlim, -, rfl⟩ := hloop.1 hrun
    exact ⟨hroom, hlim, (Except.ok.inj ht).symm⟩
  · rintro ⟨hroom, hlim, rfl⟩
    exact ⟨_, hloop.2 ⟨hroom, hlim, rfl, rfl⟩, rfl⟩

theorem not_eq_ok :
    b.not = .ok t ↔ b.used ≤ b.size ∧ b.used + 8 ≤ 2 ^ 32 ∧
      t = ((b.fill 0 (wordBytes b.used) fun i => ~~~b.byteAt i).fill (wordBytes b.used) b.size
        fun _ => 0xFF).setUsed b.size := by
  have hwise : Wordwise (fun n b => do b.writeWord n (Vector.map (fun x => ~~~x) (← b.readWord n)))
      b.size b.size fun _ x => ~~~x := by
    intro n s hs
    rw [← hs]
    exact complement_eq n s
  have hloop {k s} := forWords_eq_ok (n := b.used) (t := s) (k := k) hwise
  unfold Zbits.not
  rw [guard_eq_ok, bind_eq_ok]
  refine and_congr_right fun hle => ?_
  have hwords := (wordBytes_le_iff b).2 hle
  constructor
  · rintro ⟨⟨k, s⟩, hrun, hset⟩
    obtain ⟨hroom, -, rfl, rfl⟩ := hloop.1 hrun
    obtain ⟨u, hu, ht⟩ := bind_eq_ok.1 hset
    obtain ⟨-, rfl⟩ := memset_eq_ok.1 hu
    simp only [toNat_wordBytes hroom, size_fill] at ht
    exact ⟨hroom, (Except.ok.inj ht).symm⟩
  · rintro ⟨hroom, rfl⟩
    refine ⟨_, hloop.2 ⟨hroom, hwords, rfl, rfl⟩, bind_eq_ok.2 ⟨_, memset_eq_ok.2 ⟨?_, rfl⟩, ?_⟩⟩
    · rw [toNat_wordBytes hroom, size_fill]
      exact hwords
    · simp only [toNat_wordBytes hroom, size_fill]
      rfl

/-! ## Bits -/

/-- What a bitmap keeps: the bytes that are not used are zero. -/
structure Sound (b : Zbits) : Prop where
  used_le : b.used ≤ b.size
  tail : ∀ i, b.used ≤ i → b.byteAt i = 0

theorem bit_of_byteAt {i j : Nat} (hj : j < 8) :
    b.bit (8 * i + j) = (b.byteAt i).toNat.testBit j := by
  rw [bit_eq, show (8 * i + j) / 8 = i by omega, show (8 * i + j) % 8 = j by omega]

/-- A byte is zero if its bits are. -/
theorem byteAt_eq_zero (h : ∀ j < 8, b.bit (8 * i + j) = false) : b.byteAt i = 0 :=
  eq_zero_of_testBit _ fun j hj => (bit_of_byteAt hj).symm.trans (h j hj)

theorem bit_eq_false (h : b.byteAt (i / 8) = 0) : b.bit i = false := by
  rw [bit_eq, h]
  exact Nat.zero_testBit _

theorem bit_of_bits_le (h : b.bits ≤ i) : b.bit i = false := by
  have hbits : b.bits = 8 * b.size := rfl
  exact bit_eq_false (byteAt_of_le (by omega))

theorem Sound.bit (h : b.Sound) (hi : 8 * b.used ≤ i) : b.bit i = false :=
  bit_eq_false (h.tail _ (by omega))

theorem sound_iff : b.Sound ↔ b.used ≤ b.size ∧ ∀ i, 8 * b.used ≤ i → b.bit i = false := by
  constructor
  · exact fun h => ⟨h.used_le, fun i hi => h.bit hi⟩
  · rintro ⟨hle, hbit⟩
    exact ⟨hle, fun i hi => byteAt_eq_zero fun j _ => hbit _ (by omega)⟩

theorem bit_fill : (b.fill lo hi f).bit i = if lo ≤ i / 8 ∧ i / 8 < hi ∧ i / 8 < b.size then
    (f (i / 8)).toNat.testBit (i % 8) else b.bit i := by
  rw [bit_eq, byteAt_fill]
  split <;> rfl

/-- The bits of the first words. -/
theorem bit_fill_words {w : Nat} (hw : w ≤ b.size) :
    (b.fill 0 w f).bit i = if i / 8 < w then (f (i / 8)).toNat.testBit (i % 8) else b.bit i := by
  rw [bit_fill]
  by_cases hi : i / 8 < w
  · rw [if_pos hi, if_pos ⟨Nat.zero_le _, hi, by omega⟩]
  · rw [if_neg hi, if_neg fun h => hi h.2.1]

/-- The bits of the first words, with the rest set to one byte. -/
theorem bit_fill_rest {w : Nat} {x : UInt8} (hw : w ≤ b.size) :
    ((b.fill 0 w f).fill w b.size fun _ => x).bit i =
      if i / 8 < w then (f (i / 8)).toNat.testBit (i % 8)
      else if i < b.bits then x.toNat.testBit (i % 8) else false := by
  have hbits : b.bits = 8 * b.size := rfl
  rw [bit_fill, bit_fill_words hw, size_fill]
  by_cases hi : i / 8 < w
  · rw [if_neg fun h => by omega, if_pos hi, if_pos hi]
  · rw [if_neg hi, if_neg hi]
    by_cases hlt : i < b.bits
    · rw [if_pos hlt, if_pos ⟨by omega, by omega, by omega⟩]
    · rw [if_neg hlt, if_neg fun h => by omega, bit_of_bits_le (Nat.le_of_not_lt hlt)]

theorem testBit_not (x : UInt8) : ∀ j < 8, (~~~x).toNat.testBit j = !x.toNat.testBit j := by
  apply forall_byte (P := fun x => ∀ j < 8, (~~~x).toNat.testBit j = !x.toNat.testBit j)
  decide +kernel

/-- `r` is a sound bitmap of the size of `b` whose bits are those of `f`; no byte outside
the data of a bitmap was touched. -/
def Computes (b : Zbits) (f : Nat → Bool) (r : Except BitsFault Zbits) : Prop :=
  ∃ t, r = .ok t ∧ t.size = b.size ∧ (∀ i < b.bits, t.bit i = f i) ∧ t.Sound

theorem Computes.sound {f : Nat → Bool} {r : Except BitsFault Zbits} (h : b.Computes f r)
    (hr : r = .ok t) : t.Sound := by
  obtain ⟨u, hu, -, -, hsound⟩ := h
  cases hr.symm.trans hu
  exact hsound

/-! ## AND -/

/-- What is left of the used bytes of both as a `uint` can be gone through in words, and
no bit behind these words is set in both. -/
def AndFits (b c : Zbits) : Prop :=
  min b.used c.used % 2 ^ 32 + 8 ≤ 2 ^ 32 ∧
    ∀ i, 8 * wordBytes (min b.used c.used % 2 ^ 32) ≤ i → (b.bit i && c.bit i) = false

theorem andFits_of_room (hb : b.Sound) (hc : c.Sound) (hroom : min b.used c.used + 8 ≤ 2 ^ 32) :
    b.AndFits c := by
  have hmod : min b.used c.used % 2 ^ 32 = min b.used c.used := Nat.mod_eq_of_lt (by omega)
  have hwords := le_wordBytes (min b.used c.used)
  unfold AndFits
  rw [hmod]
  refine ⟨hroom, fun i hi => ?_⟩
  -- the one with fewer bytes used is clear there
  obtain h | h := Nat.le_total b.used c.used
  · rw [hb.bit (by omega), Bool.false_and]
  · rw [hc.bit (by omega), Bool.and_false]

theorem and_iff (hb : b.Sound) (hc : c.Sound) (hle : c.used ≤ b.size) :
    b.Computes (fun i => b.bit i && c.bit i) (b.and c) ↔ b.AndFits c := by
  have hbits : b.bits = 8 * b.size := rfl
  unfold AndFits Computes
  generalize hd : min b.used c.used % 2 ^ 32 = d
  have hd_le : d ≤ min b.used c.used := hd ▸ Nat.mod_le _ _
  have hlim : wordBytes d ≤ min b.size c.size := by
    refine Nat.le_min.2 ⟨(wordBytes_le_iff b).2 ?_, (wordBytes_le_iff c).2 ?_⟩
    · have := hb.used_le
      omega
    · have := hc.used_le
      omega
  -- the bits of the result
  have hbit (i : Nat) : ((b.fill 0 (wordBytes d) fun i => b.byteAt i &&& c.byteAt i).fill
      (wordBytes d) b.size fun _ => 0).bit i =
        if i / 8 < wordBytes d then b.bit i && c.bit i else false := by
    rw [bit_fill_rest (by omega), UInt8.toNat_and, Nat.testBit_and]
    split
    · rfl
    · exact (congrArg (fun x => if i < b.bits then x else false) (Nat.zero_testBit _)).trans
        (ite_self _)
  constructor
  · rintro ⟨t, ht, -, hcomp, -⟩
    obtain ⟨-, hroom, -, rfl⟩ := (and_eq_ok hd).1 ht
    refine ⟨hroom, fun i hi => ?_⟩
    by_cases hlt : i < b.bits
    · have := hcomp i hlt
      rw [hbit, if_neg (by omega)] at this
      exact this.symm
    · rw [bit_of_bits_le (Nat.le_of_not_lt hlt), Bool.false_and]
  · rintro ⟨hroom, hrest⟩
    refine ⟨_, (and_eq_ok hd).2 ⟨hle, hroom, hlim, rfl⟩, by simp, fun i _ => ?_, ?_⟩
    · rw [hbit]
      split
      · rfl
      · exact (hrest i (by omega)).symm
    · refine sound_iff.2 ⟨by simpa using hb.used_le, fun i hi => ?_⟩
      rw [hbit, hb.bit hi, Bool.false_and, ite_self]

/-! ## OR and XOR -/

/-- The words in which what is left of the used bytes of either as a `uint` is are there
in the source, too, and can be gone through; behind the bytes counted nothing is set in the
result, and behind their words nothing in the target. -/
def JoinFits (b c : Zbits) (g : Bool → Bool → Bool) : Prop :=
  max b.used c.used % 2 ^ 32 ≤ c.size ∧ max b.used c.used % 2 ^ 32 + 8 ≤ 2 ^ 32 ∧
    (∀ i, 8 * (max b.used c.used % 2 ^ 32) ≤ i → g (b.bit i) (c.bit i) = false) ∧
    ∀ i, 8 * wordBytes (max b.used c.used % 2 ^ 32) ≤ i → b.bit i = false

theorem joinFits_iff {g : Bool → Bool → Bool} (hb : b.Sound) (hc : c.Sound)
    (hg : g false false = false) (hroom : max b.used c.used + 8 ≤ 2 ^ 32) :
    b.JoinFits c g ↔ b.used ≤ c.size := by
  have hmod : max b.used c.used % 2 ^ 32 = max b.used c.used := Nat.mod_eq_of_lt (by omega)
  have hused := hc.used_le
  have hwords := le_wordBytes (max b.used c.used)
  unfold JoinFits
  rw [hmod]
  constructor
  · intro h
    have := h.1
    omega
  · intro h
    refine ⟨by omega, hroom, fun i hi => ?_, fun i hi => hb.bit (by omega)⟩
    rw [hb.bit (by omega), hc.bit (by omega), hg]

theorem join_iff {f : UInt8 → UInt8 → UInt8} {g : Bool → Bool → Bool}
    (hf : ∀ x y j, (f x y).toNat.testBit j = g (x.toNat.testBit j) (y.toNat.testBit j))
    (hg : g false false = false) (hb : b.Sound) (hc : c.Sound) (hle : c.used ≤ b.size) :
    b.Computes (fun i => g (b.bit i) (c.bit i)) (b.join f c) ↔ b.JoinFits c g := by
  have hbits : b.bits = 8 * b.size := rfl
  unfold JoinFits Computes
  generalize hd : max b.used c.used % 2 ^ 32 = d
  have hd_le : d ≤ b.size := by
    have := hb.used_le
    have := Nat.mod_le (max b.used c.used) (2 ^ 32)
    omega
  have hwords := (wordBytes_le_iff b).2 hd_le
  -- the bits of the result
  have hbit (i : Nat) : ((b.fill 0 (wordBytes d) fun i => f (b.byteAt i) (c.byteAt i)).setUsed
      d).bit i = if i / 8 < wordBytes d then g (b.bit i) (c.bit i) else b.bit i := by
    refine Eq.trans (bit_fill_words hwords) ?_
    rw [hf]
    rfl
  -- behind the data of the target nothing is set in either
  have hout {i : Nat} (hi : b.bits ≤ i) : b.bit i = false ∧ c.bit i = false :=
    ⟨bit_of_bits_le hi, hc.bit (by omega)⟩
  constructor
  · rintro ⟨t, ht, -, hcomp, hsound⟩
    obtain ⟨-, hroom, hlim, rfl⟩ := (join_eq_ok hd).1 ht
    have hzero : ∀ i, 8 * d ≤ i → Zbits.bit _ i = false := (sound_iff.1 hsound).2
    refine ⟨(wordBytes_le_iff c).1 (by omega), hroom, fun i hi => ?_, fun i hi => ?_⟩
    · by_cases hlt : i < b.bits
      · exact (hcomp i hlt).symm.trans (hzero i hi)
      · obtain ⟨hbi, hci⟩ := hout (Nat.le_of_not_lt hlt)
        rw [hbi, hci, hg]
    · have hle := le_wordBytes d
      have := hzero i (by omega)
      rwa [hbit, if_neg (by omega)] at this
  · rintro ⟨hsource, hroom, hrest, hbehind⟩
    have hlim := (wordBytes_le_iff c).2 hsource
    refine ⟨_, (join_eq_ok hd).2 ⟨hle, hroom, by omega, rfl⟩, by simp, fun i _ => ?_, ?_⟩
    · rw [hbit]
      split
      · rfl
      · have hle := le_wordBytes d
        exact (hbehind i (by omega)).trans (hrest i (by omega)).symm
    · refine sound_iff.2 ⟨by simpa using hd_le, fun i hi => ?_⟩
      rw [hbit]
      split
      · exact hrest i hi
      · exact hbehind i (by omega)

/-! ## NOT -/

theorem not_iff (hb : b.Sound) :
    b.Computes (fun i => !b.bit i) b.not ↔ b.used + 8 ≤ 2 ^ 32 := by
  have hbits : b.bits = 8 * b.size := rfl
  have hwords := (wordBytes_le_iff b).2 hb.used_le
  constructor
  · rintro ⟨t, ht, -⟩
    exact (not_eq_ok.1 ht).2.1
  · intro hroom
    refine ⟨_, not_eq_ok.2 ⟨hb.used_le, hroom, rfl⟩, by simp, fun i hi => ?_, ?_⟩
    · refine Eq.trans (bit_fill_rest hwords) ?_
      rw [if_pos hi]
      split
      · exact testBit_not _ _ (by omega)
      · -- behind the used bytes every bit was clear
        have hle := le_wordBytes b.used
        have hset : ∀ j < 8, (0xFF : UInt8).toNat.testBit j = true := by decide
        have hclear : b.bit i = false := hb.bit (by omega)
        rw [hset _ (by omega)]
        exact (congrArg (!·) hclear).symm
    · -- all bytes are used now
      refine sound_iff.2 ⟨by simp, fun i hi => bit_of_bits_le (Nat.le_trans (Nat.le_of_eq ?_) hi)⟩
      exact congrArg (8 * ·) (size_setUsed.trans (size_fill.trans size_fill))

end Zbits
end Malamute.L1
