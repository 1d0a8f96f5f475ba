import Malamute.L1Bits.Algebra
import Malamute.L1Codec.Wire

/-!
# Bitmaps in a file (`zbits_fput`, `zbits_fget`)

`fwrite` and `fread` are those of the C standard, for one item: a device takes as many
bytes as it has room for, and the value of an item that is read only in part is open.
`sizeof (self->data)` is the size of a pointer, eight bytes, whatever the size of the
bitmap, so what goes out and comes back is the first word.

`saved_restores_iff`: a saved bitmap comes back if and only if the target has the same bits
behind the first word already.
-/
namespace Malamute.L1
open Malamute.Core

/-! ## Files -/

/-- A `FILE` at a position: the bytes behind it and ahead of it, and the number of bytes
that can still be written. -/
structure File where
  behind : List UInt8
  ahead : List UInt8
  room : Nat
  deriving DecidableEq

namespace File

/-- `fwrite (x, x.length, 1, f)`: whether the item was written, and the file. -/
def fwrite (x : List UInt8) (f : File) : Bool × File :=
  (x.length ≤ f.room, {
    behind := f.behind ++ x.take f.room
    ahead := f.ahead.drop (min x.length f.room)
    room := f.room - x.length })

/-- `fread (x, n, 1, f)`: the item if it was read, and the file. -/
def fread (n : Nat) (f : File) : Option (Vector UInt8 n) × File :=
  (if h : n ≤ f.ahead.length then some ⟨(f.ahead.take n).toArray, by simp [h]⟩ else none, {
    behind := f.behind ++ f.ahead.take n
    ahead := f.ahead.drop n
    room := f.room })

/-- `fseek (f, n, SEEK_SET)` for a position inside the file. -/
def seek (f : File) (n : Nat) : File where
  behind := (f.behind ++ f.ahead).take n
  ahead := (f.behind ++ f.ahead).drop n
  room := f.room

variable {f : File} {x : List UInt8} {n : Nat}

theorem fwrite_of_le (h : x.length ≤ f.room) :
    f.fwrite x = (true, ⟨f.behind ++ x, f.ahead.drop x.length, f.room - x.length⟩) := by
  unfold fwrite
  rw [List.take_of_length_le h, Nat.min_eq_left h, decide_eq_true h]

theorem fwrite_of_lt (h : f.room < x.length) : (f.fwrite x).1 = false :=
  decide_eq_false (Nat.not_le.2 h)

/-- What is ahead can be read. -/
theorem fread_append (v : Vector UInt8 n) {behind rest : List UInt8} {room : Nat} :
    fread n ⟨behind, v.toList ++ rest, room⟩ = (some v, ⟨behind ++ v.toList, rest, room⟩) := by
  have hlen : v.toList.length = n := Vector.length_toList
  unfold fread
  simp [hlen]
  exact Array.toArray_toList

end File

namespace Zbits

/-! ## Saving and reading back -/

/-- `htonl`, as the bytes in memory -/
def htonl (n : UInt32) : Vector UInt8 4 :=
  #v[(n >>> 24).toUInt8, (n >>> 16).toUInt8, (n >>> 8).toUInt8, n.toUInt8]

def ntohl (v : Vector UInt8 4) : UInt32 :=
  (v[0].toUInt32 <<< 24) + (v[1].toUInt32 <<< 16) + (v[2].toUInt32 <<< 8) + v[3].toUInt32

/-- mirrors src/src/zbits.c:471-480 -/
def fput (b : Zbits) (file : File) : Except BitsFault (Int × File) :=
  let netSize := htonl (UInt32.ofNat b.used)
  let (written, file) := file.fwrite netSize.toList
  if written then do
    let (written, file) := file.fwrite (← b.readWord 0).toList
    return (if written then 0 else -1, file)
  else .ok (-1, file)

/-- mirrors src/src/zbits.c:488-499; `rest` is what a word that ends before its eighth
byte leaves in the data, if there is a first one. -/
def fget (b : Zbits) (file : File) (rest : Word) : Except BitsFault (Int × Zbits × File) :=
  match file.fread 4 with
  | (none, file) => .ok (-1, b, file)
  | (some netSize, file) =>
    match file.fread 8 with
    | (some data, left) => do
      let b ← b.writeWord 0 data
      return (0, b.setUsed (ntohl netSize).toNat, left)
    | (none, left) =>
      if file.ahead = [] then .ok (-1, b, left)
      else do
        let b ← b.writeWord 0 rest
        return (-1, b, left)

/-- What `zbits_fput` has written, `zbits_fget` reads back into `c`: all of it, the bits of
`b`, with no more bytes used than there are. -/
def Restores (b c : Zbits) : Prop :=
  ∀ file written, b.fput file = .ok (0, written) → ∀ rest,
    ∃ t, c.fget (written.seek file.behind.length) rest = .ok (0, t, written) ∧
      (∀ i, t.bit i = b.bit i) ∧ t.used ≤ t.size

variable {b c t : Zbits} {i : Nat} {file written : File}

theorem ntohl_htonl (n : UInt32) : ntohl (htonl n) = n := by
  have h := getNumber4_putNumber4 n []
  simp only [putNumber4, getNumber4, List.cons_append, List.nil_append] at h
  exact congrArg Prod.fst (Option.some.inj h)

/-- The first word of the data. -/
def firstWord (b : Zbits) : Word := Vector.ofFn fun j => b.byteAt j

/-- What `zbits_fput` writes. -/
def saved (b : Zbits) : List UInt8 := (htonl (UInt32.ofNat b.used)).toList ++ b.firstWord.toList

theorem readWord_zero (h : 8 ≤ b.size) : b.readWord 0 = .ok b.firstWord := by
  rw [readWord_of_le (by simpa using h)]
  simp [firstWord]

/-- Saving succeeds if there is a word and room for twelve bytes. -/
theorem fput_eq_ok : b.fput file = .ok (0, written) ↔ 8 ≤ b.size ∧ 12 ≤ file.room ∧
    written = ⟨file.behind ++ b.saved, file.ahead.drop 12, file.room - 12⟩ := by
  have hnum : (htonl (UInt32.ofNat b.used)).toList.length = 4 := Vector.length_toList
  have hword : b.firstWord.toList.length = 8 := Vector.length_toList
  unfold fput
  dsimp only
  by_cases hroom : 4 ≤ file.room
  · rw [File.fwrite_of_le (by omega), if_pos rfl]
    by_cases hsize : 8 ≤ b.size
    · rw [readWord_zero hsize, ok_bind]
      by_cases hroom' : 12 ≤ file.room
      · rw [File.fwrite_of_le (by simp only [hword, hnum]; omega)]
        have hsaved : file.behind ++ (htonl (UInt32.ofNat b.used)).toList ++ b.firstWord.toList =
            file.behind ++ b.saved := List.append_assoc ..
        simp only [hnum, hword, List.drop_drop, Nat.sub_sub, hsaved, if_true]
        constructor
        · intro h
          cases h
          exact ⟨hsize, hroom', rfl⟩
        · rintro ⟨-, -, rfl⟩
          rfl
      · have hfail : (File.fwrite b.firstWord.toList
            ⟨file.behind ++ (htonl (UInt32.ofNat b.used)).toList,
              file.ahead.drop (htonl (UInt32.ofNat b.used)).toList.length,
              file.room - (htonl (UInt32.ofNat b.used)).toList.length⟩).1 = false :=
          File.fwrite_of_lt (by simp only [hword, hnum]; omega)
        constructor
        · intro h
          dsimp only at h
          rw [hfail] at h
          cases h
        · exact fun h => absurd h.2.1 hroom'
    · have hread : b.readWord 0 = .error .bounds := readWord_of_not_le (by simpa using hsize)
      rw [hread]
      constructor
      · intro h
        cases h
      · exact fun h => absurd h.1 hsize
  · rw [File.fwrite_of_lt (by omega), if_neg Bool.false_ne_true]
    constructor
    · intro h
      cases h
    · rintro ⟨-, h, -⟩
      omega

/-- Reading what was saved replaces the first word. -/
theorem fget_saved (h : 8 ≤ c.size) (rest : Word) {behind ahead : List UInt8} {room : Nat} :
    c.fget ⟨behind, b.saved ++ ahead, room⟩ rest =
      .ok (0, (c.fill 0 8 b.byteAt).setUsed (b.used % 2 ^ 32),
        ⟨behind ++ b.saved, ahead, room⟩) := by
  have hwrite : c.writeWord 0 b.firstWord = .ok (c.fill 0 8 b.byteAt) :=
    writeWord_of_le (by simpa using h) fun j => by simp [firstWord]
  have hused : (UInt32.ofNat b.used).toNat = b.used % 2 ^ 32 := UInt32.toNat_ofNat'
  unfold fget saved
  rw [List.append_assoc, File.fread_append]
  dsimp only
  rw [File.fread_append]
  dsimp only
  rw [hwrite, ok_bind, ntohl_htonl, hused, List.append_assoc]
  rfl

/-- Back at the start of what was written. -/
theorem seek_saved {behind ahead : List UInt8} {room : Nat} :
    File.seek ⟨behind ++ b.saved, ahead, room⟩ behind.length =
      ⟨behind, b.saved ++ ahead, room⟩ := by
  unfold File.seek
  simp

/-- **A saved bitmap comes back** if and only if there is none to save (no word), or the
count of used bytes, on 32 bits, is one of a bitmap of this size and the target has the
bits behind the first word already. -/
theorem saved_restores_iff (h : c.size = b.size) : b.Restores c ↔ b.size = 0 ∨
    b.used % 2 ^ 32 ≤ b.size ∧ ∀ i, 64 ≤ i → c.bit i = b.bit i := by
  have hwords : b.size % 8 = 0 := b.words
  -- the bits of the target
  have hbit (i : Nat) (hsize : 8 ≤ b.size) :
      ((c.fill 0 8 b.byteAt).setUsed (b.used % 2 ^ 32)).bit i =
        if i / 8 < 8 then b.bit i else c.bit i :=
    bit_fill_words (by omega)
  constructor
  · intro hrestores
    by_cases hsize : 8 ≤ b.size
    · obtain ⟨t, ht, hbits, hused⟩ := hrestores ⟨[], [], 12⟩ _
        (fput_eq_ok.2 ⟨hsize, Nat.le_refl 12, rfl⟩) (Vector.replicate 8 0)
      rw [seek_saved, fget_saved (by omega)] at ht
      cases ht
      refine .inr ⟨by simpa [h] using hused, fun i hi => ?_⟩
      rw [← hbits, hbit i hsize, if_neg (by omega)]
    · exact .inl (by omega)
  · rintro hall file written hput rest
    obtain ⟨hsize, -, rfl⟩ := fput_eq_ok.1 hput
    obtain hzero | ⟨hused, hsame⟩ := hall
    · omega
    · rw [seek_saved, fget_saved (by omega)]
      refine ⟨_, rfl, fun i => ?_, by simpa [h] using hused⟩
      rw [hbit i hsize]
      split
      · rfl
      · exact hsame i (by omega)

/-- One word comes back, into a new bitmap. -/
theorem saved_restores_iff_oneWord :
    ∃ b, (new 64 rfl).set 3 = .ok b ∧ b.size = (new 64 rfl).size ∧ b.Restores (new 64 rfl) := by
  let b : Zbits := ⟨[8, 0, 0, 0, 0, 0, 0, 0], 1, 0, rfl⟩
  have hused : b.used % 2 ^ 32 ≤ b.size := by decide
  refine ⟨b, rfl, rfl,
    (saved_restores_iff (b := b) (c := new 64 rfl) rfl).2 (.inr ⟨hused, fun i hi => ?_⟩)⟩
  rw [bit_of_bits_le hi]
  exact (bit_of_bits_le hi).symm

/-- 128 bits, of which bit 64 is set. -/
def secondWord : Zbits where
  data := [0, 0, 0, 0, 0, 0, 0, 0, 1, 0, 0, 0, 0, 0, 0, 0]
  used := 9
  cursor := 0
  words := rfl

/-- Bit 64 is not written to the file, so a new bitmap does not get it. -/
theorem loses_second_word : (new 128 rfl).set 64 = .ok secondWord ∧
    (new 128 rfl).size = secondWord.size ∧ ¬secondWord.Restores (new 128 rfl) := by
  refine ⟨rfl, rfl, fun h => ?_⟩
  obtain ⟨t, ht, hbits, -⟩ := h ⟨[], [], 12⟩ _ rfl (Vector.replicate 8 0)
  have hread : (new 128 rfl).fget (File.seek ⟨[0, 0, 0, 9, 0, 0, 0, 0, 0, 0, 0, 0], [], 0⟩ 0)
      (Vector.replicate 8 0) = .ok (0, { new 128 rfl with used := 9 },
        ⟨[0, 0, 0, 9, 0, 0, 0, 0, 0, 0, 0, 0], [], 0⟩) := by rfl
  cases hread.symm.trans ht
  exact absurd (hbits 64) (by decide)

end Zbits
end Malamute.L1
