import Mathlib.Algebra.GroupWithZero.Nat
import Malamute.Core.Scan

/-!
# Bitmaps (`zbits`)

The functions of `zbits.c` on single bits and the scans, with the tables and the masks
as the source has them. `uint` is `UInt32` and wraps, a `byte` is a `UInt8`, and
`size_t` does not wrap here: a bitmap fits in memory. A read outside the data is a
fault, and so is an `int` made of a `uint` from 2^31 on, which the C standard leaves to
the compiler. `byte_nbr` has 2^32 values, so a loop that goes on for longer than that
goes on for ever.

`bit` says what a bitmap is: a function from the indices below `bits`.
-/
namespace Malamute.L1
open Malamute.Core

inductive BitsFault where
  | assertion
  /-- a byte outside the data -/
  | bounds
  /-- a value that does not fit an `int` -/
  | conversion
  | endless
  deriving DecidableEq, Repr

/-! ## Tables -/

/-- mirrors src/src/zbits.c:61-81 -/
def sFirstBitOn : List UInt8 := [
  0, 0, 1, 0, 2, 0, 1, 0, 3, 0, 1, 0, 2, 0, 1, 0,
  4, 0, 1, 0, 2, 0, 1, 0, 3, 0, 1, 0, 2, 0, 1, 0,
  5, 0, 1, 0, 2, 0, 1, 0, 3, 0, 1, 0, 2, 0, 1, 0,
  4, 0, 1, 0, 2, 0, 1, 0, 3, 0, 1, 0, 2, 0, 1, 0,
  6, 0, 1, 0, 2, 0, 1, 0, 3, 0, 1, 0, 2, 0, 1, 0,
  4, 0, 1, 0, 2, 0, 1, 0, 3, 0, 1, 0, 2, 0, 1, 0,
  5, 0, 1, 0, 2, 0, 1, 0, 3, 0, 1, 0, 2, 0, 1, 0,
  4, 0, 1, 0, 2, 0, 1, 0, 3, 0, 1, 0, 2, 0, 1, 0,
  7, 0, 1, 0, 2, 0, 1, 0, 3, 0, 1, 0, 2, 0, 1, 0,
  4, 0, 1, 0, 2, 0, 1, 0, 3, 0, 1, 0, 2, 0, 1, 0,
  5, 0, 1, 0, 2, 0, 1, 0, 3, 0, 1, 0, 2, 0, 1, 0,
  4, 0, 1, 0, 2, 0, 1, 0, 3, 0, 1, 0, 2, 0, 1, 0,
  6, 0, 1, 0, 2, 0, 1, 0, 3, 0, 1, 0, 2, 0, 1, 0,
  4, 0, 1, 0, 2, 0, 1, 0, 3, 0, 1, 0, 2, 0, 1, 0,
  5, 0, 1, 0, 2, 0, 1, 0, 3, 0, 1, 0, 2, 0, 1, 0,
  4, 0, 1, 0, 2, 0, 1, 0, 3, 0, 1, 0, 2, 0, 1, 0]

/-- mirrors src/src/zbits.c:83-103 -/
def sLastBitOn : List UInt8 := [
  0, 0, 1, 1, 2, 2, 2, 2, 3, 3, 3, 3, 3, 3, 3, 3,
  4, 4, 4, 4, 4, 4, 4, 4, 4, 4, 4, 4, 4, 4, 4, 4,
  5, 5, 5, 5, 5, 5, 5, 5, 5, 5, 5, 5, 5, 5, 5, 5,
  5, 5, 5, 5, 5, 5, 5, 5, 5, 5, 5, 5, 5, 5, 5, 5,
  6, 6, 6, 6, 6, 6, 6, 6, 6, 6, 6, 6, 6, 6, 6, 6,
  6, 6, 6, 6, 6, 6, 6, 6, 6, 6, 6, 6, 6, 6, 6, 6,
  6, 6, 6, 6, 6, 6, 6, 6, 6, 6, 6, 6, 6, 6, 6, 6,
  6, 6, 6, 6, 6, 6, 6, 6, 6, 6, 6, 6, 6, 6, 6, 6,
  7, 7, 7, 7, 7, 7, 7, 7, 7, 7, 7, 7, 7, 7, 7, 7,
  7, 7, 7, 7, 7, 7, 7, 7, 7, 7, 7, 7, 7, 7, 7, 7,
  7, 7, 7, 7, 7, 7, 7, 7, 7, 7, 7, 7, 7, 7, 7, 7,
  7, 7, 7, 7, 7, 7, 7, 7, 7, 7, 7, 7, 7, 7, 7, 7,
  7, 7, 7, 7, 7, 7, 7, 7, 7, 7, 7, 7, 7, 7, 7, 7,
  7, 7, 7, 7, 7, 7, 7, 7, 7, 7, 7, 7, 7, 7, 7, 7,
  7, 7, 7, 7, 7, 7, 7, 7, 7, 7, 7, 7, 7, 7, 7, 7,
  7, 7, 7, 7, 7, 7, 7, 7, 7, 7, 7, 7, 7, 7, 7, 7]

/-- mirrors src/src/zbits.c:105-109 -/
def sBitSet : List UInt8 := [0x01, 0x02, 0x04, 0x08, 0x10, 0x20, 0x40, 0x80]

/-- mirrors src/src/zbits.c:111-115 -/
def sBitClear : List UInt8 := [0xFE, 0xFD, 0xFB, 0xF7, 0xEF, 0xDF, 0xBF, 0x7F]

/-- mirrors src/src/zbits.c:333-336 -/
def clearTrailingBits : List UInt8 := [254, 252, 248, 240, 224, 192, 128, 0]

/-- mirrors src/src/zbits.c:361-364 -/
def clearLeadingBits : List UInt8 := [0, 1, 3, 7, 15, 31, 63, 127]

/-- mirrors src/src/zbits.c:405-408 -/
def setTrailingBits : List UInt8 := [0, 1, 3, 7, 15, 31, 63, 127]

/-- mirrors src/src/zbits.c:433-436 -/
def setLeadingBits : List UInt8 := [254, 252, 248, 240, 224, 192, 128, 0]

/-- `table [x]` for a `byte` x. -/
def entry (table : List UInt8) (x : UInt8) : UInt8 := table.getD x.toNat 0

/-- `table [n]` for a bit number. -/
def mask (table : List UInt8) (n : UInt32) : UInt8 := table.getD n.toNat 0

/-! ## Bitmaps -/

/-- mirrors src/src/zbits.c:32-38: `size` is the length of the data and `bits` is eight
times that, a multiple of 64. -/
structure Zbits where
  data : List UInt8
  used : Nat
  cursor : UInt32
  words : data.length % 8 = 0
  deriving DecidableEq

namespace Zbits

def size (b : Zbits) : Nat := b.data.length

def bits (b : Zbits) : Nat := 8 * b.data.length

/-- mirrors src/src/zbits.c:122-135 -/
def new (bits : Nat) (words : bits % 64 = 0) : Zbits where
  data := List.replicate (bits / 8) 0
  used := 0
  cursor := 0
  words := by rw [List.length_replicate]; omega

/-- `self->data [n]` -/
def read (b : Zbits) (n : UInt32) : Except BitsFault UInt8 :=
  match b.data[n.toNat]? with
  | some x => .ok x
  | none => .error .bounds

/-- `self->data [n] = x` -/
def write (b : Zbits) (n : UInt32) (x : UInt8) : Zbits where
  data := b.data.set n.toNat x
  used := b.used
  cursor := b.cursor
  words := by rw [List.length_set]; exact b.words

/-- mirrors src/src/zbits.c:156-163 -/
def get (b : Zbits) (index : UInt32) : Except BitsFault Bool :=
  if index.toNat < b.bits then do
    let byteNbr := index / 8
    let bitNbr := index % 8
    return (← b.read byteNbr) &&& mask sBitSet bitNbr ≠ 0
  else .error .assertion

/-- mirrors src/src/zbits.c:168-177 -/
def set (b : Zbits) (index : UInt32) : Except BitsFault Zbits :=
  if index.toNat < b.bits then do
    let byteNbr := index / 8
    let bitNbr := index % 8
    let b := b.write byteNbr ((← b.read byteNbr) ||| mask sBitSet bitNbr)
    if b.used < (byteNbr + 1).toNat then
      return { b with used := (byteNbr + 1).toNat }
    else
      return b
  else .error .assertion

/-- mirrors src/src/zbits.c:183-190 -/
def clear (b : Zbits) (index : UInt32) : Except BitsFault Zbits :=
  if index.toNat < b.bits then do
    let byteNbr := index / 8
    let bitNbr := index % 8
    return b.write byteNbr ((← b.read byteNbr) &&& mask sBitClear bitNbr)
  else .error .assertion

/-- mirrors src/src/zbits.c:196-201 -/
def erase (b : Zbits) : Zbits where
  data := List.replicate b.size 0
  used := 0
  cursor := b.cursor
  words := by rw [List.length_replicate]; exact b.words

/-! ## Scans -/

/-- `self->cursor = n; return self->cursor;` -/
def moveTo (b : Zbits) (n : UInt32) : Except BitsFault (Int × Zbits) :=
  if n.toNat < 2 ^ 31 then .ok (n.toNat, { b with cursor := n }) else .error .conversion

/-- The loop and the end of the four scans: go on by `step` while there is only `stop`
and there may be `more`, then take the index of the bit in the byte. -/
def look (b : Zbits) (stop : UInt8) (more : UInt32 → Bool) (step : UInt32 → UInt32)
    (index : UInt8 → UInt8) (cur : UInt8) (byteNbr : UInt32) : Except BitsFault (Int × Zbits) := do
  let (cur, byteNbr) ← Scan.seek b.read .endless stop more step (2 ^ 32) cur byteNbr
  if cur ≠ stop then
    b.moveTo (byteNbr * 8 + (index cur).toUInt32)
  else
    return (-1, b)

/-- mirrors src/src/zbits.c:329-350 -/
def next (b : Zbits) : Except BitsFault (Int × Zbits) := do
  let byteNbr := b.cursor / 8
  let bitNbr := b.cursor % 8
  b.look 0 (fun n => n.toNat < b.used) (fun n => n + 1) (fun x => entry sFirstBitOn x)
    ((← b.read byteNbr) &&& mask clearTrailingBits bitNbr) byteNbr

/-- mirrors src/src/zbits.c:357-378 -/
def prev (b : Zbits) : Except BitsFault (Int × Zbits) := do
  let byteNbr := b.cursor / 8
  let bitNbr := b.cursor % 8
  b.look 0 (fun n => 0 < n) (fun n => n - 1) (fun x => entry sLastBitOn x)
    ((← b.read byteNbr) &&& mask clearLeadingBits bitNbr) byteNbr

/-- mirrors src/src/zbits.c:401-422 -/
def nextZero (b : Zbits) : Except BitsFault (Int × Zbits) := do
  let byteNbr := b.cursor / 8
  let bitNbr := b.cursor % 8
  b.look 255 (fun n => n.toNat < b.used) (fun n => n + 1) (fun x => entry sFirstBitOn (255 - x))
    ((← b.read byteNbr) ||| mask setTrailingBits bitNbr) byteNbr

/-- mirrors src/src/zbits.c:429-450 -/
def prevZero (b : Zbits) : Except BitsFault (Int × Zbits) := do
  let byteNbr := b.cursor / 8
  let bitNbr := b.cursor % 8
  b.look 255 (fun n => n.toNat < b.used) (fun n => n - 1) (fun x => entry sLastBitOn (255 - x))
    ((← b.read byteNbr) ||| mask setLeadingBits bitNbr) byteNbr

/-- mirrors src/src/zbits.c:297-306 -/
def first (b : Zbits) : Except BitsFault (Int × Zbits) := do
  let b := { b with cursor := 0 }
  if ← b.get b.cursor then b.moveTo b.cursor else b.next

/-- mirrors src/src/zbits.c:313-322; without bits the assertion fails, whatever the
cursor -/
def last (b : Zbits) : Except BitsFault (Int × Zbits) := do
  let b := { b with cursor := UInt32.ofNat (b.bits - 1) }
  if ← b.get b.cursor then return (0, b) else b.prev

/-- mirrors src/src/zbits.c:385-394 -/
def firstZero (b : Zbits) : Except BitsFault (Int × Zbits) := do
  let b := { b with cursor := 0 }
  if !(← b.get b.cursor) then b.moveTo b.cursor else b.nextZero

/-- mirrors src/src/zbits.c:457-464 -/
def insert (b : Zbits) : Except BitsFault (Int × Zbits) := do
  let (bit, b) ← b.firstZero
  if 0 ≤ bit then
    return (bit, ← b.set (UInt32.ofNat bit.toNat))
  else
    return (bit, b)

/-! ## The bits -/

/-- The value of bit `i`. -/
def bit (b : Zbits) (i : Nat) : Bool := (b.data.getD (i / 8) 0).toNat.testBit (i % 8)

end Zbits
end Malamute.L1
