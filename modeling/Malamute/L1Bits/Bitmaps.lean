import Mathlib.Logic.Function.Basic
import Malamute.Core.LTS
import Malamute.L1Bits.Count
import Malamute.L1Bits.File

/-!
# The bitmaps of a program

`bitmaps` is a program that makes bitmaps of any sizes and calls the functions of
`zbits.c` on them in any order; a call that fails an assertion, touches a byte outside the
data or never returns ends the run. `Meets` is the condition on a step: two bitmaps that are
combined fit together, and so does what `zbits_fget` takes from a file.

`algebra_iff`: in every run of such steps all bitmaps are sound, and then `zbits_not`,
`zbits_ones` and the three operations on two bitmaps do what they should exactly under
their conditions.
-/
namespace Malamute.L1
open Malamute.Core
namespace Zbits

/-! ## Calls -/

/-- A call on one bitmap. -/
inductive Call where
  | get (index : UInt32)
  | set (index : UInt32)
  | clear (index : UInt32)
  | erase
  | ones
  | not
  | first
  | last
  | next
  | prev
  | firstZero
  | nextZero
  | prevZero
  | insert
  | fput (file : File)
  | fget (file : File) (rest : Word)

/-- The bitmap after the call. -/
def Call.run (b : Zbits) : Call → Except BitsFault Zbits
  | .get index => (b.get index).map fun _ => b
  | .set index => b.set index
  | .clear index => b.clear index
  | .erase => .ok b.erase
  | .ones => b.zbitsOnes.map fun _ => b
  | .not => b.not
  | .first => b.first.map Prod.snd
  | .last => b.last.map Prod.snd
  | .next => b.next.map Prod.snd
  | .prev => b.prev.map Prod.snd
  | .firstZero => b.firstZero.map Prod.snd
  | .nextZero => b.nextZero.map Prod.snd
  | .prevZero => b.prevZero.map Prod.snd
  | .insert => b.insert.map Prod.snd
  | .fput file => (b.fput file).map fun _ => b
  | .fget file rest => (b.fget file rest).map fun r => r.2.1

/-- The operations on two bitmaps. -/
inductive Op where
  | and | or | xor
  deriving DecidableEq

namespace Op

def run : Op → Zbits → Zbits → Except BitsFault Zbits
  | .and => Zbits.and
  | .or => Zbits.or
  | .xor => Zbits.xor

/-- What it should do with two bits. -/
def fn : Op → Bool → Bool → Bool
  | .and, x, y => x && y
  | .or, x, y => x || y
  | .xor, x, y => x ^^ y

/-- When it does so. -/
def Fits : Op → Zbits → Zbits → Prop
  | .and, b, c => b.AndFits c
  | .or, b, c => b.JoinFits c Op.or.fn
  | .xor, b, c => b.JoinFits c Op.xor.fn

theorem computes_iff {b c : Zbits} (op : Op) (hb : b.Sound) (hc : c.Sound) (h : c.used ≤ b.size) :
    b.Computes (fun i => op.fn (b.bit i) (c.bit i)) (op.run b c) ↔ op.Fits b c := by
  cases op with
  | and => exact and_iff hb hc h
  | or =>
    refine join_iff (fun x y j => ?_) rfl hb hc h
    rw [UInt8.toNat_or, Nat.testBit_or]
    rfl
  | xor =>
    refine join_iff (fun x y j => ?_) rfl hb hc h
    rw [UInt8.toNat_xor, Nat.testBit_xor]
    rfl

/-- If a `uint` can go through the bytes used, `zbits_and` fits always, and the others if
the bytes used of the target are there in the source. -/
theorem fits_iff {b c : Zbits} (op : Op) (hb : b.Sound) (hc : c.Sound)
    (hroom : b.used + 8 ≤ 2 ^ 32) (hroom' : c.used + 8 ≤ 2 ^ 32) :
    op.Fits b c ↔ op = .and ∨ b.used ≤ c.size := by
  cases op with
  | and => exact iff_of_true (andFits_of_room hb hc (by omega)) (.inl rfl)
  | or | xor =>
    refine Iff.trans (joinFits_iff hb hc rfl (by omega)) ?_
    simp

end Op

variable {b c t : Zbits} {i : Nat}

/-! ## What the calls keep -/

/-- Nothing but the cursor has moved. -/
def Moved (b t : Zbits) : Prop := ∃ n, t = { b with cursor := n }

theorem Sound.moved (h : b.Sound) (hm : b.Moved t) : t.Sound := by
  obtain ⟨n, rfl⟩ := hm
  exact ⟨h.used_le, h.tail⟩

theorem moved_of_look {stop : UInt8} {more step index cur k} {r : Int} {u : Zbits}
    (hb : b.Moved u) (h : u.look stop more step index cur k = .ok (r, t)) : b.Moved t := by
  obtain ⟨n, rfl⟩ := hb
  obtain ⟨-, rfl⟩ | ⟨n', -, -, rfl⟩ := look_state h
  · exact ⟨n, rfl⟩
  · exact ⟨n', rfl⟩

theorem moved_of_moveTo {n : UInt32} {r : Int} {u : Zbits} (hb : b.Moved u)
    (h : u.moveTo n = .ok (r, t)) : b.Moved t := by
  obtain ⟨m, rfl⟩ := hb
  obtain ⟨-, -, rfl⟩ := moveTo_eq_ok.1 h
  exact ⟨n, rfl⟩

section Scans
variable {r : Int} {u : Zbits}

/-- The four scans from the cursor on. -/
theorem moved_of_scan {x : Except BitsFault UInt8} {stop : UInt8} {more step index k}
    {cur : UInt8 → UInt8} (hb : b.Moved u)
    (h : (do u.look stop more step index (cur (← x)) k) = .ok (r, t)) : b.Moved t := by
  obtain ⟨_, -, hlook⟩ := bind_eq_ok.1 h
  exact moved_of_look hb hlook

theorem moved_first (h : b.first = .ok (r, t)) : b.Moved t := by
  obtain ⟨x, -, h⟩ := bind_eq_ok.1 h
  split at h
  · exact moved_of_moveTo ⟨_, rfl⟩ h
  · exact moved_of_scan ⟨_, rfl⟩ h

theorem moved_last (h : b.last = .ok (r, t)) : b.Moved t := by
  obtain ⟨x, -, h⟩ := bind_eq_ok.1 h
  split at h
  · cases h
    exact ⟨_, rfl⟩
  · exact moved_of_scan ⟨_, rfl⟩ h

theorem moved_firstZero (h : b.firstZero = .ok (r, t)) : b.Moved t := by
  obtain ⟨x, -, h⟩ := bind_eq_ok.1 h
  split at h
  · exact moved_of_moveTo ⟨_, rfl⟩ h
  · exact moved_of_scan ⟨_, rfl⟩ h

end Scans

theorem size_eq_of_bits (h : t.bits = b.bits) : t.size = b.size :=
  Nat.eq_of_mul_eq_mul_left (by decide : 0 < 8) h

/-- Nothing used and nothing set. -/
theorem Sound.zero {n : Nat} (hused : b.used = 0) (hdata : b.data = List.replicate n 0) :
    b.Sound where
  used_le := by
    rw [hused]
    exact Nat.zero_le _
  tail i _ := by
    unfold byteAt
    rw [hdata, List.getD_eq_getElem?_getD, List.getElem?_replicate]
    split <;> rfl

theorem Sound.new {bits : Nat} (h : bits % 64 = 0) : (Zbits.new bits h).Sound := .zero rfl rfl

theorem Sound.erase (b : Zbits) : b.erase.Sound := .zero rfl rfl

/-- `zbits_set` counts the byte of its bit as used. -/
theorem Sound.set {n : UInt32} (h : b.Sound) (hset : b.set n = .ok t) : t.Sound := by
  obtain ⟨hlt, -⟩ := guard_eq_ok.1 hset
  obtain ⟨u, hu, hbits, hused, hbit⟩ := set_eq hlt
  cases hset.symm.trans hu
  have hsize := size_eq_of_bits hbits
  have hle := h.used_le
  have heq : b.bits = 8 * b.size := rfl
  refine sound_iff.2 ⟨by omega, fun i hi => ?_⟩
  rw [hbit, h.bit (by omega), decide_eq_false (by omega), Bool.false_or]

theorem Sound.clear {n : UInt32} (h : b.Sound) (hclear : b.clear n = .ok t) : t.Sound := by
  obtain ⟨-, hclear⟩ := guard_eq_ok.1 hclear
  obtain ⟨x, hread, ht⟩ := bind_eq_ok.1 hclear
  cases ht
  refine sound_iff.2 ⟨h.used_le.trans (Nat.le_of_eq List.length_set.symm), fun i hi => ?_⟩
  have hzero := h.bit hi
  rw [bit_write (read_lt hread)]
  split
  · rename_i heq
    -- the mask clears bits only
    rw [UInt8.toNat_and, Nat.testBit_and, ← bit_of_read hread (Nat.mod_lt _ (by decide)), ← heq,
      Nat.div_add_mod, hzero, Bool.false_and]
  · exact hzero

theorem Sound.insert {r : Int} (h : b.Sound) (hinsert : b.insert = .ok (r, t)) : t.Sound := by
  obtain ⟨⟨bit, u⟩, hfirst, hinsert⟩ := bind_eq_ok.1 hinsert
  have hu := h.moved (moved_firstZero hfirst)
  dsimp only at hinsert
  split at hinsert
  · obtain ⟨v, hset, ht⟩ := bind_eq_ok.1 hinsert
    cases ht
    exact hu.set hset
  · cases hinsert
    exact hu

/-- The bytes of `b` with its first word replaced. -/
def overlay (b : Zbits) (w : Word) (i : Nat) : UInt8 :=
  if i < 8 then w.toList.getD i 0 else b.byteAt i

/-- What `zbits_fget` takes from the file is no more used bytes than there are, and zeros
behind them. -/
def FgetFits (b : Zbits) (file : File) (rest : Word) : Prop :=
  match file.fread 4 with
  | (none, _) => True
  | (some netSize, file) =>
    match file.fread 8 with
    | (some data, _) => (ntohl netSize).toNat ≤ b.size ∧
        ∀ i, (ntohl netSize).toNat ≤ i → b.overlay data i = 0
    | (none, _) => file.ahead ≠ [] → ∀ i, b.used ≤ i → b.overlay rest i = 0

theorem writeWord_zero {w : Word} (h : b.writeWord 0 w = .ok t) :
    t.size = b.size ∧ t.used = b.used ∧ ∀ i, t.byteAt i = b.overlay w i := by
  obtain ⟨hsize, h⟩ := guard_eq_ok.1 h
  have hzero : (0 : UInt32).toNat = 0 := rfl
  rw [hzero] at hsize h
  cases h
  refine ⟨size_fill, used_fill, fun i => ?_⟩
  rw [byteAt_fill, overlay]
  by_cases hi : i < 8
  · rw [if_pos ⟨Nat.zero_le _, by omega, by omega⟩, if_pos hi]
    rfl
  · rw [if_neg fun h => hi (by omega), if_neg hi]

theorem Sound.fget {file left : File} {rest : Word} {r : Int} (h : b.Sound)
    (hfits : b.FgetFits file rest) (hfget : b.fget file rest = .ok (r, t, left)) : t.Sound := by
  unfold Zbits.fget at hfget
  unfold FgetFits at hfits
  generalize file.fread 4 = item at hfget hfits
  obtain ⟨_ | netSize, file⟩ := item
  · cases hfget
    exact h
  · dsimp only at hfget hfits
    generalize file.fread 8 = item at hfget hfits
    obtain ⟨_ | data, left⟩ := item
    · dsimp only at hfget
      split at hfget
      · cases hfget
        exact h
      · rename_i hahead
        obtain ⟨u, hu, ht⟩ := bind_eq_ok.1 hfget
        cases ht
        obtain ⟨hsize, hused, hbyte⟩ := writeWord_zero hu
        refine ⟨?_, fun i hi => ?_⟩
        · rw [hused, hsize]
          exact h.used_le
        · rw [hbyte]
          exact hfits hahead i (hused ▸ hi)
    · obtain ⟨u, hu, ht⟩ := bind_eq_ok.1 hfget
      cases ht
      obtain ⟨hsize, -, hbyte⟩ := writeWord_zero hu
      refine ⟨?_, fun i hi => ?_⟩
      · rw [used_setUsed, size_setUsed, hsize]
        exact hfits.1
      · rw [byteAt_setUsed, hbyte]
        exact hfits.2 i hi

theorem Sound.scan {x : Except BitsFault (Int × Zbits)} (h : b.Sound)
    (hmoved : ∀ r u, x = .ok (r, u) → b.Moved u) (hrun : x.map Prod.snd = .ok t) : t.Sound := by
  obtain ⟨⟨r, u⟩, hcall, rfl⟩ := map_eq_ok.1 hrun
  exact h.moved (hmoved r u hcall)

/-- The calls that keep a bitmap sound whatever is in it, and `zbits_fget` of something
that fits. -/
def Call.Fits (b : Zbits) : Call → Prop
  | .fget file rest => b.FgetFits file rest
  | _ => True

theorem Sound.call {c : Call} (h : b.Sound) (hfits : c.Fits b) (hrun : c.run b = .ok t) :
    t.Sound := by
  cases c with
  | set index => exact h.set hrun
  | clear index => exact h.clear hrun
  | erase =>
    cases hrun
    exact .erase b
  | not =>
    obtain ⟨-, hroom, -⟩ := not_eq_ok.1 hrun
    exact ((not_iff h).2 hroom).sound hrun
  | get index | ones | fput file =>
    obtain ⟨-, -, rfl⟩ := map_eq_ok.1 hrun
    exact h
  | first => exact h.scan (fun _ _ hcall => moved_first hcall) hrun
  | last => exact h.scan (fun _ _ hcall => moved_last hcall) hrun
  | next => exact h.scan (fun _ _ hcall => moved_of_scan ⟨_, rfl⟩ hcall) hrun
  | prev => exact h.scan (fun _ _ hcall => moved_of_scan ⟨_, rfl⟩ hcall) hrun
  | firstZero => exact h.scan (fun _ _ hcall => moved_firstZero hcall) hrun
  | nextZero => exact h.scan (fun _ _ hcall => moved_of_scan ⟨_, rfl⟩ hcall) hrun
  | prevZero => exact h.scan (fun _ _ hcall => moved_of_scan ⟨_, rfl⟩ hcall) hrun
  | insert =>
    obtain ⟨⟨r, u⟩, hcall, rfl⟩ := map_eq_ok.1 hrun
    exact h.insert hcall
  | fget file rest =>
    obtain ⟨⟨r, u, left⟩, hcall, rfl⟩ := map_eq_ok.1 hrun
    exact h.fget hfits hcall

/-! ## Runs -/

/-- The bitmaps in memory, by their address. -/
abbrev Heap := Nat → Option Zbits

inductive Label where
  | create (p bits : Nat)
  | destroy (p : Nat)
  | call (p : Nat) (c : Call)
  | combine (op : Op) (p q : Nat)

inductive Step : Heap → Label → Heap → Prop where
  | create {s : Heap} {p bits : Nat} (hfree : s p = none) (hwords : bits % 64 = 0) :
      Step s (.create p bits) (Function.update s p (some (new bits hwords)))
  | destroy {s : Heap} {p : Nat} : Step s (.destroy p) (Function.update s p none)
  | call {s : Heap} {p : Nat} {c : Call} {b t : Zbits} (hb : s p = some b)
      (hrun : c.run b = .ok t) : Step s (.call p c) (Function.update s p (some t))
  | combine {s : Heap} {op : Op} {p q : Nat} {b c t : Zbits} (hb : s p = some b) (hc : s q = some c)
      (hrun : op.run b c = .ok t) : Step s (.combine op p q) (Function.update s p (some t))

/-- The calls of a program in any order, on bitmaps of any size; the source of an operation
may be its target. -/
def bitmaps : LTS Heap Label where
  init s := ∀ p, s p = none
  step := Step

/-- The condition on a step, in the state before it. -/
def Meets (s : Heap) : Label → Prop
  | .call p c => ∀ b, s p = some b → c.Fits b
  | .combine op p q => ∀ b c, s p = some b → s q = some c → op.Fits b c
  | _ => True

/-- All bitmaps are sound. -/
def AllSound (s : Heap) : Prop := ∀ p b, s p = some b → b.Sound

theorem AllSound.update {s : Heap} {p : Nat} {x : Option Zbits} (h : AllSound s)
    (hx : ∀ t, x = some t → t.Sound) : AllSound (Function.update s p x) := by
  intro q t ht
  by_cases hq : q = p
  · subst hq
    rw [Function.update_self] at ht
    exact hx t ht
  · rw [Function.update_of_ne hq] at ht
    exact h q t ht

/-- No operation takes a source with more bytes used than the target has. -/
theorem Op.source_le {op : Op} (h : op.run b c = .ok t) : c.used ≤ b.size := by
  cases op <;> exact (guard_eq_ok.1 h).1

theorem allSound_step {s s' : Heap} {l : Label} (h : AllSound s) (hmeets : Meets s l)
    (hstep : Step s l s') : AllSound s' := by
  cases hstep with
  | create _ hwords =>
    refine h.update ?_
    rintro t ⟨⟩
    exact .new hwords
  | destroy =>
    refine h.update ?_
    rintro t ⟨⟩
  | call hb hrun =>
    refine h.update ?_
    rintro t ⟨⟩
    exact (h _ _ hb).call (hmeets _ hb) hrun
  | @combine op _ _ _ _ _ hb hc hrun =>
    refine h.update ?_
    rintro t ⟨⟩
    have hcomp := op.computes_iff (h _ _ hb) (h _ _ hc) (Op.source_le hrun)
    exact (hcomp.2 (hmeets _ _ hb hc)).sound hrun

theorem inductive_allSound : (bitmaps.within Meets).Inductive AllSound where
  init _ h p _ hb := by
    rw [h p] at hb
    cases hb
  step _ _ _ h hs := allSound_step h hs.1 hs.2

/-- **Bitmap algebra.** In every run whose steps all meet the condition, all bitmaps are
sound, and on any of them the functions do what they should exactly under theirs. -/
theorem algebra_iff {s : Heap} (h : (bitmaps.within Meets).Reachable s) :
    (∀ p b, s p = some b → b.Sound ∧
      (b.Computes (fun i => !b.bit i) b.not ↔ b.used + 8 ≤ 2 ^ 32) ∧
      (b.Counts ↔ b.used < 2 ^ 32 ∧ b.ones.length < 2 ^ 31 ∧ ∀ i, b.bit i = true → i < 2 ^ 32)) ∧
    ∀ op p q b c, s p = some b → s q = some c → c.used ≤ b.size →
      (b.Computes (fun i => Op.fn op (b.bit i) (c.bit i)) (op.run b c) ↔ op.Fits b c) := by
  have hsound := inductive_allSound.reachable s h
  constructor
  · intro p b hb
    have hb := hsound p b hb
    exact ⟨hb, not_iff hb, counts_iff hb⟩
  · intro op p q b c hb hc hle
    exact op.computes_iff (hsound p b hb) (hsound q c hc) hle

/-- 64 bits, of which bit 3 is set. -/
def bitThree : Zbits := ⟨[8, 0, 0, 0, 0, 0, 0, 0], 1, 0, rfl⟩

theorem algebra_iff_bitThree : ∃ s : Heap, (bitmaps.within Meets).Reachable s ∧
    s 0 = some bitThree ∧ s 1 = some bitThree ∧ bitThree.Counts ∧
    bitThree.Computes (fun i => bitThree.bit i ^^ bitThree.bit i) (bitThree.xor bitThree) := by
  have hsound : bitThree.Sound := .set (.new rfl) (show (new 64 rfl).set 3 = .ok bitThree from rfl)
  have hfits : Op.or.Fits (new 64 rfl) bitThree :=
    (Op.or.fits_iff (.new rfl) hsound (by decide) (by decide)).2 (.inr (by decide))
  have hor : (new 64 rfl).or bitThree = .ok bitThree :=
    (join_eq_ok rfl).2 ⟨by decide, by decide, by decide, by decide⟩
  have hreach := LTS.Reachable.initial (T := bitmaps.within Meets) (s := fun _ => none) fun _ => rfl
  have hreach := hreach.step (l := Label.create 0 64) ⟨trivial, Step.create rfl rfl⟩
  have hreach := hreach.step (l := Label.call 0 (.set 3))
    ⟨fun _ _ => trivial, Step.call (t := bitThree) rfl rfl⟩
  have hreach := hreach.step (l := Label.create 1 64) ⟨trivial, Step.create rfl rfl⟩
  have hreach := hreach.step (l := Label.combine .or 1 0)
    ⟨by rintro b c ⟨⟩ ⟨⟩; exact hfits, Step.combine (t := bitThree) rfl rfl hor⟩
  obtain ⟨hone, htwo⟩ := algebra_iff hreach
  refine ⟨_, hreach, rfl, rfl, (hone 0 bitThree rfl).2.2.2 ⟨by decide, by decide, fun i hi => ?_⟩,
    (htwo .xor 0 1 bitThree bitThree rfl rfl (by decide)).2 ?_⟩
  · by_contra hlt
    have hbits : bitThree.bits ≤ i := Nat.le_trans (by decide) (Nat.le_of_not_lt hlt)
    rw [bit_of_bits_le hbits] at hi
    cases hi
  · exact (Op.xor.fits_iff hsound hsound (by decide) (by decide)).2 (.inr (by decide))

/-- 128 bits, of which the last one is set. -/
def topBit : Zbits where
  data := [0, 0, 0, 0, 0, 0, 0, 0, 0, 0, 0, 0, 0, 0, 0, 128]
  used := 16
  cursor := 0
  words := rfl

/-- The source passes the assertion and is shorter than what is read of it. -/
theorem or_reads_behind_source : ∃ s : Heap, bitmaps.Reachable s ∧ s 0 = some topBit ∧
    s 1 = some (new 64 rfl) ∧ (new 64 rfl).used ≤ topBit.size ∧
    ¬topBit.Computes (fun i => topBit.bit i || (new 64 rfl).bit i) (topBit.or (new 64 rfl)) := by
  have hreach := LTS.Reachable.initial (T := bitmaps) (s := fun _ => none) fun _ => rfl
  have hreach := hreach.step (l := Label.create 0 128) (Step.create rfl rfl)
  have hreach := hreach.step (l := Label.call 0 (.set 127)) (Step.call rfl rfl)
  have hreach := hreach.step (l := Label.create 1 64) (Step.create rfl rfl)
  refine ⟨_, hreach, rfl, rfl, by decide, ?_⟩
  rintro ⟨t, ht, -⟩
  have hlim := ((join_eq_ok rfl).1 ht).2.2.1
  exact absurd hlim (by decide)

end Zbits
end Malamute.L1
