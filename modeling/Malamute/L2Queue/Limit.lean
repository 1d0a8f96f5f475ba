import Malamute.L2Queue.Msgq

/-!
# Reading a queue limit from the configuration (`s_limit_get`)

`scanf` is `sscanf (.., "%zu%n", ..)` as the C standard has it: blanks, a sign,
digits; the value is stored as soon as there are digits, whatever follows, a minus
sign negates on `size_t`, and a number that does not fit is undefined behaviour.

`limit_exact_iff`: what a string does to the limit is what it should do exactly if it
is one of four kinds (`Readable`). A number with text after it has changed the limit by
the time the error is reported; blanks, signs and the empty string pass unnoticed.
-/
namespace Malamute.L2
open Malamute.Core

/-- A C string of any length. -/
structure Text where
  bytes : List UInt8
  noNul : (0 : UInt8) ∉ bytes

/-! ## Scanning a number -/

/-- `isspace` in the C locale. -/
def blank (b : UInt8) : Bool := b = 32 || (9 ≤ b && b ≤ 13)

def digit (b : UInt8) : Bool := 48 ≤ b && b ≤ 57

/-- The value of a list of digits. -/
def decimal (bs : List UInt8) : Nat := bs.foldl (fun n b => 10 * n + (b.toNat - 48)) 0

def unblank (bs : List UInt8) : List UInt8 := bs.dropWhile blank

def unsign : List UInt8 → List UInt8
  | [] => []
  | b :: bs => if b = 43 ∨ b = 45 then bs else b :: bs

/-- The digits of the number at the start, after blanks and a sign. -/
def numeral (bs : List UInt8) : List UInt8 := (unsign (unblank bs)).takeWhile digit

/-- What comes after them. -/
def trailing (bs : List UInt8) : List UInt8 := (unsign (unblank bs)).dropWhile digit

def negative (bs : List UInt8) : Bool := (unblank bs).head? = some 45

/-- The number at the start, on `size_t`. -/
def converted (bs : List UInt8) : Nat :=
  if negative bs then (2 ^ 64 - decimal (numeral bs)) % 2 ^ 64 else decimal (numeral bs)

/-- The bytes up to the end of the number. -/
def scanned (bs : List UInt8) : Nat := bs.length - (trailing bs).length

/-- The number and the count of bytes have room in a `size_t` and an `int`. -/
def Representable (bs : List UInt8) : Prop := decimal (numeral bs) < 2 ^ 64 ∧ scanned bs < 2 ^ 31

instance (bs : List UInt8) : Decidable (Representable bs) :=
  inferInstanceAs (Decidable (_ ∧ _))

/-- `n = sscanf (bs, "%zu%n", &res, &bytes_scanned)` with `bytes_scanned` zero before:
the new `n`, `res` and `bytes_scanned`; `none` if the behaviour is undefined. -/
def scanf (bs : List UInt8) (res : Nat) : Option (Int × Nat × Nat) :=
  if unblank bs = [] then some (-1, res, 0)
  else if numeral bs = [] then some (0, res, 0)
  else if Representable bs then some (1, converted bs, scanned bs)
  else none

/-! ## The limit -/

/-- "max" -/
def unlimited : List UInt8 := [109, 97, 120]

/-- The new limit, and whether an error is reported; no string is a NULL pointer, or
the key is missing and "max" the default. mirrors src/src/mlm_msgq.c:193-207 -/
def limitGet (limit : Option Text) (res : Nat) : Option (Nat × Bool) :=
  match limit with
  | none => some (sizeMax, false)
  | some limit =>
    if limit.bytes = unlimited then some (sizeMax, false)
    else do
      let (n, res, bytesScanned) ← scanf limit.bytes res
      some (res, n = 0 || bytesScanned < limit.bytes.length)

/-- The new configuration, and whether an error is reported for `size-warn` and for
`size-limit`. mirrors src/src/mlm_msgq.c:209-214 -/
def MsgqCfg.configure (cfg : MsgqCfg) (warn limit : Option Text) :
    Option (MsgqCfg × Bool × Bool) := do
  let (sizeWarn, badWarn) ← limitGet warn cfg.sizeWarn
  let (sizeLimit, badLimit) ← limitGet limit cfg.sizeLimit
  some (⟨sizeWarn, sizeLimit⟩, badWarn, badLimit)

/-! ## What it should do -/

/-- The whole string is a decimal number. -/
def Number (bs : List UInt8) : Prop := bs ≠ [] ∧ ∀ b ∈ bs, digit b = true

instance (bs : List UInt8) : Decidable (Number bs) := inferInstanceAs (Decidable (_ ∧ _))

/-- The limit that a string stands for; `none` if it is no limit. -/
def Text.limit (s : Text) : Option Nat :=
  if s.bytes = unlimited then some sizeMax
  else if Number s.bytes ∧ decimal s.bytes < 2 ^ 64 then some (decimal s.bytes)
  else none

/-- The limit becomes what the string stands for; a string that is no limit is reported
and changes nothing. -/
def Obeys (limit : Option Text) (old : Nat) (r : Option (Nat × Bool)) : Prop :=
  match limit with
  | none => r = some (sizeMax, false)
  | some s => r = some (s.limit.getD old, s.limit.isNone)

/-- The strings that are read as they should be: "max"; a decimal number of less than
2^31 digits that fits; a string, not empty, with no digit after its blanks and a sign;
and a number with text after it, if the number is the limit already. -/
def Readable (limit : Option Text) (old : Nat) : Prop :=
  ∀ s, limit = some s → s.bytes = unlimited ∨
    (Number s.bytes ∧ decimal s.bytes < 2 ^ 64 ∧ s.bytes.length < 2 ^ 31) ∨
    (s.bytes ≠ [] ∧ numeral s.bytes = []) ∨
    (numeral s.bytes ≠ [] ∧ Representable s.bytes ∧ trailing s.bytes ≠ [] ∧ converted s.bytes = old)

section
variable {bs : List UInt8}

/-! ## Numbers -/

theorem not_blank_of_digit {b : UInt8} (h : digit b = true) : blank b = false := by
  simp only [digit, Bool.and_eq_true, decide_eq_true_eq, UInt8.le_iff_toNat_le] at h
  simp only [blank, Bool.or_eq_false_iff, Bool.and_eq_false_iff, decide_eq_false_iff_not,
    UInt8.le_iff_toNat_le]
  refine ⟨fun hb => ?_, ?_⟩
  · subst hb
    simp at h
  · have h1 := h.1
    simp only [UInt8.reduceToNat] at h1 ⊢
    omega

theorem not_sign_of_digit {b : UInt8} (h : digit b = true) : b ≠ 43 ∧ b ≠ 45 := by
  constructor <;> rintro rfl <;> simp [digit] at h

/-- A number is its own numeral, with nothing around it. -/
theorem Number.parts (h : Number bs) :
    unblank bs = bs ∧ numeral bs = bs ∧ trailing bs = [] ∧ negative bs = false := by
  obtain ⟨hne, hall⟩ := h
  cases bs with
  | nil => exact absurd rfl hne
  | cons b bs =>
    have hb := hall b List.mem_cons_self
    obtain ⟨h43, h45⟩ := not_sign_of_digit hb
    have hun : unblank (b :: bs) = b :: bs := by simp [unblank, not_blank_of_digit hb]
    have hsign : unsign (b :: bs) = b :: bs := by simp [unsign, h43, h45]
    refine ⟨hun, ?_, ?_, ?_⟩
    · rw [numeral, hun, hsign, List.takeWhile_eq_self_iff]
      exact hall
    · rw [trailing, hun, hsign, List.dropWhile_eq_nil_iff]
      exact hall
    · simp [negative, hun, h45]

theorem trailing_length (bs : List UInt8) : (trailing bs).length ≤ bs.length := by
  have hsign : ∀ l : List UInt8, (unsign l).length ≤ l.length := by
    intro l
    cases l with
    | nil => exact Nat.le_refl _
    | cons b l =>
      rw [unsign]
      split
      · exact Nat.le_succ _
      · exact Nat.le_refl _
  calc (trailing bs).length ≤ (unsign (unblank bs)).length := (List.dropWhile_sublist _).length_le
    _ ≤ (unblank bs).length := hsign _
    _ ≤ bs.length := (List.dropWhile_sublist _).length_le

/-- The error is reported for what comes after the number. -/
theorem scanned_lt_iff (bs : List UInt8) : scanned bs < bs.length ↔ trailing bs ≠ [] := by
  have hle := trailing_length bs
  rw [scanned, ← List.length_pos_iff]
  omega

/-! ## The limit -/

/-- What becomes of a string that is no limit and has a number at its start. -/
theorem limitGet_number {s : Text} (hs : s.bytes ≠ unlimited) (hn : numeral s.bytes ≠ [])
    (old : Nat) : limitGet (some s) old = if Representable s.bytes then
      some (converted s.bytes, decide (trailing s.bytes ≠ [])) else none := by
  have hun : unblank s.bytes ≠ [] := by
    intro h
    rw [numeral, h] at hn
    exact hn rfl
  simp only [limitGet, if_neg hs, scanf, if_neg hun, if_neg hn]
  split
  · simp [scanned_lt_iff]
  · rfl

/-- A string without a number at its start changes nothing. -/
theorem limitGet_none {s : Text} (hs : s.bytes ≠ unlimited) (hn : numeral s.bytes = [])
    (old : Nat) : limitGet (some s) old = some (old, decide (s.bytes ≠ [])) := by
  simp only [limitGet, if_neg hs, scanf]
  by_cases hun : unblank s.bytes = []
  · simp [hun, List.length_pos_iff]
  · have hne : s.bytes ≠ [] := by
      intro h
      rw [h] at hun
      exact hun rfl
    simp [hun, hn, hne]

theorem Text.limit_none {s : Text} (hs : s.bytes ≠ unlimited) (hn : ¬Number s.bytes) :
    s.limit = none := by
  rw [limit, if_neg hs, if_neg fun h => hn h.1]

/-- A string without a number at its start is no limit. -/
theorem obeys_none_iff {s : Text} (hs : s.bytes ≠ unlimited) (hn : numeral s.bytes = [])
    (old : Nat) : Obeys (some s) old (limitGet (some s) old) ↔ s.bytes ≠ [] := by
  have hnot : ¬Number s.bytes := fun h => h.1 (h.parts.2.1.symm.trans hn)
  rw [Obeys, limitGet_none hs hn, Text.limit_none hs hnot]
  simp

/-- A number is a limit if it fits. -/
theorem obeys_number_iff {s : Text} (hs : s.bytes ≠ unlimited) (hn : Number s.bytes) (old : Nat) :
    Obeys (some s) old (limitGet (some s) old) ↔
      decimal s.bytes < 2 ^ 64 ∧ s.bytes.length < 2 ^ 31 := by
  obtain ⟨-, hnum, htrail, hneg⟩ := hn.parts
  have hrep : Representable s.bytes ↔ decimal s.bytes < 2 ^ 64 ∧ s.bytes.length < 2 ^ 31 := by
    rw [Representable, hnum, scanned, htrail, List.length_nil, Nat.sub_zero]
  have hval : converted s.bytes = decimal s.bytes := by
    rw [converted, hneg, hnum]
    rfl
  have hne : numeral s.bytes ≠ [] := fun h => hn.1 (hnum.symm.trans h)
  rw [Obeys, limitGet_number hs hne, hval, htrail]
  by_cases hr : Representable s.bytes
  · have hlim : s.limit = some (decimal s.bytes) := by
      rw [Text.limit, if_neg hs, if_pos ⟨hn, (hrep.1 hr).1⟩]
    rw [if_pos hr, hlim]
    simpa using hrep.1 hr
  · rw [if_neg hr]
    exact iff_of_false (by simp) (mt hrep.2 hr)

/-- Anything else that starts with a number has to be reported, with the limit as it was. -/
theorem obeys_mixed_iff {s : Text} (hs : s.bytes ≠ unlimited) (hn : numeral s.bytes ≠ [])
    (hnot : ¬Number s.bytes) (old : Nat) : Obeys (some s) old (limitGet (some s) old) ↔
      Representable s.bytes ∧ trailing s.bytes ≠ [] ∧ converted s.bytes = old := by
  rw [Obeys, limitGet_number hs hn, Text.limit_none hs hnot]
  by_cases hr : Representable s.bytes
  · rw [if_pos hr]
    simp [hr, and_comm]
  · rw [if_neg hr]
    exact iff_of_false (by simp) fun h => hr h.1

theorem obeys_iff (limit : Option Text) (old : Nat) :
    Obeys limit old (limitGet limit old) ↔ Readable limit old := by
  cases limit with
  | none => exact iff_of_true rfl fun s hs => by cases hs
  | some s =>
    have hread : Readable (some s) old ↔ _ :=
      ⟨fun h => h s rfl, fun h s' hs' => Option.some.inj hs' ▸ h⟩
    rw [hread]
    by_cases hmax : s.bytes = unlimited
    · simp [Obeys, hmax, limitGet, Text.limit]
    by_cases hn : numeral s.bytes = []
    · have hnot : ¬Number s.bytes := fun h => h.1 (h.parts.2.1.symm.trans hn)
      rw [obeys_none_iff hmax hn]
      simp [hmax, hn, hnot]
    by_cases hnum : Number s.bytes
    · rw [obeys_number_iff hmax hnum]
      simp [hmax, hn, hnum, hnum.parts.2.2.1]
    · rw [obeys_mixed_iff hmax hn hnum]
      simp [hmax, hn, hnum]

theorem Obeys.isSome {limit : Option Text} {old : Nat} {r : Option (Nat × Bool)}
    (h : Obeys limit old r) : ∃ n bad, r = some (n, bad) := by
  cases limit <;> exact ⟨_, _, h⟩

/-- Both limits. -/
theorem configure_iff (cfg : MsgqCfg) (warn limit : Option Text) :
    (∃ cfg' badWarn badLimit, cfg.configure warn limit = some (cfg', badWarn, badLimit) ∧
      Obeys warn cfg.sizeWarn (some (cfg'.sizeWarn, badWarn)) ∧
      Obeys limit cfg.sizeLimit (some (cfg'.sizeLimit, badLimit))) ↔
    Readable warn cfg.sizeWarn ∧ Readable limit cfg.sizeLimit := by
  rw [← obeys_iff, ← obeys_iff]
  constructor
  · rintro ⟨cfg', badWarn, badLimit, hcfg, hwarn, hlimit⟩
    simp only [MsgqCfg.configure, Option.bind_eq_bind, Option.bind_eq_some_iff,
      Option.some.injEq, Prod.mk.injEq] at hcfg
    obtain ⟨⟨w, bw⟩, hw, ⟨l, bl⟩, hl, rfl, rfl, rfl⟩ := hcfg
    rw [hw, hl]
    exact ⟨hwarn, hlimit⟩
  · rintro ⟨hwarn, hlimit⟩
    obtain ⟨w, bw, hw⟩ := hwarn.isSome
    obtain ⟨l, bl, hl⟩ := hlimit.isSome
    rw [hw] at hwarn
    rw [hl] at hlimit
    exact ⟨⟨w, l⟩, bw, bl, by simp [MsgqCfg.configure, hw, hl], hwarn, hlimit⟩

/-- **Which strings are read as they should be**, for one limit and for both. -/
theorem limit_exact_iff (cfg : MsgqCfg) (warn limit : Option Text) (old : Nat) :
    (Obeys limit old (limitGet limit old) ↔ Readable limit old) ∧
    ((∃ cfg' badWarn badLimit, cfg.configure warn limit = some (cfg', badWarn, badLimit) ∧
        Obeys warn cfg.sizeWarn (some (cfg'.sizeWarn, badWarn)) ∧
        Obeys limit cfg.sizeLimit (some (cfg'.sizeLimit, badLimit))) ↔
      Readable warn cfg.sizeWarn ∧ Readable limit cfg.sizeLimit) :=
  ⟨obeys_iff limit old, configure_iff cfg warn limit⟩

/-- "100k", with no limit before: the limit is 100 when the error is reported. -/
theorem changes_rejected : ¬∀ (limit : Option Text) (old : Nat),
    Obeys limit old (limitGet limit old) := by
  intro hall
  let s : Text := ⟨[49, 48, 48, 107], by decide⟩
  have h : limitGet (some s) sizeMax = some (s.limit.getD sizeMax, s.limit.isNone) :=
    hall (some s) sizeMax
  exact absurd h (by decide +kernel)

end
end Malamute.L2
