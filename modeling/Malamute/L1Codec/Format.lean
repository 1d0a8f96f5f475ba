import Malamute.L1Codec.Read
import Mathlib.Data.List.Basic
import Mathlib.Data.List.Forall2

/-!
# The format of a message

Which bytes a message may have on the wire, said without a parser (`Wire.Written`). A string may
have more bytes than are read, behind a NUL, and so may the frame, behind its last field.

* `recv_of_written`, `written_of_recv`: `mlm_proto_recv` reads a message from a frame, with every
  field inside it, exactly when the frame has the format of the message.
* `Wire.Written.shortest`: what `mlm_proto_send` writes is the shortest of them.
* `format_exact`.
-/
namespace Malamute.L1

/-- The bytes `bs` are the number `n` in network order. -/
def SpelledNumber (size n : Nat) (bs : List UInt8) : Prop :=
  bs.length = size ∧ bs.foldl (fun n b => 256 * n + b.toNat) 0 = n

/-- The bytes `bs` are a length and as many bytes, of which `s` are those before the first NUL. -/
def SpelledStr (s : Str) (bs : List UInt8) : Prop :=
  ∃ n cs, bs = n :: cs ∧ cs.length = n.toNat ∧ cs.takeWhile (· ≠ 0) = s.bytes

/-- The bytes `bs` are the field of one item of `p`. -/
def Item.Spelled (p : Proto) (bs : List UInt8) : Item → Prop
  | .protocol s => SpelledStr s bs
  | .version n => SpelledNumber 2 n.toNat bs
  | .string f => SpelledStr (p.str f) bs
  | .statusCode => SpelledNumber 2 p.statusCode.toNat bs
  | .amount => SpelledNumber 2 p.amount.toNat bs
  | .timeout => SpelledNumber 4 p.timeout.toNat bs
  | .content => bs = []

/-- The frame `body` and what follows it are the message `w`. -/
structure Wire.Written (w : Wire) (body : Frame) (more : List Frame) : Prop where
  fields : ∃ fs trailing, body = 0xAA :: 0xA8 :: w.id.code :: (fs.flatten ++ trailing) ∧
    List.Forall₂ (fun i bs => i.Spelled (w.load .new) bs) (layout w.id) fs
  content : .content ∈ layout w.id → (w.load .new).content = some more

section
variable {p q : Proto} {bs buf : List UInt8} {s : Str} {more : List Frame} {i : Item}
  {is : List Item} {fs : List (List UInt8)} {w : Wire}

/-! ## Numbers and strings -/

theorem ofBytes_of_spelled {cs : List UInt8} (hs : cs.takeWhile (· ≠ 0) = s.bytes) :
    Str.ofBytes cs = s := by
  apply Str.ext
  show (cs.takeWhile (· ≠ 0)).take 255 = s.bytes
  rw [hs]
  exact List.take_of_length_le s.short

theorem getString_spelled (h : SpelledStr s bs) (buf : List UInt8) :
    getString (bs ++ buf) = some (s, buf) := by
  obtain ⟨n, cs, rfl, hlen, hs⟩ := h
  simp only [getString, List.cons_append, List.length_append]
  rw [if_neg (by omega), ← hlen, List.take_left, List.drop_left, ofBytes_of_spelled hs]

theorem spelled_of_getString (h : getString buf = some (s, bs)) :
    ∃ cs, buf = cs ++ bs ∧ SpelledStr s cs := by
  cases buf with
  | nil => cases h
  | cons n buf =>
    simp only [getString] at h
    split at h
    · cases h
    · rename_i hlen
      cases h
      have htake : (buf.take n.toNat).length = n.toNat := by
        rw [List.length_take]
        omega
      have hn := n.toNat_lt
      refine ⟨n :: buf.take n.toNat, by simp, n, _, rfl, htake, ?_⟩
      refine (List.take_of_length_le ?_).symm
      have hwhile : ((buf.take n.toNat).takeWhile (· ≠ 0)).length ≤ (buf.take n.toNat).length :=
        (List.takeWhile_sublist _).length_le
      omega

theorem number2_toNat (b₀ b₁ : UInt8) :
    ((b₀.toUInt16 <<< 8) + b₁.toUInt16).toNat = 256 * b₀.toNat + b₁.toNat := by
  have h₀ := b₀.toNat_lt
  have h₁ := b₁.toNat_lt
  simp [UInt16.toNat_add, Nat.shiftLeft_eq]
  omega

theorem number4_toNat (b₀ b₁ b₂ b₃ : UInt8) :
    ((b₀.toUInt32 <<< 24) + (b₁.toUInt32 <<< 16) + (b₂.toUInt32 <<< 8) + b₃.toUInt32).toNat =
      256 * (256 * (256 * b₀.toNat + b₁.toNat) + b₂.toNat) + b₃.toNat := by
  have h₀ := b₀.toNat_lt
  have h₁ := b₁.toNat_lt
  have h₂ := b₂.toNat_lt
  have h₃ := b₃.toNat_lt
  simp [UInt32.toNat_add, Nat.shiftLeft_eq]
  omega

theorem spelledNumber2 {n : Nat} (h : SpelledNumber 2 n bs) :
    ∃ b₀ b₁, bs = [b₀, b₁] ∧ n = 256 * b₀.toNat + b₁.toNat := by
  obtain ⟨hlen, hn⟩ := h
  obtain ⟨b₀, b₁, rfl⟩ := List.length_eq_two.1 hlen
  exact ⟨b₀, b₁, rfl, by simpa using hn.symm⟩

theorem spelledNumber4 {n : Nat} (h : SpelledNumber 4 n bs) : ∃ b₀ b₁ b₂ b₃, bs = [b₀, b₁, b₂, b₃] ∧
    n = 256 * (256 * (256 * b₀.toNat + b₁.toNat) + b₂.toNat) + b₃.toNat := by
  obtain ⟨hlen, hn⟩ := h
  obtain ⟨b₀, b₁, b₂, b₃, rfl⟩ := List.length_eq_four.1 hlen
  exact ⟨b₀, b₁, b₂, b₃, rfl, by simpa using hn.symm⟩

theorem getNumber2_spelled {n : UInt16} (h : SpelledNumber 2 n.toNat bs) (buf : List UInt8) :
    getNumber2 (bs ++ buf) = some (n, buf) := by
  obtain ⟨b₀, b₁, rfl, hn⟩ := spelledNumber2 h
  have heq : (b₀.toUInt16 <<< 8) + b₁.toUInt16 = n := by
    apply UInt16.toNat_inj.1
    rw [number2_toNat, hn]
  simp only [getNumber2, List.cons_append, List.nil_append, heq]

theorem getNumber4_spelled {n : UInt32} (h : SpelledNumber 4 n.toNat bs) (buf : List UInt8) :
    getNumber4 (bs ++ buf) = some (n, buf) := by
  obtain ⟨b₀, b₁, b₂, b₃, rfl, hn⟩ := spelledNumber4 h
  have heq : (b₀.toUInt32 <<< 24) + (b₁.toUInt32 <<< 16) + (b₂.toUInt32 <<< 8) + b₃.toUInt32 =
      n := by
    apply UInt32.toNat_inj.1
    rw [number4_toNat, hn]
  simp only [getNumber4, List.cons_append, List.nil_append, heq]

theorem spelled_of_getNumber2 {n : UInt16} (h : getNumber2 buf = some (n, bs)) :
    ∃ cs, buf = cs ++ bs ∧ SpelledNumber 2 n.toNat cs := by
  unfold getNumber2 at h
  split at h
  · rename_i b₀ b₁ rest
    cases h
    refine ⟨[b₀, b₁], rfl, rfl, ?_⟩
    rw [number2_toNat]
    simp
  · cases h

theorem spelled_of_getNumber4 {n : UInt32} (h : getNumber4 buf = some (n, bs)) :
    ∃ cs, buf = cs ++ bs ∧ SpelledNumber 4 n.toNat cs := by
  unfold getNumber4 at h
  split at h
  · rename_i b₀ b₁ b₂ b₃ rest
    cases h
    refine ⟨[b₀, b₁, b₂, b₃], rfl, rfl, ?_⟩
    rw [number4_toNat]
    simp
  · cases h

/-! ## Reading what has the format -/

theorem getItem_spelled (h : i.Spelled p bs) (hm : i = .content → more = p.content.getD [[]])
    (q : Proto) (buf : List UInt8) :
    getItem q (bs ++ buf) more i = .ok (copyItem p q i, buf, itemMore more i) := by
  cases i with
  | content =>
    obtain rfl : bs = [] := h
    simp [getItem, copyItem, itemMore, hm rfl]
  | protocol s => simp [getItem, getString_spelled h, copyItem, itemMore]
  | version n => simp [getItem, getNumber2_spelled h, copyItem, itemMore]
  | string f => simp [getItem, getString_spelled h, copyItem, itemMore]
  | statusCode => simp [getItem, getNumber2_spelled h, copyItem, itemMore]
  | amount => simp [getItem, getNumber2_spelled h, copyItem, itemMore]
  | timeout => simp [getItem, getNumber4_spelled h, copyItem, itemMore]

theorem skipItem_spelled (h : i.Spelled p bs) (buf : List UInt8) :
    skipItem (bs ++ buf) i = some buf := by
  cases i with
  | content =>
    obtain rfl : bs = [] := h
    rfl
  | protocol s => simp [skipItem, getString_spelled h]
  | string f => simp [skipItem, getString_spelled h]
  | timeout => simp [skipItem, getNumber4_spelled h]
  | version n => simp [skipItem, getNumber2_spelled h]
  | statusCode => simp [skipItem, getNumber2_spelled h]
  | amount => simp [skipItem, getNumber2_spelled h]

theorem getItems_spelled (h : List.Forall₂ (fun i bs => i.Spelled p bs) is fs)
    (hc : ContentLast is) (hm : .content ∈ is → more = p.content.getD [[]]) (q : Proto)
    (trailing : List UInt8) : getItems is q (fs.flatten ++ trailing) more =
      (is.foldl (copyItem p) q, .ok, if .content ∈ is then [] else more) := by
  induction h generalizing q more with
  | nil => rfl
  | @cons i bs is fs hi his ih =>
    have hget := getItem_spelled hi (fun h => hm (by simp [h])) q (fs.flatten ++ trailing)
    simp only [getItems, List.flatten_cons, List.append_assoc, hget, List.foldl_cons]
    by_cases hcontent : i = .content
    · obtain rfl := hc.1 hcontent
      subst hcontent
      rfl
    · have hmore : itemMore more i = more := by
        cases i <;> first | exact absurd rfl hcontent | rfl
      have hmem : Item.content ∈ i :: is ↔ Item.content ∈ is := by
        simp [List.mem_cons, Ne.symm hcontent]
      rw [hmore, ih hc.2 fun h => hm (hmem.2 h)]
      simp only [hmem]

theorem fits_spelled (h : List.Forall₂ (fun i bs => i.Spelled p bs) is fs)
    (trailing : List UInt8) : fits is (fs.flatten ++ trailing) = true := by
  induction h with
  | nil => rfl
  | cons hi _ ih => simp only [fits, List.flatten_cons, List.append_assoc, skipItem_spelled hi, ih]

theorem getNumber2_signature (buf : List UInt8) :
    getNumber2 (0xAA :: 0xA8 :: buf) = some (0xAAA8, buf) :=
  getNumber2_putNumber2 0xAAA8 buf

theorem wellFormed_of_written {body : Frame} (h : w.Written body more) :
    wellFormed body = true := by
  obtain ⟨⟨fs, trailing, rfl, hfs⟩, -⟩ := h
  simp [wellFormed, getNumber2_signature, getNumber1, fits_spelled hfs]

/-- A frame with the format of a message is read as this message, and no other field changes. -/
theorem recv_of_written {rid body : Frame} (h : w.Written body more) (p : Proto) :
    recv p (rid :: body :: more) = (w.load { p with routingId := some rid }, .ok,
      if .content ∈ layout w.id then [] else more) := by
  obtain ⟨⟨fs, trailing, rfl, hfs⟩, hc⟩ := h
  have hm : Item.content ∈ layout w.id → more = (w.load .new).content.getD [[]] := fun h => by
    rw [hc h]
    rfl
  simp only [recv, recvBody, getNumber2_signature, getNumber1, Id.ofCode_code, ne_eq,
    not_true_eq_false, if_false]
  rw [getItems_spelled hfs (layout_contentLast _) hm]
  exact Prod.ext (foldl_copyItem_load w { p with routingId := some rid }) rfl

/-! ## What is read has the format -/

theorem spelled_agree (h : i.Spelled p bs) (ha : Agree p q i) : i.Spelled q bs := by
  cases i with
  | content => exact h
  | protocol s => exact h
  | version n => exact h
  | _ =>
    simp only [Agree] at ha
    simp only [Item.Spelled, ← ha]
    exact h

theorem agree_refl (p : Proto) (i : Item) : Agree p p i := by
  cases i <;> first | rfl | trivial

theorem Agree.trans {r : Proto} (h : Agree p q i) (h' : Agree q r i) : Agree p r i := by
  cases i <;> first | trivial | exact Eq.trans h h'

/-- What is read is a field, and the other fields are not touched. -/
theorem spelled_of_getItem {p' : Proto} {buf' : List UInt8} {more' : List Frame}
    (h : getItem p buf more i = .ok (p', buf', more')) :
    (∃ bs, buf = bs ++ buf' ∧ i.Spelled p' bs) ∧ ∀ j, j ≠ i → Agree p p' j := by
  cases i with
  | protocol s =>
    simp only [getItem] at h
    split at h
    · cases h
    · rename_i t b hg
      split at h
      · cases h
      · rename_i hs
        cases h
        rw [← Decidable.not_not.1 hs]
        exact ⟨spelled_of_getString hg, fun j _ => agree_refl p j⟩
  | version n =>
    simp only [getItem] at h
    split at h
    · cases h
    · rename_i t b hg
      split at h
      · cases h
      · rename_i hs
        cases h
        rw [← Decidable.not_not.1 hs]
        exact ⟨spelled_of_getNumber2 hg, fun j _ => agree_refl p j⟩
  | string f =>
    simp only [getItem] at h
    split at h
    · cases h
    · rename_i t b hg
      cases h
      have hset : (p.setStr f t).str f = t := by cases f <;> rfl
      obtain ⟨bs, hbuf, hbs⟩ := spelled_of_getString hg
      refine ⟨⟨bs, hbuf, ?_⟩, fun j hj => ?_⟩
      · simp only [Item.Spelled, hset]
        exact hbs
      · cases j with
        | string g => cases f <;> cases g <;> first | rfl | exact absurd rfl hj
        | _ => cases f <;> first | rfl | trivial
  | statusCode | amount | timeout =>
    simp only [getItem] at h
    split at h
    · cases h
    · rename_i t b hg
      cases h
      refine ⟨?_, fun j hj => ?_⟩
      · first | exact spelled_of_getNumber2 hg | exact spelled_of_getNumber4 hg
      · cases j with
        | string g => cases g <;> rfl
        | _ => first | exact absurd rfl hj | rfl | trivial
  | content =>
    cases h
    refine ⟨⟨[], rfl, rfl⟩, fun j hj => ?_⟩
    cases j with
    | string g => cases g <;> rfl
    | _ => first | exact absurd rfl hj | rfl | trivial

theorem spelled_of_getItems {rest : List Frame} (hn : is.Nodup)
    (h : getItems is p buf more = (q, .ok, rest)) (hf : fits is buf = true) :
    (∃ fs trailing, buf = fs.flatten ++ trailing ∧
      List.Forall₂ (fun i bs => i.Spelled q bs) is fs) ∧ ∀ j, j ∉ is → Agree p q j := by
  induction is generalizing p buf more with
  | nil =>
    cases h
    exact ⟨⟨[], buf, rfl, .nil⟩, fun j _ => agree_refl _ j⟩
  | cons i is ih =>
    obtain ⟨hi, hn⟩ := List.nodup_cons.1 hn
    simp only [fits] at hf
    split at hf
    · cases hf
    · rename_i b hb
      simp only [getItems] at h
      rcases getItem_fits (p := p) (m := more) hb with hg | ⟨p₁, more₁, hg⟩
      · rw [hg] at h
        cases h
      · rw [hg] at h
        obtain ⟨⟨fs, trailing, rfl, hfs⟩, hkeep⟩ := ih hn h hf
        obtain ⟨⟨bs, rfl, hbs⟩, hother⟩ := spelled_of_getItem hg
        refine ⟨⟨bs :: fs, trailing, by simp, .cons (spelled_agree hbs (hkeep i hi)) hfs⟩, ?_⟩
        intro j hj
        obtain ⟨hji, hjis⟩ := not_or.1 (mt List.mem_cons.2 hj)
        exact (hother j hji).trans (hkeep j hjis)

/-- The message that an object stands for has the object's fields. -/
theorem agree_of_wire (h : q.wire = some w) : q.id = w.id.code ∧
    (∀ i ∈ layout w.id, i ≠ .content → Agree q (w.load .new) i) ∧
    (.content ∈ layout w.id → (w.load .new).content = some (q.content.getD [[]])) := by
  unfold Proto.wire at h
  obtain ⟨i, hi, rfl⟩ := Option.map_eq_some_iff.1 h
  have hcode := Id.code_of_ofCode hi
  cases i <;> refine ⟨hcode.symm, ?_, ?_⟩ <;> simp [layout, Wire.id, Wire.load, Agree, Proto.str]

theorem layout_nodup (i : Id) : (layout i).Nodup := by
  cases i <;> decide

theorem spelled_agrees (h : List.Forall₂ (fun i bs => i.Spelled p bs) is fs)
    (ha : ∀ i ∈ is, i ≠ .content → Agree p q i) :
    List.Forall₂ (fun i bs => i.Spelled q bs) is fs := by
  induction h with
  | nil => exact .nil
  | @cons i bs is fs hi _ ih =>
    refine .cons ?_ (ih fun j hj => ha j (List.mem_cons_of_mem _ hj))
    by_cases hcontent : i = .content
    · subst hcontent
      exact hi
    · exact spelled_agree hi (ha i List.mem_cons_self hcontent)

theorem signature_bytes {body : Frame} (h : getNumber2 body = some (0xAAA8, buf)) :
    body = 0xAA :: 0xA8 :: buf := by
  obtain ⟨cs, rfl, hcs⟩ := spelled_of_getNumber2 h
  obtain ⟨b₀, b₁, rfl, hn⟩ := spelledNumber2 hcs
  have hn : 43688 = 256 * b₀.toNat + b₁.toNat := hn
  have h₁ := b₁.toNat_lt
  have hb₀ : b₀ = 0xAA := UInt8.toNat_inj.1 (show b₀.toNat = 170 by omega)
  have hb₁ : b₁ = 0xA8 := UInt8.toNat_inj.1 (show b₁.toNat = 168 by omega)
  rw [hb₀, hb₁]
  rfl

/-- The fields of a frame that holds them all are read one after the other. -/
theorem recvBody_complete {body : Frame} {rest : List Frame}
    (h : recvBody p body more = (q, .ok, rest)) (hwf : wellFormed body = true) :
    ∃ i buf, body = 0xAA :: 0xA8 :: Id.code i :: buf ∧ fits (layout i) buf = true ∧
      getItems (layout i) { p with id := i.code } buf more = (q, .ok, rest) := by
  unfold recvBody at h
  unfold wellFormed at hwf
  split at h
  · rename_i hn
    rw [hn] at hwf
    cases hwf
  · rename_i signature buf hn
    simp only [hn, Bool.and_eq_true, decide_eq_true_eq] at hwf
    obtain ⟨rfl, hwf⟩ := hwf
    rw [if_neg (by simp)] at h
    cases buf with
    | nil => cases hwf
    | cons code buf =>
      simp only [getNumber1] at h hwf
      split at h
      · cases h
      · rename_i i hi
        simp only [hi] at hwf
        obtain rfl : i.code = code := Id.code_of_ofCode hi
        exact ⟨i, buf, signature_bytes hn, hwf, h⟩

/-- What `mlm_proto_recv` reads, with every field inside the frame, has the format. -/
theorem written_of_recv {rid body : Frame} {rest : List Frame}
    (h : recv p (rid :: body :: more) = (q, .ok, rest)) (hwf : wellFormed body = true)
    (hw : q.wire = some w) : w.Written body more := by
  obtain ⟨hid, hfields, hcontent⟩ := agree_of_wire hw
  obtain ⟨i, buf, rfl, hfits, hitems⟩ := recvBody_complete h hwf
  have hcode := getItems_id (layout i) { p with routingId := some rid, id := i.code } buf more
  rw [hitems] at hcode
  have hi : i = w.id := by
    have hsame : i.code = w.id.code := hcode.symm.trans hid
    rw [← Option.some_inj, ← Id.ofCode_code i, ← Id.ofCode_code w.id, hsame]
  subst hi
  obtain ⟨⟨fs, trailing, rfl, hfs⟩, -⟩ := spelled_of_getItems (layout_nodup _) hitems hfits
  refine ⟨⟨fs, trailing, rfl, spelled_agrees hfs hfields⟩, fun hm => ?_⟩
  rw [hcontent hm, getItems_content (layout_contentLast _) hm hfits hitems]
  rfl

/-! ## The shortest form -/

theorem spelledStr_shortest (h : SpelledStr s bs) : (putString s).length ≤ bs.length ∧
    (bs.length = (putString s).length → bs = putString s) := by
  obtain ⟨n, cs, rfl, hlen, hs⟩ := h
  have hprefix : s.bytes <+: cs := by
    rw [← hs]
    exact List.takeWhile_prefix _
  have hle := hprefix.length_le
  refine ⟨by simpa [putString] using hle, fun heq => ?_⟩
  have hsame : s.bytes = cs := hprefix.eq_of_length (by simpa [putString] using heq.symm)
  subst hsame
  rw [putString, hlen, UInt8.ofNat_toNat]

theorem spelledNumber2_unique {n : UInt16} (h : SpelledNumber 2 n.toNat bs) :
    bs = putNumber2 n := by
  obtain ⟨b₀, b₁, rfl, hn⟩ := spelledNumber2 h
  have h₀ := b₀.toNat_lt
  have h₁ := b₁.toNat_lt
  unfold putNumber2
  congr 1
  · apply UInt8.toNat_inj.1
    simp [Nat.shiftRight_eq_div_pow]
    omega
  · congr 1
    apply UInt8.toNat_inj.1
    simp
    omega

theorem spelledNumber4_unique {n : UInt32} (h : SpelledNumber 4 n.toNat bs) :
    bs = putNumber4 n := by
  obtain ⟨b₀, b₁, b₂, b₃, rfl, hn⟩ := spelledNumber4 h
  have h₀ := b₀.toNat_lt
  have h₁ := b₁.toNat_lt
  have h₂ := b₂.toNat_lt
  have h₃ := b₃.toNat_lt
  have hb₀ : b₀ = (n >>> 24).toUInt8 := UInt8.toNat_inj.1 (by
    simp [Nat.shiftRight_eq_div_pow]
    omega)
  have hb₁ : b₁ = (n >>> 16).toUInt8 := UInt8.toNat_inj.1 (by
    simp [Nat.shiftRight_eq_div_pow]
    omega)
  have hb₂ : b₂ = (n >>> 8).toUInt8 := UInt8.toNat_inj.1 (by
    simp [Nat.shiftRight_eq_div_pow]
    omega)
  have hb₃ : b₃ = n.toUInt8 := UInt8.toNat_inj.1 (by
    simp
    omega)
  rw [putNumber4, ← hb₀, ← hb₁, ← hb₂, ← hb₃]

theorem putItem_shortest (h : i.Spelled p bs) : (putItem p i).length ≤ bs.length ∧
    (bs.length = (putItem p i).length → bs = putItem p i) := by
  have hsame : bs = putItem p i → (putItem p i).length ≤ bs.length ∧
      (bs.length = (putItem p i).length → bs = putItem p i) := fun h =>
    ⟨Nat.le_of_eq (by rw [h]), fun _ => h⟩
  cases i with
  | protocol s => exact spelledStr_shortest h
  | string f => exact spelledStr_shortest h
  | timeout => exact hsame (spelledNumber4_unique h)
  | content => exact hsame h
  | version n => exact hsame (spelledNumber2_unique h)
  | statusCode => exact hsame (spelledNumber2_unique h)
  | amount => exact hsame (spelledNumber2_unique h)

theorem putItems_shortest (h : List.Forall₂ (fun i bs => i.Spelled p bs) is fs) :
    (is.flatMap (putItem p)).length ≤ fs.flatten.length ∧
      (fs.flatten.length = (is.flatMap (putItem p)).length →
        fs.flatten = is.flatMap (putItem p)) := by
  induction h with
  | nil => exact ⟨Nat.le_refl _, fun _ => rfl⟩
  | @cons i bs is fs hi _ ih =>
    obtain ⟨hle, heq⟩ := putItem_shortest hi
    obtain ⟨hles, heqs⟩ := ih
    simp only [List.flatMap_cons, List.flatten_cons, List.length_append]
    refine ⟨by omega, fun h => ?_⟩
    rw [heq (by omega), heqs (by omega)]

/-- What `mlm_proto_send` writes has the format. -/
theorem written_encode (w : Wire) :
    ∃ body more, w.encode = body :: more ∧ w.Written body more := by
  obtain ⟨body, more, he, hwf⟩ := wellFormed_encode w
  have hrecv := recv_encode w .new []
  rw [he] at hrecv
  exact ⟨body, more, he, written_of_recv hrecv hwf (wire_load ..)⟩

theorem Wire.Written.shortest {body body₀ : Frame} {more₀ : List Frame} (h : w.Written body more)
    (he : w.encode = body₀ :: more₀) : body₀.length ≤ body.length ∧
      (body.length = body₀.length → body = body₀) ∧ (.content ∈ layout w.id → more = more₀) := by
  obtain ⟨⟨fs, trailing, rfl, hfs⟩, hcontent⟩ := h
  rw [encode_eq] at he
  cases he
  obtain ⟨hle, heq⟩ := putItems_shortest hfs
  have hsignature : putNumber2 0xAAA8 = [0xAA, 0xA8] := rfl
  simp only [hsignature, List.cons_append, List.nil_append, List.length_cons, List.length_append]
  refine ⟨by omega, fun hlen => ?_, fun hm => ?_⟩
  · have htrailing : trailing = [] := List.length_eq_zero_iff.1 (by omega)
    rw [heq (by omega), htrailing, List.append_nil]
  · rw [contentFrames, if_pos hm, hcontent hm]
    rfl

/-- **The format of a message.** `mlm_proto_recv` reads the message `w` from a frame, with every
field inside it, exactly when the frame and what follows it have the format of `w`; then it
changes no field that `w` does not carry, and leaves what follows unread unless it is the content.
What `mlm_proto_send` writes has the format, and every other frame that has it is longer. -/
theorem format_exact (p : Proto) (rid : Frame) (w : Wire) :
    (∀ body more, (∃ q rest, recv p (rid :: body :: more) = (q, .ok, rest) ∧
      wellFormed body = true ∧ q.wire = some w) ↔ w.Written body more) ∧
    (∀ body more, w.Written body more → recv p (rid :: body :: more) =
      (w.load { p with routingId := some rid }, .ok,
        if .content ∈ layout w.id then [] else more)) ∧
    ∃ body₀ more₀, w.encode = body₀ :: more₀ ∧ w.Written body₀ more₀ ∧
      ∀ body more, w.Written body more → body₀.length ≤ body.length ∧
        (body.length = body₀.length → body = body₀) ∧
        (.content ∈ layout w.id → more = more₀) := by
  refine ⟨fun body more => ⟨fun h => ?_, fun h => ?_⟩, fun body more h => recv_of_written h p, ?_⟩
  · obtain ⟨q, rest, hrecv, hwf, hw⟩ := h
    exact written_of_recv hrecv hwf hw
  · exact ⟨_, _, recv_of_written h p, wellFormed_of_written h, wire_load ..⟩
  · obtain ⟨body₀, more₀, he, h₀⟩ := written_encode w
    exact ⟨body₀, more₀, he, h₀, fun body more h => h.shortest he⟩

/-- Bytes behind the NUL of a stream's name and behind the name are not read. -/
theorem format_exact_padded : ∃ q rest,
    recv .new [[1], [0xAA, 0xA8, Id.streamWrite.code, 3, 115, 0, 7, 9], [2]] = (q, .ok, rest) ∧
      wellFormed [0xAA, 0xA8, Id.streamWrite.code, 3, 115, 0, 7, 9] = true ∧
      q.wire = some (.streamWrite (.ofBytes [115])) := by
  obtain ⟨hformat, -⟩ := format_exact .new [1] (.streamWrite (.ofBytes [115]))
  refine (hformat _ _).2 ⟨⟨[[3, 115, 0, 7]], [9], rfl, .cons ⟨3, [115, 0, 7], ?_⟩ .nil⟩, ?_⟩
  · exact ⟨rfl, rfl, rfl⟩
  · exact fun hm => absurd hm (by decide)

end
end Malamute.L1
