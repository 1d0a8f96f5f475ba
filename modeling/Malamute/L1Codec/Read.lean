import Malamute.L1Codec.Wire

/-!
# What a message read depends on

`mlm_proto_recv` reads into an object that holds an earlier message.

* `wire_of_decode`: a complete message overwrites every field it carries, so
  what is read does not depend on the object. `decode` is that message.
* `recv_tracker`: only a message that carries a tracker changes the tracker.
-/
namespace Malamute.L1

/-- The message in `frames`, if every field is there. -/
def decode : List Frame → Option Wire
  | [] => none
  | body :: more => if wellFormed body then (recvBody .new body more).1.wire else none

/-- The tracker that a message carries. -/
def Wire.tracker : Wire → Option Str
  | .mailboxSend _ _ trk _ _ => some trk
  | .mailboxDeliver _ _ _ trk _ => some trk
  | .serviceSend _ _ trk _ _ => some trk
  | .serviceDeliver _ _ _ trk _ => some trk
  | .confirm trk _ _ => some trk
  | _ => none

theorem wire_load (w : Wire) (p : Proto) : (w.load p).wire = some w := by
  cases w <;> rfl

theorem decode_encode (w : Wire) : decode w.encode = some w := by
  obtain ⟨body, more, he, hrecv⟩ := recvBody_encode w .new
  obtain ⟨body', more', he', hwf⟩ := wellFormed_encode w
  cases he.symm.trans he'
  rw [he, decode, if_pos hwf, hrecv]
  exact wire_load w .new

/-! ## Reading into another object -/

/-- Both objects have the same value in one field. -/
def Agree (p q : Proto) : Item → Prop
  | .protocol _ => True
  | .version _ => True
  | .string f => p.str f = q.str f
  | .statusCode => p.statusCode = q.statusCode
  | .amount => p.amount = q.amount
  | .timeout => p.timeout = q.timeout
  | .content => p.content = q.content

theorem agree_setStr {p q : Proto} (f : Field) (s : Str) :
    Agree (p.setStr f s) (q.setStr f s) (.string f) ∧
      ∀ j, Agree p q j → Agree (p.setStr f s) (q.setStr f s) j := by
  refine ⟨by cases f <;> rfl, fun j hj => ?_⟩
  cases j with
  | string g => cases f <;> cases g <;> first | rfl | exact hj
  | _ => cases f <;> exact hj

/-- One field read into two objects: it is the same in both, and the others stay
as they are. -/
theorem getItem_agree {p q p' : Proto} {buf buf' : List UInt8} {more more' : List Frame} {i : Item}
    (h : getItem p buf more i = .ok (p', buf', more')) :
    ∃ q', getItem q buf more i = .ok (q', buf', more') ∧ Agree p' q' i ∧
      (∀ j, Agree p q j → Agree p' q' j) ∧ p'.id = p.id ∧ q'.id = q.id := by
  have hset : ∀ f s (p : Proto), (p.setStr f s).id = p.id := by
    intro f s p
    cases f <;> rfl
  cases i with
  | protocol s =>
    simp only [getItem] at h ⊢
    split at h
    · cases h
    · split at h
      · cases h
      · rename_i hs
        cases h
        exact ⟨q, by rw [if_neg hs], trivial, fun _ hj => hj, rfl, rfl⟩
  | version n =>
    simp only [getItem] at h ⊢
    split at h
    · cases h
    · split at h
      · cases h
      · rename_i hs
        cases h
        exact ⟨q, by rw [if_neg hs], trivial, fun _ hj => hj, rfl, rfl⟩
  | string f =>
    simp only [getItem] at h ⊢
    split at h
    · cases h
    · cases h
      exact ⟨_, rfl, (agree_setStr f _).1, (agree_setStr f _).2, hset .., hset ..⟩
  | content =>
    simp only [getItem] at h
    cases h
    refine ⟨_, rfl, rfl, fun j hj => ?_, rfl, rfl⟩
    cases j with
    | string g => cases g <;> exact hj
    | content => rfl
    | _ => exact hj
  | _ =>
    simp only [getItem] at h ⊢
    split at h
    · cases h
    · cases h
      refine ⟨_, rfl, rfl, fun j hj => ?_, rfl, rfl⟩
      cases j with
      | string g => cases g <;> exact hj
      | _ => first | rfl | exact hj

/-- A field inside the frame is never found to be cut off. -/
theorem getItem_fits {p : Proto} {buf : List UInt8} {m : List Frame} {i : Item} {b : List UInt8}
    (h : skipItem buf i = some b) : getItem p buf m i = .error .malformed ∨
      ∃ p' more', getItem p buf m i = .ok (p', b, more') := by
  cases i with
  | content =>
    cases h
    exact .inr ⟨_, _, rfl⟩
  | protocol s =>
    simp only [skipItem, Option.map_eq_some_iff] at h
    obtain ⟨⟨t, b'⟩, hg, rfl⟩ := h
    simp only [getItem, hg]
    split
    · exact .inl rfl
    · exact .inr ⟨_, _, rfl⟩
  | version n =>
    simp only [skipItem, Option.map_eq_some_iff] at h
    obtain ⟨⟨t, b'⟩, hg, rfl⟩ := h
    simp only [getItem, hg]
    split
    · exact .inl rfl
    · exact .inr ⟨_, _, rfl⟩
  | _ =>
    simp only [skipItem, Option.map_eq_some_iff] at h
    obtain ⟨⟨t, b'⟩, hg, rfl⟩ := h
    simp only [getItem, hg]
    exact .inr ⟨_, _, rfl⟩

/-- The fields that have been read are the same in both objects: those of `is`,
and those on which the objects agreed before. -/
theorem getItems_agree {is : List Item} {p q p' : Proto} {buf : List UInt8}
    {more rest : List Frame} (hf : fits is buf = true)
    (h : getItems is p buf more = (p', .ok, rest)) :
    ∃ q', getItems is q buf more = (q', .ok, rest) ∧ (∀ i ∈ is, Agree p' q' i) ∧
      (∀ j, Agree p q j → Agree p' q' j) ∧ p'.id = p.id ∧ q'.id = q.id := by
  induction is generalizing p q buf more with
  | nil =>
    cases h
    exact ⟨q, rfl, by simp, fun _ hj => hj, rfl, rfl⟩
  | cons i is ih =>
    simp only [fits] at hf
    split at hf
    · cases hf
    · rename_i b hb
      simp only [getItems] at h ⊢
      rcases getItem_fits (p := p) (m := more) hb with hg | ⟨p₁, more₁, hg⟩
      · rw [hg] at h
        cases h
      · rw [hg] at h
        obtain ⟨q₁, hq, hi, hkeep, hid, hid'⟩ := getItem_agree (q := q) hg
        obtain ⟨q', hq', his, hkeep', hid₁, hid₁'⟩ := ih (q := q₁) hf h
        rw [hq]
        refine ⟨q', hq', ?_, fun j hj => hkeep' j (hkeep j hj), hid₁.trans hid, hid₁'.trans hid'⟩
        intro j hj
        rcases List.mem_cons.1 hj with rfl | hj
        · exact hkeep' _ hi
        · exact his j hj

theorem wire_congr {p q : Proto} {i : Id} (hp : p.id = i.code) (hq : q.id = i.code)
    (h : ∀ j ∈ layout i, Agree p q j) : p.wire = q.wire := by
  unfold Proto.wire
  rw [hp, hq, Id.ofCode_code]
  cases i <;> simp [layout, Agree, Proto.str] at h <;> simp [h]

/-- **A complete message does not depend on the object it is read into.** -/
theorem wire_of_decode {p q : Proto} {rid : Frame} {frames rest : List Frame} {w : Wire}
    (hd : decode frames = some w) (h : recv p (rid :: frames) = (q, .ok, rest)) :
    q.wire = some w := by
  cases frames with
  | nil => cases hd
  | cons body more =>
    simp only [decode] at hd
    split at hd
    · rename_i hwf
      have h : recvBody { p with routingId := some rid } body more = (q, .ok, rest) := h
      rw [← hd]
      unfold recvBody at h ⊢
      unfold wellFormed at hwf
      split at h
      · rename_i hn
        rw [hn] at hwf
        cases hwf
      · rename_i signature buf hn
        simp only [hn, Bool.and_eq_true, decide_eq_true_eq] at hwf
        obtain ⟨hsig, hwf⟩ := hwf
        rw [if_neg (by simp [hsig])] at h
        split at h
        · rename_i hb
          simp [hb] at hwf
        · rename_i code buf' hb
          simp only [hb] at hwf
          split at h
          · cases h
          · rename_i i hi
            simp only [hi] at hwf
            obtain ⟨r, hr, hall, -, hid, hid'⟩ := getItems_agree
              (q := { Proto.new with id := code }) hwf h
            simp only [hsig, ne_eq, not_true_eq_false, if_false, hr]
            have hcode := (Id.code_of_ofCode hi).symm
            exact wire_congr (hid.trans hcode) (hid'.trans hcode) hall
    · cases hd

/-! ## The tracker -/

theorem getItem_tracker {p p' : Proto} {buf buf' : List UInt8} {more more' : List Frame} {i : Item}
    (hi : i ≠ .string .tracker) (h : getItem p buf more i = .ok (p', buf', more')) :
    p'.tracker = p.tracker := by
  cases i with
  | string f =>
    simp only [getItem] at h
    split at h
    · cases h
    · cases h
      cases f <;> first | rfl | exact absurd rfl hi
  | content =>
    cases h
    rfl
  | protocol s =>
    simp only [getItem] at h
    split at h
    · cases h
    · split at h <;> cases h
      rfl
  | version n =>
    simp only [getItem] at h
    split at h
    · cases h
    · split at h <;> cases h
      rfl
  | _ =>
    simp only [getItem] at h
    split at h <;> cases h
    rfl

theorem getItems_tracker {is : List Item} (hn : .string .tracker ∉ is) (p : Proto)
    (buf : List UInt8) (more : List Frame) : (getItems is p buf more).1.tracker = p.tracker := by
  induction is generalizing p buf more with
  | nil => rfl
  | cons i is ih =>
    simp only [getItems]
    simp only [List.mem_cons, not_or] at hn
    split
    · rfl
    · rename_i p' buf' more' hg
      rw [ih hn.2, getItem_tracker (fun h => hn.1 h.symm) hg]

theorem getItems_id (is : List Item) (p : Proto) (buf : List UInt8) (more : List Frame) :
    (getItems is p buf more).1.id = p.id := by
  induction is generalizing p buf more with
  | nil => rfl
  | cons i is ih =>
    simp only [getItems]
    split
    · rfl
    · rename_i p' buf' more' hg
      obtain ⟨-, -, -, -, hid, -⟩ := getItem_agree (q := p) hg
      rw [ih, hid]

/-- A field that an explicit check looks at. -/
def Item.checked : Item → Bool
  | .protocol _ | .version _ => true
  | _ => false

theorem failsCheck_unchecked {is : List Item} (hn : ∀ i ∈ is, i.checked = false)
    (buf : List UInt8) : failsCheck is buf = false := by
  induction is generalizing buf with
  | nil => rfl
  | cons i is ih =>
    have hrest := ih fun j hj => hn j (List.mem_cons_of_mem _ hj)
    have hi := hn i List.mem_cons_self
    unfold failsCheck
    cases i with
    | protocol s => cases hi
    | version n => cases hi
    | content => exact hrest _
    | _ =>
      simp only [getItem]
      split
      · rename_i rc hg
        split at hg <;> cases hg
        rfl
      · exact hrest _

theorem tracker_wire {p : Proto} {w : Wire} {trk : Str} (h : p.wire = some w)
    (ht : w.tracker = some trk) : trk = p.tracker := by
  unfold Proto.wire at h
  simp only [Option.map_eq_some_iff] at h
  obtain ⟨i, -, rfl⟩ := h
  cases i <;> simp [Wire.tracker] at ht <;> exact ht.symm

theorem recvBody_tracker {p q : Proto} {rc : Rc} {body : Frame} {more rest : List Frame}
    (h : recvBody p body more = (q, rc, rest)) : q.tracker = p.tracker ∨
      (rc = .ok ∧ ∃ w, q.wire = some w ∧ w.tracker = some q.tracker) := by
  unfold recvBody at h
  split at h
  · cases h
    exact .inl rfl
  split at h
  · cases h
    exact .inl rfl
  split at h
  · cases h
    exact .inl rfl
  rename_i _ _ _ _ _ code buf _
  split at h
  · cases h
    exact .inl rfl
  rename_i i hi
  by_cases ht : .string .tracker ∈ layout i
  · right
    have hrc : rc = .ok := by
      have hne := getItems_rc (layout i) { p with id := code } buf more
      have hmal := getItems_malformed_iff (layout i) { p with id := code } buf more
      have hun : ∀ j ∈ layout i, j.checked = false := by
        cases i <;> simp [layout, Item.checked] at ht ⊢
      rw [failsCheck_unchecked hun, h] at hmal
      rw [h] at hne
      cases rc with
      | ok => rfl
      | interrupted => exact absurd rfl hne
      | malformed => cases hmal.1 rfl
    have hid : q.id = i.code := by
      have hkeep := getItems_id (layout i) { p with id := code } buf more
      rw [h] at hkeep
      exact hkeep.trans (Id.code_of_ofCode hi).symm
    refine ⟨hrc, ?_⟩
    unfold Proto.wire
    rw [hid, Id.ofCode_code]
    cases i <;> simp [layout] at ht <;> exact ⟨_, rfl, rfl⟩
  · have hkeep := getItems_tracker ht { p with id := code } buf more
    rw [h] at hkeep
    exact .inl hkeep

/-- **Only a message that carries a tracker changes the tracker.** -/
theorem recv_tracker {p q : Proto} {rc : Rc} {parts rest : List Frame}
    (h : recv p parts = (q, rc, rest)) : q.tracker = p.tracker ∨
      (rc = .ok ∧ ∃ w, q.wire = some w ∧ w.tracker = some q.tracker) := by
  match parts with
  | [] =>
    cases h
    exact .inl rfl
  | [rid] =>
    cases h
    exact .inl rfl
  | rid :: body :: more =>
    have h : recvBody { p with routingId := some rid } body more = (q, rc, rest) := h
    have hb := recvBody_tracker h
    exact hb

/-! ## The content -/

theorem getItems_content {is : List Item} (hc : ContentLast is) (hm : .content ∈ is) {p q : Proto}
    {buf : List UInt8} {more rest : List Frame} (hf : fits is buf = true)
    (h : getItems is p buf more = (q, .ok, rest)) : q.content = some more := by
  induction is generalizing p buf with
  | nil => cases hm
  | cons i is ih =>
    by_cases hi : i = .content
    · rw [hi, hc.1 hi] at h
      cases h
      rfl
    · have hmore : ∀ {p' buf' more'}, getItem p buf more i = .ok (p', buf', more') →
          more' = more := by
        intro p' buf' more' hg
        cases i <;> simp only [getItem] at hg <;> (repeat' split at hg) <;> cases hg <;>
          first | rfl | exact absurd rfl hi
      simp only [fits] at hf
      split at hf
      · cases hf
      · rename_i b hb
        simp only [getItems] at h
        rcases getItem_fits (p := p) (m := more) hb with hg | ⟨p₁, more₁, hg⟩
        · rw [hg] at h
          cases h
        · obtain rfl := hmore hg
          rw [hg] at h
          exact ih hc.2 ((List.mem_cons.1 hm).resolve_left fun h => hi h.symm) hf h

/-- **The content of a complete message** is what follows its first frame. -/
theorem recv_content {p q : Proto} {rid : Frame} {frames rest : List Frame} {w : Wire}
    (hd : decode frames = some w) (h : recv p (rid :: frames) = (q, .ok, rest))
    (hc : .content ∈ layout w.id) : q.content = some frames.tail := by
  have hw := wire_of_decode hd h
  cases frames with
  | nil => cases hd
  | cons body more =>
    simp only [decode] at hd
    split at hd
    · rename_i hwf
      have h : recvBody { p with routingId := some rid } body more = (q, .ok, rest) := h
      unfold recvBody at h
      unfold wellFormed at hwf
      split at h
      · rename_i hn
        rw [hn] at hwf
        cases hwf
      · rename_i signature buf hn
        simp only [hn, Bool.and_eq_true, decide_eq_true_eq] at hwf
        obtain ⟨hsig, hwf⟩ := hwf
        rw [if_neg (by simp [hsig])] at h
        split at h
        · rename_i hb
          simp [hb] at hwf
        · rename_i code buf' hb
          simp only [hb] at hwf
          split at h
          · cases h
          · rename_i i hi
            simp only [hi] at hwf
            have hid := getItems_id (layout i) { p with routingId := some rid, id := code } buf' more
            rw [h] at hid
            have hwi : w.id = i := by
              unfold Proto.wire at hw
              rw [hid, hi] at hw
              cases hw
              cases i <;> rfl
            rw [hwi] at hc
            exact getItems_content (layout_contentLast i) hc hwf h
    · cases hd

end Malamute.L1
