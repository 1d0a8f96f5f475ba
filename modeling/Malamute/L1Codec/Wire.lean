import Malamute.L1Codec.Proto

/-!
# Messages on the wire

`Wire` has one constructor for each message of the protocol, with the fields
it carries (`src/src/mlm_proto.xml`). `Wire.load` is what receiving it does to
the message object, `Proto.wire` the message the object stands for when it is
sent.

* `recvBody_encode`: `recv` reads back what `mlm_proto_send` wrote, whatever
  the object read into holds, leaves nothing unread and changes no field the
  message does not carry.
* `encode_of_wire`: what is sent depends on the fields of that message only.
* `wellFormed_encode`: a message that is sent is well formed.
-/
namespace Malamute.L1

inductive Wire where
  | connectionOpen (address : Str)
  | connectionPing
  | connectionPong
  | connectionClose
  | streamWrite (stream : Str)
  | streamRead (stream pattern : Str)
  | streamSend (subject : Str) (content : List Frame)
  | streamDeliver (address sender subject : Str) (content : List Frame)
  | mailboxSend (address subject tracker : Str) (timeout : UInt32) (content : List Frame)
  | mailboxDeliver (sender address subject tracker : Str) (content : List Frame)
  | serviceSend (address subject tracker : Str) (timeout : UInt32) (content : List Frame)
  | serviceOffer (address pattern : Str)
  | serviceDeliver (sender address subject tracker : Str) (content : List Frame)
  | ok (statusCode : UInt16) (statusReason : Str)
  | error (statusCode : UInt16) (statusReason : Str)
  | credit (amount : UInt16)
  | confirm (tracker : Str) (statusCode : UInt16) (statusReason : Str)
  | streamCancel (stream : Str)
  deriving DecidableEq

namespace Wire

def id : Wire → Id
  | connectionOpen _ => .connectionOpen
  | connectionPing => .connectionPing
  | connectionPong => .connectionPong
  | connectionClose => .connectionClose
  | streamWrite _ => .streamWrite
  | streamRead _ _ => .streamRead
  | streamSend _ _ => .streamSend
  | streamDeliver _ _ _ _ => .streamDeliver
  | mailboxSend _ _ _ _ _ => .mailboxSend
  | mailboxDeliver _ _ _ _ _ => .mailboxDeliver
  | serviceSend _ _ _ _ _ => .serviceSend
  | serviceOffer _ _ => .serviceOffer
  | serviceDeliver _ _ _ _ _ => .serviceDeliver
  | ok _ _ => .ok
  | error _ _ => .error
  | credit _ => .credit
  | confirm _ _ _ => .confirm
  | streamCancel _ => .streamCancel

/-- The fields of the message, stored in `p`. -/
def load (p : Proto) (w : Wire) : Proto :=
  let p := { p with id := w.id.code }
  match w with
  | connectionOpen a => { p with address := a }
  | connectionPing => p
  | connectionPong => p
  | connectionClose => p
  | streamWrite st => { p with stream := st }
  | streamRead st pat => { p with stream := st, pattern := pat }
  | streamSend sub c => { p with subject := sub, content := some c }
  | streamDeliver a snd sub c =>
    { p with address := a, sender := snd, subject := sub, content := some c }
  | mailboxSend a sub trk t c =>
    { p with address := a, subject := sub, tracker := trk, timeout := t, content := some c }
  | mailboxDeliver snd a sub trk c =>
    { p with sender := snd, address := a, subject := sub, tracker := trk, content := some c }
  | serviceSend a sub trk t c =>
    { p with address := a, subject := sub, tracker := trk, timeout := t, content := some c }
  | serviceOffer a pat => { p with address := a, pattern := pat }
  | serviceDeliver snd a sub trk c =>
    { p with sender := snd, address := a, subject := sub, tracker := trk, content := some c }
  | ok n r => { p with statusCode := n, statusReason := r }
  | error n r => { p with statusCode := n, statusReason := r }
  | credit n => { p with amount := n }
  | confirm trk n r => { p with tracker := trk, statusCode := n, statusReason := r }
  | streamCancel st => { p with stream := st }

/-- The frames of the message, without a routing id. -/
def encode (w : Wire) : List Frame := L1.encode (w.load .new)

end Wire

/-- The message that `mlm_proto_send` writes; `none` if the id is not one. -/
def Proto.wire (p : Proto) : Option Wire :=
  let body := p.content.getD [[]]
  (Id.ofCode p.id).map fun
  | .connectionOpen => .connectionOpen p.address
  | .connectionPing => .connectionPing
  | .connectionPong => .connectionPong
  | .connectionClose => .connectionClose
  | .streamWrite => .streamWrite p.stream
  | .streamRead => .streamRead p.stream p.pattern
  | .streamSend => .streamSend p.subject body
  | .streamDeliver => .streamDeliver p.address p.sender p.subject body
  | .mailboxSend => .mailboxSend p.address p.subject p.tracker p.timeout body
  | .mailboxDeliver => .mailboxDeliver p.sender p.address p.subject p.tracker body
  | .serviceSend => .serviceSend p.address p.subject p.tracker p.timeout body
  | .serviceOffer => .serviceOffer p.address p.pattern
  | .serviceDeliver => .serviceDeliver p.sender p.address p.subject p.tracker body
  | .ok => .ok p.statusCode p.statusReason
  | .error => .error p.statusCode p.statusReason
  | .credit => .credit p.amount
  | .confirm => .confirm p.tracker p.statusCode p.statusReason
  | .streamCancel => .streamCancel p.stream

/-! ## Numbers and strings -/

theorem getNumber2_putNumber2 (n : UInt16) (buf : List UInt8) :
    getNumber2 (putNumber2 n ++ buf) = some (n, buf) := by
  have h : ((n >>> 8).toUInt8.toUInt16 <<< 8) + n.toUInt8.toUInt16 = n := by
    apply UInt16.toNat_inj.1
    have := n.toNat_lt
    simp [UInt16.toNat_add, Nat.shiftRight_eq_div_pow, Nat.shiftLeft_eq]
    omega
  simp only [putNumber2, getNumber2, List.cons_append, List.nil_append, h]

theorem getNumber4_putNumber4 (n : UInt32) (buf : List UInt8) :
    getNumber4 (putNumber4 n ++ buf) = some (n, buf) := by
  have h : ((n >>> 24).toUInt8.toUInt32 <<< 24) + ((n >>> 16).toUInt8.toUInt32 <<< 16) +
      ((n >>> 8).toUInt8.toUInt32 <<< 8) + n.toUInt8.toUInt32 = n := by
    apply UInt32.toNat_inj.1
    have := n.toNat_lt
    simp [UInt32.toNat_add, Nat.shiftRight_eq_div_pow, Nat.shiftLeft_eq]
    omega
  simp only [putNumber4, getNumber4, List.cons_append, List.nil_append, h]

theorem getString_putString (s : Str) (buf : List UInt8) :
    getString (putString s ++ buf) = some (s, buf) := by
  have hn : (UInt8.ofNat s.bytes.length).toNat = s.bytes.length := by
    rw [UInt8.toNat_ofNat']; have := s.short; omega
  simp [putString, getString, hn, Str.ofBytes_bytes]

/-! ## Fields -/

/-- Copy the field of one item from `p` to `q`. -/
def copyItem (p q : Proto) : Item → Proto
  | .protocol _ => q
  | .version _ => q
  | .string f => q.setStr f (p.str f)
  | .statusCode => { q with statusCode := p.statusCode }
  | .amount => { q with amount := p.amount }
  | .timeout => { q with timeout := p.timeout }
  | .content => { q with content := some (p.content.getD [[]]) }

/-- The frames left to read after an item. -/
def itemMore (more : List Frame) : Item → List Frame
  | .content => []
  | _ => more

theorem getItem_putItem (p q : Proto) (buf : List UInt8) (more : List Frame) (i : Item)
    (hm : i = .content → more = p.content.getD [[]]) :
    getItem q (putItem p i ++ buf) more i = .ok (copyItem p q i, buf, itemMore more i) := by
  cases i with
  | protocol s => simp [getItem, putItem, getString_putString, copyItem, itemMore]
  | version n => simp [getItem, putItem, getNumber2_putNumber2, copyItem, itemMore]
  | string f => simp [getItem, putItem, getString_putString, copyItem, itemMore]
  | statusCode => simp [getItem, putItem, getNumber2_putNumber2, copyItem, itemMore]
  | amount => simp [getItem, putItem, getNumber2_putNumber2, copyItem, itemMore]
  | timeout => simp [getItem, putItem, getNumber4_putNumber4, copyItem, itemMore]
  | content => simp [getItem, putItem, copyItem, itemMore, hm rfl]

/-- The content, when there is one, is the last item, and it comes once. -/
def ContentLast : List Item → Prop
  | [] => True
  | i :: is => (i = .content → is = []) ∧ ContentLast is

theorem layout_contentLast (i : Id) : ContentLast (layout i) := by
  cases i <;> simp [layout, ContentLast]

theorem getItems_putItems (p : Proto) (is : List Item) (hc : ContentLast is) (q : Proto) :
    getItems is q (is.flatMap (putItem p)) (contentFrames p is) =
      (is.foldl (copyItem p) q, .ok, []) := by
  induction is generalizing q with
  | nil => rfl
  | cons i is ih =>
    simp only [getItems, List.flatMap_cons, List.foldl_cons]
    by_cases hi : i = .content
    · subst hi
      rw [hc.1 rfl, getItem_putItem]
      · rfl
      · intro _; simp [contentFrames]
    · rw [getItem_putItem _ _ _ _ _ (fun h => absurd h hi)]
      have hmore : itemMore (contentFrames p (i :: is)) i = contentFrames p is := by
        have hne : Item.content ≠ i := fun h => hi h.symm
        cases i <;> first | exact absurd rfl hi | simp [itemMore, contentFrames]
      simp only [hmore]
      exact ih hc.2 _

theorem skipItem_putItem (p : Proto) (buf : List UInt8) (i : Item) :
    skipItem (putItem p i ++ buf) i = some buf := by
  cases i <;>
    simp [skipItem, putItem, getString_putString, getNumber2_putNumber2, getNumber4_putNumber4]

theorem fits_putItems (p : Proto) (is : List Item) : fits is (is.flatMap (putItem p)) = true := by
  induction is with
  | nil => rfl
  | cons i is ih => simp [fits, skipItem_putItem, ih]

/-! ## Round trip -/

theorem encode_eq (w : Wire) :
    w.encode = (putNumber2 0xAAA8 ++ w.id.code :: (layout w.id).flatMap (putItem (w.load .new))) ::
      contentFrames (w.load .new) (layout w.id) := by
  have h : (w.load .new).id = w.id.code := by cases w <;> rfl
  simp [Wire.encode, encode, h]

theorem foldl_copyItem_load (w : Wire) (q : Proto) :
    (layout w.id).foldl (copyItem (w.load .new)) { q with id := w.id.code } = w.load q := by
  cases w <;> rfl

/-- **Receiving what was sent loads exactly that message**, with nothing left
unread, into any object. -/
theorem recvBody_encode (w : Wire) (q : Proto) :
    ∃ body more, w.encode = body :: more ∧ recvBody q body more = (w.load q, .ok, []) := by
  refine ⟨_, _, encode_eq w, ?_⟩
  simp only [recvBody, getNumber2_putNumber2, ne_eq, not_true_eq_false,
    if_false, getNumber1, Id.ofCode_code]
  rw [getItems_putItems _ _ (layout_contentLast _), foldl_copyItem_load]

theorem recv_encode (w : Wire) (q : Proto) (rid : Frame) :
    recv q (rid :: w.encode) = (w.load { q with routingId := some rid }, .ok, []) := by
  obtain ⟨body, more, he, hr⟩ := recvBody_encode w { q with routingId := some rid }
  rw [he]; exact hr

theorem wellFormed_encode (w : Wire) :
    ∃ body more, w.encode = body :: more ∧ wellFormed body = true := by
  refine ⟨_, _, encode_eq w, ?_⟩
  simp [wellFormed, getNumber2_putNumber2, getNumber1, fits_putItems]

/-- A body that a check finds malformed is the only frame that has been read. -/
theorem getItems_malformed_rest {is : List Item} (hc : ContentLast is) {p : Proto}
    {buf : List UInt8} {more : List Frame} (h : (getItems is p buf more).2.1 = .malformed) :
    (getItems is p buf more).2.2 = more := by
  have hmore : ∀ {i p buf p' buf' more'}, i ≠ .content →
      getItem p buf more i = .ok (p', buf', more') → more' = more := by
    intro i p buf p' buf' more' hi hg
    cases i <;> simp only [getItem] at hg <;> (repeat' split at hg) <;>
      simp only [reduceCtorEq, Except.ok.injEq, Prod.mk.injEq] at hg
    case content => exact absurd rfl hi
    all_goals exact hg.2.2.symm
  induction is generalizing p buf with
  | nil => simp [getItems] at h
  | cons i is ih =>
    simp only [getItems] at h ⊢
    split at h
    · rfl
    · rename_i p' buf' more' hg
      by_cases hi : i = .content
      · rw [hc.1 hi] at h
        simp [getItems] at h
      · cases hmore hi hg
        exact ih hc.2 h

theorem recvBody_malformed_rest {p q : Proto} {body : Frame} {more rest : List Frame}
    (h : recvBody p body more = (q, .malformed, rest)) : rest = more := by
  unfold recvBody at h
  split at h
  · cases h
  · split at h
    · cases h
      rfl
    · split at h
      · cases h
      · split at h
        · cases h
          rfl
        · rename_i i _
          have hrest := getItems_malformed_rest (layout_contentLast i) (by rw [h])
          rw [h] at hrest
          exact hrest

/-- **A frame carries the fields of its own message and no others.** -/
theorem encode_of_wire {p : Proto} {w : Wire} (h : p.wire = some w) : encode p = w.encode := by
  unfold Proto.wire at h
  simp only [Option.map_eq_some_iff] at h
  obtain ⟨i, hi, rfl⟩ := h
  have hid := Id.code_of_ofCode hi
  rw [encode_eq]
  simp only [encode, ← hid, Id.ofCode_code]
  cases i <;> simp [layout, Wire.load, putItem, Proto.str, contentFrames, Wire.id]

end Malamute.L1
