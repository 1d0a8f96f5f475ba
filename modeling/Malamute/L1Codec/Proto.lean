import Mathlib.Data.List.TakeWhile

/-!
# The Malamute protocol codec (`src/src/mlm_proto.c`)

One `mlm_proto_t` object is both the message last read and the message to
send. A field that a message does not carry keeps the value of an earlier
message, in both directions.

* `Str`: what a `char [256]` field holds as a C string: at most 255 bytes and
  no NUL. `Str.ofBytes` is the value both `GET_STRING` and the
  `mlm_proto_set_*` functions leave in a field.
* `layout`: the fields of each message in wire order; `recv` and `encode` both
  follow it, as the two generated `switch` statements do.
* `recv`: reads the frames of one multipart message off a ROUTER socket. The
  `GET_*` macros leave the function with the return code it has so far, which
  is 0 unless one of the explicit checks set it, so a body that ends too soon
  returns `ok`. Frames that were not asked for stay on the
  socket; they are the third result.
-/
namespace Malamute.L1

/-- The bytes of one ZeroMQ frame. -/
abbrev Frame := List UInt8

/-! ## Strings -/

/-- The contents of a `char [256]`, read as a C string. -/
structure Str where
  bytes : List UInt8
  short : bytes.length ≤ 255
  noNul : (0 : UInt8) ∉ bytes
  deriving DecidableEq

namespace Str

@[ext] theorem ext {s t : Str} (h : s.bytes = t.bytes) : s = t := by
  cases s; cases t; cases h; rfl

def empty : Str := ⟨[], by simp, by simp⟩

instance : Inhabited Str := ⟨empty⟩

/-- The first 255 bytes, up to the first NUL. -/
def ofBytes (bs : List UInt8) : Str where
  bytes := (bs.takeWhile (· ≠ 0)).take 255
  short := List.length_take_le _ _
  noNul h := by
    have := List.mem_takeWhile_imp (List.mem_of_mem_take h)
    simp at this

theorem ofBytes_bytes (s : Str) : ofBytes s.bytes = s := by
  apply Str.ext
  have hw : s.bytes.takeWhile (· ≠ 0) = s.bytes := by
    refine List.takeWhile_eq_self_iff.2 fun b hb => decide_eq_true ?_
    rintro rfl; exact s.noNul hb
  simp only [ofBytes, hw]
  exact List.take_of_length_le s.short

end Str

/-! ## The message object -/

/-- mirrors src/include/mlm_proto.h:160-177 -/
inductive Id where
  | connectionOpen | connectionPing | connectionPong | connectionClose
  | streamWrite | streamRead | streamSend | streamDeliver
  | mailboxSend | mailboxDeliver
  | serviceSend | serviceOffer | serviceDeliver
  | ok | error | credit | confirm | streamCancel
  deriving DecidableEq, Repr

def Id.code : Id → UInt8
  | .connectionOpen => 1 | .connectionPing => 2 | .connectionPong => 3 | .connectionClose => 4
  | .streamWrite => 5 | .streamRead => 6 | .streamSend => 7 | .streamDeliver => 8
  | .mailboxSend => 9 | .mailboxDeliver => 10
  | .serviceSend => 11 | .serviceOffer => 12 | .serviceDeliver => 13
  | .ok => 14 | .error => 15 | .credit => 16 | .confirm => 17 | .streamCancel => 18

def Id.ofCode (b : UInt8) : Option Id :=
  [Id.connectionOpen, .connectionPing, .connectionPong, .connectionClose,
    .streamWrite, .streamRead, .streamSend, .streamDeliver,
    .mailboxSend, .mailboxDeliver, .serviceSend, .serviceOffer, .serviceDeliver,
    .ok, .error, .credit, .confirm, .streamCancel].find? (·.code = b)

@[simp] theorem Id.ofCode_code (i : Id) : Id.ofCode i.code = some i := by
  cases i <;> decide

theorem Id.code_of_ofCode {b : UInt8} {i : Id} (h : Id.ofCode b = some i) : i.code = b := by
  simpa using List.find?_some h

/-- mirrors src/include/mlm_proto.h:154-156 -/
def success : UInt16 := 200
def failed : UInt16 := 300
def commandInvalid : UInt16 := 500

/-- The string fields. -/
inductive Field where
  | address | stream | pattern | subject | sender | tracker | statusReason
  deriving DecidableEq, Repr

/-- mirrors src/src/mlm_proto.c:38-54; `content` is `none` for a NULL pointer,
and the read and write pointers are local to `recv` and `encode`. -/
@[ext] structure Proto where
  routingId : Option Frame
  id : UInt8
  address : Str
  stream : Str
  pattern : Str
  subject : Str
  content : Option (List Frame)
  sender : Str
  tracker : Str
  timeout : UInt32
  statusCode : UInt16
  statusReason : Str
  amount : UInt16
  deriving DecidableEq

namespace Proto

/-- mirrors src/src/mlm_proto.c:254-259 (zeroed memory) -/
def new : Proto where
  routingId := none
  id := 0
  address := .empty
  stream := .empty
  pattern := .empty
  subject := .empty
  content := none
  sender := .empty
  tracker := .empty
  timeout := 0
  statusCode := 0
  statusReason := .empty
  amount := 0

def str (p : Proto) : Field → Str
  | .address => p.address
  | .stream => p.stream
  | .pattern => p.pattern
  | .subject => p.subject
  | .sender => p.sender
  | .tracker => p.tracker
  | .statusReason => p.statusReason

/-- mirrors the `mlm_proto_set_*` functions of the string fields, such as
src/src/mlm_proto.c:2103-2113 -/
def setStr (p : Proto) (f : Field) (s : Str) : Proto :=
  match f with
  | .address => { p with address := s }
  | .stream => { p with stream := s }
  | .pattern => { p with pattern := s }
  | .subject => { p with subject := s }
  | .sender => { p with sender := s }
  | .tracker => { p with tracker := s }
  | .statusReason => { p with statusReason := s }

/-- mirrors src/src/mlm_proto.c:2286-2291 -/
def setStatusCode (p : Proto) (n : UInt16) : Proto := { p with statusCode := n }

/-- `mlm_proto_set_id` and `mlm_proto_set_routing_id`.
mirrors src/src/mlm_proto.c:2002-2025 -/
def setId (p : Proto) (i : Id) (rid : Frame) : Proto :=
  { p with id := i.code, routingId := some rid }

/-- mirrors src/src/mlm_proto.c:2193-2199: the caller takes the content away -/
def takeContent (p : Proto) : Proto := { p with content := none }

end Proto

/-! ## Wire order of the fields -/

/-- One step of the generated (de)serializer. -/
inductive Item where
  /-- a constant string, checked on receipt -/
  | protocol (s : Str)
  /-- a constant 2-byte number, checked on receipt -/
  | version (n : UInt16)
  | string (f : Field)
  | statusCode
  | amount
  | timeout
  /-- zero or more remaining frames -/
  | content
  deriving DecidableEq

/-- "MALAMUTE" -/
def malamute : Str := ⟨[77, 65, 76, 65, 77, 85, 84, 69], by decide, by decide⟩

/-- mirrors the `switch` of src/src/mlm_proto.c:1072-1216 and of 1331-1415 -/
def layout : Id → List Item
  | .connectionOpen => [.protocol malamute, .version 1, .string .address]
  | .connectionPing => []
  | .connectionPong => []
  | .connectionClose => []
  | .streamWrite => [.string .stream]
  | .streamRead => [.string .stream, .string .pattern]
  | .streamSend => [.string .subject, .content]
  | .streamDeliver => [.string .address, .string .sender, .string .subject, .content]
  | .mailboxSend =>
    [.string .address, .string .subject, .string .tracker, .timeout, .content]
  | .mailboxDeliver =>
    [.string .sender, .string .address, .string .subject, .string .tracker, .content]
  | .serviceSend =>
    [.string .address, .string .subject, .string .tracker, .timeout, .content]
  | .serviceOffer => [.string .address, .string .pattern]
  | .serviceDeliver =>
    [.string .sender, .string .address, .string .subject, .string .tracker, .content]
  | .ok => [.statusCode, .string .statusReason]
  | .error => [.statusCode, .string .statusReason]
  | .credit => [.amount]
  | .confirm => [.string .tracker, .statusCode, .string .statusReason]
  | .streamCancel => [.string .stream]

/-! ## Writing -/

/-- mirrors `PUT_NUMBER2`, src/src/mlm_proto.c:83-88 -/
def putNumber2 (n : UInt16) : List UInt8 := [(n >>> 8).toUInt8, n.toUInt8]

/-- mirrors `PUT_NUMBER4`, src/src/mlm_proto.c:90-97 -/
def putNumber4 (n : UInt32) : List UInt8 :=
  [(n >>> 24).toUInt8, (n >>> 16).toUInt8, (n >>> 8).toUInt8, n.toUInt8]

/-- mirrors `PUT_STRING`, src/src/mlm_proto.c:163-169 -/
def putString (s : Str) : List UInt8 := UInt8.ofNat s.bytes.length :: s.bytes

def putItem (p : Proto) : Item → List UInt8
  | .protocol s => putString s
  | .version n => putNumber2 n
  | .string f => putString (p.str f)
  | .statusCode => putNumber2 p.statusCode
  | .amount => putNumber2 p.amount
  | .timeout => putNumber4 p.timeout
  | .content => []

/-- The frames that follow the first one: those of the content, or one empty
frame for a NULL content; none for a message without content. -/
def contentFrames (p : Proto) (items : List Item) : List Frame :=
  if .content ∈ items then p.content.getD [[]] else []

/-- mirrors src/src/mlm_proto.c:1236-1436: the frames after the routing id -/
def encode (p : Proto) : List Frame :=
  let items := ((Id.ofCode p.id).map layout).getD []
  (putNumber2 0xAAA8 ++ p.id :: items.flatMap (putItem p)) :: contentFrames p items

/-! ## Reading -/

/-- The return codes 0, -1 and -2 of `mlm_proto_recv`. -/
inductive Rc where
  | ok | interrupted | malformed
  deriving DecidableEq, Repr

/-- mirrors `GET_NUMBER1`, src/src/mlm_proto.c:112-120 -/
def getNumber1 : List UInt8 → Option (UInt8 × List UInt8)
  | b :: buf => some (b, buf)
  | [] => none

/-- mirrors `GET_NUMBER2`, src/src/mlm_proto.c:122-131 -/
def getNumber2 : List UInt8 → Option (UInt16 × List UInt8)
  | b0 :: b1 :: buf => some ((b0.toUInt16 <<< 8) + b1.toUInt16, buf)
  | _ => none

/-- mirrors `GET_NUMBER4`, src/src/mlm_proto.c:133-144 -/
def getNumber4 : List UInt8 → Option (UInt32 × List UInt8)
  | b0 :: b1 :: b2 :: b3 :: buf =>
    some ((b0.toUInt32 <<< 24) + (b1.toUInt32 <<< 16) + (b2.toUInt32 <<< 8) + b3.toUInt32, buf)
  | _ => none

/-- mirrors `GET_STRING`, src/src/mlm_proto.c:171-182 -/
def getString : List UInt8 → Option (Str × List UInt8)
  | n :: buf => if buf.length < n.toNat then none
      else some (Str.ofBytes (buf.take n.toNat), buf.drop n.toNat)
  | [] => none

/-- Read one field. `error rc` is `goto malformed` with the return code `rc`:
running off the end of the frame leaves `rc` at 0. -/
def getItem (p : Proto) (buf : List UInt8) (more : List Frame) :
    Item → Except Rc (Proto × List UInt8 × List Frame)
  | .protocol s =>
    match getString buf with
    | none => .error .ok
    | some (t, buf) => if t ≠ s then .error .malformed else .ok (p, buf, more)
  | .version n =>
    match getNumber2 buf with
    | none => .error .ok
    | some (m, buf) => if m ≠ n then .error .malformed else .ok (p, buf, more)
  | .string f =>
    match getString buf with
    | none => .error .ok
    | some (t, buf) => .ok (p.setStr f t, buf, more)
  | .statusCode =>
    match getNumber2 buf with
    | none => .error .ok
    | some (n, buf) => .ok ({ p with statusCode := n }, buf, more)
  | .amount =>
    match getNumber2 buf with
    | none => .error .ok
    | some (n, buf) => .ok ({ p with amount := n }, buf, more)
  | .timeout =>
    match getNumber4 buf with
    | none => .error .ok
    | some (n, buf) => .ok ({ p with timeout := n }, buf, more)
  | .content => .ok ({ p with content := some more }, buf, [])

/-- Read the fields in order; the fields before a failure keep what they read. -/
def getItems : List Item → Proto → List UInt8 → List Frame → Proto × Rc × List Frame
  | [], p, _, more => (p, .ok, more)
  | i :: is, p, buf, more =>
    match getItem p buf more i with
    | .error rc => (p, rc, more)
    | .ok (p, buf, more) => getItems is p buf more

/-- The part of `mlm_proto_recv` after the routing id. -/
def recvBody (p : Proto) (body : Frame) (more : List Frame) : Proto × Rc × List Frame :=
  match getNumber2 body with
  | none => (p, .ok, more)
  | some (signature, buf) =>
    if signature ≠ 0xAAA8 then (p, .malformed, more)
    else
      match getNumber1 buf with
      | none => (p, .ok, more)
      | some (id, buf) =>
        match Id.ofCode id with
        | none => ({ p with id := id }, .malformed, more)
        | some i => getItems (layout i) { p with id := id } buf more

/-- mirrors src/src/mlm_proto.c:1034-1229 on a ROUTER socket; the list is the
frames of the multipart message that are still unread -/
def recv (p : Proto) : List Frame → Proto × Rc × List Frame
  | [] => (p, .interrupted, [])
  | [rid] => ({ p with routingId := some rid }, .interrupted, [])
  | rid :: body :: more => recvBody { p with routingId := some rid } body more

/-! ## Malformed bodies

`wellFormed` is the format itself: the signature, a known id and every field
inside the frame. `detected` is the part of its negation that an explicit
check of `recv` finds (and, besides, a wrong protocol name or version). -/

/-- The bytes behind a field, if the field ends inside the frame. -/
def skipItem (buf : List UInt8) : Item → Option (List UInt8)
  | .protocol _ | .string _ => (getString buf).map Prod.snd
  | .version _ | .statusCode | .amount => (getNumber2 buf).map Prod.snd
  | .timeout => (getNumber4 buf).map Prod.snd
  | .content => some buf

def fits : List Item → List UInt8 → Bool
  | [], _ => true
  | i :: is, buf =>
    match skipItem buf i with
    | none => false
    | some buf => fits is buf

def wellFormed (body : Frame) : Bool :=
  match getNumber2 body with
  | none => false
  | some (signature, buf) => signature = 0xAAA8 &&
    match getNumber1 buf with
    | none => false
    | some (id, buf) =>
      match Id.ofCode id with
      | none => false
      | some i => fits (layout i) buf

/-- A constant field of the message has another value. -/
def failsCheck : List Item → List UInt8 → Bool
  | [], _ => false
  | i :: is, buf =>
    match getItem .new buf [] i with
    | .error rc => rc = .malformed
    | .ok (_, buf, _) => failsCheck is buf

/-- Wrong signature, unknown message id, or wrong protocol name or version. -/
def detected (body : Frame) : Bool :=
  match getNumber2 body with
  | none => false
  | some (signature, buf) => signature ≠ 0xAAA8 ||
    match getNumber1 buf with
    | none => false
    | some (id, buf) =>
      match Id.ofCode id with
      | none => true
      | some i => failsCheck (layout i) buf

/-- What becomes of the read position does not depend on the object read into. -/
theorem getItem_buf (p q : Proto) (buf : List UInt8) (more more' : List Frame) (i : Item) :
    (∃ rc, getItem p buf more i = .error rc ∧ getItem q buf more' i = .error rc) ∨
    (∃ p' q' b m m', getItem p buf more i = .ok (p', b, m) ∧
      getItem q buf more' i = .ok (q', b, m')) := by
  cases i with
  | protocol s =>
    simp only [getItem]
    split
    · exact .inl ⟨_, rfl, rfl⟩
    · split
      · exact .inl ⟨_, rfl, rfl⟩
      · exact .inr ⟨_, _, _, _, _, rfl, rfl⟩
  | version n =>
    simp only [getItem]
    split
    · exact .inl ⟨_, rfl, rfl⟩
    · split
      · exact .inl ⟨_, rfl, rfl⟩
      · exact .inr ⟨_, _, _, _, _, rfl, rfl⟩
  | content => exact .inr ⟨_, _, _, _, _, rfl, rfl⟩
  | _ =>
    simp only [getItem]
    split
    · exact .inl ⟨_, rfl, rfl⟩
    · exact .inr ⟨_, _, _, _, _, rfl, rfl⟩

theorem getItems_malformed_iff (is : List Item) (p : Proto) (buf : List UInt8)
    (more : List Frame) :
    (getItems is p buf more).2.1 = .malformed ↔ failsCheck is buf = true := by
  induction is generalizing p buf more with
  | nil => simp [failsCheck, getItems]
  | cons i is ih =>
    rcases getItem_buf p .new buf more [] i with ⟨rc, h1, h2⟩ | ⟨p', q', b, m, m', h1, h2⟩
    · simp [failsCheck, getItems, h1, h2]
    · simp only [failsCheck, getItems, h1, h2]
      exact ih p' b m

/-- `recv` returns -2 exactly on the bodies an explicit check finds. -/
theorem recvBody_malformed_iff (p : Proto) (body : Frame) (more : List Frame) :
    (recvBody p body more).2.1 = .malformed ↔ detected body = true := by
  unfold recvBody detected
  split
  · simp
  · rename_i signature buf hsig
    by_cases hs : signature = 0xAAA8
    · simp only [hs, ne_eq, not_true_eq_false, if_false, decide_false, Bool.false_or]
      split
      · simp
      · split
        · simp
        · exact getItems_malformed_iff _ _ _ _
    · simp [hs]

theorem getItems_rc (is : List Item) (p : Proto) (buf : List UInt8) (more : List Frame) :
    (getItems is p buf more).2.1 ≠ .interrupted := by
  have hi : ∀ i p buf more, getItem p buf more i ≠ .error .interrupted := by
    intro i p buf more
    cases i <;> simp only [getItem] <;> (repeat' split) <;> simp
  induction is generalizing p buf more with
  | nil => simp [getItems]
  | cons i is ih =>
    simp only [getItems]
    split
    · rename_i rc h
      rintro rfl; exact hi _ _ _ _ h
    · exact ih _ _ _

theorem recvBody_rc (p : Proto) (body : Frame) (more : List Frame) :
    (recvBody p body more).2.1 ≠ .interrupted := by
  unfold recvBody
  split
  · simp
  · split
    · simp
    · split
      · simp
      · split
        · simp
        · exact getItems_rc _ _ _ _

/-- The routing id is set before the body is looked at and stays. -/
theorem getItems_routingId (is : List Item) (p : Proto) (buf : List UInt8) (more : List Frame) :
    (getItems is p buf more).1.routingId = p.routingId := by
  have hs : ∀ f s (p : Proto), (p.setStr f s).routingId = p.routingId := by
    intro f s p; cases f <;> rfl
  have hi : ∀ i (p p' : Proto) buf buf' more more',
      getItem p buf more i = .ok (p', buf', more') → p'.routingId = p.routingId := by
    intro i p p' buf buf' more more' h
    cases i <;> simp only [getItem] at h <;> (repeat' split at h) <;>
      simp only [reduceCtorEq, Except.ok.injEq, Prod.mk.injEq] at h <;>
      (obtain ⟨rfl, _⟩ := h; first | rfl | exact hs _ _ _)
  induction is generalizing p buf more with
  | nil => rfl
  | cons i is ih =>
    simp only [getItems]
    split
    · rfl
    · rename_i p' buf' more' h
      rw [ih, hi _ _ _ _ _ _ _ h]

@[simp] theorem recvBody_routingId (p : Proto) (body : Frame) (more : List Frame) :
    (recvBody p body more).1.routingId = p.routingId := by
  unfold recvBody
  split
  · rfl
  · split
    · rfl
    · split
      · rfl
      · split
        · rfl
        · exact getItems_routingId _ _ _ _

end Malamute.L1
