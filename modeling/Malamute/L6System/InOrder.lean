import Malamute.L3Server.Channels
import Malamute.L6System.EndToEnd

/-!
# Once and in order

A message to a mailbox or to a service is received once at most, whoever receives it, and no
reader of a stream receives a message before an earlier one of the same sender. That holds in
any interleaving of the applications with the broker and its engines, whatever connections are
lost and however often the broker restarts.

* `Parcel` is a delivery with the post it is from: the post of the sender with this number.
* `Ordered` is the invariant, for a log of the parcels that have been received or are on their
  way. A frame that is lost on its way is taken out of the log.
* `ordered_stays`: what happens between the applications and their connections.
* `ordered_told`: what the broker does. A message that it reads is later than all that its sender
  has said before (`Ordered.later_new`); what it hands out is in the order in which it was read
  (`line_step`, `stream_step`).
* `received_in_order`.
-/
namespace Malamute.L6
open Malamute.Core Malamute.L1 Malamute.L5 Network

/-- What the frame `w` is for an application. -/
def asDelivery (w : Wire) : Option L4.Delivery := (L4.Label.frame w).delivery

/-- A delivery to an application, of post number `post` of the application that has sent it. -/
structure Parcel (ι : Type) where
  frame : Wire
  receiver : ι
  sender : ι
  post : Nat

namespace Parcel
variable {ι : Type}

def origin (e : Parcel ι) : ι × Nat := (e.sender, e.post)

def delivery (e : Parcel ι) : Option L4.Delivery := asDelivery e.frame

/-- It comes out of the line `l`. -/
def From (l : L3.Line) (e : Parcel ι) : Prop := L3.lineOf e.frame = some l

/-- It is for application `i` as a reader of the stream `name`. -/
def For (i : ι) (name : Str) (e : Parcel ι) : Prop :=
  e.receiver = i ∧ L3.streamed e.frame = some name

instance (l : L3.Line) (e : Parcel ι) : Decidable (e.From l) :=
  inferInstanceAs (Decidable (_ = _))

instance [DecidableEq ι] (i : ι) (name : Str) (e : Parcel ι) : Decidable (e.For i name) :=
  inferInstanceAs (Decidable (_ ∧ _))

end Parcel

/-- Two posts of one sender are in order. -/
def Earlier {ι : Type} (x y : ι × Nat) : Prop := x.1 = y.1 → x.2 < y.2

/-- The same, but the post may be the same. -/
def NotLater {ι : Type} (x y : ι × Nat) : Prop := x.1 = y.1 → x.2 ≤ y.2

/-- `log` is what the applications have received, in the order in which the broker sent it.
`named` says whose address a delivery gives, and `writes` that its sender has asked to write to the
stream. -/
structure InOrder {ι : Type} [DecidableEq ι] (k : Network ι) (log : List (Parcel ι)) : Prop where
  received : ∀ i, (log.filter (·.receiver = i)).map Parcel.delivery =
    (k.peers i).received.map some
  posted : ∀ e ∈ log, ∃ p, (k.peers e.sender).posted[e.post]? = some p ∧
    L3.Conveys p.wire e.frame
  named : ∀ e ∈ log, ∃ a, L3.senderOf e.frame = some a ∧ Sends k e.sender (.connectionOpen a)
  writes : ∀ e ∈ log, ∀ name, L3.streamed e.frame = some name →
    Sends k e.sender (.streamWrite name)
  lines : ∀ l, (log.filter (·.From l)).Pairwise fun e e' => Earlier e.origin e'.origin
  streams : ∀ i name, (log.filter (·.For i name)).Pairwise fun e e' =>
    NotLater e.origin e'.origin

namespace Network
variable {ι : Type}

/-- The messages that actor `j` has sent. -/
def said (k : Network ι) (j : ι) : List Wire := (k.peers j).actor.sent.filter (!L4.spoken ·)

/-- Those of them that are on their way. -/
def due (k : Network ι) (j : ι) : List Wire := (k.up j).filter (!L4.spoken ·)

/-- The deliveries that actor `i` has passed to its application. -/
def passed (k : Network ι) (i : ι) : List L4.Delivery := (k.peers i).actor.passed

/-- The deliveries that are on their way to actor `i`. -/
def coming (k : Network ι) (i : ι) : List Wire := (k.down i).filter L3.delivers

end Network

/-- Message number `x.2` of actor `x.1` is one of the first `read x.1`, and `P` holds of it; and the
actor has sent the commands `us`. -/
def Taken {ι : Type} (k : Network ι) (read : ι → Nat) (x : ι × Nat) (us : List Wire)
    (P : Wire → Prop) : Prop :=
  x.2 < read x.1 ∧ (∀ u ∈ us, Sends k x.1 u) ∧ ∃ w, (k.said x.1)[x.2]? = some w ∧ P w

/-- Of the messages of actor `j` the broker has read none but the first `read j`; message number
`mid` of the broker is made of `orig mid`; and `log` is what the broker has sent of them, less
what was lost. -/
structure Ordered {ι : Type} [DecidableEq ι] (k : Network ι) (read : ι → Nat)
    (orig : Nat → ι × Nat) (log : List (Parcel ι)) : Prop where
  queued : ∀ j, ∃ ws, k.said j = ws ++ k.due j ∧ read j ≤ ws.length
  made : ∀ o ∈ k.broker.trace, ∀ c m, o.made = some (c, m) →
    Taken k read (orig m.mid) o.credentials o.Spells
  sent : ∀ e ∈ log, Taken k read e.origin (L3.credentials e.frame) (L3.Conveys · e.frame)
  arrived : ∀ i, ∃ ws, ws.map asDelivery = (k.passed i).map some ∧
    (log.filter (·.receiver = i)).map Parcel.frame = ws ++ k.coming i
  lines : ∀ l, ((log.filter (·.From l)).map Parcel.origin ++
    (k.broker.waiting l).map fun m => orig m.mid).Pairwise Earlier
  streams : ∀ i name, ((log.filter (·.For i name)).map Parcel.origin ++
    (L3.waitingAt k.broker (k.keys i) name).map (fun m => orig m.mid) ++
    (L3.unread (k.broker.stream name)).map fun m => orig m.mid).Pairwise NotLater

/-- The numbering goes on with what the broker makes, `os`. -/
structure Numbers {ι : Type} (k : Network ι) (read read' : ι → Nat) (orig orig' : Nat → ι × Nat)
    (os : List L3.Obs) : Prop where
  one : os.length ≤ 1
  reads : ∀ j, read j ≤ read' j
  same : ∀ n < k.broker.messageId, orig' n = orig n
  new : ∀ o ∈ os, ∀ c m, o.made = some (c, m) →
    read (orig' m.mid).1 ≤ (orig' m.mid).2 ∧ Taken k read' (orig' m.mid) o.credentials o.Spells

section
variable {ι : Type} {env : L4.Env} {rex : Str → Str → Bool} {k k' : Network ι} {i : ι}
  {read read' : ι → Nat} {orig orig' : Nat → ι × Nat} {log : List (Parcel ι)}
  {P Q : Wire → Prop} {x : ι × Nat} {keys : ι ↪ L3.Key} {s s' : L3.Server} {t : List L3.Obs}
  {e : Parcel ι} {us : List Wire}

/-! ## The numbers of the posts -/

theorem Taken.imp (h : Taken k read x us P) (hPQ : ∀ w, P w → Q w) : Taken k read x us Q := by
  obtain ⟨hlt, hus, w, hw, hP⟩ := h
  exact ⟨hlt, hus, w, hw, hPQ w hP⟩

theorem said_prefix {j : ι} (h : (k.peers j).actor.sent <+: (k'.peers j).actor.sent) :
    k.said j <+: k'.said j := h.filter _

theorem Taken.later (h : Taken k read x us P)
    (hsent : ∀ j, (k.peers j).actor.sent <+: (k'.peers j).actor.sent)
    (hread : ∀ j, read j ≤ read' j) : Taken k' read' x us P := by
  obtain ⟨hlt, hus, w, hw, hP⟩ := h
  obtain ⟨ws, hws⟩ := said_prefix (hsent x.1)
  refine ⟨Nat.lt_of_lt_of_le hlt (hread x.1), fun u hu => (hsent x.1).subset (hus u hu), w,
    ?_, hP⟩
  rw [← hws, List.getElem?_append_left (List.getElem?_eq_some_iff.1 hw).1]
  exact hw

/-- The message that a parcel is from has been posted under its number. -/
theorem posted_of_taken (hr : (session env).Reachable (k.peers x.1)) (h : Taken k read x us P) :
    ∃ p, (k.peers x.1).posted[x.2]? = some p ∧ P p.wire := by
  obtain ⟨-, -, w, hw, hP⟩ := h
  obtain ⟨-, hf⟩ := (flowing_inductive env).reachable _ hr
  unfold said at hw
  rw [hf.sent, List.getElem?_map] at hw
  obtain ⟨p, hp, rfl⟩ := Option.map_eq_some_iff.1 hw
  refine ⟨p, ?_, hP⟩
  rw [hf.posted, List.getElem?_append_left (List.getElem?_eq_some_iff.1 hp).1]
  exact hp

/-- What has just been read is later than all that was read before. -/
theorem pairwise_new {R : ι × Nat → ι × Nat → Prop} {xs ys : List (ι × Nat)} (hxs : xs.Pairwise R)
    (hys : ys.length ≤ 1) (hold : ∀ x ∈ xs, x.2 < read x.1) (hnew : ∀ y ∈ ys, read y.1 ≤ y.2)
    (hR : ∀ x y, Earlier x y → R x y) : (xs ++ ys).Pairwise R := by
  refine List.pairwise_append.2 ⟨hxs, ?_, fun x hx y hy => hR x y fun hxy => ?_⟩
  · cases ys with
    | nil => exact .nil
    | cons y ys =>
      have hnil : ys = [] := by simpa using hys
      subst hnil
      exact List.pairwise_singleton ..
  · have hlt := hold x hx
    rw [hxy] at hlt
    exact Nat.lt_of_lt_of_le hlt (hnew y hy)

theorem spells_not_spoken {o : L3.Obs} {w : Wire} (h : o.Spells w) : L4.spoken w = false := by
  cases o with
  | published c name m =>
    obtain ⟨body, rfl, -⟩ := h
    rfl
  | mailed c m =>
    obtain ⟨tracker, timeout, body, rfl, -⟩ := h
    rfl
  | requested c m =>
    obtain ⟨tracker, timeout, body, rfl, -⟩ := h
    rfl
  | _ => exact h.elim

/-- The address and the stream of a message that the broker makes of one of application `i` are
some that the actor has given. -/
theorem sends_of_made {s s₁ : L3.Server} {w : Wire} {d : L2.Cid} {o : L3.Obs} {m : L2.Msg}
    (h : Authentic rex k) (hr : (L3.broker rex).Reachable k.broker)
    (hst : (L3.broker rex).step k.broker (.request (k.keys i) w) s)
    (hd : L3.Heeded rex k.broker (k.keys i) w d s₁ s) (hmints : L3.Mints [o] k.broker s)
    (hmade : o.made = some (d, m)) (hspells : o.Spells w) :
    ∀ u ∈ o.credentials, Sends k i u := by
  intro u hu
  have hrec := ((L3.recited_inductive rex).reachable _ hr).2
  obtain ⟨owner, htraced⟩ := h.traced
  obtain ⟨⟨t, ht, hone⟩, -⟩ := hmints
  have hin : o ∈ L3.makings t := by
    rw [hone]
    exact List.mem_cons_self
  have ho : o ∈ s.trace := by
    rw [ht]
    exact List.mem_append_right _ (L3.mem_makings.1 hin).1
  obtain ⟨holder, frames, hsays⟩ := L3.sender_told (hr.step hst) ho hmade hu
  rcases hd.heard hsays with hbefore | ⟨-, -, hw⟩
  · obtain ⟨j, v, howner, hv, -, hsends⟩ := htraced.heard _ _ _ _ hbefore
    cases hv
    cases (htraced.known i d (hd.unread hrec hbefore)).symm.trans howner
    exact hsends
  · -- the message that is read is not one of those
    cases hw
    have hspoken := spells_not_spoken hspells
    rcases L3.mem_credentials hu with ⟨a, rfl⟩ | ⟨name, rfl⟩ <;> cases hspoken

theorem Numbers.none (k : Network ι) (read : ι → Nat) (orig : Nat → ι × Nat) :
    Numbers k read read orig orig [] where
  one := Nat.zero_le _
  reads _ := Nat.le_refl _
  same _ _ := rfl
  new _ ho := absurd ho List.not_mem_nil

/-! ## What the broker hands out -/

/-- What is handed out, and to whom, when message number `mid` of the broker is made of
`orig mid`. -/
noncomputable def parcelOf (keys : ι ↪ L3.Key) (orig : Nat → ι × Nat) (s s' : L3.Server)
    (o : L3.Obs) : Option (Parcel ι) :=
  o.handed.bind fun x => ((L3.keyOf s s' x.1).bind (Function.partialInv keys)).map fun i =>
    ⟨x.2.1, i, (orig x.2.2.mid).1, (orig x.2.2.mid).2⟩

theorem receiver_key {c : L2.Cid} :
    (L3.keyOf s s' c).bind (Function.partialInv keys) = some i ↔
      L3.keyOf s s' c = some (keys i) := by
  rw [Option.bind_eq_some_iff]
  constructor
  · intro h
    obtain ⟨key, hkey, hi⟩ := h
    rw [hkey, (keys.injective.isPartialInv i key).1 hi]
  · intro h
    exact ⟨keys i, h, Function.partialInv_left keys.injective i⟩

theorem parcelOf_some {o : L3.Obs} (h : parcelOf keys orig s s' o = some e) :
    ∃ c m, o.handed = some (c, e.frame, m) ∧ L3.keyOf s s' c = some (keys e.receiver) ∧
      e.origin = orig m.mid := by
  obtain ⟨⟨c, v, m⟩, hh, he⟩ := Option.bind_eq_some_iff.1 h
  obtain ⟨i, hi, rfl⟩ := Option.map_eq_some_iff.1 he
  exact ⟨c, m, hh, receiver_key.1 hi, rfl⟩

/-- What is handed out of a mailbox or service comes from it. -/
theorem parcels_from (l : L3.Line) : (((t.filterMap (parcelOf keys orig s s')).filter
    (·.From l)).map Parcel.origin).Sublist ((L3.handedFrom l t).map fun m => orig m.mid) := by
  rw [L3.handedFrom, List.filter_filterMap, List.map_filterMap, List.map_filterMap]
  refine Log.filterMap_sublist fun o _ x hx => ?_
  obtain ⟨e, he, rfl⟩ := Option.map_eq_some_iff.1 hx
  obtain ⟨he, hfrom⟩ := Option.filter_eq_some_iff.1 he
  obtain ⟨c, m, hh, -, ho⟩ := parcelOf_some he
  have hline : L3.lineOf e.frame = some l := of_decide_eq_true hfrom
  simp [hh, hline, ho]

variable [DecidableEq ι]

/-- What is handed out to an application goes down to it. -/
theorem parcels_coming (ht : s'.trace = s.trace ++ t)
    (hhand : ∀ c holder v hand, .sent c holder (some v) hand ∈ t → L3.delivers v = true →
      ∃ m, hand = some m) (i : ι) :
    ((t.filterMap (parcelOf keys orig s s')).filter (·.receiver = i)).map Parcel.frame =
      (L3.outputs s s' (keys i)).filter L3.delivers := by
  rw [L3.outputs, ht, List.drop_left, List.filter_filterMap, List.filter_filterMap,
    List.map_filterMap]
  refine List.filterMap_congr fun o ho => ?_
  cases o with
  | sent c holder w hand =>
    cases w with
    | none => rfl
    | some v =>
      cases hv : L3.delivers v with
      | false =>
        have hnone : parcelOf keys orig s s' (.sent c holder (some v) hand) = none := by
          cases hand <;> simp [parcelOf, L3.Obs.handed, hv]
        rw [hnone]
        by_cases hkey : L3.keyOf s s' c = some (keys i) <;> simp [Option.filter_some, hv, hkey]
      | true =>
        obtain ⟨m, rfl⟩ := hhand c holder v hand ho hv
        by_cases hkey : L3.keyOf s s' c = some (keys i)
        · have hi : Function.partialInv keys (keys i) = some i :=
            Function.partialInv_left keys.injective i
          simp [parcelOf, L3.Obs.handed, Option.filter_some, hv, hi, hkey]
        · have hother : ∀ e, parcelOf keys orig s s' (.sent c holder (some v) (some m)) = some e →
              e.receiver ≠ i := by
            intro e he hei
            obtain ⟨c', m', hh, hkey', -⟩ := parcelOf_some he
            obtain ⟨_, heq, -⟩ := L3.mem_handed hh
            cases heq
            rw [hei] at hkey'
            exact hkey hkey'
          cases he : parcelOf keys orig s s' (.sent c holder (some v) (some m)) with
          | none => simp [hkey]
          | some e => simp [Option.filter_some, hother e he, hkey]
  | _ => rfl

/-- What is handed out to the reader of a stream is for its routing id. -/
theorem parcels_for (i : ι) (name : Str) : (((t.filterMap (parcelOf keys orig s s')).filter
    (·.For i name)).map Parcel.origin).Sublist
      ((L3.handedTo s s' (keys i) name t).map fun m => orig m.mid) := by
  rw [L3.handedTo, List.filter_filterMap, List.map_filterMap, List.map_filterMap]
  refine Log.filterMap_sublist fun o _ x hx => ?_
  obtain ⟨e, he, rfl⟩ := Option.map_eq_some_iff.1 hx
  obtain ⟨he, hfor⟩ := Option.filter_eq_some_iff.1 he
  obtain ⟨c, m, hh, hkey, ho⟩ := parcelOf_some he
  obtain ⟨rfl, hname⟩ : e.receiver = i ∧ L3.streamed e.frame = some name :=
    of_decide_eq_true hfor
  simp [hh, hkey, hname, ho]

/-! ## The invariant -/

theorem ordered_new (keys : ι ↪ L3.Key) (orig : Nat → ι × Nat) :
    Ordered (.new keys) (fun _ => 0) orig [] where
  queued j := ⟨[], rfl, Nat.le_refl _⟩
  made o ho := absurd ho List.not_mem_nil
  sent e he := absurd he List.not_mem_nil
  arrived i := ⟨[], rfl, rfl⟩
  lines l := by cases l <;> exact .nil
  streams i name := .nil

/-! ## Between the applications and their connections -/

/-- The broker has done nothing, or it is a new one. What was on its way may be lost. -/
theorem ordered_stays (h : Ordered k read orig log)
    (hb : k'.broker = k.broker ∨ k'.broker = .new)
    (hsent : ∀ j, (k.peers j).actor.sent <+: (k'.peers j).actor.sent)
    (hqueued : ∀ j ws, k.said j = ws ++ k.due j → ∃ vs, k'.said j = ws ++ vs ++ k'.due j)
    (hwaits : ∀ i name, (L3.waitingAt k'.broker (k'.keys i) name).Sublist
      (L3.waitingAt k.broker (k.keys i) name))
    (harrived : ∀ i ws, ws.map asDelivery = (k.passed i).map some →
      ∃ ws', ws'.map asDelivery = (k'.passed i).map some ∧
        (ws' ++ k'.coming i).Sublist (ws ++ k.coming i)) :
    ∃ log', Ordered k' read orig log' := by
  have hleft : ∀ i, ∃ ws, ws.map asDelivery = (k'.passed i).map some ∧
      (ws ++ k'.coming i).Sublist ((log.filter (·.receiver = i)).map Parcel.frame) := by
    intro i
    obtain ⟨ws, hws, hlog⟩ := h.arrived i
    rw [hlog]
    exact harrived i ws hws
  choose got hgot hsub using hleft
  obtain ⟨log', hlog, hkept⟩ := Log.thin_map (fun i => got i ++ k'.coming i) hsub
  refine ⟨log', fun j => ?_, fun o ho c m hm => ?_, fun e he => ?_,
    fun i => ⟨got i, hgot i, hkept i⟩, fun l => ?_, fun i name => ?_⟩
  · obtain ⟨ws, hws, hle⟩ := h.queued j
    obtain ⟨vs, hvs⟩ := hqueued j ws hws
    refine ⟨ws ++ vs, hvs, ?_⟩
    rw [List.length_append]
    omega
  · rcases hb with hb | hb
    · rw [hb] at ho
      exact (h.made o ho c m hm).later hsent fun _ => Nat.le_refl _
    · rw [hb] at ho
      cases ho
  · exact (h.sent e (hlog.subset he)).later hsent fun _ => Nat.le_refl _
  · have hwait : (k'.broker.waiting l).Sublist (k.broker.waiting l) := by
      rcases hb with hb | hb
      · rw [hb]
      · rw [hb]
        cases l <;> exact List.nil_sublist _
    exact (h.lines l).sublist (((hlog.filter _).map _).append (hwait.map _))
  · have hunread : (L3.unread (k'.broker.stream name)).Sublist
        (L3.unread (k.broker.stream name)) := by
      rcases hb with hb | hb
      · rw [hb]
      · rw [hb]
        exact List.nil_sublist _
    exact (h.streams i name).sublist ((((hlog.filter _).map _).append
      ((hwaits i name).map _)).append (hunread.map _))

/-! ## What the broker does -/

theorem Ordered.logged (h : Ordered k read orig log) {p : Parcel ι → Bool} :
    ∀ x ∈ (log.filter p).map Parcel.origin, x.2 < read x.1 := by
  intro x hx
  obtain ⟨e, he, rfl⟩ := List.mem_map.1 hx
  exact (h.sent e (List.mem_filter.1 he).1).1

/-- What the step makes is later than what has been sent and what waits, the messages `ms`. -/
theorem Ordered.later_new (h : Ordered k read orig log)
    (hr : (L3.broker rex).Reachable k.broker) (hn : Numbers k read read' orig orig' (L3.makings t))
    {R : ι × Nat → ι × Nat → Prop} {p : Parcel ι → Bool} {ms : List L2.Msg}
    (hms : ∀ m ∈ ms, ∃ o ∈ k.broker.trace, ∃ c, o.made = some (c, m))
    (hp : ((log.filter p).map Parcel.origin ++ ms.map fun m => orig m.mid).Pairwise R)
    (hR : ∀ x y, Earlier x y → R x y) : ((log.filter p).map Parcel.origin ++
      (ms ++ L3.newMessages t).map fun m => orig' m.mid).Pairwise R := by
  have hdated := ((L3.minted_inductive rex).reachable _ hr).2.dated
  have hsame : ms.map (fun m => orig' m.mid) = ms.map fun m => orig m.mid := by
    refine List.map_congr_left fun m hm => ?_
    obtain ⟨o, ho, c, hmade⟩ := hms m hm
    exact hn.same _ (hdated o ho c m hmade)
  have hold : ∀ x ∈ ms.map (fun m => orig m.mid), x.2 < read x.1 := by
    intro x hx
    obtain ⟨m, hm, rfl⟩ := List.mem_map.1 hx
    obtain ⟨o, ho, c, hmade⟩ := hms m hm
    exact (h.made o ho c m hmade).1
  have hnew : ∀ y ∈ (L3.newMessages t).map (fun m => orig' m.mid), read y.1 ≤ y.2 := by
    intro y hy
    obtain ⟨m, hm, rfl⟩ := List.mem_map.1 hy
    obtain ⟨o, ho, c, hmade⟩ := L3.mem_newMessages hm
    exact (hn.new o (L3.mem_makings.2 ⟨ho, c, m, hmade⟩) c m hmade).1
  have hone : ((L3.newMessages t).map fun m => orig' m.mid).length ≤ 1 := by
    rw [List.length_map, L3.newMessages_length]
    exact hn.one
  rw [List.map_append, hsame, ← List.append_assoc]
  exact pairwise_new hp hone (fun x hx => (List.mem_append.1 hx).elim (h.logged x) (hold x)) hnew hR

/-- The broker takes a step, in which it makes `os`. -/
theorem ordered_told {l : L3.Label} {os : List L3.Obs} (h : Ordered k read orig log)
    (hr : (L3.broker rex).Reachable k.broker) (hst : (L3.broker rex).step k.broker l s)
    (hkeyed : L3.Keyed k.broker s) (hmints : L3.Mints os k.broker s)
    (hn : Numbers k read read' orig orig' os)
    (hqueued : ∀ j, ∃ ws, k.said j = ws ++ k.due j ∧ read' j ≤ ws.length) :
    ∃ log', Ordered (k.told s) read' orig' log' := by
  have hreg := (L3.regular_inductive rex).reachable _ hr
  have hm := L3.moved_of_step hreg.reg hreg.wired hst
  have hr' := hr.step hst
  obtain ⟨⟨t, ht, rfl⟩, -⟩ := hmints
  have hin : ∀ o ∈ t, o ∈ s.trace := fun o ho => by
    rw [ht]
    exact List.mem_append_right _ ho
  have hmade : ∀ o ∈ s.trace, ∀ c m, o.made = some (c, m) →
      Taken (k.told s) read' (orig' m.mid) o.credentials o.Spells := by
    intro o ho c m hmade
    rw [ht] at ho
    rcases List.mem_append.1 ho with ho | ho
    · have hdated := ((L3.minted_inductive rex).reachable _ hr).2.dated
      rw [hn.same _ (hdated o ho c m hmade)]
      exact (h.made o ho c m hmade).later (fun _ => List.prefix_rfl) hn.reads
    · exact (hn.new o (L3.mem_makings.2 ⟨ho, c, m, hmade⟩) c m hmade).2
  refine ⟨log ++ t.filterMap (parcelOf k.keys orig' k.broker s), hqueued, hmade, fun e he => ?_,
    fun i => ?_, fun l => ?_, fun i name => ?_⟩
  · rcases List.mem_append.1 he with he | he
    · exact (h.sent e he).later (fun _ => List.prefix_rfl) hn.reads
    · obtain ⟨o, ho, he⟩ := List.mem_filterMap.1 he
      obtain ⟨c, m, hh, -, horigin⟩ := parcelOf_some he
      obtain ⟨holder, rfl, hv⟩ := L3.mem_handed hh
      obtain ⟨o', d, m', hsame, ho', hmade', hhands⟩ := L3.delivery_minted hr' (hin _ ho) hv
      cases hsame
      rw [horigin, L3.credentials_of_hands hhands]
      exact (hmade o' ho' d m hmade').imp fun w hw => L3.conveys_of_hands hw hhands
  · obtain ⟨ws, hws, hfrom⟩ := h.arrived i
    refine ⟨ws, hws, ?_⟩
    have hhand : ∀ c holder v hand, .sent c holder (some v) hand ∈ t → L3.delivers v = true →
        ∃ m, hand = some m := fun c holder v hand hmem hv => by
      obtain ⟨_, _, m, hm, -⟩ := L3.delivery_minted hr' (hin _ hmem) hv
      exact ⟨m, hm⟩
    rw [List.filter_append, List.map_append, hfrom, parcels_coming ht hhand, List.append_assoc]
    exact congrArg (ws ++ ·) (List.filter_append ..).symm
  · have hall := h.later_new hr hn (fun m hm => L3.waiting_made hr hm) (h.lines l)
      fun _ _ hxy => hxy
    refine hall.sublist ?_
    rw [List.filter_append, List.map_append, List.append_assoc]
    refine (List.Sublist.refl _).append (((parcels_from l).append (.refl _)).trans ?_)
    rw [← List.map_append]
    exact (L3.line_step hr hr' ht l).map _
  · have hwaits : ∀ m ∈ L3.waitingAt k.broker (k.keys i) name ++ L3.unread (k.broker.stream name),
        ∃ o ∈ k.broker.trace, ∃ c, o.made = some (c, m) := fun m hm =>
      (List.mem_append.1 hm).elim (L3.waitingAt_made hr) (L3.unread_made hr)
    have hstreams := h.streams i name
    rw [List.append_assoc, ← List.map_append] at hstreams
    have hall := h.later_new hr hn hwaits hstreams fun _ _ hxy heq => Nat.le_of_lt (hxy heq)
    rw [List.map_append, List.map_append, ← List.append_assoc, ← List.append_assoc] at hall
    have hsent : ∀ d holder w hand, .sent d holder w hand ∈ t → L3.stageOf k.broker d ≠ .gone :=
      fun d holder w hand hmem => L3.sent_there hreg hm ht hmem
    have hnext := L3.stream_step hr hr' hkeyed ht hsent (k.keys i) name
      (fun _ _ => Nat.le_refl _) (fun m => orig' m.mid) hall
    refine hnext.sublist (((?_ : List.Sublist _ _).append (.refl _)).append (.refl _))
    rw [List.filter_append, List.map_append]
    exact (List.Sublist.refl _).append (parcels_for i name)

/-! ## One step -/

theorem ordered_acted {s : Session} {ws : List Wire} (h : Ordered k read orig log)
    (hsent : (k.peers i).actor.sent <+: s.actor.sent)
    (hpassed : ∀ got, got.map asDelivery = (k.passed i).map some →
      ∃ got', got'.map asDelivery = s.actor.passed.map some ∧
        (got' ++ ws.filter L3.delivers).Sublist (got ++ k.coming i)) :
    ∃ log', Ordered ((k.acted i s).setDown i ws) read orig log' := by
  have hother : ∀ j, j ≠ i → ((k.acted i s).setDown i ws).said j = k.said j ∧
      ((k.acted i s).setDown i ws).due j = k.due j ∧
      ((k.acted i s).setDown i ws).passed j = k.passed j ∧
      ((k.acted i s).setDown i ws).coming j = k.coming j := by
    intro j hj
    simp [said, due, passed, coming, hj]
  have hsaid : ((k.acted i s).setDown i ws).said i = s.actor.sent.filter (!L4.spoken ·) := by
    simp [said]
  have hdue : ((k.acted i s).setDown i ws).due i =
      k.due i ++ (s.actor.sent.drop (k.peers i).actor.sent.length).filter (!L4.spoken ·) := by
    simp [due]
  obtain ⟨new, hnew⟩ := hsent
  refine ordered_stays h (.inl rfl) (fun j => ?_) (fun j vs hvs => ?_) (fun _ _ => .refl _)
    fun j got hgot => ?_
  · rw [setDown_peers, acted_peers]
    by_cases hj : j = i
    · rw [hj, Function.update_self]
      exact ⟨new, hnew⟩
    · simp [hj]
  · by_cases hj : j = i
    · subst hj
      refine ⟨[], ?_⟩
      rw [hsaid, hdue, ← hnew, List.drop_left, List.filter_append, List.append_nil,
        ← List.append_assoc, ← hvs]
      rfl
    · obtain ⟨hs, hd, -, -⟩ := hother j hj
      exact ⟨[], by rw [hs, hd, List.append_nil, hvs]⟩
  · by_cases hj : j = i
    · subst hj
      obtain ⟨got', hgot', hsub⟩ := hpassed got hgot
      exact ⟨got', by simpa [passed] using hgot', by simpa [coming] using hsub⟩
    · obtain ⟨-, -, hp, hc⟩ := hother j hj
      exact ⟨got, by rw [hp, hgot], by rw [hc]⟩

theorem ordered_relinked (h : Ordered k read orig log) {keys : ι ↪ L3.Key} (lost kept : ι → Nat)
    (hkeys : ∀ i, keys i = k.keys i ∨ k.broker.clients.get (keys i) = none) :
    ∃ log', Ordered (k.relinked keys lost kept) read orig log' := by
  refine ordered_stays h (.inl rfl) (fun _ => List.prefix_rfl) (fun j ws hws => ?_)
    (fun i name => ?_) fun i ws hws => ⟨ws, hws, ?_⟩
  · refine ⟨((k.up j).take (lost j)).filter (!L4.spoken ·), ?_⟩
    have hdue : k.due j = ((k.up j).take (lost j)).filter (!L4.spoken ·) ++
        (k.relinked keys lost kept).due j := by
      unfold due
      rw [relinked_up, ← List.filter_append, List.take_append_drop]
    rw [List.append_assoc, ← hdue]
    exact hws
  · rcases hkeys i with hi | hi
    · rw [relinked_keys, hi]
      rfl
    · have hnil : L3.waitingAt k.broker (keys i) name = [] := by
        rw [L3.waitingAt, hi]
        rfl
      rw [relinked_keys, relinked_broker, hnil]
      exact List.nil_sublist _
  · exact (List.Sublist.refl ws).append ((List.take_sublist _ _).filter _)

theorem ordered_restarted (h : Ordered k read orig log) :
    ∃ log', Ordered k.restarted read orig log' :=
  ordered_stays h (.inr rfl) (fun _ => List.prefix_rfl)
    (fun _ ws hws => ⟨[], by rw [List.append_nil]; exact hws⟩)
    (fun _ _ => List.nil_sublist _) fun _ ws hws => ⟨ws, hws, .refl _⟩

/-- The broker takes a step of its own. -/
theorem ordered_inner {s : L3.Server} {l : L3.Label} (h : Ordered k read orig log)
    (hr : (L3.broker rex).Reachable k.broker) (hl : l.inner = true)
    (hst : (L3.broker rex).step k.broker l s) : ∃ log', Ordered (k.told s) read orig log' := by
  have hreg := (L3.regular_inductive rex).reachable _ hr
  have hreg' := (L3.regular_inductive rex).reachable _ (hr.step hst)
  have hm := L3.moved_of_step hreg.reg hreg.wired hst
  exact ordered_told h hr hst (L3.keyed_inner hm hl hreg'.reg) (L3.mints_inner hm hl)
    (.none k read orig) h.queued

theorem due_setUp {w : Wire} {ws : List Wire} (hup : k.up i = w :: ws) :
    k.due i = [w].filter (!L4.spoken ·) ++ (k.setUp i ws).due i := by
  unfold due
  rw [setUp_up, Function.update_self, hup, ← List.filter_append]
  rfl

/-- A message is taken from its connection. -/
theorem ordered_setUp {w : Wire} {ws : List Wire} (h : Ordered k read orig log)
    (hup : k.up i = w :: ws) : ∃ log', Ordered (k.setUp i ws) read orig log' := by
  refine ordered_stays h (.inl rfl) (fun _ => List.prefix_rfl) (fun j vs hvs => ?_)
    (fun _ _ => .refl _) fun _ got hgot => ⟨got, hgot, .refl _⟩
  by_cases hj : j = i
  · subst hj
    refine ⟨[w].filter (!L4.spoken ·), ?_⟩
    rw [List.append_assoc, ← due_setUp hup]
    exact hvs
  · have hother : (k.setUp i ws).due j = k.due j := by simp [due, hj]
    refine ⟨[], ?_⟩
    rw [hother, List.append_nil]
    exact hvs

/-- The broker reads the message `w` of application `i`. -/
theorem ordered_serve {s : L3.Server} {w : Wire} {ws : List Wire} (h : Ordered k read orig log)
    (hauth : Authentic rex k) (hr : (L3.broker rex).Reachable k.broker) (hup : k.up i = w :: ws)
    (hst : (L3.broker rex).step k.broker (.request (k.keys i) w) s) :
    ∃ read' orig' log', Ordered ((k.told s).setUp i ws) read' orig' log' := by
  have hreg := (L3.regular_inductive rex).reachable _ hr
  have hreg' := (L3.regular_inductive rex).reachable _ (hr.step hst)
  have hm := L3.moved_of_step hreg.reg hreg.wired hst
  obtain ⟨d, s₁, hd⟩ := L3.heeded_of_request hreg.reg hm
  have hkeyed := hd.keyed hreg.reg hreg'.reg
  obtain ⟨log₁, h₁⟩ := ordered_setUp h hup
  rcases hd.mints with hmints | ⟨o, m, hmints, hmade, hmid, hspells⟩
  · obtain ⟨log', h'⟩ := ordered_told h₁ hr hst hkeyed hmints (.none _ read orig) h₁.queued
    exact ⟨read, orig, log', h'⟩
  · -- `vs` are the messages that came before `w`, which gets their number
    obtain ⟨vs, hvs, hle⟩ := h.queued i
    rw [due_setUp hup, List.filter_cons_of_pos (by simp [spells_not_spoken hspells])] at hvs
    have hget : (k.said i)[vs.length]? = some w := by
      rw [hvs, List.getElem?_append_right (Nat.le_refl _), Nat.sub_self]
      rfl
    have hsends : ∀ u ∈ o.credentials, Sends k i u :=
      sends_of_made hauth hr hst hd hmints hmade hspells
    have hnumbers : Numbers (k.setUp i ws) read (Function.update read i (vs.length + 1)) orig
        (Function.update orig m.mid (i, vs.length)) [o] := by
      refine ⟨Nat.le_refl _, fun j => ?_, fun n hn => ?_, fun x hx c m' hm' => ?_⟩
      · by_cases hj : j = i
        · rw [hj, Function.update_self]
          omega
        · rw [Function.update_of_ne hj]
      · apply Function.update_of_ne
        intro heq
        rw [heq, hmid] at hn
        exact absurd hn (Nat.lt_irrefl _)
      · obtain rfl := List.mem_singleton.1 hx
        cases hmade.symm.trans hm'
        rw [Function.update_self]
        refine ⟨hle, ?_, hsends, w, hget, hspells⟩
        rw [Function.update_self]
        exact Nat.lt_succ_self _
    obtain ⟨log', h'⟩ := ordered_told h₁ hr hst hkeyed hmints hnumbers fun j => by
      by_cases hj : j = i
      · subst hj
        refine ⟨vs ++ [w], ?_, by simp⟩
        rw [List.append_assoc]
        exact hvs
      · rw [Function.update_of_ne hj]
        exact h₁.queued j
    exact ⟨_, _, log', h'⟩

theorem setDown_same (k : Network ι) : k.setDown i (k.down i) = k := by
  unfold setDown
  rw [Function.update_eq_self]

/-- A frame that the actor does not pass on is taken out of the log. -/
theorem ordered_deliver {s : Session} {w : Wire} {ws : List Wire} (h : Ordered k read orig log)
    (hr : (session env).Reachable (k.peers i)) (hdown : k.down i = w :: ws)
    (hst : (session env).step (k.peers i) (.frame w) s) :
    ∃ log', Ordered ((k.acted i s).setDown i ws) read orig log' := by
  refine ordered_acted h (step_sent hr hst) fun got hgot => ?_
  have hcoming : k.coming i = [w].filter L3.delivers ++ ws.filter L3.delivers := by
    rw [← List.filter_append]
    exact congrArg _ hdown
  rw [hcoming]
  rcases step_passed hr hst with hsame | ⟨w', d, hw, hd, hpassed⟩
  · refine ⟨got, by rw [hgot, hsame]; rfl, ?_⟩
    exact (List.Sublist.refl _).append (List.sublist_append_right _ _)
  · cases hw
    have hdelivers : L3.delivers w = true := by
      cases w <;> first | rfl | cases hd
    refine ⟨got ++ [w], ?_, ?_⟩
    · rw [hpassed, List.map_append, List.map_append, hgot]
      simp [passed, asDelivery, hd]
    · rw [List.filter_cons_of_pos hdelivers, List.append_assoc]
      exact .refl _

variable [Fintype ι]

/-! ## Runs -/

theorem ordered_inductive [Nonempty ι] (env : L4.Env) (rex : Str → Str → Bool) :
    (network (ι := ι) env rex).Inductive fun k =>
      (Alone env rex k ∧ Authentic rex k) ∧ ∃ read orig log, Ordered k read orig log := by
  refine (authentic_inductive env rex).strengthen
    (Q := fun k => ∃ read orig log, Ordered k read orig log) (fun k h => ?_)
    fun k t k' hk _ h hs => ?_
  · obtain ⟨keys, rfl⟩ := h
    obtain ⟨i⟩ := ‹Nonempty ι›
    exact ⟨_, fun _ => (i, 0), [], ordered_new keys _⟩
  · obtain ⟨ha, hauth⟩ := hk
    obtain ⟨read, orig, log, h⟩ := h
    cases network_cases hs with
    | @act i t s ht hst =>
      have hacted : ∃ log', Ordered ((k.acted i s).setDown i ((k.acted i s).down i)) read orig
          log' := by
        refine ordered_acted h (step_sent (ha.peers i) hst) fun got hgot => ⟨got, ?_, .refl _⟩
        rcases step_passed (ha.peers i) hst with hsame | ⟨w, d, rfl, -⟩
        · rw [hgot, hsame]
          rfl
        · cases ht
      obtain ⟨log', h'⟩ := hacted
      rw [setDown_same] at h'
      exact ⟨read, orig, log', h'⟩
    | deliver hdown hst =>
      obtain ⟨log', h'⟩ := ordered_deliver h (ha.peers _) hdown hst
      exact ⟨read, orig, log', h'⟩
    | serve hup hst => exact ordered_serve h hauth ha.broker hup hst
    | inner hl hst =>
      obtain ⟨log', h'⟩ := ordered_inner h ha.broker hl hst
      exact ⟨read, orig, log', h'⟩
    | relink lost kept hkeys =>
      obtain ⟨log', h'⟩ := ordered_relinked h lost kept hkeys
      exact ⟨read, orig, log', h'⟩
    | restart keys lost kept =>
      obtain ⟨log₁, h₁⟩ := ordered_restarted h
      obtain ⟨log', h'⟩ := ordered_relinked h₁ lost kept fun i => .inr rfl
      exact ⟨read, orig, log', h'⟩

/-- **Messages are received once and in order.** In every run there is a log of all that the
applications have received, which gives for each delivery the post that it is from: a message with
this subject and this content, to the mailbox or service that it comes from or to a stream, of an
application whose actor has opened its connection with the address that is given and, if the
delivery comes from a stream, has sent a STREAM WRITE for this stream (before the post or after it).
What comes from one mailbox, or from a service with one subject, whoever receives it, and is from
posts of one sender comes in the order in which they were posted, and each of them at most once. So
does what a reader of a stream receives, except that a post may come more than once. -/
theorem received_in_order (h : (network env rex).Reachable k) : ∃ log, InOrder k log := by
  rcases isEmpty_or_nonempty ι with hempty | hne
  · exact ⟨[], hempty.elim, fun e he => absurd he List.not_mem_nil,
      fun e he => absurd he List.not_mem_nil, fun e he => absurd he List.not_mem_nil,
      fun l => .nil, fun i name => .nil⟩
  · obtain ⟨⟨ha, -⟩, read, orig, log, ho⟩ := (ordered_inductive env rex).reachable k h
    choose got hgot harrived using ho.arrived
    -- what is on its way to an actor or to its application is not received yet
    have hreceived : ∀ i, ((got i).take (k.peers i).received.length).Sublist
        ((log.filter (·.receiver = i)).map Parcel.frame) := fun i => by
      rw [harrived i]
      exact (List.take_sublist _ _).trans (List.sublist_append_left _ _)
    obtain ⟨log', hlog, hkept⟩ := Log.thin_map _ hreceived
    refine ⟨log', fun i => ?_, fun e he => ?_, fun e he => ?_, fun e he name hname => ?_,
      fun l => ?_, fun i name => ?_⟩
    · obtain ⟨-, hf⟩ := (flowing_inductive env).reachable _ (ha.peers i)
      have hdelivery : Parcel.delivery = asDelivery ∘ Parcel.frame (ι := ι) := rfl
      rw [hdelivery, ← List.map_map, hkept i, List.map_take, hgot i, ← List.map_take]
      unfold passed
      rw [← hf.received, List.take_left]
    · exact posted_of_taken (ha.peers _) (ho.sent e (hlog.subset he))
    · obtain ⟨-, hsends, w, -, hconveys⟩ := ho.sent e (hlog.subset he)
      obtain ⟨a, hsender, hmem⟩ := L3.senderOf_conveyed hconveys
      exact ⟨a, hsender, hsends _ hmem⟩
    · obtain ⟨-, hsends, -⟩ := ho.sent e (hlog.subset he)
      exact hsends _ (L3.streamed_credentials hname)
    · have hlines := (List.pairwise_append.1 (ho.lines l)).1
      exact (List.pairwise_map.1 hlines).sublist (hlog.filter _)
    · have hstreams := (List.pairwise_append.1 (List.pairwise_append.1 (ho.streams i name)).1).1
      exact (List.pairwise_map.1 hstreams).sublist (hlog.filter _)

/-- The second application receives two messages that the first has published. -/
theorem received_in_order_twice : ∃ k, (network .lenient fun _ _ => true).Reachable k ∧
    (k.peers true).posted =
      [.streamSend (.ofBytes [115]) [[7]], .streamSend (.ofBytes [115]) [[8]]] ∧
    (k.peers false).received =
      [.stream (.ofBytes [115]) (.ofBytes [115]) (.ofBytes [115]) (some [[7]]),
        .stream (.ofBytes [115]) (.ofBytes [115]) (.ofBytes [115]) (some [[8]])] ∧
    ∃ log, InOrder k log := by
  have hrun : (((new pair).steps .lenient (fun _ _ => true) 20 (publishing ++
      [.act true (.post (.streamSend (.ofBytes [115]) [[8]])), .act true .message, .serve true,
        .inner (.message (.ofBytes [115])), .inner (.traffic (.ofBytes [115])), .deliver false,
        .act false .recv])).any fun k =>
      (k.peers true).posted =
        [.streamSend (.ofBytes [115]) [[7]], .streamSend (.ofBytes [115]) [[8]]] ∧
      (k.peers false).received =
        [.stream (.ofBytes [115]) (.ofBytes [115]) (.ofBytes [115]) (some [[7]]),
          .stream (.ofBytes [115]) (.ofBytes [115]) (.ofBytes [115]) (some [[8]])]) = true := by
    decide +kernel
  obtain ⟨k, hk, hP⟩ := (Option.any_eq_true _ _).1 hrun
  obtain ⟨hposted, hreceived⟩ := of_decide_eq_true hP
  have hr := network_of_steps hk
  exact ⟨k, hr, hposted, hreceived, received_in_order hr⟩

end
end Malamute.L6
