import Malamute.L3Server.Trace

/-!
# Offers, as the trace tells them

`listed` is the offers of a service according to what has happened: SERVICE
OFFER adds one, and a client that leaves takes its own away. `Served` says that
the list the server keeps has the same offers (their order is how the server
shares the work), and that every SERVICE DELIVER went to a client that had, at
that moment, an offer that matches the subject.
-/
namespace Malamute.L3
open Malamute.Core Malamute.L1 Malamute.L2 Server

/-- What an observation does to the offers of `name`. -/
def listStep (name : Str) (os : List Offer) : Obs → List Offer
  | .offered _ n o => if n = name then os ++ [o] else os
  | .left c _ => os.filter (fun o => o.client ≠ c)
  | _ => os

def listed (name : Str) (t : List Obs) : List Offer := t.foldl (listStep name) []

/-- Every SERVICE DELIVER in the trace went to the client of an offer. -/
def Matched (rex : Str → Str → Bool) (t : List Obs) : Prop :=
  ∀ t₁ c holder w m t₂, t = t₁ ++ .sent c holder (some w) (some m) :: t₂ →
    w.id = .serviceDeliver →
    ∃ o ∈ listed m.address t₁, o.client = c ∧ rex o.pattern m.subject = true

structure Served (rex : Str → Str → Bool) (s : Server) : Prop where
  listed : ∀ name, (s.service name).offers.items.Perm (listed name s.trace)
  matched : Matched rex s.trace

/-- An observation that is no SERVICE DELIVER and changes no offers. -/
def Obs.Plain : Obs → Prop
  | .sent _ _ (some w) _ => w.id ≠ .serviceDeliver
  | .offered _ _ _ | .left _ _ => False
  | _ => True

section
variable {rex : Str → Str → Bool} {s s' : Server} {c : Cid} {k : Client} {a name : Str} {m : Msg}

/-! ## Traces -/

theorem listed_append (name : Str) (t t' : List Obs) :
    listed name (t ++ t') = t'.foldl (listStep name) (listed name t) := List.foldl_append

theorem listStep_plain {o : Obs} (ho : o.Plain) (name : Str) (os : List Offer) :
    listStep name os o = os := by
  cases o <;> first | rfl | exact ho.elim

theorem listed_plain {t t' : List Obs} (ht : ∀ o ∈ t', o.Plain) (name : Str) :
    listed name (t ++ t') = listed name t := by
  rw [listed_append]
  induction t' with
  | nil => rfl
  | cons o t' ih =>
    rw [List.foldl_cons, listStep_plain (ht o List.mem_cons_self)]
    exact ih fun o ho => ht o (List.mem_cons_of_mem _ ho)

theorem matched_nil : Matched rex [] := by
  intro t₁ c holder w m t₂ h
  cases t₁ <;> cases h

/-- Only the last observation has to be looked at. -/
theorem Matched.snoc {t : List Obs} {o : Obs} (h : Matched rex t)
    (ho : ∀ c holder w m, o = .sent c holder (some w) (some m) → w.id = .serviceDeliver →
      ∃ x ∈ listed m.address t, x.client = c ∧ rex x.pattern m.subject = true) :
    Matched rex (t ++ [o]) := by
  intro t₁ c holder w m t₂ hsplit hid
  rcases List.eq_nil_or_concat t₂ with rfl | ⟨t₂, o', rfl⟩
  · obtain ⟨rfl, hlast⟩ := List.append_inj' hsplit rfl
    exact ho c holder w m (List.cons.inj hlast).1 hid
  · rw [List.concat_eq_append, ← List.cons_append, ← List.append_assoc] at hsplit
    exact h t₁ c holder w m t₂ (List.append_inj' hsplit rfl).1 hid

theorem Matched.plain {t t' : List Obs} (h : Matched rex t) (ht : ∀ o ∈ t', o.Plain) :
    Matched rex (t ++ t') := by
  induction t' generalizing t with
  | nil => simpa using h
  | cons o t' ih =>
    have hsnoc : Matched rex (t ++ [o]) := by
      refine h.snoc ?_
      rintro c holder w m rfl hid
      exact absurd hid (ht _ List.mem_cons_self)
    have hrest := ih hsnoc fun o ho => ht o (List.mem_cons_of_mem _ ho)
    rwa [List.append_assoc] at hrest

/-- How the trace grows when no service is concerned. -/
abbrev GrowsPlain (s s' : Server) : Prop := Grows Obs.Plain s s'

theorem growsPlain_log (s : Server) {o : Obs} (ho : o.Plain) : GrowsPlain s (s.log o) :=
  ⟨[o], rfl, by simpa using ho⟩

theorem wire_setId (p : Proto) (id : Id) (key : Frame) :
    ∃ w, (p.setId id key).wire = some w ∧ w.id = id := by
  cases id <;> exact ⟨_, rfl, rfl⟩

theorem plain_sent (c : Cid) (holder : Option Str) (p : Proto) {id : Id} (key : Frame)
    (hand : Option Msg) (h : id ≠ .serviceDeliver) :
    (Obs.sent c holder (p.setId id key).wire hand).Plain := by
  obtain ⟨w, hw, rfl⟩ := wire_setId p id key
  rw [hw]
  exact h

theorem growsPlain_delivered (s : Server) (c : Cid) (k : Client) (e : Event) {id : Id} (m : Msg)
    (h : id ≠ .serviceDeliver) : GrowsPlain s ((s.enter c e).deliver c k id m) :=
  (growsPlain_log s (o := .event c e) trivial).trans
    ⟨[_], rfl, List.forall_mem_singleton.2
      (plain_sent c k.address (m.setProto s.message) k.hashkey (some m) h)⟩

theorem growsPlain_drain (h : Drain c k a s s') : GrowsPlain s s' := by
  have hdropped : ∀ b m, (Obs.dropped b m).Plain := fun _ _ => trivial
  induction h with
  | anonymous _ => exact grows_same rfl
  | empty _ hq => exact (mailboxQuery_only hq).grows hdropped
  | next _ hq _ ih =>
    exact (((mailboxQuery_only hq).grows hdropped).trans
      (growsPlain_delivered _ _ _ _ _ (by simp))).trans ih

theorem growsPlain_mailed (h : Mailed c a s s') : GrowsPlain s s' := by
  have hnew : GrowsPlain s (s.mailing c a) := ⟨[_], rfl, by simp [Obs.Plain]⟩
  cases h with
  | direct _ _ hd =>
    exact (hnew.trans (growsPlain_delivered _ _ _ _ _ (by simp))).trans (growsPlain_drain hd)
  | stored _ => exact hnew.trans (grows_same rfl)

/-! ## What keeps `Served` -/

theorem served_new (rex : Str → Str → Bool) : Served rex .new := ⟨fun _ => .refl _, matched_nil⟩

theorem Served.plain (h : Served rex s) (ho : SameOffers s s') (ht : GrowsPlain s s') :
    Served rex s' := by
  obtain ⟨t, ht, hp⟩ := ht
  refine ⟨fun name => ?_, ?_⟩
  · rw [ht, listed_plain hp]
    exact (ho name).trans (h.listed name)
  · rw [ht]
    exact h.matched.plain hp

/-- A client leaves, with its offers. -/
theorem served_leave (h : Served rex s) (c : Cid) (k : Client) (a : Str) :
    Served rex (s.leave c k a) where
  listed name := by
    have hservice : (s.leave c k a).service name = (s.service name).withdraw c := by
      rw [← service_withdrawOffers]
      exact service_frame rfl name
    have hitems : ((s.service name).withdraw c).offers.items =
        (s.service name).offers.items.filter (fun o => o.client ≠ c) := by
      rw [Service.withdraw, CursorList.items_sweep_reset]
      simp
    have htrace : (s.leave c k a).trace = s.trace ++ [.left c k.readers] := rfl
    rw [hservice, hitems, htrace, listed_append]
    exact (h.listed name).filter _
  matched := h.matched.snoc (by simp)

/-- A dispatch: the client that gets the message has the offer. -/
theorem served_dispatched {b : Bool} (h : Served rex s) (hd : Dispatched rex name m s s' b)
    (hm : m.address = name) : Served rex s' := by
  have hoffers := dispatched_offers hd
  cases hd with
  | none _ => exact h.plain hoffers (grows_same rfl)
  | @some offers o t hs ht =>
    refine ⟨fun name' => (hoffers name').trans ?_, ?_⟩
    · simp only [setService_trace, deliver_trace, enter_trace, log_trace, listed_append]
      exact h.listed name'
    · obtain ⟨-, -, -, -, ho, -⟩ := CursorList.seek_some hs
      have hmem : o ∈ (s.service name).offers.items := CursorList.mem_of_seek hs
      have hbefore : Matched rex (s.trace ++
          [.dispatched name (s.service name).offers.items o m] ++
            [.event o.client .serviceMessage]) :=
        (h.matched.snoc (by simp)).snoc (by simp)
      refine hbefore.snoc ?_
      intro c holder w m' heq _
      simp only [Obs.sent.injEq, Option.some.injEq] at heq
      obtain ⟨rfl, -, -, rfl⟩ := heq
      refine ⟨o, ?_, rfl, ho⟩
      rw [List.append_assoc, listed_append, hm]
      exact (h.listed name).mem_iff.1 hmem

/-- A change of a queue, and what it drops. -/
theorem Served.setQueue (h : Served rex s) (name : Str) (queue : Msgq) :
    Served rex (s.setService name ((s.service name).setQueue queue)) :=
  h.plain (sameOffers_setQueue s name queue) (grows_same rfl)

theorem served_requested (h : Served rex s) (hm : Requested rex c a s s') : Served rex s' := by
  have hreq : Served rex (s.requesting c a) :=
    h.plain (requesting_offers s c a) ⟨[_], rfl, by simp [Obs.Plain]⟩
  cases hm with
  | dispatched hd => exact served_dispatched hreq hd rfl
  | queued hd _ => exact (served_dispatched hreq hd rfl).setQueue _ _
  | @refused s₁ queue hd _ =>
    have hq := (served_dispatched hreq hd rfl).setQueue s.message.address queue
    exact hq.plain (.refl _) ⟨[_], rfl, by simp [Obs.Plain]⟩

end
end Malamute.L3
