import Malamute.L3Server.Posted
import Malamute.Core.RoundRobin

/-!
# How the workers of a service share its requests

The offers of a service stand in the order that the trace tells (`Sharing`): a new
offer joins at the end, a client that leaves takes its offers away, and the first
offer that matches a request is served and moves to the end. `workers_alternate`:
of two offers that match the same subjects, each gets one request between two of the
other.
-/
namespace Malamute.L3
open Malamute.Core Malamute.Core.RoundRobin Malamute.L1 Malamute.L2 Server

/-- What an observation means for the offers of `name`. -/
def turnOf (rex : Str → Str → Bool) (name : Str) : Obs → Option (Turn Offer)
  | .offered _ n o => if n = name then some (.join o) else none
  | .left c _ => some (.drop fun o => o.client = c)
  | .dispatched n _ o m =>
    if n = name then some (.serve (fun x => rex x.pattern m.subject) o) else none
  | _ => none

def turns (rex : Str → Str → Bool) (name : Str) (t : List Obs) : List (Turn Offer) :=
  t.filterMap (turnOf rex name)

/-- The offers stand as the trace tells. -/
structure Sharing (rex : Str → Str → Bool) (s : Server) : Prop where
  order : ∀ name, (s.service name).offers.items = arranged [] (turns rex name s.trace)
  legal : ∀ name, Legal [] (turns rex name s.trace)
  fresh : ∀ name, ∀ o ∈ (s.service name).offers.items, o.oid < s.offerId

/-- An observation that leaves the offers where they are. -/
def Obs.Settled : Obs → Prop
  | .offered _ _ _ | .left _ _ | .dispatched _ _ _ _ => False
  | _ => True

section
variable {rex : Str → Str → Bool} {s s' : Server} {c : Cid} {k : Client} {a name : Str} {m : Msg}

/-! ## Traces -/

theorem turns_append (name : Str) (t t' : List Obs) :
    turns rex name (t ++ t') = turns rex name t ++ turns rex name t' := List.filterMap_append

theorem turns_some {t : List Obs} {o : Obs} {u : Turn Offer} (ho : turnOf rex name o = some u) :
    turns rex name (o :: t) = u :: turns rex name t := List.filterMap_cons_some ho

theorem turns_none {t : List Obs} {o : Obs} (ho : turnOf rex name o = none) :
    turns rex name (o :: t) = turns rex name t := List.filterMap_cons_none ho

theorem turns_dispatched (t : List Obs) (name : Str) (os : List Offer) (o : Offer) (m : Msg) :
    turns rex name (.dispatched name os o m :: t) =
      .serve (fun x => rex x.pattern m.subject) o :: turns rex name t := turns_some (if_pos rfl)

theorem turns_settled {t : List Obs} (h : ∀ o ∈ t, o.Settled) (name : Str) :
    turns rex name t = [] := by
  refine List.filterMap_eq_nil_iff.2 fun o ho => ?_
  have hs := h o ho
  cases o <;> first | rfl | exact hs.elim

theorem turns_grow {t : List Obs} {o : Obs} {u : Turn Offer} (ht : s'.trace = s.trace ++ o :: t)
    (ho : turnOf rex name o = some u) (hs : ∀ o ∈ t, o.Settled) :
    turns rex name s'.trace = turns rex name s.trace ++ [u] := by
  rw [ht, turns_append, turns_some ho, turns_settled hs]

/-! ## What keeps the order -/

theorem sharing_new (rex : Str → Str → Bool) : Sharing rex .new where
  order _ := rfl
  legal _ := trivial
  fresh name o ho := by cases ho

theorem Sharing.still (h : Sharing rex s)
    (ho : ∀ name, (s'.service name).offers.items = (s.service name).offers.items)
    (hid : s'.offerId = s.offerId) (ht : Grows Obs.Settled s s') : Sharing rex s' := by
  obtain ⟨t, ht, hs⟩ := ht
  have hturns : ∀ name, turns rex name s'.trace = turns rex name s.trace := by
    intro name
    rw [ht, turns_append, turns_settled hs, List.append_nil]
  refine ⟨fun name => ?_, fun name => ?_, fun name o hm => ?_⟩
  · rw [ho, hturns]
    exact h.order name
  · rw [hturns]
    exact h.legal name
  · rw [ho] at hm
    rw [hid]
    exact h.fresh name o hm

/-- Nothing but the trace changes, and an observation that is settled is added. -/
theorem Sharing.quiet (h : Sharing rex s) {o : Obs} (h1 : s'.services = s.services)
    (h2 : s'.offerId = s.offerId) (h3 : s'.trace = s.trace ++ [o]) (ho : o.Settled) :
    Sharing rex s' :=
  h.still (fun name => by rw [service_frame h1]) h2 (grows_one h3 ho)

theorem Sharing.same (h : Sharing rex s) (h1 : s'.services = s.services)
    (h2 : s'.offerId = s.offerId) (h3 : s'.trace = s.trace) : Sharing rex s' :=
  h.still (fun name => by rw [service_frame h1]) h2 (grows_same h3)

theorem sharing_enter (h : Sharing rex s) (c : Cid) (e : Event) : Sharing rex (s.enter c e) :=
  h.quiet (o := .event c e) rfl rfl rfl trivial

theorem sharing_setStatus (h : Sharing rex s) (n : UInt16) : Sharing rex (s.setStatus n) :=
  h.same rfl rfl rfl

theorem sharing_answer (h : Sharing rex s) (c : Cid) (k : Client) (i : Id) :
    Sharing rex (s.answer c k i) :=
  h.quiet (o := .sent c k.address (s.message.setId i k.hashkey).wire s.hand) rfl rfl rfl trivial

theorem sharing_deliver (h : Sharing rex s) (c : Cid) (k : Client) (e : Event) (i : Id) (m : Msg) :
    Sharing rex ((s.enter c e).deliver c k i m) :=
  (sharing_enter h c e).quiet
    (o := .sent c k.address ((s.enter c e).delivery k.hashkey i m).wire (some m)) rfl rfl rfl
    trivial

/-- One turn of the offers of `name`. -/
theorem Sharing.turn (h : Sharing rex s) (name : Str) {o : Obs} {t : List Obs} {u : Turn Offer}
    (ht : s'.trace = s.trace ++ o :: t) (hs : ∀ o ∈ t, o.Settled)
    (ho : turnOf rex name o = some u)
    (hother : ∀ n, n ≠ name → turnOf rex n o = none ∧
      (s'.service n).offers.items = (s.service n).offers.items)
    (hitems : (s'.service name).offers.items = RoundRobin.turn (s.service name).offers.items u)
    (hp : Possible (s.service name).offers.items u) (hid : s.offerId ≤ s'.offerId)
    (hnew : ∀ x ∈ (s'.service name).offers.items, x.oid < s'.offerId) : Sharing rex s' := by
  have hturns : turns rex name s'.trace = turns rex name s.trace ++ [u] := turns_grow ht ho hs
  have hsame : ∀ n, n ≠ name → turns rex n s'.trace = turns rex n s.trace := by
    intro n hn
    rw [ht, turns_append, turns_none (hother n hn).1, turns_settled hs, List.append_nil]
  refine ⟨fun n => ?_, fun n => ?_, fun n x hx => ?_⟩
  · by_cases hn : n = name
    · rw [hn, hitems, hturns, arranged_append, h.order name]
      rfl
    · rw [(hother n hn).2, hsame n hn]
      exact h.order n
  · by_cases hn : n = name
    · rw [hn, hturns, legal_append, ← h.order name]
      exact ⟨h.legal name, hp, trivial⟩
    · rw [hsame n hn]
      exact h.legal n
  · by_cases hn : n = name
    · rw [hn] at hx
      exact hnew x hx
    · rw [(hother n hn).2] at hx
      exact Nat.lt_of_lt_of_le (h.fresh n x hx) hid

/-- A client leaves, with its offers. -/
theorem sharing_leave (h : Sharing rex s) (c : Cid) (k : Client) (a : Str) :
    Sharing rex (s.leave c k a) := by
  have hitems : ∀ name, ((s.leave c k a).service name).offers.items =
      (s.service name).offers.items.filter fun o => !decide (o.client = c) := by
    intro name
    have hservice : (s.leave c k a).service name = (s.service name).withdraw c := by
      rw [← service_withdrawOffers]
      exact service_frame rfl name
    rw [hservice, Service.withdraw, CursorList.items_sweep_reset]
  have hturns : ∀ name, turns rex name (s.leave c k a).trace =
      turns rex name s.trace ++ [.drop fun o => o.client = c] := fun name =>
    turns_grow (t := []) (o := .left c k.readers) rfl rfl (by simp)
  refine ⟨fun name => ?_, fun name => ?_, fun name o ho => ?_⟩
  · rw [hitems, hturns, arranged_append, h.order name]
    rfl
  · rw [hturns]
    exact legal_append.2 ⟨h.legal name, trivial, trivial⟩
  · rw [hitems] at ho
    exact h.fresh name o (List.mem_of_mem_filter ho)

theorem sharing_fail (h : Sharing rex s) (c : Cid) (k : Client) (a : Str) :
    Sharing rex (s.fail c k a) :=
  sharing_leave (sharing_answer (sharing_setStatus (sharing_enter h c .exception) failed) c k
    .error) c k a

/-! ## Mailboxes -/

theorem sharing_mailbox (h : Sharing rex s) (ho : MailboxOnly s s') : Sharing rex s' := by
  have hgrows : Grows Obs.Settled s s' := ho.grows fun _ _ => trivial
  obtain ⟨b, pipe, refs, ms, rfl⟩ := ho
  exact h.still (fun _ => rfl) rfl hgrows

theorem sharing_drain (h : Sharing rex s) (hd : Drain c k a s s') : Sharing rex s' := by
  induction hd with
  | anonymous _ => exact h
  | empty _ hq => exact sharing_mailbox h (mailboxQuery_only hq)
  | next _ hq _ ih =>
    exact ih (sharing_deliver (sharing_mailbox h (mailboxQuery_only hq)) _ _ _ _ _)

theorem sharing_mailed (h : Sharing rex s) (hm : Mailed c a s s') : Sharing rex s' := by
  have hnew : Sharing rex (s.mailing c a) :=
    h.quiet (o := .mailed c (s.messageFrom a)) rfl rfl rfl trivial
  cases hm with
  | direct _ _ hd => exact sharing_drain (sharing_deliver hnew _ _ _ _ _) hd
  | stored _ => exact hnew.same rfl rfl rfl

/-! ## Services -/

/-- **The first offer that matches is served and moves to the end.** -/
theorem sharing_dispatched {b : Bool} (h : Sharing rex s) (hd : Dispatched rex name m s s' b) :
    Sharing rex s' := by
  cases hd with
  | @none offers hs =>
    refine h.still (fun name' => ?_) rfl (grows_same rfl)
    by_cases hn : name' = name
    · subst hn
      have hi := CursorList.items_seek (fun o => rex o.pattern m.subject)
        (s.service name').offers.reset
      rw [hs] at hi
      rw [service_setService, Service.setOffers_offers, hi, CursorList.items_reset]
    · rw [service_setService_ne hn]
  | @some offers o t hs ht =>
    obtain ⟨pre, suf, hpost, hpre, ho, hoffers⟩ := CursorList.seek_some hs
    have hitems : (s.service name).offers.items = pre ++ o :: suf := hpost
    have hnot : o ∉ pre := fun hm => by simpa [ho] using hpre o hm
    have hend : offers.moveEnd.items = (s.service name).offers.items.erase o ++ [o] := by
      rw [hitems, List.erase_append_right _ hnot, List.erase_cons_head, hoffers]
      simp [CursorList.moveEnd, CursorList.items, CursorList.reset]
    have hfind : Possible (s.service name).offers.items
        (.serve (fun x => rex x.pattern m.subject) o) := by
      rw [hitems]
      exact List.find?_eq_some_iff_append.2 ⟨ho, pre, suf, rfl, fun x hx => by simp [hpre x hx]⟩
    refine h.turn name (o := .dispatched name (s.service name).offers.items o m)
      (t := [.event o.client .serviceMessage, .sent o.client t.address
        (s.delivery t.hashkey .serviceDeliver m).wire (some m)]) ?_ ?_ (if_pos rfl) (fun n hn => ?_)
      ?_ hfind (Nat.le_refl _) (fun x hx => ?_)
    · simp [delivery]
    · exact List.forall_mem_cons.2 ⟨trivial, List.forall_mem_singleton.2 trivial⟩
    · exact ⟨if_neg hn.symm, by rw [service_setService_ne hn]; rfl⟩
    · rw [service_setService, Service.setOffers_offers, hend]
      rfl
    · rw [service_setService, Service.setOffers_offers, hend] at hx
      rcases List.mem_append.1 hx with hx | hx
      · exact h.fresh name x (List.mem_of_mem_erase hx)
      · rw [List.mem_singleton.1 hx]
        exact h.fresh name o (by rw [hitems]; simp)

theorem sharing_setQueue (h : Sharing rex s) (name : Str) (q : Msgq) :
    Sharing rex (s.setService name ((s.service name).setQueue q)) := by
  refine h.still (fun n => ?_) rfl (grows_same rfl)
  by_cases hn : n = name
  · rw [hn, service_setService]
    rfl
  · rw [service_setService_ne hn]

theorem sharing_requested (h : Sharing rex s) (hm : Requested rex c a s s') : Sharing rex s' := by
  have hreq : Sharing rex (s.requesting c a) :=
    h.still (fun name => by rw [service_requesting]) rfl
      (grows_one (o := .requested c (s.messageFrom a)) rfl trivial)
  cases hm with
  | dispatched hd => exact sharing_dispatched hreq hd
  | queued hd _ => exact sharing_setQueue (sharing_dispatched hreq hd) _ _
  | refused hd _ =>
    exact (sharing_setQueue (sharing_dispatched hreq hd) s.message.address _).quiet
      (o := .dropped (.service s.message.address) (s.messageFrom a)) rfl rfl rfl trivial

theorem sharing_scan {mo : Option Msg} (hscan : Scan rex name mo s s') (h : Sharing rex s) :
    Sharing rex s' := by
  have hlink : ∀ {s : Server} (m : Msg), Sharing rex s → Sharing rex (s.link m) :=
    fun _ h => h.same rfl rfl rfl
  have hnext : ∀ {s : Server} (m : Msg) (q : Msgq), Sharing rex s →
      Sharing rex ((s.unlink m).setService name ((s.service name).setQueue q)) := by
    intro s m q h
    have hunlink : Sharing rex (s.unlink m) := h.same rfl rfl rfl
    exact sharing_setQueue hunlink name q
  induction hscan with
  | done => exact h
  | skip hd _ ih => exact ih (hnext _ _ (sharing_dispatched (hlink _ h) hd))
  | take hd _ _ ih => exact ih (hnext _ _ (sharing_dispatched (hlink _ h) hd))

/-- A new offer joins at the end. -/
theorem sharing_offering (h : Sharing rex s) (c : Cid) (k : Client) :
    Sharing rex (s.offering c k) := by
  have hitems : ((s.offering c k).service s.message.address).offers.items =
      (s.service s.message.address).offers.items ++ [⟨s.offerId, s.message.pattern, c⟩] := by
    rw [service_offering, if_pos rfl]
    simp
  refine h.turn s.message.address
    (o := .offered c s.message.address ⟨s.offerId, s.message.pattern, c⟩)
    (t := [.sent c k.address (s.message.setId .ok k.hashkey).wire s.hand]) ?_
    (List.forall_mem_singleton.2 trivial) (if_pos rfl) (fun n hn => ?_) hitems ?_
    (Nat.le_succ _) (fun x hx => ?_)
  · simp [offering]
  · refine ⟨if_neg hn.symm, ?_⟩
    rw [service_offering, if_neg hn]
  · intro hm
    exact Nat.lt_irrefl _ (h.fresh _ _ hm)
  · show x.oid < s.offerId + 1
    rw [hitems] at hx
    rcases List.mem_append.1 hx with hx | hx
    · exact Nat.lt_succ_of_lt (h.fresh _ x hx)
    · rw [List.mem_singleton.1 hx]
      exact Nat.lt_succ_self _

/-! ## All steps -/

theorem sharing_handled {e : Event} (h : Sharing rex s) (hh : Handled rex s c e s') :
    Sharing rex s' := by
  have henter : ∀ e, Sharing rex (s.enter c e) := sharing_enter h c
  cases hh with
  | @opened k s₁ _ _ _ hev hd =>
    have h₁ : Sharing rex s₁ := by
      cases hev with
      | nobody _ => exact henter _
      | holder _ _ _ => exact sharing_leave (sharing_enter (henter _) _ _) _ _ _
    have hreg : Sharing rex (s₁.register c k s.message.address) := by
      rw [register_eq]
      exact h₁.quiet rfl rfl rfl trivial
    exact sharing_drain hreg hd
  | departed _ _ => exact (henter _).same rfl rfl rfl
  | unopened _ _ _ => exact sharing_answer (sharing_setStatus (henter _) _) _ _ _
  | wrote _ =>
    refine sharing_answer ((henter .streamWrite).same ?_ ?_ ?_) _ _ _ <;> rfl
  | read _ =>
    refine sharing_answer ((henter .streamRead).quiet
      (o := .subscribed c s.message.stream s.message.pattern) ?_ ?_ ?_ trivial) _ _ _ <;> rfl
  | cancelled _ =>
    refine sharing_answer ((henter .streamCancel).quiet
      (o := .cancelled c s.message.stream) ?_ ?_ ?_ trivial) _ _ _ <;> rfl
  | published _ _ => exact (henter .streamSend).quiet rfl rfl rfl trivial
  | unwritten _ _ => exact sharing_fail (henter _) _ _ _
  | mailed _ hm => exact sharing_mailed (henter _) hm
  | requested _ hm => exact sharing_requested (henter _) hm
  | offered _ hs₁ hscan =>
    subst hs₁
    exact sharing_scan hscan (sharing_setQueue (sharing_offering (henter .serviceOffer) _ _) _ _)
  | confirmed _ => exact sharing_fail (henter _) _ _ _
  | credited _ => exact henter _
  | pinged _ => exact sharing_answer (henter _) _ _ _
  | closed _ => exact sharing_leave (sharing_answer (henter _) _ _ _) _ _ _
  | expired _ => exact sharing_leave (henter _) _ _ _
  | invalid _ _ =>
    exact sharing_leave (sharing_answer (sharing_setStatus (henter _) _) _ _ _) _ _ _

theorem sharing_received {parts : List Frame} (h : Sharing rex s)
    (hrecv : Received rex s parts s') : Sharing rex s' := by
  have hnew : ∀ {p : Proto} {rest : List Frame} {key : Key} {c : Cid} {s₁ : Server},
      (s.received p rest).clientRequire key = (c, s₁) → Sharing rex s₁ := by
    intro p rest key c s₁ hreq
    rcases clientRequire_cases hreq with ⟨-, rfl⟩ | ⟨-, -, rfl⟩
    · exact h.same rfl rfl rfl
    · exact h.same rfl rfl rfl
  cases hrecv with
  | interrupted _ => exact h.same rfl rfl rfl
  | ignored _ => exact hnew rfl
  | @handled p rest c s₁ _ _ hreq hh =>
    have hheard : Sharing rex (s₁.hear c parts.tail p) := (hnew hreq).quiet
      (o := .received c ((s₁.ctx c).bind (·.address)) parts.tail p.wire) rfl rfl rfl trivial
    exact sharing_handled hheard hh

theorem sharing_moved {l : Label} (h : Sharing rex s) (hm : Moved rex s l s') : Sharing rex s' := by
  cases hm with
  | router _ _ hrecv => exact sharing_received h hrecv
  | more _ hrecv => exact sharing_received h hrecv
  | expired _ _ _ hh => exact sharing_handled h hh
  | @acked name st c up k _ _ _ _ =>
    have hpop : Sharing rex (s.popStream name st up) := h.same rfl rfl rfl
    unfold Server.put
    split <;> exact hpop.same rfl rfl rfl
  | discarded _ _ _ _ _ => exact h.same rfl rfl rfl
  | @delivered name st c m up k a _ _ _ _ =>
    have hpop : Sharing rex (s.popStream name st up) := h.same rfl rfl rfl
    exact sharing_deliver hpop c k .streamMessage .streamDeliver m
  | command _ _ => exact h.same rfl rfl rfl
  | @message name st st' m targets _ _ =>
    exact h.quiet (o := .forwarded name m targets) rfl rfl rfl trivial
  | mailbox _ hread => exact sharing_mailbox h (mailboxRead_only hread)
  | @configured service mailbox s₁ _ hreads =>
    have hcfg : Sharing rex { s with serviceCfg := service } := h.same rfl rfl rfl
    exact (sharing_mailbox hcfg (mailboxReads_only hreads)).same rfl rfl rfl

theorem sharing_inductive (rex : Str → Str → Bool) :
    (broker rex).Inductive fun s => Regular s ∧ Sharing rex s := by
  refine (regular_inductive rex).strengthen (Q := Sharing rex) ?_ ?_
  · rintro s rfl
    exact sharing_new rex
  · intro s l s' hr _ h hstep
    exact sharing_moved h (moved_of_step hr.reg hr.wired hstep)

/-! ## Who gets the requests -/

theorem arranged_one (xs : List Offer) (name : Str) (o : Obs) :
    arranged xs (turns rex name [o]) = (turnOf rex name o).elim xs (RoundRobin.turn xs) := by
  cases h : turnOf rex name o with
  | none => rw [turns_none h]; rfl
  | some u => rw [turns_some h]; rfl

/-- One observation, for the list in turn and the list in any order. -/
theorem perm_listStep {xs os : List Offer} {o : Obs} (h : xs.Perm os)
    (hp : ∀ u, turnOf rex name o = some u → Possible xs u) :
    ((turnOf rex name o).elim xs (RoundRobin.turn xs)).Perm (listStep name os o) := by
  cases o with
  | offered c n x =>
    by_cases hn : n = name
    · simpa [turnOf, hn, RoundRobin.turn, listStep] using h.append_right [x]
    · simpa [turnOf, hn, listStep] using h
  | left c r => simpa [turnOf, RoundRobin.turn, listStep] using h.filter fun o => o.client ≠ c
  | dispatched n os' x m =>
    by_cases hn : n = name
    · have hmem : x ∈ xs := (mem_of_possible (hp _ (if_pos hn))).1
      have hmove : (xs.erase x ++ [x]).Perm xs :=
        (List.perm_append_singleton ..).trans (List.perm_cons_erase hmem).symm
      simpa [turnOf, hn, RoundRobin.turn, listStep] using hmove.trans h
    · simpa [turnOf, hn, listStep] using h
  | _ => exact h

/-- The offers are those that are listed, in their own order. -/
theorem arranged_perm (name : Str) (t : List Obs) (h : Legal [] (turns rex name t)) :
    (arranged [] (turns rex name t)).Perm (listed name t) := by
  induction t using List.reverseRecOn with
  | nil => exact .refl _
  | append_singleton t o ih =>
    rw [turns_append, legal_append] at h
    rw [turns_append, arranged_append, listed_append, arranged_one]
    refine perm_listStep (ih h.1) fun u hu => ?_
    have hlast := h.2
    rw [turns_some hu] at hlast
    exact hlast.1

/-- The requests of `name` that were given to `o`. -/
def given (name : Str) (o : Offer) (t : List Obs) : Nat :=
  t.countP fun
    | .dispatched n _ x _ => n = name ∧ x = o
    | _ => false

theorem given_eq (rex : Str → Str → Bool) (name : Str) (o : Offer) (t : List Obs) :
    given name o t = (turns rex name t).countP (serves o) := by
  rw [turns, List.countP_filterMap, given]
  congr 1
  funext x
  cases x with
  | offered c n y => by_cases hn : n = name <;> simp [turnOf, hn, serves]
  | dispatched n os y m => by_cases hn : n = name <;> simp [turnOf, hn, serves]
  | _ => rfl

/-- Two offers that match the same subjects meet the same requests. -/
theorem alike_turns {o o' : Offer} (h : ∀ x, rex o.pattern x = rex o'.pattern x) (name : Str)
    (t : List Obs) : Alike o o' (turns rex name t) := by
  intro p z hz
  obtain ⟨x, -, hx⟩ := List.mem_filterMap.1 hz
  cases x with
  | offered c n y =>
    simp only [turnOf] at hx
    split at hx <;> cases hx
  | dispatched n os y m =>
    simp only [turnOf] at hx
    split at hx
    · cases hx
      exact h m.subject
    · cases hx
  | _ => cases hx

/-- **Workers that match the same subjects take turns**: between two requests that are
given to one of two such offers, one is given to the other, as long as both are offered,
whatever happens to the other offers. -/
theorem workers_alternate (h : (broker rex).Reachable s) {o o' : Offer} (hne : o' ≠ o)
    (halike : ∀ x, rex o.pattern x = rex o'.pattern x) {t b u : List Obs} {os os' : List Offer}
    {m m' : Msg}
    (ht : s.trace = t ++ .dispatched name os o m :: (b ++ .dispatched name os' o m' :: u))
    (hstay : ∀ b', b' <+: b → o ∈ listed name (t ++ .dispatched name os o m :: b') ∧
      o' ∈ listed name (t ++ .dispatched name os o m :: b'))
    (hbetween : given name o b = 0) : given name o' b = 1 := by
  have hlegal := ((sharing_inductive rex).reachable s h).2.legal name
  let p : Offer → Bool := fun x => rex x.pattern m.subject
  let q : Offer → Bool := fun x => rex x.pattern m'.subject
  have hcut : ∀ b', turns rex name (t ++ .dispatched name os o m :: b') =
      turns rex name t ++ .serve p o :: turns rex name b' := by
    intro b'
    rw [turns_append, turns_dispatched]
  have hrest : turns rex name (b ++ .dispatched name os' o m' :: u) =
      (turns rex name b ++ [.serve q o]) ++ turns rex name u := by
    rw [turns_append, turns_dispatched, List.append_assoc]
    rfl
  rw [ht, hcut, hrest, legal_append, legal_cons, legal_append] at hlegal
  obtain ⟨hbefore, hserve, hthen, -⟩ := hlegal
  have hnd := nodup_arranged List.nodup_nil hbefore
  let xs := RoundRobin.turn (arranged [] (turns rex name t)) (.serve p o)
  -- up to the second request, what is listed is what stands in the list
  have hlisted : ∀ b', b' <+: b → (arranged xs (turns rex name b')).Perm
      (listed name (t ++ .dispatched name os o m :: b')) := by
    rintro b' ⟨r, rfl⟩
    have hlegal' : Legal [] (turns rex name (t ++ .dispatched name os o m :: b')) := by
      rw [turns_append, List.append_assoc, legal_append] at hthen
      rw [hcut, legal_append, legal_cons]
      exact ⟨hbefore, hserve, hthen.1⟩
    have hperm := arranged_perm name _ hlegal'
    rw [hcut, arranged_append] at hperm
    exact hperm
  have hstays : ∀ x, (∀ b', b' <+: b → x ∈ listed name (t ++ .dispatched name os o m :: b')) →
      Stays x xs (turns rex name b) := by
    rintro x hx us ⟨vs, hvs⟩
    obtain ⟨b₁, b₂, rfl, rfl, -⟩ := List.filterMap_eq_append_iff.1 hvs.symm
    exact (hlisted b₁ (List.prefix_append ..)).mem_iff.2 (hx b₁ (List.prefix_append ..))
  have ho := hstays o fun b' hb => (hstay b' hb).1
  have ho' := hstays o' fun b' hb => (hstay b' hb).2
  have hmem : o' ∈ arranged [] (turns rex name t) := by
    rcases List.mem_append.1 (ho' [] (List.nil_prefix ..)) with hm | hm
    · exact List.mem_of_mem_erase hm
    · exact absurd (List.mem_singleton.1 hm) hne
  have hboth : Alike o o' (turns rex name b ++ [.serve q o]) := by
    have hall := alike_turns halike name (b ++ .dispatched name os' o m' :: u)
    rw [hrest] at hall
    exact fun r z hz => hall r z (List.mem_append_left _ hz)
  rw [given_eq rex, List.countP_eq_zero] at hbetween
  rw [given_eq rex]
  exact served_between hne (nodup_turn hnd hserve) hthen hboth ho ho' (precedes_serve hmem hne)
    fun v hv => Bool.eq_false_iff.2 (hbetween v hv)

/-- Two workers make the same offer to service "s"; client "a" sends three requests. -/
def workersRun : List Label :=
  [.request [1] (.connectionOpen (.ofBytes [97])),
    .request [2] (.connectionOpen (.ofBytes [119])),
    .request [3] (.connectionOpen (.ofBytes [120])),
    .request [2] (.serviceOffer (.ofBytes [115]) (.ofBytes [112])),
    .request [3] (.serviceOffer (.ofBytes [115]) (.ofBytes [112])),
    .request [1] (.serviceSend (.ofBytes [115]) (.ofBytes [112]) .empty 0 [[1]]),
    .request [1] (.serviceSend (.ofBytes [115]) (.ofBytes [112]) .empty 0 [[2]]),
    .request [1] (.serviceSend (.ofBytes [115]) (.ofBytes [112]) .empty 0 [[3]])]

/-- The first and the third request go to one worker, and one to the other in between. -/
theorem workers_alternate_workersRun : ∃ s o o' t b u os os' m m',
    Server.new.steps (fun p x => decide (p = x)) (fun _ _ => True) 20 workersRun = some s ∧
      o' ≠ o ∧ s.trace = t ++ .dispatched (.ofBytes [115]) os o m ::
        (b ++ .dispatched (.ofBytes [115]) os' o m' :: u) ∧ given (.ofBytes [115]) o' b = 1 := by
  let name : Str := .ofBytes [115]
  let o : Offer := ⟨0, .ofBytes [112], 1⟩
  let o' : Offer := ⟨1, .ofBytes [112], 2⟩
  let m : Msg := ⟨0, .ofBytes [97], name, .ofBytes [112], some .empty, 0, some [[1]]⟩
  let m' : Msg := ⟨2, .ofBytes [97], name, .ofBytes [112], some .empty, 0, some [[3]]⟩
  have hrun : ((Server.new.steps (fun p x => decide (p = x)) (fun _ _ => True) 20 workersRun).any
      fun s => s.trace = s.trace.take 20 ++ .dispatched name [o, o'] o m ::
          ((s.trace.drop 21).take 11 ++ .dispatched name [o, o'] o m' :: s.trace.drop 33) ∧
        (∀ n < 12, o ∈ listed name (s.trace.take 20 ++ .dispatched name [o, o'] o m ::
            ((s.trace.drop 21).take 11).take n) ∧
          o' ∈ listed name (s.trace.take 20 ++ .dispatched name [o, o'] o m ::
            ((s.trace.drop 21).take 11).take n)) ∧
        given name o ((s.trace.drop 21).take 11) = 0) = true := by
    decide +kernel
  obtain ⟨s, hs, hp⟩ := (Option.any_eq_true _ _).1 hrun
  obtain ⟨ht, hstay, hno⟩ := of_decide_eq_true hp
  have hne : o' ≠ o := by decide
  refine ⟨s, o, o', _, _, _, _, _, _, _, hs, hne, ht,
    workers_alternate (reachable_of_steps hs).of_within hne (fun _ => rfl) ht (fun b' hb => ?_) hno⟩
  have hlen : b'.length < 12 := by
    have hle := hb.length_le
    rw [List.length_take] at hle
    omega
  rw [List.prefix_iff_eq_take.1 hb]
  exact hstay b'.length hlen

end
end Malamute.L3
