import Malamute.L3Server.Offers

/-!
# The status codes of OK and ERROR

The status code is a field of the message object, which all clients share. The
actions before an ERROR set it, and so do those before an OK, but for STREAM
CANCEL, SERVICE OFFER and CONNECTION CLOSE: their OK carries whatever the last
action or the last message has left there.

* `truthful_of_current`: if that is a success code whenever one of the three is
  executed, every OK carries a success code and every ERROR a failure code.
* `ok_with_failure`: a client that has not opened its connection gets its ERROR,
  and the next OK goes out with the code of that ERROR.
-/
namespace Malamute.L3
open Malamute.Core Malamute.L1 Malamute.L2 Server

/-- A status code of an OK. -/
def Success (n : UInt16) : Prop := 200 ≤ n ∧ n < 300

instance (n : UInt16) : Decidable (Success n) := inferInstanceAs (Decidable (_ ∧ _))

/-- OK says success, ERROR says failure. -/
def CodeFits : Wire → Prop
  | .ok n _ => Success n
  | .error n _ => 300 ≤ n
  | _ => True

instance : (w : Wire) → Decidable (CodeFits w)
  | .ok n _ => inferInstanceAs (Decidable (Success n))
  | .error n _ => inferInstanceAs (Decidable (300 ≤ n))
  | .connectionOpen _ | .connectionPing | .connectionPong | .connectionClose | .streamWrite _
  | .streamRead _ _ | .streamSend _ _ | .streamDeliver _ _ _ _ | .mailboxSend _ _ _ _ _
  | .mailboxDeliver _ _ _ _ _ | .serviceSend _ _ _ _ _ | .serviceOffer _ _
  | .serviceDeliver _ _ _ _ _ | .credit _ | .confirm _ _ _ | .streamCancel _ => .isTrue trivial

/-- The frame that is sent, if one is, is truthful. -/
def Obs.Truthful : Obs → Prop
  | .sent _ _ (some w) _ => CodeFits w
  | _ => True

/-- The events whose OK carries the status code that is there. -/
def Event.keepsStatus : Event → Bool
  | .streamCancel | .serviceOffer | .connectionClose => true
  | _ => false

/-- If the step executes such an event of an open client, the status code in the
message object is a success code. -/
def StatusCurrent (s : Server) (l : Label) : Prop :=
  ∀ parts ∈ l.parts s,
    ∀ k ∈ (s.clients.get ((recv s.message parts).1.routingId.getD [])).bind s.ctx,
      (recv s.message parts).2.1 = .ok →
        (protocolEvent (recv s.message parts).1).keepsStatus = true → k.state = .connected →
          Success (recv s.message parts).1.statusCode

instance (s : Server) (l : Label) : Decidable (StatusCurrent s l) :=
  inferInstanceAs (Decidable (∀ parts ∈ l.parts s,
    ∀ k ∈ (s.clients.get ((recv s.message parts).1.routingId.getD [])).bind s.ctx,
      (recv s.message parts).2.1 = .ok →
        (protocolEvent (recv s.message parts).1).keepsStatus = true → k.state = .connected →
          Success (recv s.message parts).1.statusCode))

section
variable {rex : Str → Str → Bool} {s s' : Server} {c : Cid} {k : Client} {a : Str}

/-! ## The frames -/

theorem relayed_truthful : Relayed Obs.Truthful where
  event _ _ := trivial
  delivered _ _ _ _ _ _ h := by rcases h with rfl | rfl | rfl <;> trivial
  mailed _ _ := trivial
  requested _ _ := trivial
  dispatched _ _ _ _ := trivial
  dropped _ _ := trivial

/-- What an answer has to say. -/
def Answers (id : Id) (n : UInt16) : Prop :=
  (id = .ok ∧ Success n) ∨ (id = .error ∧ 300 ≤ n) ∨ id = .connectionPong

theorem truthful_answer (s : Server) (c : Cid) (k : Client) {id : Id}
    (h : Answers id s.message.statusCode) : Grows Obs.Truthful s (s.answer c k id) := by
  refine grows_one rfl ?_
  rcases h with ⟨rfl, h⟩ | ⟨rfl, h⟩ | rfl
  · exact h
  · exact h
  · trivial

theorem truthful_enter (s : Server) (c : Cid) (e : Event) : Grows Obs.Truthful s (s.enter c e) :=
  grows_one rfl trivial

theorem truthful_leave (s : Server) (c : Cid) (k : Client) (a : Str) :
    Grows Obs.Truthful s (s.leave c k a) := grows_one (o := .left c k.readers) rfl trivial

/-- An ERROR after its status code has been set. -/
theorem truthful_error (s : Server) (c : Cid) (k : Client) {n : UInt16} (hn : 300 ≤ n) :
    Grows Obs.Truthful s ((s.setStatus n).answer c k .error) := by
  have hset : Grows Obs.Truthful s (s.setStatus n) := grows_same rfl
  exact hset.trans (truthful_answer _ c k (.inr (.inl ⟨rfl, hn⟩)))

theorem truthful_fail (s : Server) (c : Cid) (k : Client) (a : Str) :
    Grows Obs.Truthful s (s.fail c k a) :=
  ((truthful_enter s c .exception).trans (truthful_error _ c k (by decide))).trans
    (truthful_leave ..)

theorem truthful_evicted {s₁ : Server} (h : Evicted a s s₁) : Grows Obs.Truthful s s₁ := by
  cases h with
  | nobody _ => exact grows_same rfl
  | @holder old t _ _ _ => exact (truthful_enter s old .expired).trans (truthful_leave ..)

/-- **An event is answered truthfully**, if its OK finds a success code. -/
theorem truthful_handled {e : Event} (h : Handled rex s c e s')
    (hcur : e.keepsStatus = true → ∀ k a, Open s c k a → Success s.message.statusCode) :
    Grows Obs.Truthful s s' := by
  have henter := truthful_enter s c e
  -- an OK whose status code has been set
  have hok : ∀ {w : Server} (k : Client), Grows Obs.Truthful s w →
      Success w.message.statusCode → Grows Obs.Truthful s (w.answer c k .ok) :=
    fun k h hs => h.trans (truthful_answer _ c k (.inl ⟨rfl, hs⟩))
  have hsuccess : Success success := by decide
  cases h with
  | @opened k s₁ _ _ _ hev hd =>
    have hreg : Grows Obs.Truthful s₁ (s₁.register c k s.message.address) := by
      rw [register_eq]
      exact grows_one rfl hsuccess
    exact ((henter.trans (truthful_evicted hev)).trans hreg).trans (relayed_truthful.drain hd)
  | departed _ _ => exact henter.trans (grows_same rfl)
  | unopened _ _ _ => exact henter.trans (truthful_error _ c _ (by decide))
  | wrote _ => exact hok _ (henter.trans (grows_same rfl)) hsuccess
  | read _ =>
    refine hok _ (henter.trans (grows_one (o := .subscribed c s.message.stream s.message.pattern)
      rfl trivial)) hsuccess
  | cancelled ho =>
    exact hok _ (henter.trans (grows_one (o := .cancelled c s.message.stream) rfl trivial))
      (hcur rfl _ _ ho)
  | @published k a name _ _ =>
    exact henter.trans (grows_one (o := .published c name _) rfl trivial)
  | unwritten _ _ => exact henter.trans (truthful_fail ..)
  | mailed _ hm => exact henter.trans (relayed_truthful.mail hm)
  | requested _ hm => exact henter.trans (relayed_truthful.request hm)
  | @offered k a s₁ _ ho hs₁ hscan =>
    subst hs₁
    have hoffer : Grows Obs.Truthful s ((s.enter c .serviceOffer).offering c k) := by
      refine hok (w := _) k (henter.trans (grows_one (o := .offered c s.message.address
        ⟨s.offerId, s.message.pattern, c⟩) rfl trivial)) (hcur rfl _ _ ho)
    have hrest := relayed_truthful.scan hscan
    generalize (s.enter c .serviceOffer).offering c k = s₀ at hoffer hrest
    exact hoffer.trans (.trans (grows_same rfl) hrest)
  | confirmed _ => exact henter.trans (truthful_fail ..)
  | credited _ => exact henter
  | @pinged k a _ => exact henter.trans (truthful_answer _ c k (.inr (.inr rfl)))
  | @closed k a ho => exact (hok k henter (hcur rfl _ _ ho)).trans (truthful_leave ..)
  | expired _ => exact henter.trans (truthful_leave ..)
  | @invalid k a _ _ _ =>
    exact (henter.trans (truthful_error _ c k (by decide))).trans (truthful_leave ..)

/-! ## Steps -/

theorem truthful_received {parts : List Frame} (h : Received rex s parts s')
    (hcur : ∀ k ∈ (s.clients.get ((recv s.message parts).1.routingId.getD [])).bind s.ctx,
      (recv s.message parts).2.1 = .ok →
        (protocolEvent (recv s.message parts).1).keepsStatus = true → k.state = .connected →
          Success (recv s.message parts).1.statusCode) : Grows Obs.Truthful s s' := by
  cases h with
  | interrupted _ => exact grows_same rfl
  | @ignored p rest _ => exact grows_same (clientRequire_trace (s := s.received p rest) rfl)
  | @handled p rest c s₁ _ hrecv hreq hh =>
    have hheard : Grows Obs.Truthful s (s₁.hear c parts.tail p) := by
      refine grows_one (o := .received c ((s₁.ctx c).bind (·.address)) parts.tail p.wire) ?_ trivial
      rw [hear_trace, clientRequire_trace hreq]
      rfl
    refine hheard.trans (truthful_handled hh fun he k a ho => ?_)
    obtain ⟨hc, ho', rfl⟩ := known_of_open hreq ho
    rw [hrecv] at hcur
    exact hcur k (Option.bind_eq_some_iff.2 ⟨c, hc, ho'.ctx⟩) rfl he ho'.state

theorem truthful_moved {l : Label} (h : Moved rex s l s') (hcur : StatusCurrent s l) :
    Grows Obs.Truthful s s' := by
  cases h with
  | router _ _ hrecv => exact truthful_received hrecv (hcur _ rfl)
  | more _ hrecv => exact truthful_received hrecv (hcur _ rfl)
  | expired _ _ _ hh => exact truthful_handled hh (by simp [Event.keepsStatus])
  | acked _ _ _ _ => exact grows_same (put_trace ..)
  | discarded _ _ _ _ _ => exact grows_same rfl
  | @delivered name st c m up k a _ _ _ _ =>
    have hpop : Grows Obs.Truthful s (s.popStream name st up) := grows_same rfl
    exact hpop.trans (relayed_truthful.deliver _ c k .streamMessage m (.inl rfl))
  | command _ _ => exact grows_same rfl
  | @message name st st' m targets _ _ =>
    exact grows_one (o := .forwarded name m targets) rfl trivial
  | mailbox _ hread => exact (mailboxRead_only hread).grows relayed_truthful.dropped
  | configured _ hreads =>
    have hgrows := (mailboxReads_only hreads).grows relayed_truthful.dropped
    exact hgrows

theorem truthful_inductive (rex : Str → Str → Bool) :
    ((broker rex).within StatusCurrent).Inductive fun s =>
      Regular s ∧ ∀ o ∈ s.trace, o.Truthful := by
  refine ((regular_inductive rex).within _).strengthen (Q := fun s => ∀ o ∈ s.trace, o.Truthful)
    ?_ ?_
  · rintro s rfl o ho
    cases ho
  · intro s l s' hr _ h hstep o ho
    obtain ⟨t, ht, htrue⟩ := truthful_moved (moved_of_step hr.reg hr.wired hstep.2) hstep.1
    rw [ht] at ho
    exact (List.mem_append.1 ho).elim (h o) (htrue o)

/-- **OK means success and ERROR means failure**, in every run in which STREAM
CANCEL, SERVICE OFFER and CONNECTION CLOSE find a success code. -/
theorem truthful_of_current (h : ((broker rex).within StatusCurrent).Reachable s) {c : Cid}
    {holder : Option Str} {w : Wire} {hand : Option Msg}
    (hs : .sent c holder (some w) hand ∈ s.trace) : CodeFits w :=
  ((truthful_inductive rex).reachable s h).2 _ hs

end

/-! ## Runs on both sides of the condition -/

/-- One client opens, then another does what `l` says, and the first offers a
service. -/
def statusRun (l : Label) : List Label :=
  [.request [1] (.connectionOpen .empty), l, .request [1] (.serviceOffer .empty .empty)]

theorem truthful_statusRun :
    ∃ s r, ((broker fun _ _ => true).within StatusCurrent).Reachable s ∧
      .sent 0 (some .empty) (some (.ok 200 r)) none ∈ s.trace ∧ CodeFits (.ok 200 r) := by
  have hrun : ((Server.new.steps (fun _ _ => true) StatusCurrent 20
      (statusRun (.request [2] (.connectionOpen .empty)))).any fun s =>
        .sent 0 (some .empty) (some (.ok 200 .empty)) none ∈ s.trace) = true := by decide +kernel
  obtain ⟨s, hs, hp⟩ := (Option.any_eq_true _ _).1 hrun
  have hsent := of_decide_eq_true hp
  exact ⟨s, .empty, reachable_of_steps hs, hsent, truthful_of_current (reachable_of_steps hs) hsent⟩

/-- The other client has not opened its connection: the ERROR it gets leaves its
code for the OK of the first. -/
theorem ok_with_failure : ∃ s, (broker fun _ _ => true).Reachable s ∧
    .sent 0 (some .empty) (some (.ok 500 .empty)) none ∈ s.trace ∧
    ¬ CodeFits (.ok 500 .empty) := by
  have hrun : ((Server.new.steps (fun _ _ => true) (fun _ _ => True) 20
      (statusRun (.request [2] .connectionPing))).any fun s =>
        .sent 0 (some .empty) (some (.ok 500 .empty)) none ∈ s.trace) = true := by decide +kernel
  obtain ⟨s, hs, hp⟩ := (Option.any_eq_true _ _).1 hrun
  exact ⟨s, (reachable_of_steps hs).of_within, of_decide_eq_true hp, by decide⟩

end Malamute.L3
