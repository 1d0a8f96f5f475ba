import Malamute.L3Server.Fidelity

/-!
# Deliveries, over all runs

`honest_inductive`: every reachable state is `Honest`.

* `delivered_intact_iff`: a delivery is what was sent exactly if the message was
  complete and its tracker is the one that the server has read last.
* `delivers_other_tracker`: a run in which the tracker of another client goes out.
-/
namespace Malamute.L3
open Malamute.Core Malamute.L1 Malamute.L2 Server

section
variable {rex : Str → Str → Bool} {s s' : Server} {c : Cid} {k : Client} {a name : Str} {m : Msg}

/-! ## The loops -/

theorem mailboxQuery_content {r : Server × Option Msg} (h : s.mailboxQuery a = .ok r) :
    r.2 = some m → m.content ≠ none := by
  intro hr
  obtain ⟨s₁, -, h⟩ := bind_eq_ok.1 h
  obtain ⟨⟨b, m'⟩, hq, h⟩ := bind_eq_ok.1 h
  cases h
  cases hr
  exact Mailbox.query_some hq

theorem honest_drain (h : Honest s) (hk : Kept s) (ha : k.address = some a)
    (hd : Drain c k a s s') : Honest s' := by
  induction hd with
  | anonymous _ => exact h
  | empty _ hq => exact h.mailboxOnly (mailboxQuery_only hq)
  | @next s s₁ s' m _ hq _ ih =>
    obtain ⟨hk', -, hsent⟩ := kept_next (c := c) hk ha hq
    have hmade : ∃ d, Post.mailbox.obs d m ∈ (s₁.enter c .mailboxMessage).trace := by
      rcases mem_sentTo hsent with ⟨d, hmem, -⟩ | ⟨d, -, hl⟩
      · exact ⟨d, List.mem_append_left _ hmem⟩
      · cases hl
    have h₁ := (h.mailboxOnly (mailboxQuery_only hq)).enter c .mailboxMessage
    exact ih (h₁.deliver (k := .mailbox) hmade (.inl (mailboxQuery_content hq rfl))) hk'

/-- A dispatch delivers the message, if it is one that was made. -/
theorem honest_dispatched {b : Bool} (h : Honest s) (hmade : ∃ c, .requested c m ∈ s.trace)
    (hc : b = true → m.content ≠ none ∨ s.message.content = none)
    (hd : Dispatched rex name m s s' b) : Honest s' := by
  cases hd with
  | none _ => exact h.frame rfl rfl
  | @some offers o t _ _ =>
    have h₁ := (h.log (o := .dispatched name (s.service name).offers.items o m) (.inl trivial)).enter
      o.client .serviceMessage
    obtain ⟨c, hmem⟩ := hmade
    have hmade₁ : ∃ c, Post.service.obs c m ∈ ((s.log (.dispatched name
        (s.service name).offers.items o m)).enter o.client .serviceMessage).trace :=
      ⟨c, List.mem_append_left _ (List.mem_append_left _ hmem)⟩
    exact (h₁.deliver (d := o.client) (j := t) hmade₁ (hc rfl)).frame rfl rfl

theorem honest_scan {mo : Option Msg} (h : Honest s) (hat : Scanning rex s name mo)
    (hscan : Scan rex name mo s s') : Honest s' := by
  induction hscan with
  | done => exact h
  | @skip m s s₁ s' hd _ ih =>
    have hmade : ∃ c, .requested c m ∈ (s.link m).trace := by
      rcases mem_sentTo hat.sent with ⟨c, -, hl⟩ | ⟨c, hmem, -⟩
      · cases hl
      · exact ⟨c, hmem⟩
    have hlink : Honest (s.link m) := h.frame rfl rfl
    have h₁ := honest_dispatched hlink hmade (by simp) hd
    exact ih (h₁.frame rfl rfl) (scanning_skip hat hd)
  | @take m s s₁ s' queue hd hdeq _ ih =>
    obtain ⟨hnext, hc⟩ := scanning_take hat hd hdeq
    have hmade : ∃ c, .requested c m ∈ (s.link m).trace := by
      rcases mem_sentTo hat.sent with ⟨c, -, hl⟩ | ⟨c, hmem, -⟩
      · cases hl
      · exact ⟨c, hmem⟩
    have hlink : Honest (s.link m) := h.frame rfl rfl
    have h₁ := honest_dispatched hlink hmade (fun _ => .inl hc) hd
    exact ih (h₁.frame rfl rfl) hnext

/-! ## Events -/

theorem honest_mailed (hr : Reg s) (h : Honest s) (hp : Posted rex s)
    (hh : Heard s c .mailboxSend) (ho : Open s c k a)
    (hm : Mailed c a (s.enter c .mailboxSend) s') : Honest s' := by
  have hmade := (h.enter c .mailboxSend).make (k := .mailbox) hh ho
  have hnew : Honest ((s.enter c .mailboxSend).mailing c a) := hmade.frame rfl rfl
  cases hm with
  | @direct t target s' htarget ht hd =>
    obtain ⟨-, k', ho'⟩ := hr.registered _ _ htarget
    cases ht.symm.trans ho'.ctx
    have hk := kept_mailing (c := c) (a := a) (hp.unmoved (unmoved_enter s c .mailboxSend)) htarget
      ho'.address
    have hin : ∃ d, Post.mailbox.obs d ((s.enter c .mailboxSend).messageFrom a) ∈
        (((s.enter c .mailboxSend).mailing c a).enter target .mailboxMessage).trace :=
      ⟨c, by simp [Post.obs]⟩
    have hdel : Honest ((((s.enter c .mailboxSend).mailing c a).enter target
        .mailboxMessage).deliver target t .mailboxDeliver ((s.enter c .mailboxSend).messageFrom a)) :=
      (hnew.enter target .mailboxMessage).deliver (k := .mailbox) hin (.inr rfl)
    exact honest_drain hdel hk ho'.address hd
  | stored _ => exact hnew.frame rfl rfl

theorem honest_requested (h : Honest s) (hh : Heard s c .serviceSend) (ho : Open s c k a)
    (hm : Requested rex c a (s.enter c .serviceSend) s') : Honest s' := by
  have hmade := (h.enter c .serviceSend).make (k := .service) hh ho
  have hnew : Honest ((s.enter c .serviceSend).requesting c a) := hmade.frame rfl rfl
  have hin : ∃ d, .requested d ((s.enter c .serviceSend).messageFrom a) ∈
      ((s.enter c .serviceSend).requesting c a).trace := ⟨c, by simp [requesting]⟩
  cases hm with
  | dispatched hd => exact honest_dispatched hnew hin (fun _ => .inr rfl) hd
  | queued hd _ => exact (honest_dispatched hnew hin (fun _ => .inr rfl) hd).frame rfl rfl
  | @refused s₁ queue hd _ =>
    have h₁ := honest_dispatched hnew hin (fun _ => .inr rfl) hd
    exact (h₁.log (.inr ⟨_, _, rfl⟩)).frame rfl rfl

theorem honest_handled {e : Event} (hr : Reg s) (h : Honest s) (hp : Posted rex s)
    (hh : e = .mailboxSend ∨ e = .serviceSend → Heard s c e) (hhd : Handled rex s c e s') :
    Honest s' := by
  cases passage_of_handled hhd with
  | aside hu ht => exact h.unmoved hu ht
  | @opened k a s₁ _ hu ht hd =>
    have h₁ := h.unmoved hu ht
    have hreg : Honest (s₁.register c k a) := by
      rw [register_eq]
      refine h₁.grow (t := [_]) rfl (List.forall_mem_singleton.2 (.inl ?_)) rfl
      exact aside_sent c (some a) (s₁.message.setStatusCode success) (i := .ok) k.hashkey s₁.hand
        (by simp) (by simp)
    exact honest_drain hreg (kept_register (hp.unmoved hu).kept) rfl hd
  | mailed ho hm => exact honest_mailed hr h hp (hh (.inl rfl)) ho hm
  | requested ho hm => exact honest_requested h (hh (.inr rfl)) ho hm
  | @offered k s₁ _ hs₁ hscan =>
    subst hs₁
    have henter := hp.unmoved (unmoved_enter s c .serviceOffer)
    have hoffer : Honest ((s.enter c .serviceOffer).offering c k) := by
      have hlog := (h.enter c .serviceOffer).log (o := .offered c s.message.address
        ⟨s.offerId, s.message.pattern, c⟩) (.inl trivial)
      have hanswer := hlog.unmoved (unmoved_answer _ c k (i := .ok) (by simp) (by simp)) rfl
      exact hanswer.frame rfl rfl
    have hstart : Honest (((s.enter c .serviceOffer).offering c k).scanStart s.message.address) :=
      hoffer.frame rfl rfl
    exact honest_scan hstart (scanning_start henter c k) hscan

/-! ## Steps -/

theorem honest_received (hr : Reg s) (h : Honest s) (hp : Posted rex s) {parts : List Frame}
    (hrecv : Received rex s parts s') : Honest s' := by
  have hunread : ∀ {p : Proto} {rc : Rc} {rest : List Frame}, rc ≠ .ok →
      recv s.message parts = (p, rc, rest) → Honest (s.received p rest) := by
    intro p rc rest hrc hrecv
    refine h.frame rfl ?_
    rcases recv_tracker hrecv with ht | ⟨hok, -⟩
    · exact ht
    · exact absurd hok hrc
  cases hrecv with
  | interrupted hrecv => exact (hunread (by simp) hrecv).frame rfl rfl
  | @ignored p rest hrecv =>
    rcases hreq : (s.received p rest).clientRequire (p.routingId.getD []) with ⟨c, s₁⟩
    rcases clientRequire_cases hreq with ⟨-, rfl⟩ | ⟨-, -, rfl⟩
    · exact hunread (by simp) hrecv
    · exact (hunread (by simp) hrecv).frame rfl rfl
  | @handled p rest c s₁ s' hrecv hreq hh =>
    obtain ⟨h₁, hheard⟩ := h.heard hrecv hreq
    have hin : Unmoved s (s.received p rest) := .quiet rfl rfl rfl rfl rfl rfl
    have hp₁ : Posted rex (s₁.hear c parts.tail p) :=
      (hp.unmoved (hin.trans (unmoved_clientRequire hreq))).log
        (o := .received c ((s₁.ctx c).bind (·.address)) parts.tail p.wire) rfl trivial
    exact honest_handled (reg_hear (reg_clientRequire (reg_received hr p rest) hreq).1 ..) h₁ hp₁
      (fun _ => hheard) hh

theorem honest_moved {l : Label} (hr : Reg s) (h : Honest s) (hp : Posted rex s)
    (hm : Moved rex s l s') : Honest s' := by
  have hstream : l.stream = true → Honest s' := fun hl =>
    h.unmoved (unmoved_stream hm hl).1 (unmoved_stream hm hl).2
  cases l with
  | traffic name => exact hstream rfl
  | command name => exact hstream rfl
  | message name => exact hstream rfl
  | router rid frames =>
    cases hm with
    | router _ _ hrecv => exact honest_received hr h hp hrecv
  | more =>
    cases hm with
    | more _ hrecv => exact honest_received hr h hp hrecv
  | expired c =>
    cases hm with
    | expired _ _ _ hh => exact honest_handled hr h hp (by simp) hh
  | mailbox =>
    cases hm with
    | mailbox _ hread => exact h.mailboxOnly (mailboxRead_only hread)
  | configure service mailbox =>
    cases hm with
    | configured _ hreads =>
      have hcfg : Honest { s with serviceCfg := service } := h.frame rfl rfl
      exact (hcfg.mailboxOnly (mailboxReads_only hreads)).frame rfl rfl

/-- **Every reachable state is honest.** -/
theorem honest_inductive (rex : Str → Str → Bool) :
    (broker rex).Inductive fun s => (Regular s ∧ Posted rex s) ∧ Honest s := by
  refine (posted_inductive rex).strengthen (Q := Honest) ?_ ?_
  · rintro s rfl
    exact honest_new
  · intro s l s' hr _ h hstep
    exact honest_moved hr.1.reg h hr.2 (moved_of_step hr.1.reg hr.1.wired hstep)

/-! ## The guarantee -/

/-- `w` delivers what `frames` say, sent by a client with address `a`. -/
def Intact (k : Post) (a : Str) (frames : List Frame) (w : Wire) : Prop :=
  ∃ v, decode frames = some v ∧ k.delivery a v = some w

theorem frame_inj {k : Post} {trk trk' : Str} : k.frame m trk = k.frame m trk' ↔ trk = trk' := by
  cases k <;> simp [Post.frame]

/-- **A delivery is what was sent exactly if its tracker was read last.** Every
MAILBOX DELIVER or SERVICE DELIVER delivers a message that was made from frames
that a client had sent before; and it is what they say iff they were complete
and the tracker in them is the last that the server has read at that time, in a
message of any client. -/
theorem delivered_intact_iff (h : (broker rex).Reachable s) {k : Post} {holder : Option Str}
    {w : Wire} {hand : Option Msg} {t₁ t₂ : List Obs}
    (hs : s.trace = t₁ ++ .sent c holder (some w) hand :: t₂) (hw : w.id = k.deliverId) :
    ∃ m, hand = some m ∧ (∃ a frames, Made t₁ k m a frames) ∧
      ∀ a frames, Made t₁ k m a frames →
        (Intact k a frames w ↔ ∃ v, decode frames = some v ∧ v.tracker = some (lastTracker t₁)) := by
  have hf := ((honest_inductive rex).reachable s h).2.faithful
  obtain ⟨m, hm, rfl, hmade⟩ := hf.delivered k t₁ c holder w hand t₂ hs hw
  refine ⟨m, hm, hmade, ?_⟩
  rintro a frames ⟨d, w', hin⟩
  have hin' : [.received d (some a) frames w', .event d k.event, k.obs d m] <:+: s.trace := by
    rw [hs]
    exact hin.trans (List.prefix_append ..).isInfix
  obtain ⟨v, trk, rfl, htrk, hd⟩ := hf.carried k d m a frames w' hin'
  have hread : ∀ v', decode frames = some v' → v' = v := by
    intro v' hv'
    have hmem := hin'.subset List.mem_cons_self
    exact (Option.some.inj (hf.read _ _ _ _ v' hmem hv')).symm
  constructor
  · rintro ⟨v', hv', hd'⟩
    obtain rfl := hread v' hv'
    refine ⟨v', hv', ?_⟩
    rw [htrk, frame_inj.1 (Option.some.inj (hd.symm.trans hd'))]
  · rintro ⟨v', hv', htrk'⟩
    obtain rfl := hread v' hv'
    refine ⟨v', hv', ?_⟩
    rw [hd, Option.some.inj (htrk.symm.trans htrk')]

/-- `w` is sent. -/
def Obs.sends (w : Wire) : Obs → Bool
  | .sent _ _ (some w') _ => w' = w
  | _ => false

theorem Obs.eq_of_sends {w : Wire} {o : Obs} (h : o.sends w = true) :
    ∃ c holder hand, o = .sent c holder (some w) hand := by
  unfold Obs.sends at h
  split at h
  · obtain rfl := of_decide_eq_true h
    exact ⟨_, _, _, rfl⟩
  · cases h

/-- "b" opens, and gets what "a" had sent. -/
theorem delivered_intact_mailRun :
    ∃ s t₁ t₂ c holder hand, Server.new.steps (fun _ _ => true) (fun _ _ => True) 20 mailRun = some s ∧
      s.trace = t₁ ++ .sent c holder (some (.mailboxDeliver (.ofBytes [97]) (.ofBytes [98]) .empty
        .empty [[1]])) hand :: t₂ ∧
      ∃ m, hand = some m ∧ (∃ a frames, Made t₁ .mailbox m a frames) ∧
        ∀ a frames, Made t₁ .mailbox m a frames →
          (Intact .mailbox a frames (.mailboxDeliver (.ofBytes [97]) (.ofBytes [98]) .empty
              .empty [[1]]) ↔
            ∃ v, decode frames = some v ∧ v.tracker = some (lastTracker t₁)) := by
  have hrun : ((Server.new.steps (fun _ _ => true) (fun _ _ => True) 20 mailRun).any fun s =>
      s.trace.any (Obs.sends (.mailboxDeliver (.ofBytes [97]) (.ofBytes [98]) .empty .empty [[1]])))
        = true := by decide +kernel
  obtain ⟨s, hs, hp⟩ := (Option.any_eq_true _ _).1 hrun
  obtain ⟨o, hmem, ho⟩ := List.any_eq_true.1 hp
  obtain ⟨c, holder, hand, rfl⟩ := Obs.eq_of_sends ho
  obtain ⟨t₁, t₂, ht⟩ := List.append_of_mem hmem
  exact ⟨s, t₁, t₂, c, holder, hand, hs, ht,
    delivered_intact_iff (k := .mailbox) (reachable_of_steps hs).of_within ht rfl⟩

end

/-! ## Another tracker -/

/-- Client "a" sends to "b", who is not there, with tracker "t"; client "c" sends
to "z" with tracker "u"; then "b" opens. -/
def trackerRun : List Label :=
  [.request [1] (.connectionOpen (.ofBytes [97])),
    .request [1] (.mailboxSend (.ofBytes [98]) .empty (.ofBytes [116]) 0 [[1]]),
    .request [3] (.connectionOpen (.ofBytes [99])),
    .request [3] (.mailboxSend (.ofBytes [122]) .empty (.ofBytes [117]) 0 [[2]]),
    .request [2] (.connectionOpen (.ofBytes [98]))]

/-- What "a" sends, and what "b" gets. -/
def tracked : Wire := .mailboxSend (.ofBytes [98]) .empty (.ofBytes [116]) 0 [[1]]

def mistracked : Wire :=
  .mailboxDeliver (.ofBytes [97]) (.ofBytes [98]) .empty (.ofBytes [117]) [[1]]

/-- The message of "a" goes out with the tracker of "c". -/
theorem delivers_other_tracker :
    ∃ s t₁ c holder m, (broker fun _ _ => true).Reachable s ∧
      s.trace = t₁ ++ [.sent c holder (some mistracked) (some m)] ∧
      Made t₁ .mailbox m (.ofBytes [97]) tracked.encode ∧
      ¬ Intact .mailbox (.ofBytes [97]) tracked.encode mistracked := by
  let m : Msg := ⟨0, .ofBytes [97], .ofBytes [98], .empty, some (.ofBytes [116]), 0, some [[1]]⟩
  have hrun : ((Server.new.steps (fun _ _ => true) (fun _ _ => True) 20 trackerRun).any fun s =>
      s.trace.getLast? = some (.sent 2 (some (.ofBytes [98])) (some mistracked) (some m)) ∧
        [.received 0 (some (.ofBytes [97])) tracked.encode (some tracked), .event 0 .mailboxSend,
          .mailed 0 m] <:+: s.trace.dropLast) = true := by decide +kernel
  obtain ⟨s, hs, hp⟩ := (Option.any_eq_true _ _).1 hrun
  obtain ⟨hlast, hmade⟩ := of_decide_eq_true hp
  refine ⟨s, s.trace.dropLast, 2, some (.ofBytes [98]), m, (reachable_of_steps hs).of_within, ?_,
    ⟨0, some tracked, hmade⟩, ?_⟩
  · exact (List.dropLast_append_getLast? _ hlast).symm
  · rintro ⟨v, hv, hd⟩
    cases (decode_encode tracked).symm.trans hv
    exact absurd hd (by decide)

end Malamute.L3
