import Malamute.L6System.Network

/-!
# From application to application

What an application receives was posted by an application, under the address that is given and by
a writer of the stream that is given, and the receiver has asked for it. That holds for any number
of applications, in any interleaving of them with the broker and its engines, and whatever
connections are lost and however often the broker restarts.

* `step_passed`, `step_sent`: what a step of one application can do to the network.
* `Authentic` is the invariant: every context of the broker belongs to an application (`Traced`),
  and every delivery on its way is genuine.
* `received_genuine`.
-/
namespace Malamute.L6
open Malamute.Core Malamute.L1 Malamute.L5 Network

/-- Actor `i` has sent the frame `w`. -/
def Sends {ι : Type} (k : Network ι) (i : ι) (w : Wire) : Prop := w ∈ (k.peers i).actor.sent

/-- Actor `i` has sent the frame `w`; and if it is a message, application `i` has posted it. -/
def Utters {ι : Type} (k : Network ι) (i : ι) (w : Wire) : Prop :=
  Sends k i w ∧ (L4.spoken w = false → ∃ p ∈ (k.peers i).posted, p.wire = w)

/-- The delivery `d` to application `i` has come in a genuine frame. -/
def Delivered {ι : Type} (rex : Str → Str → Bool) (k : Network ι) (i : ι) (d : L4.Delivery) :
    Prop := ∃ w, (L4.Label.frame w).delivery = some d ∧ L3.Genuine rex (Sends k) i w

/-- `owner c` is the application behind the context `c`. -/
structure Traced {ι : Type} (k : Network ι) (owner : L2.Cid → Option ι) : Prop where
  known : ∀ i c, L3.Stands k.broker (k.keys i) c → owner c = some i
  heard : ∀ c holder frames x, .received c holder frames x ∈ k.broker.trace →
    ∃ i w, owner c = some i ∧ x = some w ∧ frames = w.encode ∧ Sends k i w

structure Authentic {ι : Type} (rex : Str → Str → Bool) (k : Network ι) : Prop where
  traced : ∃ owner, Traced k owner
  up : ∀ i, ∀ w ∈ k.up i, Sends k i w
  down : ∀ i, ∀ w ∈ k.down i, L3.Genuine rex (Sends k) i w
  passed : ∀ i, ∀ d ∈ (k.peers i).actor.passed, Delivered rex k i d

/-- Nothing that has been sent is taken back. -/
def Later {ι : Type} (k k' : Network ι) : Prop := ∀ i w, Sends k i w → Sends k' i w

/-! ## One application -/

section
variable {env : L4.Env} {s s' : Session} {t : Act}

theorem step_stepped (hr : (session env).Reachable s) (h : (session env).step s t s') :
    (∃ l, t.label s = some l ∧ L4.Stepped env s.actor l s'.actor) ∨ s'.actor = s.actor := by
  have hc : Coupled s := (coupled_inductive env).reachable s hr
  rcases (session_refines env).step s t s' hc h with ⟨l, hl, hst⟩ | ⟨-, heq⟩
  · exact .inl ⟨l, hl, L4.step_cases hc.formed hst⟩
  · exact .inr heq

theorem step_sent (hr : (session env).Reachable s) (h : (session env).step s t s') :
    s.actor.sent <+: s'.actor.sent := by
  rcases step_stepped hr h with ⟨l, -, hst⟩ | heq
  · rcases L4.stepped_sent hst with ⟨vs, hvs, -⟩ | ⟨p, -, hp⟩
    · exact ⟨vs, hvs.symm⟩
    · exact ⟨[p.wire], hp.symm⟩
  · exact ⟨[], by rw [heq, List.append_nil]⟩

theorem label_delivery {l : L4.Label} (ht : framed t = false) (hl : t.label s = some l) :
    l.delivery = none := by
  cases t with
  | command =>
    simp only [Act.label] at hl
    split at hl <;> cases hl
    rfl
  | message =>
    simp only [Act.label] at hl
    split at hl <;> cases hl
    rfl
  | frame w => cases ht
  | _ => cases hl <;> rfl

/-- Only a frame of the server is passed to the application. -/
theorem step_passed (hr : (session env).Reachable s) (h : (session env).step s t s') :
    s'.actor.passed = s.actor.passed ∨ ∃ w d, t = .frame w ∧
      (L4.Label.frame w).delivery = some d ∧ s'.actor.passed = s.actor.passed ++ [d] := by
  rcases step_stepped hr h with ⟨l, hl, hst⟩ | heq
  · have hpassed := L4.stepped_passed hst
    cases hd : l.delivery with
    | none =>
      rw [hd] at hpassed
      refine .inl (hpassed.trans ?_)
      split <;> simp
    | some d =>
      rw [hd] at hpassed
      split at hpassed
      · cases t with
        | frame w =>
          cases hl
          exact .inr ⟨w, d, rfl, hd, hpassed⟩
        | _ => cases hd.symm.trans (label_delivery rfl hl)
      · exact .inl (hpassed.trans (List.append_nil _))
  · exact .inl (by rw [heq])

/-- A message on the wire has been posted. -/
theorem posted_of_sent (hr : (session env).Reachable s) {w : Wire} (hw : w ∈ s.actor.sent)
    (hs : L4.spoken w = false) : ∃ p ∈ s.posted, p.wire = w := by
  obtain ⟨-, hf⟩ := (flowing_inductive env).reachable s hr
  have hmem : w ∈ s.handled.map L4.Post.wire := by
    rw [← hf.sent]
    exact List.mem_filter.2 ⟨hw, by simp [hs]⟩
  obtain ⟨p, hp, rfl⟩ := List.mem_map.1 hmem
  refine ⟨p, ?_, rfl⟩
  rw [hf.posted]
  exact List.mem_append_left _ hp

end

/-! ## One step -/

section
variable {ι : Type} {env : L4.Env} {rex : Str → Str → Bool} {k k' : Network ι} {i : ι}

theorem Later.genuine (h : Later k k') {v : Wire} (hg : L3.Genuine rex (Sends k) i v) :
    L3.Genuine rex (Sends k') i v := hg.map (h i) fun j _ _ => ⟨j, h j⟩

theorem Later.delivered (h : Later k k') {d : L4.Delivery} (hd : Delivered rex k i d) :
    Delivered rex k' i d := by
  obtain ⟨w, hw, hg⟩ := hd
  exact ⟨w, hw, h.genuine hg⟩

/-- Nothing has been sent since. -/
theorem later_same (h : k'.peers = k.peers) : Later k k' := fun i w hw => by
  unfold Sends
  rw [h]
  exact hw

/-- The broker takes no step. -/
theorem Traced.later {owner : L2.Cid → Option ι} (h : Traced k owner) (hb : k'.broker = k.broker)
    (hkeys : k'.keys = k.keys) (hl : Later k k') : Traced k' owner where
  known j c hst := by
    rw [hb, hkeys] at hst
    exact h.known j c hst
  heard c holder frames x hmem := by
    rw [hb] at hmem
    obtain ⟨j, w, ho, hx, hf, hw⟩ := h.heard c holder frames x hmem
    exact ⟨j, w, ho, hx, hf, hl j w hw⟩

/-- A frame of the broker, when all it has read are frames of the applications. -/
theorem Traced.genuine {owner : L2.Cid → Option ι} (h : Traced k owner)
    (hr : (L3.broker rex).Reachable k.broker) {c : L2.Cid} {holder : Option Str} {v : Wire}
    {hand : Option L2.Msg} (hmem : .sent c holder (some v) hand ∈ k.broker.trace)
    (ho : owner c = some i) : L3.Genuine rex (Sends k) i v := by
  have hcomplete : L3.Complete k.broker.trace := fun o hx => by
    cases o with
    | received c holder frames x =>
      obtain ⟨-, w, -, rfl, rfl, -⟩ := h.heard c holder frames x hx
      exact decide_eq_true rfl
    | _ => rfl
  have hsays : ∀ {d : L2.Cid} {w : Wire}, L3.Says k.broker.trace d w → ∃ j, owner d = some j ∧
      Sends k j w := by
    intro d w hw
    obtain ⟨holder, frames, hx⟩ := hw
    obtain ⟨j, w', hj, hw', -, hsends⟩ := h.heard _ _ _ _ hx
    cases hw'
    exact ⟨j, hj, hsends⟩
  refine (L3.genuine_sent hr hcomplete hmem).map (fun w hw => ?_) fun d w hw => ?_
  · obtain ⟨j, hj, hsends⟩ := hsays hw
    cases ho.symm.trans hj
    exact hsends
  · obtain ⟨j, hj, -⟩ := hsays hw
    refine ⟨j, fun w' hw' => ?_⟩
    obtain ⟨j', hj', hsends⟩ := hsays hw'
    cases hj.symm.trans hj'
    exact hsends

/-- A broker that has just started knows nobody. -/
theorem traced_new (hb : k.broker = .new) : Traced k fun _ => none where
  known i c hst := by
    obtain ⟨j, hj, -⟩ := hst
    rw [hb] at hj
    cases hj
  heard c holder frames x hx := by
    rw [hb] at hx
    cases hx

theorem authentic_new (rex : Str → Str → Bool) (keys : ι ↪ L3.Key) :
    Authentic rex (.new keys) where
  traced := ⟨_, traced_new rfl⟩
  up i w h := by cases h
  down i w h := by cases h
  passed i d h := by cases h

/-- The connections come back. -/
theorem Authentic.relinked (h : Authentic rex k) (hr : L3.Reg k.broker) {keys : ι ↪ L3.Key}
    (lost kept : ι → Nat)
    (hkeys : ∀ i, keys i = k.keys i ∨ k.broker.clients.get (keys i) = none) :
    Authentic rex (k.relinked keys lost kept) where
  traced := by
    obtain ⟨owner, ht⟩ := h.traced
    refine ⟨owner, fun i c hst => ?_, ht.heard⟩
    rcases hkeys i with hi | hi
    · rw [relinked_keys, hi] at hst
      exact ht.known i c hst
    · cases hi.symm.trans (hst.hashed hr)
  up i w hw := h.up i w (List.mem_of_mem_drop hw)
  down i w hw := h.down i w (List.mem_of_mem_take hw)
  passed := h.passed

theorem Authentic.restarted (h : Authentic rex k) : Authentic rex k.restarted where
  traced := ⟨_, traced_new rfl⟩
  up := h.up
  down := h.down
  passed := h.passed

/-- The broker becomes `s`, and sends what is genuine. -/
theorem Authentic.told {s : L3.Server} (h : Authentic rex k) {owner : L2.Cid → Option ι}
    (ht : Traced (k.told s) owner) (hr : (L3.broker rex).Reachable s)
    (hsent : ∀ i, ∀ v ∈ L3.outputs k.broker s (k.keys i),
      ∃ c holder hand, .sent c holder (some v) hand ∈ s.trace ∧ owner c = some i) :
    Authentic rex (k.told s) where
  traced := ⟨owner, ht⟩
  up := h.up
  down i w hw := by
    rcases List.mem_append.1 hw with hw | hw
    · exact h.down i w hw
    · obtain ⟨c, holder, hand, hmem, ho⟩ := hsent i w hw
      exact ht.genuine hr hmem ho
  passed := h.passed

/-- The broker takes a step of its own. -/
theorem Authentic.inner {s : L3.Server} {l : L3.Label} (h : Authentic rex k)
    (hr : (L3.broker rex).Reachable k.broker) (hl : l.inner = true)
    (hst : (L3.broker rex).step k.broker l s) : Authentic rex (k.told s) := by
  have hreg := (L3.regular_inductive rex).reachable _ hr
  have hreg' := (L3.regular_inductive rex).reachable _ (hr.step hst)
  have hm := L3.moved_of_step hreg.reg hreg.wired hst
  obtain ⟨owner, ht⟩ := h.traced
  have ht' : Traced (k.told s) owner :=
    ⟨fun i c hc => ht.known i c (L3.stands_inner hm hl hc),
      fun c holder frames x hx => ht.heard c holder frames x (L3.heard_inner hm hl hx)⟩
  refine h.told ht' (hr.step hst) fun i v hv => ?_
  obtain ⟨c, holder, hand, hmem, hc⟩ := L3.sent_inner hreg hm hl hreg'.reg hv
  exact ⟨c, holder, hand, hmem, ht.known i c hc⟩

/-- The broker reads a frame of application `i`. -/
theorem Authentic.serve {s : L3.Server} {w : Wire} (h : Authentic rex k)
    (hr : (L3.broker rex).Reachable k.broker) (hw : Sends k i w)
    (hst : (L3.broker rex).step k.broker (.request (k.keys i) w) s) :
    Authentic rex (k.told s) := by
  have hreg := (L3.regular_inductive rex).reachable _ hr
  have hreg' := (L3.regular_inductive rex).reachable _ (hr.step hst)
  have hrec := ((L3.recited_inductive rex).reachable _ hr).2
  have hm := L3.moved_of_step hreg.reg hreg.wired hst
  obtain ⟨d, s₁, hd⟩ := L3.heeded_of_request hreg.reg hm
  obtain ⟨owner, ht⟩ := h.traced
  have ht' : Traced (k.told s) (Function.update owner d (some i)) := by
    refine ⟨fun j c hc => ?_, fun c holder frames x hx => ?_⟩
    · rcases hd.stands hreg.reg hc with ⟨hne, hc⟩ | ⟨rfl, hkey⟩
      · rw [Function.update_of_ne hne]
        exact ht.known j c hc
      · rw [Function.update_self, k.keys.injective hkey]
    · rcases hd.heard hx with hx | ⟨rfl, rfl, rfl⟩
      · obtain ⟨j, v, ho, rfl, hf, hv⟩ := ht.heard c holder frames x hx
        refine ⟨j, v, ?_, rfl, hf, hv⟩
        by_cases hcd : c = d
        · -- the context has been that of application `i` before
          subst hcd
          have hown := ht.known i c (hd.unread hrec hx)
          rw [Function.update_self, ← hown, ho]
        · rw [Function.update_of_ne hcd, ho]
      · exact ⟨i, w, Function.update_self .., rfl, rfl, hw⟩
  refine h.told ht' (hr.step hst) fun j v hv => ?_
  obtain ⟨c, holder, hand, hmem, hc⟩ := L3.sent_request hreg hm hreg'.reg hd hv
  refine ⟨c, holder, hand, hmem, ?_⟩
  rcases hc with hc | ⟨rfl, hkey⟩
  · by_cases hcd : c = d
    · subst hcd
      rw [Function.update_self, k.keys.injective (hd.unique hreg.reg hc)]
    · rw [Function.update_of_ne hcd]
      exact ht.known j c hc
  · rw [Function.update_self, k.keys.injective hkey]

section
variable [DecidableEq ι]

theorem Authentic.setUp {ws : List Wire} (h : Authentic rex k) (hup : ∀ w ∈ ws, Sends k i w) :
    Authentic rex (k.setUp i ws) where
  traced := by
    obtain ⟨owner, ht⟩ := h.traced
    exact ⟨owner, ht.later rfl rfl (later_same rfl)⟩
  up j w hw := by
    rw [setUp_up] at hw
    by_cases hj : j = i
    · rw [hj, Function.update_self] at hw
      rw [hj]
      exact hup w hw
    · rw [Function.update_of_ne hj] at hw
      exact h.up j w hw
  down := h.down
  passed := h.passed

theorem Authentic.setDown {ws : List Wire} (h : Authentic rex k)
    (hdown : ∀ w ∈ ws, w ∈ k.down i) : Authentic rex (k.setDown i ws) where
  traced := by
    obtain ⟨owner, ht⟩ := h.traced
    exact ⟨owner, ht.later rfl rfl (later_same rfl)⟩
  up := h.up
  down j w hw := by
    rw [setDown_down] at hw
    by_cases hj : j = i
    · rw [hj, Function.update_self] at hw
      exact h.down j w (by rw [hj]; exact hdown w hw)
    · rw [Function.update_of_ne hj] at hw
      exact h.down j w hw
  passed := h.passed

/-- Application `i` takes a step; a frame that it reads is genuine. -/
theorem Authentic.acted {s : Session} {t : Act} (h : Authentic rex k)
    (hr : (session env).Reachable (k.peers i)) (hst : (session env).step (k.peers i) t s)
    (ht : ∀ w, t = .frame w → w ∈ k.down i) : Authentic rex (k.acted i s) := by
  have hsent := step_sent hr hst
  have hself : (k.acted i s).peers i = s := by rw [acted_peers, Function.update_self]
  have hother : ∀ {j}, j ≠ i → (k.acted i s).peers j = k.peers j := fun hj => by
    rw [acted_peers, Function.update_of_ne hj]
  have hlater : Later k (k.acted i s) := by
    intro j w hw
    unfold Sends at hw ⊢
    by_cases hj : j = i
    · rw [hj, hself]
      exact hsent.subset (by rw [← hj]; exact hw)
    · rw [hother hj]
      exact hw
  refine ⟨?_, fun j w hw => ?_, fun j w hw => hlater.genuine (h.down j w hw), fun j d hd => ?_⟩
  · obtain ⟨owner, ht⟩ := h.traced
    exact ⟨owner, ht.later rfl rfl hlater⟩
  · rw [acted_up] at hw
    by_cases hj : j = i
    · rw [hj, Function.update_self] at hw
      rcases List.mem_append.1 hw with hw | hw
      · exact hlater j w (h.up j w (by rw [hj]; exact hw))
      · unfold Sends
        rw [hj, hself]
        exact List.mem_of_mem_drop hw
    · rw [Function.update_of_ne hj] at hw
      exact hlater j w (h.up j w hw)
  · by_cases hj : j = i
    · rw [hj, hself] at hd
      rw [hj]
      rcases step_passed hr hst with hsame | ⟨w, d', rfl, hw, hpassed⟩
      · rw [hsame] at hd
        exact hlater.delivered (h.passed i d hd)
      · rw [hpassed] at hd
        rcases List.mem_append.1 hd with hd | hd
        · exact hlater.delivered (h.passed i d hd)
        · obtain rfl := List.mem_singleton.1 hd
          exact ⟨w, hw, hlater.genuine (h.down i w (ht w rfl))⟩
    · rw [hother hj] at hd
      exact hlater.delivered (h.passed j d hd)

variable [Fintype ι]

/-! ## Runs -/

theorem authentic_inductive (env : L4.Env) (rex : Str → Str → Bool) :
    (network (ι := ι) env rex).Inductive fun k => Alone env rex k ∧ Authentic rex k := by
  refine (alone_inductive env rex).strengthen (Q := Authentic rex) (fun k h => ?_)
    fun k t k' ha _ h hs => ?_
  · obtain ⟨keys, rfl⟩ := h
    exact authentic_new rex keys
  · cases network_cases hs with
    | @act i t s ht hst =>
      exact h.acted (ha.peers i) hst fun w hw => by rw [hw] at ht; cases ht
    | @deliver i w ws s hdown hst =>
      have hacted := h.acted (ha.peers i) hst fun v hv => by
        cases hv
        rw [hdown]
        exact List.mem_cons_self
      refine hacted.setDown fun v hv => ?_
      rw [acted_down, hdown]
      exact List.mem_cons_of_mem _ hv
    | @serve i w ws s hup hst =>
      have hsends : ∀ v ∈ w :: ws, Sends k i v := fun v hv => h.up i v (by rw [hup]; exact hv)
      have htold := h.serve ha.broker (hsends w List.mem_cons_self) hst
      exact htold.setUp fun v hv => hsends v (List.mem_cons_of_mem _ hv)
    | inner hl hst => exact h.inner ha.broker hl hst
    | relink lost kept hkeys =>
      have hreg := (L3.regular_inductive rex).reachable _ ha.broker
      exact h.relinked hreg.reg lost kept hkeys
    | restart keys lost kept =>
      exact h.restarted.relinked L3.reg_new lost kept fun i => .inr rfl

/-- **What an application receives is genuine.** In every run: every delivery that application
`i` has received came in a frame behind which is an application, in whose name the frame speaks
and which has posted the message with this subject and this content, for this address; if the frame
is from a stream, the actor of that application has sent a STREAM WRITE for it, at any time, before
or after the post; and actor `i` has asked to read the stream, or offered the service, with a
pattern that the subject matches, or has opened its connection with the address. -/
theorem received_genuine (h : (network env rex).Reachable k) {d : L4.Delivery}
    (hd : d ∈ (k.peers i).received) :
    ∃ w, (L4.Label.frame w).delivery = some d ∧ L3.Genuine rex (Utters k) i w := by
  obtain ⟨ha, hk⟩ := (authentic_inductive env rex).reachable k h
  obtain ⟨-, hf⟩ := (flowing_inductive env).reachable _ (ha.peers i)
  have hpassed : d ∈ (k.peers i).actor.passed := by
    rw [← hf.received]
    exact List.mem_append_left _ hd
  obtain ⟨w, hw, hg⟩ := hk.passed i d hpassed
  have hutters : ∀ j v, Sends k j v → Utters k j v := fun j v hv =>
    ⟨hv, posted_of_sent (ha.peers j) hv⟩
  exact ⟨w, hw, hg.map (hutters i) fun j _ _ => ⟨j, hutters j⟩⟩

/-- The second application receives what the first has published. -/
theorem received_genuine_weather : ∃ k, (network .lenient fun _ _ => true).Reachable k ∧
    (k.peers false).received = [.stream (.ofBytes [115]) (.ofBytes [115]) (.ofBytes [115]) (some [[7]])] ∧
    ∃ w, (L4.Label.frame w).delivery =
        some (.stream (.ofBytes [115]) (.ofBytes [115]) (.ofBytes [115]) (some [[7]])) ∧
      L3.Genuine (fun _ _ => true) (Utters k) false w := by
  have hrun : (((new pair).steps .lenient (fun _ _ => true) 20 publishing).any fun k =>
      (k.peers false).received =
        [.stream (.ofBytes [115]) (.ofBytes [115]) (.ofBytes [115]) (some [[7]])]) = true := by
    decide +kernel
  obtain ⟨k, hk, hP⟩ := (Option.any_eq_true _ _).1 hrun
  have hreceived := of_decide_eq_true hP
  have hr := network_of_steps hk
  exact ⟨k, hr, hreceived, received_genuine hr (by rw [hreceived]; exact List.mem_cons_self)⟩

end
end
end Malamute.L6
