import Malamute.L3Server.Sessions
import Malamute.L3Server.Streamed

/-!
# What the broker has from its clients

Nothing that the broker keeps of a client, and nothing that it does for one, is made up: a
client has the address it has opened with, writes to a stream it has asked to write to, and is
only sent what it has asked for.

* `Backed` is the invariant of the conversation: whatever is expected next comes from a message
  that the client has sent.
* `told_reachable`: so does whatever has been observed.
* `deliveries_solicited`: the three kinds of delivery, what their receivers have asked for and,
  where the messages read were complete, what their senders have said.
-/
namespace Malamute.L3
open Malamute.Core Malamute.L1 Malamute.L2 Server

/-- A message of client `c` was read as `w`, which is what it has sent if it was complete. -/
def Says (t : List Obs) (c : Cid) (w : Wire) : Prop :=
  ∃ holder frames, .received c holder frames (some w) ∈ t

/-- The message that is behind an expectation. -/
def Expect.Backed (t : List Obs) (c : Cid) : Expect → Prop
  | .heard w => ∀ v, w = some v → Says t c v
  | .opened a => Says t c (.connectionOpen a)
  | .subscribed stream pattern => Says t c (.streamRead stream pattern)
  | .published stream _ _ => Says t c (.streamWrite stream)
  | _ => True

/-- What a client has told before its conversation is in this state. -/
structure Backed (t : List Obs) (c : Cid) (q : Talk) : Prop where
  address : ∀ a, q.1.address = some a → Says t c (.connectionOpen a)
  writer : ∀ a n, q.1 = .opened a (some n) → Says t c (.streamWrite n)
  todo : ∀ x ∈ q.2, x.Backed t c
  /-- a MAILBOX DELIVER comes alone, and to an address -/
  mailbox : .sent .mailboxDeliver ∈ q.2 → q.2 = [.sent .mailboxDeliver] ∧ q.1.address.isSome

/-- What the client has told before this is observed. -/
def Obs.Told (t : List Obs) : Obs → Prop
  | .received c holder _ _ => ∀ a, holder = some a → Says t c (.connectionOpen a)
  | .sent c holder w _ => (∀ a, holder = some a → Says t c (.connectionOpen a)) ∧
      (w.map Wire.id = some .mailboxDeliver → holder.isSome)
  | .published c stream m => Says t c (.connectionOpen m.sender) ∧ Says t c (.streamWrite stream)
  | .mailed c m | .requested c m => Says t c (.connectionOpen m.sender)
  | .subscribed c stream pattern => Says t c (.streamRead stream pattern)
  | _ => True

/-- The client has sent the offer before it is listed. -/
def Obs.Offering (t : List Obs) : Obs → Prop
  | .offered _ name o => Says t o.client (.serviceOffer name o.pattern)
  | _ => True

/-- Who is sent a delivery has asked for it: to read the stream with a pattern that the subject
matches, to be reached at the address, to serve with a pattern that the subject matches. -/
def Obs.Asked (rex : Str → Str → Bool) (t : List Obs) : Obs → Prop
  | .sent c _ (some (.streamDeliver name _ subject _)) _ =>
    ∃ p, Says t c (.streamRead name p) ∧ rex p subject = true
  | .sent c _ (some (.mailboxDeliver _ address _ _ _)) _ => Says t c (.connectionOpen address)
  | .sent c _ (some (.serviceDeliver _ address subject _ _)) _ =>
    ∃ p, Says t c (.serviceOffer address p) ∧ rex p subject = true
  | _ => True

/-- What is behind a delivery to `c`, where `R d w` if `d` has said `w`: somebody has said the
message under the address that is given, and `c` has asked for it. The tracker may be that of
another message. -/
def Genuine {P : Type} (rex : Str → Str → Bool) (R : P → Wire → Prop) (c : P) : Wire → Prop
  | .streamDeliver name sender subject content =>
    (∃ p, R c (.streamRead name p) ∧ rex p subject = true) ∧
      ∃ d, R d (.connectionOpen sender) ∧ R d (.streamWrite name) ∧ R d (.streamSend subject content)
  | .mailboxDeliver sender address subject _ content => R c (.connectionOpen address) ∧
      ∃ d tracker timeout, R d (.connectionOpen sender) ∧
        R d (.mailboxSend address subject tracker timeout content)
  | .serviceDeliver sender address subject _ content =>
    (∃ p, R c (.serviceOffer address p) ∧ rex p subject = true) ∧
      ∃ d tracker timeout, R d (.connectionOpen sender) ∧
        R d (.serviceSend address subject tracker timeout content)
  | _ => True

/-- Somebody has said what is delivered. -/
def Obs.Ascribed (rex : Str → Str → Bool) (t : List Obs) : Obs → Prop
  | .sent c _ (some v) _ => Genuine rex (Says t) c v
  | _ => True

/-- The frames of a message that is read are those of what it says. -/
def Obs.complete : Obs → Bool
  | .received _ _ frames x => x.any fun v => frames = v.encode
  | _ => true

/-- Every message that was read was complete. -/
def Complete (t : List Obs) : Prop := ∀ o ∈ t, o.complete = true

instance (t : List Obs) : Decidable (Complete t) :=
  inferInstanceAs (Decidable (∀ o ∈ t, o.complete = true))

section
variable {rex : Str → Str → Bool} {s s' : Server} {c d : Cid} {t t' : List Obs} {q q' : Talk}
  {o : Obs} {w : Option Wire} {v : Wire} {st : Stage} {x : Expect} {r : Talk}

theorem Says.append (h : Says t c v) (t' : List Obs) : Says (t ++ t') c v := by
  obtain ⟨holder, frames, hmem⟩ := h
  exact ⟨holder, frames, List.mem_append_left _ hmem⟩

theorem Complete.of_append {t₁ t₂ : List Obs} (h : Complete t) (ht : t = t₁ ++ t₂) :
    Complete t₁ := fun o ho => h o (by rw [ht]; exact List.mem_append_left _ ho)

theorem Expect.Backed.append (h : x.Backed t c) (t' : List Obs) : x.Backed (t ++ t') c := by
  cases x with
  | heard w => exact fun v hv => (h v hv).append t'
  | opened a => exact Says.append h t'
  | subscribed stream pattern => exact Says.append h t'
  | published stream subject content => exact Says.append h t'
  | _ => trivial

theorem Backed.append (h : Backed t c q) (t' : List Obs) : Backed (t ++ t') c q where
  address a ha := (h.address a ha).append t'
  writer a n hq := (h.writer a n hq).append t'
  todo x hx := (h.todo x hx).append t'
  mailbox := h.mailbox

theorem backed_start (c : Cid) : Backed [] c (talk c).start where
  address a ha := by cases ha
  writer a n hq := by cases hq
  todo x hx := by cases hx
  mailbox hx := by cases hx

/-! ## One observation -/

/-- The stage stays, and nothing is expected that needs a reason. -/
theorem Backed.still {todo : List Expect} (h : Backed t c (st, [])) (hb : ∀ x ∈ todo, x.Backed t c)
    (hm : .sent .mailboxDeliver ∉ todo) : Backed t c (st, todo) :=
  ⟨h.address, h.writer, hb, fun hx => absurd hx hm⟩

theorem backed_gone (t : List Obs) (c : Cid) : Backed t c (.gone, []) where
  address a ha := by cases ha
  writer a n hq := by cases hq
  todo x hx := by cases hx
  mailbox hx := by cases hx

/-- What a message calls for, it backs. -/
theorem backed_script (h : Backed t c (st, [])) (hw : ∀ v, w = some v → Says t c v)
    (hs : st.script w = some r) : Backed t c r ∧ .sent .mailboxDeliver ∉ r.2 := by
  have hplain : ∀ todo, (∀ x ∈ todo, x.Backed t c) → .sent .mailboxDeliver ∉ todo →
      Backed t c (st, todo) ∧ .sent .mailboxDeliver ∉ todo := fun todo hb hm =>
    ⟨h.still hb hm, hm⟩
  cases st with
  | gone => cases hs
  | unopened =>
    cases w with
    | none =>
      cases hs
      exact hplain [.sent .error] (by simp [Expect.Backed]) (by simp)
    | some v =>
      cases v with
      | connectionOpen a =>
        cases hs
        exact hplain [.opened a] (by simpa [Expect.Backed] using hw _ rfl) (by simp)
      | _ =>
        cases hs
        exact hplain [.sent .error] (by simp [Expect.Backed]) (by simp)
  | opened a n =>
    cases w with
    | none =>
      cases hs
      exact hplain [.sent .error, .left] (by simp [Expect.Backed]) (by simp)
    | some v =>
      cases v with
      | streamWrite stream =>
        cases hs
        refine ⟨⟨h.address, fun b m hq => ?_, by simp [Expect.Backed], by simp⟩, by simp⟩
        cases hq
        exact hw _ rfl
      | streamRead stream pattern =>
        cases hs
        exact hplain [.subscribed stream pattern, .sent .ok]
          (by simpa [Expect.Backed] using hw _ rfl) (by simp)
      | streamSend subject content =>
        cases n with
        | none =>
          cases hs
          exact hplain [.raised, .sent .error, .left] (by simp [Expect.Backed]) (by simp)
        | some stream =>
          cases hs
          exact hplain [.published stream subject content]
            (by simpa [Expect.Backed] using h.writer a _ rfl) (by simp)
      | _ =>
        cases hs
        exact hplain _ (by simp [Expect.Backed]) (by simp)

/-- **What is expected is observed**: it has been told, and so has what is expected then. -/
theorem backed_meets (h : Backed t c (st, [])) (hx : x.Backed t c)
    (hm : x = .sent .mailboxDeliver → st.address.isSome) (hc : o.client? = some c)
    (hr : x.meets st o = some r) :
    (Backed t c r ∧ .sent .mailboxDeliver ∉ r.2) ∧ o.Told t := by
  cases x <;> cases o <;> simp only [Expect.meets, reduceCtorEq, Option.ite_none_right_eq_some,
    Option.some.injEq] at hr <;> cases hc
  case heard w e => exact ⟨backed_script h hx hr.2, trivial⟩
  case served e =>
    obtain ⟨-, rfl⟩ := hr
    exact ⟨⟨h.still (by simp [Expect.Backed]) (by simp), by simp⟩, trivial⟩
  case raised e =>
    obtain ⟨-, rfl⟩ := hr
    exact ⟨⟨h, by simp⟩, trivial⟩
  case opened a holder w hand =>
    obtain ⟨⟨rfl, hid⟩, rfl⟩ := hr
    refine ⟨⟨⟨fun b hb => ?_, fun b n hq => (by cases hq), by simp, by simp⟩, by simp⟩,
      fun b hb => ?_, fun _ => rfl⟩
    · cases hb
      exact hx
    · cases hb
      exact hx
  case sent i holder w hand =>
    obtain ⟨⟨rfl, hid⟩, rfl⟩ := hr
    refine ⟨⟨h, by simp⟩, h.address, fun hw => hm ?_⟩
    rw [hid] at hw
    rw [Option.some.inj hw]
  case subscribed n p stream pattern =>
    obtain ⟨⟨rfl, rfl⟩, rfl⟩ := hr
    exact ⟨⟨h, by simp⟩, hx⟩
  case cancelled n stream =>
    obtain ⟨-, rfl⟩ := hr
    exact ⟨⟨h, by simp⟩, trivial⟩
  case offered n p service offer =>
    obtain ⟨-, rfl⟩ := hr
    exact ⟨⟨h, by simp⟩, trivial⟩
  case published n b body stream m =>
    obtain ⟨⟨rfl, -, -, hsender⟩, rfl⟩ := hr
    exact ⟨⟨h, by simp⟩, h.address _ hsender.symm, hx⟩
  case mailed b u trk timeout body m =>
    obtain ⟨⟨-, hsender⟩, rfl⟩ := hr
    exact ⟨⟨h, by simp⟩, h.address _ hsender.symm⟩
  case requested b u trk timeout body m =>
    obtain ⟨⟨-, hsender⟩, rfl⟩ := hr
    exact ⟨⟨h, by simp⟩, h.address _ hsender.symm⟩
  case left readers =>
    obtain rfl := hr
    exact ⟨⟨backed_gone t c, by simp⟩, trivial⟩

/-- **What comes when nothing is expected.** -/
theorem backed_idle (h : Backed t c (st, [])) (hc : o.client? = some c)
    (hr : st.idle o = some r) : Backed (t ++ [o]) c r ∧ o.Told t := by
  have h' : Backed (t ++ [o]) c (st, []) := h.append [o]
  cases st <;> cases o <;> simp only [Stage.idle, reduceCtorEq, Option.ite_none_right_eq_some,
    Option.some.injEq] at hr <;> cases hc
  case unopened.received holder frames w =>
    obtain ⟨⟨rfl, -⟩, rfl⟩ := hr
    refine ⟨h'.still (List.forall_mem_singleton.2 fun v hv => ?_) (by simp), h.address⟩
    exact ⟨none, frames, by simp [hv, Stage.address]⟩
  case unopened.event e =>
    obtain ⟨-, rfl⟩ := hr
    exact ⟨backed_gone _ c, trivial⟩
  case opened.received a n holder frames w =>
    obtain ⟨⟨rfl, -⟩, rfl⟩ := hr
    refine ⟨h'.still (List.forall_mem_singleton.2 fun v hv => ?_) (by simp), h.address⟩
    exact ⟨some a, frames, by simp [hv, Stage.address]⟩
  case opened.event a n e =>
    refine ⟨?_, trivial⟩
    split at hr
    · cases hr
      exact h'.still (by simp [Expect.Backed]) (by simp)
    split at hr
    · cases hr
      exact h'.still (by simp [Expect.Backed]) (by simp)
    split at hr <;> cases hr
    exact ⟨h'.address, h'.writer, by simp [Expect.Backed], fun _ => ⟨rfl, rfl⟩⟩
  case opened.dispatched a n service offers offer m =>
    obtain rfl := hr
    exact ⟨h'.still (by simp [Expect.Backed]) (by simp), trivial⟩

/-- **One observation of the conversation.** -/
theorem backed_next (h : Backed t c q) (hn : (talk c).next q o = some q') :
    Backed (t ++ [o]) c q' ∧ (o.client? = some c → o.Told t) := by
  by_cases hc : o.client? = some c
  · rw [next_self hc] at hn
    obtain ⟨st, todo⟩ := q
    have hst : Backed t c (st, []) := ⟨h.address, h.writer, by simp, by simp⟩
    cases todo with
    | nil =>
      obtain ⟨hb, ho⟩ := backed_idle hst hc hn
      exact ⟨hb, fun _ => ho⟩
    | cons x todo =>
      obtain ⟨r, hr, rfl⟩ := Option.map_eq_some_iff.1 hn
      have hm : x = .sent .mailboxDeliver → st.address.isSome := fun hx =>
        (h.mailbox (by rw [hx]; exact List.mem_cons_self)).2
      obtain ⟨⟨hb, hnot⟩, ho⟩ := backed_meets hst (h.todo x List.mem_cons_self) hm hc hr
      have hnext : Backed t c (r.1, r.2 ++ todo) := by
        refine ⟨hb.address, hb.writer, fun y hy => ?_, fun hy => ?_⟩
        · rcases List.mem_append.1 hy with hy | hy
          · exact hb.todo y hy
          · exact h.todo y (List.mem_cons_of_mem _ hy)
        · -- the delivery would not come alone
          have hy := (List.mem_append.1 hy).resolve_left hnot
          obtain ⟨-, rfl⟩ := List.cons.inj (h.mailbox (List.mem_cons_of_mem _ hy)).1
          cases hy
      exact ⟨hnext.append [o], fun _ => ho⟩
  · rw [next_other hc] at hn
    cases hn
    exact ⟨h.append [o], fun hc' => absurd hc' hc⟩

/-- A conversation that is accepted. -/
theorem backed_run (h : Backed t c q) (hr : (talk c).run q t' = some q') :
    Backed (t ++ t') c q' := by
  induction t' generalizing t q with
  | nil =>
    cases hr
    rwa [List.append_nil]
  | cons o t' ih =>
    rw [Monitor.run_cons] at hr
    obtain ⟨q₁, h₁, hr⟩ := Option.bind_eq_some_iff.1 hr
    rw [List.append_cons]
    exact ih (backed_next h h₁).1 hr

/-! ## Steps -/

/-- **What is behind an observation.** In every run, whatever is observed of a client has been
told by it before. -/
theorem told_reachable (h : (broker rex).Reachable s) : Justified Obs.Told s.trace := by
  intro t₁ o t₂ hs
  cases hc : o.client? with
  | none => cases o <;> trivial
  | some c =>
    have hrun : (talk c).run (talk c).start s.trace = some (stageOf s c, []) :=
      Monitor.conforms (M := talk c) (f := Server.trace) (g := fun s => (stageOf s c, []))
        (regular_inductive rex) (fun s hs => by rw [show s = .new from hs]; rfl)
        (fun s l s' hreg hst => freely_moved hreg.reg (moved_of_step hreg.reg hreg.wired hst) c) h
    rw [hs] at hrun
    obtain ⟨q₁, q₂, h₁, h₂, -⟩ := Monitor.run_split hrun
    exact (backed_next (backed_run (backed_start c) h₁) h₂).2 hc

/-- What a step leaves in the trace: at most one message is read, and what follows is the
handling of its event. -/
theorem moved_follows {l : Label} (h : Moved rex s l s') : ∃ s₁ c e,
    Grows (Obs.Follows s₁ c e) s₁ s' ∧
      (s₁.trace = s.trace ∧ e = .expired ∨ l.inner = false ∧ ∃ holder frames,
        s₁.trace = s.trace ++ [.received c holder frames s₁.message.wire] ∧
          e = protocolEvent s₁.message) := by
  have hread : ∀ {parts : List Frame}, l.inner = false → Received rex s parts s' → ∃ s₁ c e,
      Grows (Obs.Follows s₁ c e) s₁ s' ∧
        (s₁.trace = s.trace ∧ e = .expired ∨ l.inner = false ∧ ∃ holder frames,
          s₁.trace = s.trace ++ [.received c holder frames s₁.message.wire] ∧
            e = protocolEvent s₁.message) := by
    intro parts hl hrecv
    cases hrecv with
    | interrupted _ => exact ⟨s, 0, .expired, grows_same rfl, .inl ⟨rfl, rfl⟩⟩
    | @ignored p rest _ =>
      have htr : ((s.received p rest).clientRequire (p.routingId.getD [])).2.trace = s.trace :=
        clientRequire_trace (s := s.received p rest) rfl
      exact ⟨s, 0, .expired, grows_same htr, .inl ⟨rfl, rfl⟩⟩
    | @handled p rest c s₁ _ _ hreq hh =>
      have hkeep : s₁.message = p := by
        rcases clientRequire_cases hreq with ⟨-, rfl⟩ | ⟨-, -, rfl⟩ <;> rfl
      refine ⟨_, c, _, follows_handled hh, .inr ⟨hl, (s₁.ctx c).bind (·.address), parts.tail, ?_, ?_⟩⟩
      · rw [hear_trace, clientRequire_trace hreq, hear_message, hkeep]
        rfl
      · rw [hear_message, hkeep]
  have hrel := relayed_follows s 0 .expired
  cases h with
  | router _ _ h => exact hread rfl h
  | more _ h => exact hread rfl h
  | @expired c _ _ _ _ _ hh => exact ⟨s, c, .expired, follows_handled hh, .inl ⟨rfl, rfl⟩⟩
  | acked _ _ _ _ => exact ⟨s, 0, .expired, grows_same (put_trace ..), .inl ⟨rfl, rfl⟩⟩
  | discarded _ _ _ _ _ => exact ⟨s, 0, .expired, grows_same rfl, .inl ⟨rfl, rfl⟩⟩
  | @delivered name st c m up k a _ _ _ _ =>
    have hpop : Grows (Obs.Follows s 0 .expired) s (s.popStream name st up) := grows_same rfl
    exact ⟨s, 0, .expired, hpop.trans (hrel.deliver _ c k .streamMessage m (.inl rfl)),
      .inl ⟨rfl, rfl⟩⟩
  | command _ _ => exact ⟨s, 0, .expired, grows_same rfl, .inl ⟨rfl, rfl⟩⟩
  | @message name st st' m targets _ _ =>
    exact ⟨s, 0, .expired, grows_one (o := .forwarded name m targets) rfl trivial,
      .inl ⟨rfl, rfl⟩⟩
  | mailbox _ hread =>
    exact ⟨s, 0, .expired, (mailboxRead_only hread).grows hrel.dropped, .inl ⟨rfl, rfl⟩⟩
  | configured _ hreads =>
    have hgrows := (mailboxReads_only hreads).grows hrel.dropped
    exact ⟨s, 0, .expired, hgrows, .inl ⟨rfl, rfl⟩⟩

/-! ## Offers -/

theorem offering_moved {l : Label} (h : Justified Obs.Offering s.trace) (hm : Moved rex s l s') :
    Justified Obs.Offering s'.trace := by
  have hJ : ∀ (t t' : List Obs) o, Obs.Offering t o → Obs.Offering (t ++ t') o := by
    intro t t' o ho
    cases o with
    | offered d name offer => exact Says.append ho t'
    | _ => trivial
  obtain ⟨s₁, c, e, ⟨t, ht, hfollows⟩, hs₁⟩ := moved_follows hm
  rw [ht]
  rcases hs₁ with ⟨hs₁, rfl⟩ | ⟨-, holder, frames, hs₁, rfl⟩
  · rw [hs₁]
    refine h.extend hJ fun o ho => ?_
    cases o with
    | offered d name offer =>
      obtain ⟨-, hcmd, -⟩ := hfollows _ ho
      cases hcmd
    | _ => trivial
  · rw [hs₁]
    have hread : Justified Obs.Offering (s.trace ++ [.received c holder frames s₁.message.wire]) :=
      h.snoc trivial
    refine hread.extend hJ fun o ho => ?_
    cases o with
    | offered d name offer =>
      obtain ⟨rfl, hcmd, -⟩ := hfollows _ ho
      refine ⟨holder, frames, ?_⟩
      rw [(wire_command hcmd).1]
      simp
    | _ => trivial

theorem offering_inductive (rex : Str → Str → Bool) :
    (broker rex).Inductive fun s => Regular s ∧ Justified Obs.Offering s.trace :=
  (regular_inductive rex).strengthen (fun s h => by rw [show s = .new from h]; exact .nil)
    fun _ _ _ hr _ h hstep => offering_moved h (moved_of_step hr.reg hr.wired hstep)

theorem mem_listed {name : Str} {offer : Offer} (h : offer ∈ listed name t) :
    ∃ d, .offered d name offer ∈ t := by
  suffices hgen : ∀ os, offer ∈ t.foldl (listStep name) os →
      offer ∈ os ∨ ∃ d, .offered d name offer ∈ t from
    (hgen [] h).resolve_left List.not_mem_nil
  clear h
  induction t with
  | nil => exact fun os h => .inl h
  | cons o t ih =>
    intro os h
    rcases ih _ h with h | ⟨d, h⟩
    · cases o with
      | offered d n x =>
        simp only [listStep] at h
        split at h
        · rename_i hn
          rcases List.mem_append.1 h with h | h
          · exact .inl h
          · rw [List.mem_singleton.1 h, ← hn]
            exact .inr ⟨d, List.mem_cons_self⟩
        · exact .inl h
      | left d readers => exact .inl (List.mem_of_mem_filter h)
      | _ => exact .inl h
    · exact .inr ⟨d, List.mem_cons_of_mem _ h⟩

/-! ## Deliveries -/

/-- The mailbox of a delivery is that of the receiver. -/
theorem mailbox_holder (h : (broker rex).Reachable s) {holder : Option Str}
    {sender address subject tracker : Str} {content : List Frame} {hand : Option Msg}
    {t₁ t₂ : List Obs} (hs : s.trace = t₁ ++
      .sent c holder (some (.mailboxDeliver sender address subject tracker content)) hand :: t₂) :
    holder = some address := by
  obtain ⟨⟨-, hp⟩, hh⟩ := (honest_inductive rex).reachable s h
  obtain ⟨m, rfl, hw, -⟩ := hh.faithful.delivered .mailbox _ _ _ _ _ _ hs rfl
  obtain ⟨-, hsome⟩ := told_reachable h _ _ _ hs
  obtain ⟨a, rfl⟩ := Option.isSome_iff_exists.1 (hsome rfl)
  have hmem : .sent c (some a) (some (.mailboxDeliver sender address subject tracker content))
      (some m) ∈ s.trace := by
    rw [hs]
    exact List.mem_append_right _ List.mem_cons_self
  have hgot : m ∈ s.deliveredFrom (.mailbox a) := by
    simp only [deliveredFrom, changes, List.mem_map, List.mem_filter, List.mem_filterMap,
      decide_eq_true_eq]
    exact ⟨(.leaves, .mailbox a, m), ⟨⟨_, hmem, rfl⟩, rfl, rfl⟩, rfl⟩
  have hsent := ((hp.kept.books (.mailbox a)).mem_sent (.inl hgot)).1
  rcases mem_sentTo hsent with ⟨d, -, hl⟩ | ⟨d, -, hl⟩
  · cases hl
    simp only [Post.frame, Wire.mailboxDeliver.injEq] at hw
    rw [hw.2.1]
  · cases hl

/-- Before a delivery comes what its receiver has asked for. -/
theorem asked_reachable (h : (broker rex).Reachable s) :
    Justified (Obs.Asked rex) s.trace := by
  intro t₁ o t₂ hs
  have htold := told_reachable h
  rw [hs] at htold
  cases o with
  | sent c holder w hand =>
    cases w with
    | none => trivial
    | some w =>
      cases w with
      | streamDeliver name sender subject content =>
        have hv := ((streamed_inductive rex).reachable s h).2.vouched
        obtain ⟨m, targets, -, hfwd, hc, -, rfl, -⟩ := hv t₁ _ t₂ hs
        rw [hs] at hv
        obtain ⟨u, u', hu, d, -, hto⟩ := hv.before.of_mem hfwd
        obtain ⟨-, p, hsub, hrex⟩ := hto c hc
        have hmem : .subscribed c name p ∈ t₁ := by
          rw [hu]
          exact List.mem_append_left _ hsub
        obtain ⟨v, v', rfl, hsays⟩ := htold.before.of_mem hmem
        exact ⟨p, Says.append hsays _, hrex⟩
      | mailboxDeliver sender address subject tracker content =>
        exact (told_reachable h _ _ _ hs).1 _ (mailbox_holder h hs)
      | serviceDeliver sender address subject tracker content =>
        obtain ⟨⟨-, hp⟩, hh⟩ := (honest_inductive rex).reachable s h
        obtain ⟨m, rfl, hw, -⟩ := hh.faithful.delivered .service _ _ _ _ _ _ hs rfl
        obtain ⟨offer, hlisted, rfl, hrex⟩ := hp.served.matched _ _ _ _ _ _ hs rfl
        obtain ⟨d, hoffered⟩ := mem_listed hlisted
        simp only [Post.frame, Wire.serviceDeliver.injEq] at hw
        obtain ⟨-, rfl, rfl, -⟩ := hw
        have ho := ((offering_inductive rex).reachable s h).2
        rw [hs] at ho
        obtain ⟨v, v', rfl, hsays⟩ := ho.before.of_mem hoffered
        exact ⟨offer.pattern, Says.append hsays _, hrex⟩
      | _ => trivial
  | _ => trivial

/-- A delivery to one client was made of a message that its sender has said before. -/
theorem post_said (h : (broker rex).Reachable s) {k : Post} {holder : Option Str} {hand : Option Msg}
    {t₁ t₂ : List Obs} (hs : s.trace = t₁ ++ .sent c holder (some v) hand :: t₂)
    (hid : v.id = k.deliverId) : ∃ d a w m trk trk', v = k.frame m trk' ∧
      k.delivery a w = some (k.frame m trk) ∧ Says t₁ d (.connectionOpen a) ∧ Says t₁ d w := by
  have hf := ((honest_inductive rex).reachable s h).2.faithful
  have htold := told_reachable h
  obtain ⟨m, -, hv, a, frames, d, x, hmade⟩ := hf.delivered k _ _ _ _ _ _ hs hid
  have hin : [.received d (some a) frames x, .event d k.event, k.obs d m] <:+: s.trace := by
    rw [hs]
    exact hmade.trans (List.prefix_append ..).isInfix
  obtain ⟨w, trk, rfl, -, hd⟩ := hf.carried k d m a frames x hin
  have hmem : .received d (some a) frames (some w) ∈ t₁ := hmade.subset List.mem_cons_self
  rw [hs] at htold
  obtain ⟨u, u', rfl, hopen⟩ := htold.before.of_mem hmem
  exact ⟨d, a, w, m, trk, lastTracker _, hv, hd, (hopen a rfl).append _, some a, frames, hmem⟩

/-- **Where the messages before it are complete, a delivery is genuine.** -/
theorem genuine_before (h : (broker rex).Reachable s) {holder : Option Str} {hand : Option Msg}
    {t₁ t₂ : List Obs} (hs : s.trace = t₁ ++ .sent c holder (some v) hand :: t₂)
    (hcomplete : Complete t₁) : Genuine rex (Says t₁) c v := by
  have hasked := asked_reachable h _ _ _ hs
  cases v with
  | streamDeliver name sender subject content =>
    refine ⟨hasked, ?_⟩
    -- from the delivery back to the message that was published
    have hvouched := ((streamed_inductive rex).reachable s h).2.vouched
    have htold := told_reachable h
    obtain ⟨m, targets, -, hfwd, -, rfl, rfl, hcontent⟩ := hvouched t₁ _ t₂ hs
    rw [hs] at hvouched htold
    obtain ⟨u, u', hu, d, hpub, -⟩ := hvouched.before.of_mem hfwd
    have hpub : .published d name m ∈ t₁ := by
      rw [hu]
      exact List.mem_append_left _ hpub
    obtain ⟨u, u', hu, -, t₀, frames, body, rfl, hread⟩ := hvouched.before.of_mem hpub
    obtain ⟨hopen, hwrite⟩ := htold.before _ _ _ hu
    have hheard : .received d (some m.sender) frames (some (.streamSend m.subject body)) ∈ t₁ := by
      rw [hu]
      simp
    obtain rfl : frames = _ := of_decide_eq_true (hcomplete _ hheard)
    have hbody := hcontent body (hread _ (decode_encode _)).2
    subst hbody
    refine ⟨d, ?_, ?_, some m.sender, _, hheard⟩
    · rw [hu]
      exact hopen.append _
    · rw [hu]
      exact hwrite.append _
  | mailboxDeliver sender address subject tracker content =>
    refine ⟨hasked, ?_⟩
    obtain ⟨d, a, w, m, trk, trk', hv, hd, hopen, hsend⟩ := post_said (k := .mailbox) h hs rfl
    simp only [Post.frame, Wire.mailboxDeliver.injEq] at hv
    obtain ⟨rfl, rfl, rfl, -, rfl⟩ := hv
    cases w <;> simp only [Post.delivery, Post.frame, reduceCtorEq, Option.some.injEq,
      Wire.mailboxDeliver.injEq] at hd
    obtain ⟨rfl, rfl, rfl, -, rfl⟩ := hd
    exact ⟨d, _, _, hopen, hsend⟩
  | serviceDeliver sender address subject tracker content =>
    refine ⟨hasked, ?_⟩
    obtain ⟨d, a, w, m, trk, trk', hv, hd, hopen, hsend⟩ := post_said (k := .service) h hs rfl
    simp only [Post.frame, Wire.serviceDeliver.injEq] at hv
    obtain ⟨rfl, rfl, rfl, -, rfl⟩ := hv
    cases w <;> simp only [Post.delivery, Post.frame, reduceCtorEq, Option.some.injEq,
      Wire.serviceDeliver.injEq] at hd
    obtain ⟨rfl, rfl, rfl, -, rfl⟩ := hd
    exact ⟨d, _, _, hopen, hsend⟩
  | _ => trivial

/-- **Nothing is sent unasked and, where the messages were complete, nothing is made up.** In every
run: a client has sent CONNECTION OPEN with the address under which it is heard and answered,
STREAM WRITE for the stream it publishes on, STREAM READ before it is subscribed; and before it is
sent a delivery it has sent STREAM READ for the stream, CONNECTION OPEN with the address, or SERVICE
OFFER for the service, where the subject matches the pattern. If every message read by then was
complete, a client that has sent CONNECTION OPEN with the address that the delivery gives has sent
the message before, to this address or as one that has sent STREAM WRITE for this stream, with this
subject and this content; the tracker may be that of another message. -/
theorem deliveries_solicited (h : (broker rex).Reachable s) :
    Justified (fun t o => o.Told t ∧ o.Asked rex t ∧ (Complete t → o.Ascribed rex t)) s.trace := by
  intro t₁ o t₂ hs
  refine ⟨told_reachable h t₁ o t₂ hs, asked_reachable h t₁ o t₂ hs, fun hcomplete => ?_⟩
  cases o with
  | sent c holder w hand =>
    cases w with
    | none => trivial
    | some v => exact genuine_before h hs hcomplete
  | _ => trivial

/-- Client 0 has asked for what it is sent, with a pattern that the subject matches, and some
client has said it on the stream. -/
theorem deliveries_solicited_weather : ∃ s t₁, (broker fun _ _ => true).Reachable s ∧
    t₁ ++ [.sent 0 (some .empty) (some (.streamDeliver weather .empty .empty [[7]]))
      (some firstSend)] <+: s.trace ∧
    Says t₁ 0 (.connectionOpen .empty) ∧ (∃ p, Says t₁ 0 (.streamRead weather p)) ∧
    ∃ d, Says t₁ d (.streamWrite weather) ∧ Says t₁ d (.streamSend .empty [[7]]) := by
  have hrun : ((Server.new.steps (fun _ _ => true) (fun _ _ => True) 20
      (readRun [.command weather, .message weather, .traffic weather])).any fun s =>
      .sent 0 (some .empty) (some (.streamDeliver weather .empty .empty [[7]])) (some firstSend) ∈
        s.trace ∧ Complete s.trace) = true := by decide +kernel
  obtain ⟨s, hs, hp⟩ := (Option.any_eq_true _ _).1 hrun
  have hr := (reachable_of_steps hs).of_within
  obtain ⟨hmem, hcomplete⟩ := of_decide_eq_true hp
  obtain ⟨t₁, t₂, ht⟩ := List.append_of_mem hmem
  obtain ⟨⟨hopen, -⟩, -, hgenuine⟩ := deliveries_solicited hr _ _ _ ht
  obtain ⟨⟨p, hread, -⟩, d, -, hwrite, hsend⟩ := hgenuine (hcomplete.of_append ht)
  exact ⟨s, t₁, hr, ⟨t₂, by rw [ht]; simp⟩, hopen .empty rfl, ⟨p, hread⟩, d, hwrite, hsend⟩

/-! ## Both ends -/

/-- `f` says what `d` says, for every `d` that says anything, and `e` what `c` says. -/
theorem Genuine.map {P Q : Type} {R : P → Wire → Prop} {R' : Q → Wire → Prop} {c : P} {e : Q}
    (hself : ∀ w, R c w → R' e w) (hall : ∀ d w, R d w → ∃ f, ∀ w', R d w' → R' f w')
    (h : Genuine rex R c v) : Genuine rex R' e v := by
  cases v with
  | streamDeliver name sender subject content =>
    obtain ⟨⟨p, hread, hrex⟩, d, hopen, hwrite, hsend⟩ := h
    obtain ⟨f, hf⟩ := hall d _ hopen
    exact ⟨⟨p, hself _ hread, hrex⟩, f, hf _ hopen, hf _ hwrite, hf _ hsend⟩
  | mailboxDeliver sender address subject tracker content =>
    obtain ⟨hown, d, trk, timeout, hopen, hsend⟩ := h
    obtain ⟨f, hf⟩ := hall d _ hopen
    exact ⟨hself _ hown, f, trk, timeout, hf _ hopen, hf _ hsend⟩
  | serviceDeliver sender address subject tracker content =>
    obtain ⟨⟨p, hoffer, hrex⟩, d, trk, timeout, hopen, hsend⟩ := h
    obtain ⟨f, hf⟩ := hall d _ hopen
    exact ⟨⟨p, hself _ hoffer, hrex⟩, f, trk, timeout, hf _ hopen, hf _ hsend⟩
  | _ => trivial

/-- **Where messages are complete, a delivery is genuine.** -/
theorem genuine_sent (h : (broker rex).Reachable s) (hcomplete : Complete s.trace)
    {holder : Option Str} {hand : Option Msg} (hmem : .sent c holder (some v) hand ∈ s.trace) :
    Genuine rex (Says s.trace) c v := by
  obtain ⟨t₁, t₂, hs⟩ := List.append_of_mem hmem
  have hlater : ∀ d w, Says t₁ d w → Says s.trace d w := fun d w hw => by
    rw [hs]
    exact hw.append _
  exact (genuine_before h hs (hcomplete.of_append hs)).map (hlater c) fun d _ _ => ⟨d, hlater d⟩

end
end Malamute.L3
