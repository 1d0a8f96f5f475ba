import Malamute.L3Server.Status
import Malamute.L3Server.Unopened

/-!
# What one client hears of the broker

`outputs s s' key` are the frames that a step from `s` to `s'` sends to the
routing id `key`. OK, ERROR and PONG only go to the client whose message is
being handled, and what they may say depends on that message (`Answer`).

* `outputs_request`, `outputs_inner`: what a step sends to a routing id.
* `unwritten_request`, `unwritten_inner`: which steps leave a client open that
  has no stream to write to.
-/
namespace Malamute.L3
open Malamute.Core Malamute.L1 Malamute.L2 Server

/-- A message of another client. -/
def delivers : Wire → Bool
  | .streamDeliver _ _ _ _ | .mailboxDeliver _ _ _ _ _ | .serviceDeliver _ _ _ _ _ => true
  | _ => false

/-- The events that are answered with OK. -/
def Event.acknowledged : Event → Bool
  | .connectionOpen | .streamWrite | .streamRead | .streamCancel | .serviceOffer
  | .connectionClose => true
  | _ => false

/-- What event `e` of client `c` may be answered with: an ERROR has the code 500
unless the event is a CONFIRM, or a STREAM SEND without a writer. -/
def Answer (s : Server) (c : Cid) (e : Event) : Wire → Prop
  | .ok _ _ => e.acknowledged = true
  | .connectionPong => e = .connectionPing
  | .error n _ => e ≠ .expired ∧
    (n = commandInvalid ∨ e = .confirm ∨
      e = .streamSend ∧ ∃ k a, Open s c k a ∧ k.writer = none)
  | _ => False

/-- A frame is a message of another client, or an answer to `c`. -/
def Obs.Answers (s : Server) (c : Cid) (e : Event) : Obs → Prop
  | .sent d _ (some w) _ => delivers w = true ∨ d = c ∧ Answer s c e w
  | .sent _ _ none _ => False
  | _ => True

/-- The command that an event executes for an open client. -/
def Event.command (p : Proto) : Event → Option Wire
  | .streamWrite => some (.streamWrite p.stream)
  | .streamRead => some (.streamRead p.stream p.pattern)
  | .streamCancel => some (.streamCancel p.stream)
  | .serviceOffer => some (.serviceOffer p.address p.pattern)
  | _ => none

/-- What the handling of event `e` of `c` may leave in the trace: no message is read,
and a command is one that the open client `c` has sent. -/
def Obs.Follows (s : Server) (c : Cid) (e : Event) : Obs → Prop
  | .received _ _ _ _ => False
  | .subscribed d name p => d = c ∧ e.command s.message = some (.streamRead name p) ∧
      ∃ k a, Open s c k a
  | .cancelled d name => d = c ∧ e.command s.message = some (.streamCancel name) ∧
      ∃ k a, Open s c k a
  | .offered _ name o => o.client = c ∧
      e.command s.message = some (.serviceOffer name o.pattern) ∧ ∃ k a, Open s c k a
  | o => o.Answers s c e

section
variable {rex : Str → Str → Bool} {s s' s₀ : Server} {c : Cid} {k : Client} {a : Str} {e : Event}

theorem relayed_follows (s₀ : Server) (c : Cid) (e : Event) : Relayed (Obs.Follows s₀ c e) where
  event _ _ := trivial
  delivered _ _ _ _ _ _ h := by rcases h with rfl | rfl | rfl <;> exact .inl rfl
  mailed _ _ := trivial
  requested _ _ := trivial
  dispatched _ _ _ _ := trivial
  dropped _ _ := trivial

/-- Only a STREAM SEND without a writer and a CONFIRM are answered with the code
300. -/
theorem answer_failed (h : e = .confirm ∨ e = .streamSend ∧ ∃ k a, Open s₀ c k a ∧ k.writer = none)
    (r : Str) : Answer s₀ c e (.error failed r) := by
  refine ⟨?_, .inr h⟩
  rcases h with rfl | ⟨rfl, -⟩ <;> simp

theorem follows_fail (h : e = .confirm ∨ e = .streamSend ∧ ∃ k a, Open s₀ c k a ∧ k.writer = none)
    (s : Server) (k : Client) (a : Str) : Grows (Obs.Follows s₀ c e) s (s.fail c k a) := by
  have henter : Grows (Obs.Follows s₀ c e) s (s.enter c .exception) := grows_one rfl trivial
  have herror : Grows (Obs.Follows s₀ c e) (s.enter c .exception)
      (((s.enter c .exception).setStatus failed).answer c k .error) :=
    grows_one rfl (.inr ⟨rfl, answer_failed h _⟩)
  have hleave : Grows (Obs.Follows s₀ c e)
      (((s.enter c .exception).setStatus failed).answer c k .error) (s.fail c k a) :=
    grows_one (o := .left c k.readers) rfl trivial
  exact (henter.trans herror).trans hleave

theorem follows_evicted {s₁ : Server} (h : Evicted a s s₁) : Grows (Obs.Follows s₀ c e) s s₁ := by
  cases h with
  | nobody _ => exact grows_same rfl
  | @holder old t _ _ _ =>
    have henter : Grows (Obs.Follows s₀ c e) s (s.enter old .expired) := grows_one rfl trivial
    exact henter.trans (grows_one (o := .left old t.readers) rfl trivial)

/-- **What an event leaves in the trace.** -/
theorem follows_handled (h : Handled rex s c e s') : Grows (Obs.Follows s c e) s s' := by
  have henter : Grows (Obs.Follows s c e) s (s.enter c e) := grows_one rfl trivial
  have hrel := relayed_follows s c e
  have hanswer : ∀ {w : Server} (k : Client) {id : Id} {m : Wire}, Grows (Obs.Follows s c e) s w →
      (w.message.setId id k.hashkey).wire = some m → Answer s c e m →
      Grows (Obs.Follows s c e) s (w.answer c k id) := by
    intro w k id m hw hm ha
    exact hw.trans (grows_one rfl (by rw [hm]; exact .inr ⟨rfl, ha⟩))
  have hleave : ∀ {w : Server} (k : Client) (a : Str), Grows (Obs.Follows s c e) s w →
      Grows (Obs.Follows s c e) s (w.leave c k a) := fun k a hw =>
    hw.trans (grows_one (o := .left c k.readers) rfl trivial)
  cases h with
  | @opened k s₁ _ _ _ hev hd =>
    have hreg : Grows (Obs.Follows s c .connectionOpen) s₁
        (s₁.register c k s.message.address) := by
      rw [register_eq]
      exact grows_one rfl (.inr ⟨rfl, rfl⟩)
    exact ((henter.trans (follows_evicted hev)).trans hreg).trans (hrel.drain hd)
  | departed _ _ => exact henter.trans (grows_same rfl)
  | unopened _ _ hstart =>
    refine hanswer _ (henter.trans (grows_same rfl)) rfl ⟨?_, .inl rfl⟩
    rintro rfl
    simp [startState, defaults] at hstart
  | wrote _ => exact hanswer _ (henter.trans (grows_same rfl)) rfl rfl
  | @read k a ho =>
    exact hanswer _ (henter.trans (grows_one (o := .subscribed c s.message.stream
      s.message.pattern) rfl ⟨rfl, rfl, k, a, ho⟩)) rfl rfl
  | @cancelled k a ho =>
    exact hanswer _ (henter.trans (grows_one (o := .cancelled c s.message.stream) rfl
      ⟨rfl, rfl, k, a, ho⟩)) rfl rfl
  | @published k a name _ _ =>
    exact henter.trans (grows_one (o := .published c name _) rfl trivial)
  | @unwritten k a ho hw => exact henter.trans (follows_fail (.inr ⟨rfl, k, a, ho, hw⟩) _ k a)
  | mailed _ hm => exact henter.trans (hrel.mail hm)
  | requested _ hm => exact henter.trans (hrel.request hm)
  | @offered k a s₁ _ ho hs₁ hscan =>
    subst hs₁
    have hoffer : Grows (Obs.Follows s c .serviceOffer) s
        ((s.enter c .serviceOffer).offering c k) := by
      refine hanswer (w := _) k (henter.trans (grows_one (o := .offered c s.message.address
        ⟨s.offerId, s.message.pattern, c⟩) rfl ⟨rfl, rfl, k, a, ho⟩)) rfl rfl
    have hrest := hrel.scan hscan
    generalize (s.enter c .serviceOffer).offering c k = s₁ at hoffer hrest
    exact hoffer.trans (.trans (grows_same rfl) hrest)
  | confirmed _ => exact henter.trans (follows_fail (.inl rfl) ..)
  | credited _ => exact henter
  | pinged _ => exact hanswer _ henter rfl rfl
  | @closed k a _ => exact hleave k a (hanswer k henter rfl rfl)
  | @expired k a _ => exact hleave k a henter
  | @invalid k a _ _ hconn =>
    refine hleave k a (hanswer k (w := (s.enter c e).setStatus commandInvalid)
      (henter.trans (grows_same rfl)) rfl ⟨?_, .inl rfl⟩)
    rintro rfl
    simp [connectedState, defaults] at hconn

theorem Obs.Follows.answers {o : Obs} (h : o.Follows s c e) : o.Answers s c e := by
  cases o <;> first | exact h | exact trivial

theorem relayed_answers (s₀ : Server) (c : Cid) (e : Event) : Relayed (Obs.Answers s₀ c e) :=
  (relayed_follows s₀ c e).mono fun _ => Obs.Follows.answers

/-- **What an event is answered with.** -/
theorem answers_handled (h : Handled rex s c e s') : Grows (Obs.Answers s c e) s s' :=
  (follows_handled h).mono fun _ => Obs.Follows.answers

/-! ## Contexts -/

/-- What a command makes of the stream that a client writes to. -/
def writeStep (name : Option Str) : Wire → Option Str
  | .streamWrite n => some n
  | _ => name

/-- Where a context that is no zombie comes from when event `e` of `d` is handled. -/
inductive Before (s : Server) (d : Cid) (e : Event) (c : Cid) (k : Client) : Prop where
  | kept {k₀ : Client} : s.ctx c = some k₀ → k₀.state = k.state → k₀.hashkey = k.hashkey →
      k₀.writer = k.writer →
      (c = d → k.state = .connected → e.command s.message = none ∧ e ≠ .connectionOpen) →
      Before s d e c k
  | commanded {k₀ : Client} {w : Wire} : c = d → s.ctx c = some k₀ → k₀.state = .connected →
      k₀.state = k.state → k₀.hashkey = k.hashkey → e.command s.message = some w →
      k.writer = writeStep k₀.writer w → Before s d e c k
  | opened {k₀ : Client} : c = d → e = .connectionOpen → s.ctx c = some k₀ →
      k₀.state = .start → k.state = .connected → k₀.hashkey = k.hashkey →
      k₀.writer = k.writer → Before s d e c k

/-- The context of another client stays as it is. -/
theorem before_other {d : Cid} (hk : s.ctx c = some k) (hcd : c ≠ d) : Before s d e c k :=
  .kept hk rfl rfl rfl fun h => absurd h hcd

/-- The contexts stay as they are, and the event is no command. -/
theorem before_same {d : Cid} (hctx : s'.ctx = s.ctx)
    (he : e.command s.message = none ∧ e ≠ .connectionOpen) (hk : s'.ctx c = some k) :
    Before s d e c k :=
  .kept (by rw [← hctx]; exact hk) rfl rfl rfl fun _ _ => he

/-- `d` is gone, and the other contexts stay. -/
theorem before_gone {d : Cid} (hother : ∀ d', d' ≠ d → s'.ctx d' = s.ctx d')
    (hz : ∀ k', s'.ctx d = some k' → k'.state = .zombie)
    (hk : s'.ctx c = some k) (hs : k.state ≠ .zombie) : Before s d e c k := by
  by_cases hd : c = d
  · subst hd
    exact absurd (hz k hk) hs
  · exact before_other ((hother c hd).symm.trans hk) hd

theorem leave_zombie {k' : Client} (h : (s.leave c k a).ctx c = some k') : k'.state = .zombie := by
  have h : (if k.refcount = 0 then none else
      some { k.deregistered a with state := .zombie, nextEvent := some .terminate }) = some k' := by
    have := h
    simpa [Server.leave, Client.deregistered] using this
  split at h
  · cases h
  · cases h
    rfl

theorem before_handled {d : Cid} (hh : Handled rex s d e s') (hk : s'.ctx c = some k)
    (hs : k.state ≠ .zombie) : Before s d e c k := by
  -- a command changes the context of `d`
  have hcommand : ∀ (j' : Client) {j : Client} {w : Wire}, s.ctx d = some j →
      j.state = .connected → j'.state = j.state → j'.hashkey = j.hashkey →
      e.command s.message = some w → j'.writer = writeStep j.writer w →
      s'.ctx = Function.update s.ctx d (some j') → Before s d e c k := by
    intro j' j w hj hst hst' hkey he hw hctx
    rw [hctx] at hk
    by_cases hd : c = d
    · subst hd
      rw [Function.update_self] at hk
      cases hk
      exact .commanded rfl hj hst hst'.symm hkey.symm he hw
    · rw [Function.update_of_ne hd] at hk
      exact before_other hk hd
  have hleave : ∀ (s₁ : Server) {j : Client} {b : Str}, s₁.ctx = s.ctx →
      s' = s₁.leave d j b → Before s d e c k := by
    rintro s₁ j b hctx rfl
    exact before_gone (fun d' hd' => (leave_ctx_ne hd' b).trans (congrFun hctx d'))
      (fun k' hk' => leave_zombie hk') hk hs
  cases hh with
  | @opened k₀ s₁ _ hk₀ hs₀ hev hd =>
    rw [(drain_same hd).ctx] at hk
    by_cases hcd : c = d
    · subst hcd
      have hk : some (k₀.opened s.message.address) = some k := by
        rw [← hk, register_eq]
        simp
      cases hk
      exact .opened rfl rfl hk₀ hs₀ rfl rfl rfl
    · have hreg : (s₁.register d k₀ s.message.address).ctx c = s₁.ctx c := by
        rw [register_eq]
        exact Function.update_of_ne hcd _ _
      rw [hreg] at hk
      cases hev with
      | nobody _ => exact before_other hk hcd
      | @holder old t _ _ ho =>
        by_cases hold : c = old
        · subst hold
          exact absurd (leave_zombie hk) hs
        · rw [leave_ctx_ne hold] at hk
          exact before_other hk hcd
  | @departed k₀ hk₀ hs₀ =>
    refine before_gone (fun d' hd' => Function.update_of_ne hd' _ _) (fun k' hk' => ?_) hk hs
    simp only [bury_ctx, Function.update_self] at hk'
    split at hk'
    · cases hk'
    · cases hk'
      rfl
  | @unopened k₀ _ hk₀ hs₀ _ =>
    refine .kept hk rfl rfl rfl fun hcd hst => ?_
    subst hcd
    cases hk₀.symm.trans hk
    cases hs₀.symm.trans hst
  | @wrote k₀ a ho =>
    exact hcommand { k₀ with writer := some s.message.stream } ho.ctx ho.state rfl rfl rfl rfl rfl
  | @read k₀ a ho =>
    exact hcommand (k₀.reading s.message.stream) ho.ctx ho.state rfl rfl rfl rfl rfl
  | @cancelled k₀ a ho =>
    exact hcommand { k₀ with readers := k₀.readers.tail } ho.ctx ho.state rfl rfl rfl rfl rfl
  | published _ _ => exact before_same rfl (by simp [Event.command]) hk
  | @unwritten j _ _ _ =>
    exact hleave ((((s.enter d .streamSend).enter d .exception).setStatus failed).answer d j .error)
      rfl rfl
  | mailed _ hm => exact before_same (mailed_same hm).ctx (by simp [Event.command]) hk
  | requested _ hm => exact before_same (requested_same hm).ctx (by simp [Event.command]) hk
  | @offered k₀ a s₁ _ ho hs₁ hscan =>
    have hctx : s₁.ctx = s.ctx := by rw [hs₁]; rfl
    have hctx' : s'.ctx = s.ctx := (scan_same hscan).ctx.trans hctx
    refine hcommand k₀ ho.ctx ho.state rfl rfl rfl rfl ?_
    rw [hctx', ← ho.ctx, Function.update_eq_self]
  | @confirmed j _ _ =>
    exact hleave ((((s.enter d .confirm).enter d .exception).setStatus failed).answer d j .error)
      rfl rfl
  | credited _ => exact before_same rfl (by simp [Event.command]) hk
  | pinged _ => exact before_same rfl (by simp [Event.command]) hk
  | @closed j _ _ => exact hleave ((s.enter d .connectionClose).answer d j .ok) rfl rfl
  | expired _ => exact hleave (s.enter d .expired) rfl rfl
  | @invalid j _ e _ _ =>
    exact hleave (((s.enter d e).setStatus commandInvalid).answer d j .error) rfl rfl

/-- The context of a new client keeps its key when its first event is handled. -/
theorem handled_key {k' : Client} (hh : Handled rex s c e s') (hk : s.ctx c = some k)
    (hs : k.state = .start) (hk' : s'.ctx c = some k') : k'.hashkey = k.hashkey := by
  -- an open client is not in the start state
  have hopen : ∀ {j : Client} {b : Str}, ¬Open s c j b := by
    intro j b ho
    cases (ho.connected_of hk).symm.trans hs
  cases hh with
  | @opened k₀ s₁ _ hk₀ _ _ hd =>
    cases hk₀.symm.trans hk
    have h : some (k.opened s.message.address) = some k' := by
      rw [← hk', (drain_same hd).ctx, register_eq]
      simp
    cases h
    rfl
  | departed hk₀ _ =>
    cases hk₀.symm.trans hk
    simp only [bury_ctx, Function.update_self] at hk'
    split at hk'
    · cases hk'
    · cases hk'
      rfl
  | unopened _ _ _ =>
    cases hk.symm.trans hk'
    rfl
  | wrote ho => exact absurd ho hopen
  | read ho => exact absurd ho hopen
  | cancelled ho => exact absurd ho hopen
  | published ho _ => exact absurd ho hopen
  | unwritten ho _ => exact absurd ho hopen
  | mailed ho _ => exact absurd ho hopen
  | requested ho _ => exact absurd ho hopen
  | offered ho _ _ => exact absurd ho hopen
  | confirmed ho => exact absurd ho hopen
  | credited ho => exact absurd ho hopen
  | pinged ho => exact absurd ho hopen
  | closed ho => exact absurd ho hopen
  | expired ho => exact absurd ho hopen
  | invalid ho _ => exact absurd ho hopen

/-! ## Steps -/

/-- The event that a message of a client is. -/
def heardAs (w : Wire) : Event := protocolEvent (w.load .new)

theorem heardAs_load (w : Wire) (p : Proto) : protocolEvent (w.load p) = heardAs w := by
  cases w <;> rfl

/-- The steps that read nothing from the router socket. -/
def Label.inner : Label → Bool
  | .router _ _ => false
  | .more => false
  | _ => true

/-- The routing id of a context that was there before the step or is after it. -/
def keyOf (s s' : Server) (c : Cid) : Option Key := ((s.ctx c).or (s'.ctx c)).map (·.hashkey)

/-- The frames that a step sends to the routing id `key`. -/
def outputs (s s' : Server) (key : Key) : List Wire :=
  (s'.trace.drop s.trace.length).filterMap fun o =>
    match o with
    | .sent c _ (some w) _ => if keyOf s s' c = some key then some w else none
    | _ => none

/-- The client `key` has opened a connection and has no stream to write to. -/
def Unwritten (s : Server) (key : Key) : Prop :=
  ∃ c k, s.ctx c = some k ∧ k.state = .connected ∧ k.hashkey = key ∧ k.writer = none

/-- What message `w` of client `key` may be answered with. -/
def AnswerTo (s : Server) (key : Key) (w : Wire) : Wire → Prop
  | .ok _ _ => (heardAs w).acknowledged = true
  | .connectionPong => w = .connectionPing
  | .error n _ =>
    n = commandInvalid ∨ heardAs w = .confirm ∨ heardAs w = .streamSend ∧ Unwritten s key
  | _ => False

section
variable {key key' : Key} {w v : Wire} {l : Label}

theorem mem_outputs {P : Obs → Prop} (h : Grows P s s') (hv : v ∈ outputs s s' key) :
    ∃ d holder m, P (.sent d holder (some v) m) ∧ keyOf s s' d = some key := by
  obtain ⟨t, ht, hP⟩ := h
  rw [outputs, ht, List.drop_left] at hv
  obtain ⟨o, ho, hsome⟩ := List.mem_filterMap.1 hv
  split at hsome
  · rename_i d holder w m
    split at hsome
    · rename_i hkey
      cases hsome
      exact ⟨d, holder, m, hP _ ho, hkey⟩
    · cases hsome
  · cases hsome

/-- How a message is handled: `s₁` is the state with the client's context in
place and the message read. -/
structure Attended (rex : Str → Str → Bool) (s : Server) (key : Key) (w : Wire) (c : Cid)
    (s₁ s' : Server) : Prop where
  handled : Handled rex s₁ c (heardAs w) s'
  reg : Reg s₁
  hashed : s₁.clients.get key = some c
  grows : Grows (fun o => ∀ d holder w m, o ≠ .sent d holder w m) s s₁
  ctx : (s₁.ctx = s.ctx ∧ ∃ k, s.ctx c = some k ∧ k.hashkey = key) ∨
    (s.ctx c = none ∧ s₁.ctx = Function.update s.ctx c (some (.fresh key)))

theorem heard_of_request (hr : Reg s) (h : Moved rex s (.request key w) s') :
    ∃ c s₁, Attended rex s key w c s₁ s' := by
  have hrid : (w.load { s.message with routingId := some key }).routingId = some key := by
    cases w <;> rfl
  have hread := recv_encode w s.message key
  cases h with
  | router _ _ hrecv =>
    cases hrecv with
    | interrupted hrecv => cases hread.symm.trans hrecv
    | ignored hrecv => cases hread.symm.trans hrecv
    | @handled p rest c s₁ _ hrecv hreq hh =>
      cases hread.symm.trans hrecv
      rw [hrid] at hreq
      rw [heardAs_load] at hh
      have hr' := reg_received hr (w.load { s.message with routingId := some key }) []
      refine ⟨c, _, hh, reg_hear (reg_clientRequire hr' hreq).1 .., ?_, ?_, ?_⟩
      · rcases clientRequire_cases hreq with ⟨hget, rfl⟩ | ⟨-, rfl, rfl⟩
        · exact hget
        · rw [hear_clients, clientNew_eq]
          exact Table.get_set_self ..
      · refine grows_one (o := .received c ((s₁.ctx c).bind (·.address)) w.encode
          (w.load { s.message with routingId := some key }).wire) ?_ (by simp)
        rw [hear_trace, clientRequire_trace hreq]
        rfl
      · rcases clientRequire_cases hreq with ⟨hget, rfl⟩ | ⟨hget, rfl, rfl⟩
        · obtain ⟨k, hk, hkey, -⟩ := hr.hashed _ _ hget
          exact .inl ⟨rfl, k, hk, hkey⟩
        · refine .inr ⟨?_, by rw [clientNew_eq]; rfl⟩
          cases hn : s.ctx s.clientId with
          | none => exact hn
          | some k => exact absurd (hr.fresh _ _ hn) (Nat.lt_irrefl _)

/-- The frames to the sender of the message go to its routing id. -/
theorem Attended.to_sender {s₁ : Server} (h : Attended rex s key w c s₁ s') (hkey : keyOf s s' c = some key') :
    key' = key := by
  rcases h.ctx with ⟨-, k, hk, rfl⟩ | ⟨hnone, hctx⟩
  · simpa [keyOf, hk, eq_comm] using hkey
  · simp only [keyOf, hnone, Option.none_or, Option.map_eq_some_iff] at hkey
    obtain ⟨k', hk', rfl⟩ := hkey
    have hfresh : s₁.ctx c = some (.fresh key) := by rw [hctx, Function.update_self]
    exact handled_key h.handled hfresh rfl hk'

/-- An open context after the message was read was there before. -/
theorem Attended.before {s₁ : Server} (h : Attended rex s key w c s₁ s') {d : Cid}
    (hk : s₁.ctx d = some k) (hs : k.state = .connected) : s.ctx d = some k := by
  rcases h.ctx with ⟨hctx, -⟩ | ⟨hnone, hctx⟩
  · rw [← hctx]
    exact hk
  · by_cases hd : d = c
    · rw [hctx, hd, Function.update_self] at hk
      cases hk
      cases hs
    · rw [hctx, Function.update_of_ne hd] at hk
      exact hk

theorem outputs_request (hr : Regular s) (h : (broker rex).step s (.request key' w) s') :
    ∀ v ∈ outputs s s' key, delivers v = true ∨ key' = key ∧ AnswerTo s key w v := by
  intro v hv
  obtain ⟨c, s₁, hheard⟩ := heard_of_request hr.reg (moved_of_step hr.reg hr.wired h)
  have hread : Grows (Obs.Answers s₁ c (heardAs w)) s s₁ := by
    obtain ⟨t, ht, hnone⟩ := hheard.grows
    refine ⟨t, ht, fun o ho => ?_⟩
    cases o with
    | sent d holder w m => exact absurd rfl (hnone _ ho d holder w m)
    | _ => trivial
  obtain ⟨d, holder, m, hans, hkey⟩ := mem_outputs (hread.trans (answers_handled hheard.handled)) hv
  rcases hans with hd | ⟨rfl, hans⟩
  · exact .inl hd
  · have hkey' := hheard.to_sender hkey
    refine .inr ⟨hkey'.symm, ?_⟩
    cases v with
    | ok n r => exact hans
    | connectionPong =>
      have he : heardAs w = .connectionPing := hans
      cases w <;> first | rfl | cases he
    | error n r =>
      obtain ⟨-, rfl | he | ⟨he, k, a, ho, hw⟩⟩ := hans
      · exact .inl rfl
      · exact .inr (.inl he)
      · refine .inr (.inr ⟨he, d, k, hheard.before ho.ctx ho.state, ho.state, ?_, hw⟩)
        have hk := hheard.before ho.ctx ho.state
        simpa [keyOf, hk] using hkey
    | _ => cases hans

/-- **A step that reads no message sends only messages of other clients.** -/
theorem outputs_inner (hr : Regular s) (h : (broker rex).step s l s') (hl : l.inner = true) :
    ∀ v ∈ outputs s s' key, delivers v = true := by
  have hgrows : ∃ c, Grows (Obs.Answers s c .expired) s s' := by
    cases moved_of_step hr.reg hr.wired h with
    | router _ _ _ => cases hl
    | more _ _ => cases hl
    | @expired c _ _ _ _ _ hh => exact ⟨c, answers_handled hh⟩
    | acked _ _ _ _ => exact ⟨0, grows_same (put_trace ..)⟩
    | discarded _ _ _ _ _ => exact ⟨0, grows_same rfl⟩
    | @delivered name st c m up k a _ _ _ _ =>
      have hpop : Grows (Obs.Answers s 0 .expired) s (s.popStream name st up) := grows_same rfl
      exact ⟨0, hpop.trans ((relayed_answers s 0 .expired).deliver _ c k .streamMessage m
        (.inl rfl))⟩
    | command _ _ => exact ⟨0, grows_same rfl⟩
    | @message name st st' m targets _ _ =>
      exact ⟨0, grows_one (o := .forwarded name m targets) rfl trivial⟩
    | mailbox _ hread => exact ⟨0, (mailboxRead_only hread).grows (relayed_answers s 0 _).dropped⟩
    | configured _ hreads =>
      have hgrows := (mailboxReads_only hreads).grows (relayed_answers s 0 .expired).dropped
      exact ⟨0, hgrows⟩
  intro v hv
  obtain ⟨c, hgrows⟩ := hgrows
  obtain ⟨d, holder, m, hd | ⟨-, hans⟩, -⟩ := mem_outputs hgrows hv
  · exact hd
  · cases v with
    | ok n r => cases hans
    | connectionPong => cases hans
    | error n r => exact absurd rfl hans.1
    | _ => cases hans

/-- **Who has no stream to write to**: whoever has just opened, or had none before
and does not name one now. -/
theorem unwritten_request (hr : Regular s) (h : (broker rex).step s (.request key' w) s')
    (hu : Unwritten s' key) :
    (key' = key ∧ heardAs w = .connectionOpen) ∨
      (Unwritten s key ∧ (key' = key → heardAs w ≠ .streamWrite)) := by
  obtain ⟨d, s₁, hheard⟩ := heard_of_request hr.reg (moved_of_step hr.reg hr.wired h)
  obtain ⟨c, k, hk, hs, hkey, hw⟩ := hu
  have hd : ∃ j, s₁.ctx d = some j ∧ j.hashkey = key' := by
    rcases hheard.ctx with ⟨hctx, j, hj, hjkey⟩ | ⟨-, hctx⟩
    · exact ⟨j, by rw [hctx]; exact hj, hjkey⟩
    · exact ⟨.fresh key', by rw [hctx, Function.update_self], rfl⟩
  obtain ⟨j, hj, hjkey⟩ := hd
  cases before_handled hheard.handled hk (by rw [hs]; simp) with
  | kept hk₀ hs₀ hkey₀ hw₀ hne =>
    have hs₀ := hs₀.trans hs
    have hk₁ := hheard.before hk₀ hs₀
    refine .inr ⟨⟨c, _, hk₁, hs₀, hkey₀.trans hkey, hw₀.trans hw⟩, fun heq he => ?_⟩
    -- both contexts are hashed at `key`
    obtain ⟨a, ho⟩ := hheard.reg.open_of hk₀ hs₀
    have hhashed := ho.hashed
    rw [hkey₀, hkey, ← heq, hheard.hashed] at hhashed
    have hnone := (hne (Option.some.inj hhashed).symm hs).1
    rw [he] at hnone
    cases hnone
  | commanded hcd hk₀ hs₀ _ hkey₀ he hw₀ =>
    have hk₁ := hheard.before hk₀ hs₀
    have hold := hw₀.symm.trans hw
    generalize heardAs w = e at he
    cases e <;> cases he
    · cases hold
    all_goals exact .inr ⟨⟨c, _, hk₁, hs₀, hkey₀.trans hkey, hold⟩, fun _ h => nomatch h⟩
  | opened hcd he hk₀ _ _ hkey₀ _ =>
    subst hcd
    cases hj.symm.trans hk₀
    exact .inl ⟨by rw [← hjkey, hkey₀, hkey], he⟩

/-- No other step makes a client open that has no stream to write to. -/
theorem unwritten_inner (hr : Regular s) (h : (broker rex).step s l s') (hl : l.inner = true)
    (hu : Unwritten s' key) : Unwritten s key := by
  obtain ⟨c, k, hk, hs, hkey, hw⟩ := hu
  have hsame : s'.ctx = s.ctx → Unwritten s key := fun hctx =>
    ⟨c, k, by rw [← hctx]; exact hk, hs, hkey, hw⟩
  cases moved_of_step hr.reg hr.wired h with
  | router _ _ _ => cases hl
  | more _ _ => cases hl
  | expired _ _ _ hh =>
    cases before_handled hh hk (by rw [hs]; simp) with
    | kept hk₀ hs₀ hkey₀ hw₀ _ =>
      exact ⟨c, _, hk₀, hs₀.trans hs, hkey₀.trans hkey, hw₀.trans hw⟩
    | commanded _ _ _ _ _ he _ => cases he
    | opened _ he _ _ _ _ _ => cases he
  | @acked name st d up j _ _ _ hj =>
    have hput : ∃ k₀, s.ctx c = some k₀ ∧ k₀.state = k.state ∧ k₀.hashkey = k.hashkey ∧
        k₀.writer = k.writer := by
      have hk : ((s.popStream name st up).put d j).ctx c = some k := hk
      unfold put at hk
      by_cases hcd : c = d
      · subst hcd
        split at hk
        · simp [freeClient] at hk
        · simp at hk
          subst hk
          exact ⟨j, hj, rfl, rfl, rfl⟩
      · split at hk
        · simp [freeClient, Function.update_of_ne hcd] at hk
          exact ⟨k, hk, rfl, rfl, rfl⟩
        · simp [Function.update_of_ne hcd] at hk
          exact ⟨k, hk, rfl, rfl, rfl⟩
    obtain ⟨k₀, hk₀, h1, h2, h3⟩ := hput
    exact ⟨c, k₀, hk₀, h1.trans hs, h2.trans hkey, h3.trans hw⟩
  | discarded _ _ _ _ _ => exact hsame rfl
  | delivered _ _ _ _ => exact hsame rfl
  | command _ _ => exact hsame rfl
  | message _ _ => exact hsame rfl
  | mailbox _ hread =>
    obtain ⟨_, _, _, _, rfl⟩ := mailboxRead_only hread
    exact hsame rfl
  | configured _ hreads =>
    obtain ⟨_, _, _, _, rfl⟩ := mailboxReads_only hreads
    exact hsame rfl

end
end
end Malamute.L3
