import Malamute.L3Server.Safe

/-!
# Every step ends with empty slots and exact counts

`Vacant` is the state of the slots between two steps; it is an invariant of the
broker (`vacant_moved`). With it, and with `agrees_execute`, no step of a
reachable state raises an alarm (`follows_step`). The two results are instances:
`counts_exact` for the references, `nested_safe` for the slots.
-/
namespace Malamute.L3
open Malamute.Core Malamute.L1 Malamute.L2 Server

variable {rex : Str → Str → Bool} {s s' : Server} {c : Cid} {k : Client} {a : Str}

/-! ## Slots -/

/-- No client, terminated or not, has a message in its slot. -/
def Vacant (s : Server) : Prop := ∀ c k, s.ctx c = some k → k.msg = none

theorem vacant_new : Vacant .new := fun c k h => by cases h

theorem Vacant.frame (h : Vacant s) (hx : s'.ctx = s.ctx) : Vacant s' :=
  fun c k hk => h c k (by rw [← hx]; exact hk)

theorem Vacant.update (h : Vacant s) {x : Option Client} (hx : ∀ j, x = some j → j.msg = none)
    (hs : s'.ctx = Function.update s.ctx c x) : Vacant s' := by
  intro d j hj
  rw [hs] at hj
  by_cases hd : d = c
  · subst hd
    rw [Function.update_self] at hj
    exact hx j hj
  · rw [Function.update_of_ne hd] at hj
    exact h d j hj

theorem Vacant.bury (h : Vacant s) (hk : k.msg = none) : Vacant (s.bury c k) := by
  refine h.update (c := c) (fun j hj => ?_) rfl
  split at hj
  · cases hj
  · obtain rfl := Option.some.inj hj
    exact hk

theorem Vacant.leave (h : Vacant s) (ho : Open s c k a) : Vacant (s.leave c k a) := by
  have hd : Vacant (s.deregister c k a) := h.frame rfl
  exact hd.bury ho.quiet.msg

theorem vacant_evicted (h : Vacant s) (he : Evicted a s s') : Vacant s' := by
  cases he with
  | nobody _ => exact h
  | @holder old t _ _ ho =>
    have henter : Vacant (s.enter old .expired) := h.frame rfl
    exact henter.leave (ho.frame rfl rfl rfl)

theorem vacant_handled {e : Event} (hr : Reg s) (h : Vacant s) (hh : Handled rex s c e s') : Vacant s' := by
  -- an answer and a departure
  have hleave : ∀ {s₁ : Server} {k : Client} {a : Str}, s₁.ctx = s.ctx → s₁.clients = s.clients →
      s₁.addresses = s.addresses → Open s c k a → Vacant (s₁.leave c k a) :=
    fun h1 h2 h3 ho => (h.frame h1).leave (ho.frame h1 h2 h3)
  have hset : ∀ {s₁ : Server} {j : Client}, j.msg = none →
      s₁.ctx = Function.update s.ctx c (some j) → Vacant s₁ := by
    intro s₁ j hj hs
    refine h.update (fun i hi => ?_) hs
    obtain rfl := Option.some.inj hi
    exact hj
  cases hh with
  | @opened k s₁ _ hk hs hev hdrain =>
    have henter : Vacant (s.enter c .connectionOpen) := h.frame rfl
    have hopened : Vacant (s₁.register c k s.message.address) := by
      rw [Server.register_eq]
      refine (vacant_evicted henter hev).update (c := c) (fun i hi => ?_) rfl
      obtain rfl := Option.some.inj hi
      exact (hr.start_of hk hs).1.quiet.msg
    exact hopened.frame (drain_same hdrain).ctx
  | @departed k hk hs =>
    have hstart : Vacant ((s.enter c .expired).setStatus success) := h.frame rfl
    exact hstart.bury (hr.start_of hk hs).1.quiet.msg
  | unopened _ _ _ => exact h.frame rfl
  | @wrote k a ho => exact hset (j := { k with writer := some s.message.stream }) ho.quiet.msg rfl
  | @read k a ho => exact hset (j := k.reading s.message.stream) ho.quiet.msg rfl
  | @cancelled k a ho => exact hset (j := { k with readers := k.readers.tail }) ho.quiet.msg rfl
  | published ho _ => exact h.frame rfl
  | unwritten ho _ => exact hleave rfl rfl rfl ho
  | mailed ho hm => exact (h.frame rfl : Vacant (s.enter c .mailboxSend)).frame (mailed_same hm).ctx
  | requested ho hm =>
    exact (h.frame rfl : Vacant (s.enter c .serviceSend)).frame (requested_same hm).ctx
  | @offered k a s₁ _ ho hs₁ hscan =>
    refine Vacant.frame (s := s) h ?_
    rw [(scan_same hscan).ctx, hs₁]
    rfl
  | confirmed ho => exact hleave rfl rfl rfl ho
  | credited ho => exact h.frame rfl
  | pinged ho => exact h.frame rfl
  | closed ho => exact hleave rfl rfl rfl ho
  | expired ho => exact hleave rfl rfl rfl ho
  | invalid ho _ => exact hleave rfl rfl rfl ho

theorem vacant_clientRequire {key : Key} {s₁ : Server} (h : Vacant s) (hc : s.clientRequire key = (c, s₁)) :
    Vacant s₁ := by
  rcases clientRequire_cases hc with ⟨-, rfl⟩ | ⟨-, rfl, rfl⟩
  · exact h
  · refine h.update (fun j hj => ?_) rfl
    obtain rfl := Option.some.inj hj
    rfl

theorem vacant_received {parts : List Frame} (hr : Reg s) (h : Vacant s) (hh : Received rex s parts s') :
    Vacant s' := by
  cases hh with
  | interrupted _ => exact h.frame rfl
  | @ignored p rest _ =>
    have hrecv : Vacant (s.received p rest) := h.frame rfl
    exact vacant_clientRequire hrecv rfl
  | @handled p rest c s₁ _ _ hreq hh =>
    have hrecv : Vacant (s.received p rest) := h.frame rfl
    have hr₁ := (reg_clientRequire (reg_received hr p rest) hreq).1
    have hheard : Vacant (s₁.hear c parts.tail p) := (vacant_clientRequire hrecv hreq).frame rfl
    exact vacant_handled (reg_hear hr₁ ..) hheard hh

theorem vacant_put (h : Vacant s) (hk : s.ctx c = some k) : Vacant (s.put c k) := by
  unfold Server.put
  split
  · exact h.update (x := none) (fun j hj => by cases hj) rfl
  · refine h.update (fun j hj => ?_) rfl
    obtain rfl := Option.some.inj hj
    exact h c k hk

theorem vacant_moved {l : Label} (hr : Reg s) (h : Vacant s) (hm : Moved rex s l s') : Vacant s' := by
  cases hm with
  | router _ _ hh => exact vacant_received hr h hh
  | more _ hh => exact vacant_received hr h hh
  | expired _ _ _ hh => exact vacant_handled hr h hh
  | @acked name st c up k _ hst hup hk =>
    have hpop : Vacant (s.popStream name st up) := h.frame rfl
    exact vacant_put hpop hk
  | discarded _ _ _ _ _ => exact h.frame rfl
  | delivered _ _ _ _ => exact h.frame rfl
  | command _ _ => exact h.frame rfl
  | message _ _ => exact h.frame rfl
  | mailbox _ hread => exact h.frame (mailboxRead_only hread).same.ctx
  | configured _ hreads => exact h.frame (mailboxReads_only hreads).same.ctx

/-! ## Steps -/

theorem linkTimes_zero (s : Server) (m : Msg) : s.linkTimes m 0 = s := by
  have hrefs : Function.update s.refs m.mid (s.refs m.mid + (0 : Nat)) = s.refs := by simp
  unfold linkTimes
  rw [hrefs]

theorem linkTimes_link (s : Server) (m : Msg) (n : Nat) :
    (s.link m).linkTimes m n = s.linkTimes m (n + 1) := by
  have hrefs : Function.update (s.link m).refs m.mid ((s.link m).refs m.mid + n) =
      Function.update s.refs m.mid (s.refs m.mid + (n + 1 : Nat)) := by
    have hlink : (s.link m).refs = Function.update s.refs m.mid (s.refs m.mid + 1) := rfl
    rw [hlink, Function.update_self, Function.update_idem]
    congr 1
    push_cast
    omega
  unfold linkTimes
  rw [hrefs]
  rfl

theorem slotsEmpty_of_vacant (h : Vacant s) : Watched.slotsEmpty s = true := by
  unfold Watched.slotsEmpty
  rw [List.all_eq_true]
  intro c _
  cases hk : s.ctx c with
  | none => rfl
  | some k => simp [h c k hk]

section
variable {chk : List Msg → Server → Prop} [∀ L s, Decidable (chk L s)]

omit [∀ L s, Decidable (chk L s)] in
theorem conserved_clientRequire (hc : Conserved chk) {key : Key} {s₁ : Server} (hr : Reg s)
    (h : chk [] s) (hreq : s.clientRequire key = (c, s₁)) : chk [] s₁ := by
  rcases clientRequire_cases hreq with ⟨-, rfl⟩ | ⟨-, rfl, rfl⟩
  · exact h
  · refine hc.same h rfl rfl fun i => ?_
    have hslots : slotsHeld (Function.update s.ctx s.clientId (some (.fresh key))) (s.clientId + 1) i =
        slotsHeld s.ctx s.clientId i := slotsHeld_succ rfl
    exact congrArg (mailboxHeld s.mailbox i + copies i (s.mailboxPipe.map Prod.snd) +
      servicesHeld s.services i + streamsHeld s.streams i + ·) hslots

namespace Watched

theorem agrees_handleProtocol (hc : Conserved chk) {n : Nat} {parts : List Frame} (hr : Reg s)
    (hw : Wired s) (h : chk [] s) :
    Agrees .fault (handleProtocol chk rex n parts s) (s.handleProtocol rex n parts) (chk []) := by
  unfold handleProtocol Server.handleProtocol
  rcases hrecv : recv s.message parts with ⟨p, rc, rest⟩
  have hreceived : chk [] (s.received p rest) := hc.same h rfl rfl fun _ => rfl
  have hr₁ : Reg (s.received p rest) := reg_received hr p rest
  have hw₁ : Wired (s.received p rest) := hw.frame rfl rfl rfl
  cases rc with
  | interrupted => exact .ok (hc.same hreceived rfl rfl fun _ => rfl)
  | malformed => exact .ok (conserved_clientRequire hc hr₁ hreceived rfl)
  | ok =>
    dsimp only
    rcases hreq : (s.received p rest).clientRequire (p.routingId.getD []) with ⟨c, s₁⟩
    have hreq' : ({ s with message := p, rest := rest, hand := none } : Server).clientRequire
        (p.routingId.getD []) = (c, s₁) := hreq
    rw [hreq']
    obtain ⟨hr₂, k, hk, hz⟩ := reg_clientRequire hr₁ hreq
    have hw₂ : Wired (s₁.hear c parts.tail p) := (hw₁.clientRequire hreq).frame rfl rfl rfl
    have hheard : chk [] (s₁.hear c parts.tail p) :=
      hc.same (conserved_clientRequire hc hr₁ hreceived hreq) rfl rfl fun _ => rfl
    exact agrees_execute hc (reg_hear hr₂ c parts.tail p) hw₂ hk hz (protocolEvent_external p) hheard

/-- An item that the server reads from a stream. `s` is the state after it has
been read. -/
theorem agrees_traffic (hc : Conserved chk) {n : Nat} {t : Traffic} (hr : Reg s) (hvacant : Vacant s)
    (hnamed : ∀ c m, t = .deliver c m → c < s.clientId ∧ ∀ k, s.ctx c = some k → k.state ≠ .start)
    (h : chk (trafficMessages t) s) :
    Agrees .fault (forwardStreamTraffic chk rex n t s) (s.forwardStreamTraffic rex n t)
      (chk []) := by
  cases t with
  | ack c =>
    refine .lift fun s' hs' => ?_
    obtain ⟨s₁, hmod, hput⟩ := bind_eq_ok.1 hs'
    obtain ⟨k, hk, hmod⟩ := bind_eq_ok.1 hmod
    cases hmod
    have hput' : s.clientPut c = .ok s' := hs'
    rw [clientPut_eq hr (ctx_of_client hk)] at hput'
    cases hput'
    unfold Server.put
    split
    · have hslot : slotOf (s.ctx c) = [] := by
        rw [ctx_of_client hk, slotOf, Option.bind_some, hvacant c k (ctx_of_client hk)]
        rfl
      exact hc.same h rfl rfl fun _ => held_freeClient hslot
    · exact conserved_setClient hc h (ctx_of_client hk) rfl
  | deliver c m =>
    obtain ⟨hlt, hstarted⟩ := hnamed c m rfl
    rw [forwardStreamTraffic, Server.forwardStreamTraffic]
    refine .check (see_ok h) ?_
    cases hk : s.ctx c with
    | none =>
      have hfreed : s.client c = .error .freed := by
        unfold Server.client
        rw [hk]
      rw [hfreed]
      exact .error Fault.freed
    | some k =>
      rw [client_of hk, lift_ok_bind, ok_bind]
      by_cases hz : k.state = .zombie
      · rw [if_pos hz, if_pos hz]
        have hdrop := drop_ok hc h
        rw [hdrop]
        exact .ok (hc.unlink h)
      rcases hr.state_cases hk with hs | hs | hs
      · exact absurd hs (hstarted k hk)
      · obtain ⟨a, ho⟩ := hr.open_of hk hs
        have hmsg := ho.quiet.msg
        have hfill := hc.fill h hk hmsg hlt
        have hset : (s.setClient c { k with msg := some m }).modifyClient c
            (fun k => { k with nextEvent := some .streamMessage }) =
              .ok (s.setClient c { k with msg := some m, nextEvent := some .streamMessage }) := by
          rw [modifyClient_of (k := { k with msg := some m }) (by simp), setClient_setClient]
        have hexec : Agrees .fault
            (execute chk rex n [] c .streamMessage (s.setClient c { k with msg := some m }))
            (Server.execute rex n c .streamMessage (s.setClient c { k with msg := some m }))
            (chk []) := by
          rw [execute, Server.execute, hset, lift_ok_bind, ok_bind]
          exact agrees_deliver hc ho hlt rfl hfill
        rw [if_neg hz, if_neg hz, if_neg (by rw [hmsg]; simp), if_neg (by rw [hmsg]; simp)]
        refine .check (see_ok hfill) ?_
        rw [sendEvent, Server.sendEvent, client_of (k := { k with msg := some m }) (by simp),
          lift_ok_bind, ok_bind, if_neg hz, if_neg hz]
        refine .bind hexec fun s₁ hs₁ h₁ => ?_
        have hsent := execute_deliver ho rfl hs₁
        have hctx : s₁.ctx c = some k := by
          rw [hsent]
          exact hk
        rw [client_of hctx, lift_ok_bind, ok_bind, if_neg (by rw [hmsg]; simp),
          if_neg (by rw [hmsg]; simp)]
        exact .ok h₁
      · exact absurd hs hz

/-- The loop over the targets of a message: one reference and one item for each. -/
theorem forward_eq (hc : Conserved chk) {name : Str} {st : Stream} {m : Msg} (targets : List Cid)
    (h : chk [m] (s.setStreams (s.streams.set name st))) :
    ∃ s', s' = (s.setStreams (s.streams.set name
        { st with up := st.up ++ targets.map (.deliver · m) })).linkTimes m targets.length ∧
      forward chk name m targets (s.setStreams (s.streams.set name st)) = .ok s' ∧ chk [m] s' := by
  induction targets generalizing s st with
  | nil =>
    refine ⟨_, ?_, rfl, h⟩
    rw [List.map_nil, List.append_nil, List.length_nil, linkTimes_zero]
  | cons c targets ih =>
    have hshare := share_ok (m := m) hc h (by simp [holders])
    have hlink : chk [m, m] ((s.setStreams (s.streams.set name st)).link m) :=
      hc.link h (by simp [holders])
    -- the state after one round, as one change of the stream
    have hset : ((s.setStreams (s.streams.set name st)).link m).setStreams
        (((s.setStreams (s.streams.set name st)).link m).streams.modify name fun st =>
          { st with up := st.up ++ [.deliver c m] }) =
        (s.link m).setStreams ((s.link m).streams.set name
          { st with up := st.up ++ [.deliver c m] }) := by
      have hget : (s.streams.set name st).get name = some st := by simp
      rw [link_streams, setStreams_streams, Table.modify_of_get hget, Table.set_set]
      rfl
    have hitem : chk [m] ((s.link m).setStreams ((s.link m).streams.set name
        { st with up := st.up ++ [.deliver c m] })) := by
      refine hc.move hlink rfl rfl fun i => ?_
      have hget : ((s.setStreams (s.streams.set name st)).link m).streams.get name = some st := by
        simp
      have hheld := held_setStreams (i := i) { st with up := st.up ++ [.deliver c m] } hget
      rw [link_streams, setStreams_streams, Table.set_set] at hheld
      simp only [streamMessages, List.flatMap_append, List.flatMap_cons, List.flatMap_nil,
        trafficMessages, copies_append, copies_cons, copies_nil] at hheld ⊢
      have hsame : held ((s.link m).setStreams ((s.link m).streams.set name
          { st with up := st.up ++ [.deliver c m] })) i =
        held (((s.setStreams (s.streams.set name st)).link m).setStreams (s.streams.set name
          { st with up := st.up ++ [.deliver c m] })) i := rfl
      omega
    obtain ⟨s', hs', hrun, h'⟩ := ih hitem
    refine ⟨s', ?_, ?_, h'⟩
    · have hup : st.up ++ [.deliver c m] ++ targets.map (.deliver · m) =
          st.up ++ (c :: targets).map (.deliver · m) := by simp
      rw [hs', List.length_cons, ← linkTimes_link, ← hup]
      rfl
    · rw [forward, hshare, ok_bind, hset, see_ok hitem, ok_bind]
      exact hrun

/-- A stream engine reads a message. -/
theorem agrees_message (hc : Conserved chk) {name : Str} {st st' : Stream} {m : Msg}
    {targets : List Cid} (hst : s.streams.get name = some st)
    (hmsg : st.handleMessage rex = some (st', m, targets)) (h : chk [] s) :
    Agrees .fault (do
        let s ← see chk [m] (s.setStreams (s.streams.set name { st' with up := st.up }))
        let s ← forward chk name m targets s
        let s ← drop chk [] m s
        .ok (s.log (.forwarded name m targets)))
      (.ok ((((s.setStreams (s.streams.set name st')).linkTimes m targets.length).unlink m).log
        (.forwarded name m targets)) : Except Fault Server) (chk []) := by
  obtain ⟨sender, pre, post, hpending, -, -, hrest, -, hup⟩ := Stream.handleMessage_cases hmsg
  have hread : chk [m] (s.setStreams (s.streams.set name { st' with up := st.up })) := by
    refine hc.move h rfl rfl fun i => ?_
    have hset := held_setStreams (i := i) { st' with up := st.up } hst
    simp only [streamMessages, hpending, hrest, List.flatMap_append, List.flatMap_cons,
      issueMessages, copies_append, copies_cons, copies_nil] at hset ⊢
    omega
  obtain ⟨s', hs', hrun, h'⟩ := forward_eq hc targets hread
  have hst' : ({ st' with up := st.up ++ targets.map (.deliver · m) } : Stream) = st' := by
    rw [← hup]
  refine .check (see_ok hread) (.check hrun (.check (drop_ok hc h') ?_))
  rw [hs', hst'] at h' ⊢
  exact .ok (hc.same (hc.unlink h') rfl rfl fun _ => rfl)

/-- The step `w` under watch is the step `x`, and the check holds after it. -/
structure Follows (chk : List Msg → Server → Prop) (w : Option (Except Alarm Server))
    (x : Option (Except Fault Server)) : Prop where
  eq : w = x.map (·.mapError .fault)
  post : ∀ s', x = some (.ok s') → chk [] s'

omit [∀ L s, Decidable (chk L s)] in
/-- There is no such step. -/
theorem follows_blocked {n : Nat} {l : Label} (hx : s.step rex n l = none) :
    Follows chk none (s.step rex n l) := by
  rw [hx]
  exact ⟨rfl, fun s' h => by cases h⟩

/-- The end of a step that the server takes. -/
theorem follows_settle (hr : Regular s) (hvacant : Vacant s) {n : Nat} {l : Label}
    {w : Except Alarm Server} {x : Except Fault Server} (hx : s.step rex n l = some x)
    (hw : Agrees .fault w x (chk [])) : Follows chk (some (w >>= settle chk)) (s.step rex n l) := by
  have hdone : Agrees .fault (w >>= settle chk) x (chk []) := by
    refine hw.andThen fun s' hs' h' => ?_
    have hstep : (broker rex).step s l s' := ⟨n, by rw [hx, hs'], by simp⟩
    have hvacant' := vacant_moved hr.reg hvacant (moved_of_step hr.reg hr.wired hstep)
    rw [settle, if_pos (slotsEmpty_of_vacant hvacant'), see_ok h']
  rw [hx]
  refine ⟨congrArg some hdone.eq, fun s' hs' => hdone.post s' ?_⟩
  exact Option.some.inj hs'

/-- A step that the server takes under a condition. -/
theorem follows_if (hr : Regular s) (hvacant : Vacant s) {n : Nat} {l : Label} {p : Prop} [Decidable p]
    {w : Except Alarm Server} {x : Except Fault Server}
    (hx : s.step rex n l = if p then some x else none) (hw : p → Agrees .fault w x (chk [])) :
    Follows chk (if p then some (w >>= settle chk) else none) (s.step rex n l) := by
  by_cases hp : p
  · rw [if_pos hp] at hx ⊢
    exact follows_settle hr hvacant hx (hw hp)
  · rw [if_neg hp] at hx ⊢
    exact follows_blocked hx

/-- A timer of a client runs out. -/
theorem follows_expired (hc : Conserved chk) (hr : Regular s) (hvacant : Vacant s) (h : chk [] s)
    (hrun : ¬s.running = false) (n : Nat) (c : Cid) :
    Follows chk (step chk rex n s (.expired c)) (s.step rex n (.expired c)) := by
  unfold step
  rw [if_neg hrun]
  dsimp only
  cases hk : s.ctx c with
  | none =>
    refine follows_blocked ?_
    unfold Server.step
    rw [if_neg hrun]
    simp only [hk]
  | some k =>
    have hx : s.step rex n (.expired c) = if s.rest = [] ∧ k.state ≠ .zombie then
        some (Server.execute rex n c .expired s) else none := by
      unfold Server.step
      rw [if_neg hrun]
      simp only [hk]
    exact follows_if hr hvacant hx fun hp => agrees_execute hc hr.reg hr.wired hk hp.2 trivial h

/-- The server reads an item of a stream. -/
theorem follows_traffic (hc : Conserved chk) (hr : Regular s) (hvacant : Vacant s) (h : chk [] s)
    (hrun : ¬s.running = false) (n : Nat) (name : Str) :
    Follows chk (step chk rex n s (.traffic name)) (s.step rex n (.traffic name)) := by
  unfold step
  rw [if_neg hrun]
  dsimp only
  rcases hst : s.streams.get name with _ | ⟨sel, pend, up⟩
  · refine follows_blocked ?_
    unfold Server.step
    rw [if_neg hrun]
    simp only [hst]
  cases up with
  | nil =>
    refine follows_blocked ?_
    unfold Server.step
    rw [if_neg hrun]
    simp only [hst]
  | cons t up =>
    have hx : s.step rex n (.traffic name) = if s.rest = [] then
        some ((s.setStreams (s.streams.set name ⟨sel, pend, up⟩)).forwardStreamTraffic rex n t)
          else none := by
      unfold Server.step
      rw [if_neg hrun]
      simp only [hst]
    refine follows_if hr hvacant hx fun _ => agrees_traffic hc ?_ ?_ ?_ ?_
    · exact reg_popStream hr.reg name ⟨sel, pend, t :: up⟩ up
    · exact hvacant.frame rfl
    · rintro c m rfl
      exact hr.wired.named name _ c hst (.deliver m List.mem_cons_self)
    · refine hc.move h rfl rfl fun i => ?_
      have hset := held_setStreams (i := i) ⟨sel, pend, up⟩ hst
      simp only [streamMessages, List.flatMap_cons, copies_append, copies_nil] at hset ⊢
      omega

/-- A stream engine reads a command. -/
theorem follows_command (hc : Conserved chk) (hr : Regular s) (hvacant : Vacant s) (h : chk [] s)
    (hrun : ¬s.running = false) (n : Nat) (name : Str) :
    Follows chk (step chk rex n s (.command name)) (s.step rex n (.command name)) := by
  unfold step
  rw [if_neg hrun]
  dsimp only
  cases hcmd : (s.streams.get name).bind Stream.handleCommand with
  | none =>
    refine follows_blocked ?_
    unfold Server.step
    rw [if_neg hrun]
    simp only [hcmd]
  | some st' =>
    have hx : s.step rex n (.command name) =
        some (.ok (s.setStreams (s.streams.set name st'))) := by
      unfold Server.step
      rw [if_neg hrun]
      simp only [hcmd]
    obtain ⟨st, hst, hst'⟩ := Option.bind_eq_some_iff.1 hcmd
    obtain ⟨cmd, pre, post, hpending, -, hrest, -, hup⟩ := Stream.handleCommand_cases hst'
    have hdone : chk [] (s.setStreams (s.streams.set name st')) := by
      refine hc.same h rfl rfl fun i => held_setStreams_same hst ?_
      -- an ACK is not a reference
      cases cmd <;>
      · simp only [streamMessages, hpending, hrest, hup, List.flatMap_append, List.flatMap_cons,
          List.flatMap_nil, issueMessages, trafficMessages, copies_append, copies_nil]
        omega
    exact follows_settle hr hvacant hx (w := .ok _) (.ok hdone)

/-- A stream engine reads a message. -/
theorem follows_message (hc : Conserved chk) (hr : Regular s) (hvacant : Vacant s) (h : chk [] s)
    (hrun : ¬s.running = false) (n : Nat) (name : Str) :
    Follows chk (step chk rex n s (.message name)) (s.step rex n (.message name)) := by
  unfold step
  rw [if_neg hrun]
  dsimp only
  cases hst : s.streams.get name with
  | none =>
    refine follows_blocked ?_
    unfold Server.step
    rw [if_neg hrun]
    simp only [hst, Option.bind_none]
  | some st =>
    dsimp only
    rcases hmsg : st.handleMessage rex with _ | ⟨st', m, targets⟩
    · refine follows_blocked ?_
      unfold Server.step
      rw [if_neg hrun]
      simp only [hst, Option.bind_some, hmsg]
    · have hx : s.step rex n (.message name) =
          some (.ok ((((s.setStreams (s.streams.set name st')).linkTimes m
            targets.length).unlink m).log (.forwarded name m targets))) := by
        unfold Server.step
        rw [if_neg hrun]
        simp only [hst, Option.bind_some, hmsg]
      have hsettled := follows_settle hr hvacant hx (agrees_message hc hst hmsg h)
      simp only [bind_assoc, ok_bind] at hsettled
      exact hsettled

/-- The mailbox engine reads a command. -/
theorem follows_mailbox (hc : Conserved chk) (hr : Regular s) (hvacant : Vacant s) (h : chk [] s)
    (hrun : ¬s.running = false) (n : Nat) :
    Follows chk (step chk rex n s .mailbox) (s.step rex n .mailbox) := by
  unfold step
  rw [if_neg hrun]
  have hx : s.step rex n .mailbox = if s.mailboxPipe = [] then none else some s.mailboxRead := by
    unfold Server.step
    exact if_neg hrun
  dsimp only
  by_cases hp : s.mailboxPipe = []
  · rw [if_pos hp] at hx ⊢
    exact follows_blocked hx
  · rw [if_neg hp] at hx
    rw [if_neg hp]
    exact follows_settle hr hvacant hx (agrees_mailboxRead hc h)

/-- **No step raises an alarm.** From a state between two steps, the server under
watch takes the step that the server takes. -/
theorem follows_step (hc : Conserved chk) (hr : Regular s) (hvacant : Vacant s) (h : chk [] s) (n : Nat)
    (l : Label) : Follows chk (step chk rex n s l) (s.step rex n l) := by
  by_cases hrun : s.running = false
  · unfold step
    rw [if_pos hrun]
    refine follows_blocked ?_
    unfold Server.step
    exact if_pos hrun
  cases l with
  | router rid frames =>
    unfold step
    rw [if_neg hrun]
    refine follows_if hr hvacant ?_ fun _ => agrees_handleProtocol hc hr.reg hr.wired h
    unfold Server.step
    exact if_neg hrun
  | more =>
    unfold step
    rw [if_neg hrun]
    refine follows_if hr hvacant ?_ fun _ => agrees_handleProtocol hc hr.reg hr.wired h
    unfold Server.step
    exact if_neg hrun
  | expired c => exact follows_expired hc hr hvacant h hrun n c
  | traffic name => exact follows_traffic hc hr hvacant h hrun n name
  | command name => exact follows_command hc hr hvacant h hrun n name
  | message name => exact follows_message hc hr hvacant h hrun n name
  | mailbox => exact follows_mailbox hc hr hvacant h hrun n
  | configure service mailbox =>
    unfold step
    rw [if_neg hrun]
    refine follows_if hr hvacant (x := s.configure service mailbox) ?_ fun _ => ?_
    · unfold Server.step
      exact if_neg hrun
    have hstart : chk [] { s with serviceCfg := service } := hc.same h rfl rfl fun _ => rfl
    refine .bind (agrees_mailboxReads hc _ hstart) fun s₁ _ h₁ => .ok ?_
    exact hc.same h₁ rfl rfl fun _ => rfl

end Watched
end

/-! ## Counts -/

theorem conserved_exact : Conserved Exact := ⟨id, exact_transfer⟩

/-- At a point in a step from `s`: the counts are right, and messages that were
destroyed before the step are not held again. -/
structure Sound (s : Server) (L : List Msg) (w : Server) : Prop where
  exact : Exact L w
  destroyed : ∀ i < s.messageId, s.refs i = 0 → i < w.messageId ∧ w.refs i = 0

theorem conserved_sound (s : Server) : Conserved (Sound s) where
  exact h := h.exact
  transfer ht h := by
    have hexact := exact_transfer ht h.exact
    refine ⟨hexact, fun i hi hd => ?_⟩
    obtain ⟨hi', hd'⟩ := h.destroyed i hi hd
    have hcount := h.exact.counted i
    obtain ⟨hmade, hdead⟩ := dead_transfer ht hi' (by omega)
    refine ⟨hmade, ?_⟩
    rw [hexact.counted i, hdead]
    rfl

/-- What holds between two steps. -/
structure Settled (s : Server) : Prop where
  regular : Regular s
  vacant : Vacant s
  exact : Exact [] s

open Classical in
theorem settled_inductive (rex : Str → Str → Bool) : (broker rex).Inductive Settled where
  init s h := by
    rw [show s = Server.new from h]
    exact ⟨⟨reg_new, wired_new⟩, vacant_new, exact_new⟩
  step s l s' h hstep := by
    have hmoved := moved_of_step h.regular.reg h.regular.wired hstep
    refine ⟨regular_moved h.regular hmoved, vacant_moved h.regular.reg h.vacant hmoved, ?_⟩
    -- the server under watch ends in the same state, and its last check holds
    obtain ⟨n, hs', -⟩ := hstep
    exact (Watched.follows_step conserved_exact h.regular h.vacant h.exact n l).post s' hs'

open Classical in
/-- **Message reference counts are exact.** Between two steps the count of every
message is the number of places that hold it. Inside a step, local references
counted, it is so between any two operations on references; what has no
reference left is neither linked nor unlinked again. -/
theorem counts_exact (h : (broker rex).Reachable s) :
    Exact [] s ∧ ∀ n l,
      Watched.step (Sound s) rex n s l = (s.step rex n l).map (·.mapError .fault) := by
  have hs := (settled_inductive rex).reachable s h
  have hsound : Sound s [] s := ⟨hs.exact, fun i hi hd => ⟨hi, hd⟩⟩
  exact ⟨hs.exact,
    fun n l => (Watched.follows_step (conserved_sound s) hs.regular hs.vacant hsound n l).eq⟩

/-! ## A run with nested deliveries -/

/-- Client "a" sends to its own mailbox, requests a service that it offers
itself, and sends to "b", who is not there. -/
def selfRun : List Label :=
  [.request [1] (.connectionOpen (.ofBytes [97])),
    .request [1] (.mailboxSend (.ofBytes [97]) .empty .empty 0 [[1]]),
    .request [1] (.serviceOffer (.ofBytes [115]) .empty),
    .request [1] (.serviceSend (.ofBytes [115]) .empty .empty 0 [[2]]),
    .request [1] (.mailboxSend (.ofBytes [98]) .empty .empty 0 [[3]])]

open Classical in
theorem counts_exact_selfRun : ∃ s, (broker fun _ _ => true).Reachable s ∧
    (s.refs 0 = 0 ∧ s.refs 1 = 0 ∧ s.refs 2 = 1) ∧ Exact [] s ∧ ∀ n l,
      Watched.step (Sound s) (fun _ _ => true) n s l =
        (s.step (fun _ _ => true) n l).map (·.mapError .fault) := by
  have hrun : ((Server.new.steps (fun _ _ => true) (fun _ _ => True) 20 selfRun).any fun s =>
      s.refs 0 = 0 ∧ s.refs 1 = 0 ∧ s.refs 2 = 1) = true := by decide +kernel
  obtain ⟨s, hs, hp⟩ := (Option.any_eq_true _ _).1 hrun
  have hreach := (reachable_of_steps hs).of_within
  exact ⟨s, hreach, of_decide_eq_true hp, counts_exact hreach⟩

open Classical in
/-- **Nested deliveries are safe.** Between two steps all slots are empty. Inside
a step a message only goes into an empty slot and is what the machine of that
client sends next, and no execution that an action starts ends with a context
of an outer one gone. -/
theorem nested_safe (h : (broker rex).Reachable s) :
    (∀ c k, s.ctx c = some k → k.msg = none) ∧ ∀ n l,
      Watched.step Exact rex n s l = (s.step rex n l).map (·.mapError .fault) := by
  have hs := (settled_inductive rex).reachable s h
  exact ⟨hs.vacant,
    fun n l => (Watched.follows_step conserved_exact hs.regular hs.vacant hs.exact n l).eq⟩

open Classical in
theorem nested_safe_selfRun : ∃ s, (broker fun _ _ => true).Reachable s ∧
    .dispatched (.ofBytes [115]) [⟨0, .empty, 0⟩] ⟨0, .empty, 0⟩
      ⟨1, .ofBytes [97], .ofBytes [115], .empty, some .empty, 0, some [[2]]⟩ ∈ s.trace ∧
    (∀ c k, s.ctx c = some k → k.msg = none) ∧ ∀ n l,
      Watched.step Exact (fun _ _ => true) n s l =
        (s.step (fun _ _ => true) n l).map (·.mapError .fault) := by
  have hrun : ((Server.new.steps (fun _ _ => true) (fun _ _ => True) 20 selfRun).any fun s =>
      .dispatched (.ofBytes [115]) [⟨0, .empty, 0⟩] ⟨0, .empty, 0⟩
        ⟨1, .ofBytes [97], .ofBytes [115], .empty, some .empty, 0, some [[2]]⟩ ∈ s.trace) = true := by
    decide +kernel
  obtain ⟨s, hs, hp⟩ := (Option.any_eq_true _ _).1 hrun
  have hreach := (reachable_of_steps hs).of_within
  exact ⟨s, hreach, of_decide_eq_true hp, nested_safe hreach⟩

end Malamute.L3
