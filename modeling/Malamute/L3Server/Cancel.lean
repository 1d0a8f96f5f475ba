import Malamute.L3Server.Written
import Malamute.L3Server.Lifetime
import Malamute.L3Server.Directory

/-!
# What STREAM CANCEL does to one client

Two places say what a client reads: its list of readers, with one entry for each
STREAM READ, and the selectors of the engines. STREAM CANCEL takes the client
out of the engine that it names, and the first entry off the list.

`Standing` follows both from the command to its acknowledgement, whatever other
clients do in between.

* `cancel_exact_iff`: STREAM CANCEL does what it should do exactly if the stream
  exists, its only entry in the list is the first, and the count was right.
* `cancels_other_entry`: it takes the entry of another stream off the list.
-/
namespace Malamute.L3
open Malamute.Core Malamute.L1 Malamute.L2 Server

/-- The stream `name` of a table. -/
def streamOf (t : Table Str Stream) (name : Str) : Stream := (t.get name).getD .new

/-- The streams change in a way that does not concern `c`. -/
structure Elsewhere (c : Cid) (t t' : Table Str Stream) : Prop where
  releases : releases t' c = releases t c
  final : ∀ name p, Holds (streamOf t' name).final c p ↔ Holds (streamOf t name).final c p

/-- `c` is connected and reads `readers`; its count is `n` more than there are
releases on their way; the engines list it as `F` says, when they have read
everything. -/
structure Standing (c : Cid) (readers : List Str) (n : Int) (F : Str → Str → Prop)
    (s : Server) : Prop where
  context : ∃ k, s.ctx c = some k ∧ k.state = .connected ∧ k.readers = readers ∧
    k.refcount = n + releases s.streams c
  final : ∀ name p, Holds (streamOf s.streams name).final c p ↔ F name p

/-- The observation is not about the subscriptions of `c`. -/
def Obs.Spares (c : Cid) : Obs → Prop
  | .subscribed d _ _ | .cancelled d _ | .left d _ => d ≠ c
  | _ => True

section
variable {c d : Cid} {t t' : Table Str Stream} {name : Str} {st st' : Stream}

/-! ## Streams -/

namespace Elsewhere

theorem refl (c : Cid) (t : Table Str Stream) : Elsewhere c t t :=
  ⟨rfl, fun _ _ => .rfl⟩

theorem trans {t₁ : Table Str Stream} (h : Elsewhere c t t₁) (h' : Elsewhere c t₁ t') :
    Elsewhere c t t' :=
  ⟨h'.releases.trans h.releases, fun name p => (h'.final name p).trans (h.final name p)⟩

theorem set (hst : t.get name = some st) (hr : st'.releases c = st.releases c)
    (hf : ∀ p, Holds st'.final c p ↔ Holds st.final c p) :
    Elsewhere c t (t.set name st') := by
  have hget : streamOf t name = st := by
    rw [streamOf, hst]
    rfl
  have hnew : ∀ name', streamOf (t.set name st') name' =
      if name' = name then st' else streamOf t name' := by
    intro name'
    unfold streamOf
    rw [Table.get_set]
    split <;> rfl
  refine ⟨?_, fun name' p => ?_⟩
  · have := releases_set hst st' c
    omega
  · rw [hnew]
    by_cases hn : name' = name
    · rw [if_pos hn, hn, hget]
      exact hf p
    · rw [if_neg hn]

theorem ensure (c : Cid) (t : Table Str Stream) (name : Str) :
    Elsewhere c t (t.ensure name .new) := by
  have hsame : ∀ name', streamOf (t.ensure name .new) name' = streamOf t name' := by
    intro name'
    unfold streamOf
    rw [Table.get_ensure]
    split
    · rename_i h
      rw [h]
      rfl
    · rfl
  refine ⟨?_, fun name' p => by rw [hsame]⟩
  unfold Table.ensure
  split
  · rename_i hst
    exact t.sum_set_new (Stream.releases c) .new hst
  · rfl

/-- Something is written that is not about `c`. -/
theorem push (hst : t.get name = some st) (hd : Distinct st.selectors) {i : Issue}
    (hi : ∀ k, i = .command k → k.client ≠ c) : Elsewhere c t (t.modify name (·.push i)) := by
  rw [Table.modify_of_get hst]
  refine set hst ?_ fun p => ?_
  · rw [Stream.releases_push, if_neg, Nat.add_zero]
    rintro rfl
    exact hi _ rfl rfl
  · cases i with
    | message e m => rw [Stream.final_push_message]
    | command k =>
      rw [Stream.final_push_command]
      exact holds_runCommand_ne (distinct_runIssues hd _) (fun h => hi k rfl h.symm) p

theorem cancelReaders (hne : d ≠ c) {readers : List Str}
    (hst : ∀ name ∈ readers, ∃ st, t.get name = some st)
    (hd : ∀ name st, t.get name = some st → Distinct st.selectors) :
    Elsewhere c t
      (readers.foldl (fun t name => t.modify name (·.push (.command (.cancel d)))) t) := by
  induction readers generalizing t with
  | nil => exact refl c t
  | cons r readers ih =>
    obtain ⟨st, hr⟩ := hst r List.mem_cons_self
    have hpush : Elsewhere c t (t.modify r (·.push (.command (.cancel d)))) := by
      refine push hr (hd r st hr) fun k hk => ?_
      cases hk
      exact hne
    refine hpush.trans (ih ?_ ?_)
    · intro name hmem
      obtain ⟨st', hst'⟩ := hst name (List.mem_cons_of_mem _ hmem)
      rw [Table.get_modify, hr]
      split
      · exact ⟨_, rfl⟩
      · exact ⟨st', hst'⟩
    · intro name st' hget
      rw [Table.get_modify, hr] at hget
      split at hget
      · cases hget
        exact hd r st hr
      · exact hd name st' hget

end Elsewhere

end

section
variable {rex : Str → Str → Bool} {s s' : Server} {c d : Cid} {k : Client} {a : Str}
  {readers : List Str} {n : Int} {F : Str → Str → Prop} {name : Str}

/-! ## What keeps a client standing -/

/-- The context of `c` is as it was, and the streams have changed elsewhere. -/
theorem Standing.move (h : Standing c readers n F s)
    (hctx : ∀ k, s.ctx c = some k → k.state = .connected → ∃ k', s'.ctx c = some k' ∧
      k'.state = k.state ∧ k'.readers = k.readers ∧ k'.refcount = k.refcount)
    (hst : Elsewhere c s.streams s'.streams) : Standing c readers n F s' := by
  obtain ⟨k, hk, hs, hrd, hn⟩ := h.context
  obtain ⟨k', hk', hs', hrd', hn'⟩ := hctx k hk hs
  refine ⟨⟨k', hk', hs'.trans hs, hrd'.trans hrd, ?_⟩, ?_⟩
  · rw [hn', hn, hst.releases]
  · exact fun name p => (hst.final name p).trans (h.final name p)

theorem Standing.same (h : Standing c readers n F s) (hctx : s'.ctx c = s.ctx c)
    (hst : Elsewhere c s.streams s'.streams) : Standing c readers n F s' :=
  h.move (fun k hk _ => ⟨k, hctx.trans hk, rfl, rfl, rfl⟩) hst

theorem Standing.frame (h : Standing c readers n F s) (hctx : s'.ctx = s.ctx)
    (hst : s'.streams = s.streams) : Standing c readers n F s' :=
  h.same (by rw [hctx]) (by rw [hst]; exact .refl c _)

/-- Another client leaves. -/
theorem Standing.leave (h : Standing c readers n F s) (hw : Wired s) (ho : Open s d k a)
    (hne : d ≠ c) : Standing c readers n F (s.leave d k a) :=
  h.same (leave_ctx_ne hne.symm a)
    (.cancelReaders hne (hw.readers d k ho.ctx) hw.distinct)

theorem Standing.evicted {s₁ : Server} (h : Standing c readers n F s) (hw : Wired s)
    (hev : Evicted a s s₁) (hsp : Grows (Obs.Spares c) s s₁) : Standing c readers n F s₁ := by
  cases hev with
  | nobody _ => exact h
  | @holder old t _ _ ho =>
    have hne : old ≠ c := hsp.mem (t := [.event old .expired, .left old t.readers])
      (by simp [Server.leave]) (.left old t.readers) (by simp)
    have henter : Standing c readers n F (s.enter old .expired) := h.frame rfl rfl
    have hw₁ : Wired (s.enter old .expired) := hw.frame rfl rfl rfl
    exact henter.leave hw₁ (ho.frame rfl rfl rfl) hne

/-- The stream `r` exists, and something is written to it that is not about `c`. -/
theorem Standing.written (h : Standing c readers n F s) (hw : Wired s) {r : Str} {i : Issue}
    (hst : s'.streams = (s.streams.ensure r .new).modify r (·.push i))
    (hi : ∀ k, i = .command k → k.client ≠ c) (hctx : s'.ctx c = s.ctx c) :
    Standing c readers n F s' := by
  refine h.same hctx ?_
  rw [hst]
  refine (Elsewhere.ensure c s.streams r).trans ?_
  have hget : (s.streams.ensure r .new).get r = some ((s.streams.get r).getD .new) := by
    rw [Table.get_ensure, if_pos rfl]
  refine .push hget ?_ hi
  cases hr : s.streams.get r with
  | none => exact distinct_nil
  | some st => exact hw.distinct r st hr

theorem standing_handled {e : Event} (hr : Reg s) (hw : Wired s)
    (h : Standing c readers n F s) (hh : Handled rex s d e s')
    (hsp : Grows (Obs.Spares c) s s') : Standing c readers n F s' := by
  have henter : ∀ e, Standing c readers n F (s.enter d e) := fun e => h.frame rfl rfl
  obtain ⟨kc, hkc, hsc, -⟩ := h.context
  -- a client that leaves is not `c`
  have hleave : ∀ (s₁ : Server) {k : Client} {a : Str}, Open s d k a → s' = s₁.leave d k a →
      s.trace <+: s₁.trace → s₁.ctx = s.ctx → s₁.streams = s.streams → s₁.clients = s.clients →
      s₁.addresses = s.addresses → s₁.clientId = s.clientId →
      Standing c readers n F s' := by
    rintro s₁ k a ho rfl ht h1 h2 h3 h4 h5
    obtain ⟨u, hu⟩ := ht
    have hadded : s.trace ++ (u ++ [.left d k.readers]) <+: (s₁.leave d k a).trace := by
      refine ⟨[], ?_⟩
      rw [List.append_nil, ← List.append_assoc, hu]
      rfl
    have hne : d ≠ c := hsp.mem hadded (.left d k.readers) (by simp)
    have hs₁ : Standing c readers n F s₁ := h.frame h1 h2
    exact hs₁.leave (hw.frame h2 h1 h5) (ho.frame h1 h3 h4) hne
  have hadd : ∀ t u : List Obs, t <+: t ++ u := List.prefix_append
  cases hh with
  | @opened k s₁ _ hk hs hev hd =>
    have hr₀ : Reg (s.enter d .connectionOpen) := hr.frame rfl rfl rfl rfl hr.offers
    have hw₀ : Wired (s.enter d .connectionOpen) := hw.frame rfl rfl rfl
    have hreg : s₁.trace <+: (s₁.register d k s.message.address).trace := by
      rw [register_eq]
      exact List.prefix_append ..
    have hsp₁ : Grows (Obs.Spares c) (s.enter d .connectionOpen) s₁ :=
      hsp.part (hadd ..) (evicted_trace hev) (hreg.trans (relayed_talk.drain hd).trace)
    have h₁ := (henter .connectionOpen).evicted hw₀ hev hsp₁
    obtain ⟨-, hk₁, -⟩ := evicted_spec hr₀ hev hk hs
    have hne : c ≠ d := by
      rintro rfl
      obtain ⟨kc, hkc, hsc, -⟩ := h₁.context
      cases hk₁.symm.trans hkc
      cases hs.symm.trans hsc
    have h₂ : Standing c readers n F (s₁.register d k s.message.address) := by
      rw [register_eq]
      exact h₁.same (Function.update_of_ne hne _ _) (.refl c _)
    exact h₂.frame (drain_same hd).ctx (drain_same hd).streams
  | @departed k hk hs =>
    have hne : c ≠ d := by
      rintro rfl
      cases hk.symm.trans hkc
      cases hs.symm.trans hsc
    exact h.same (Function.update_of_ne hne _ _) (.refl c _)
  | unopened _ _ _ => exact h.frame rfl rfl
  | @wrote k a ho =>
    refine h.move (fun kc hkc _ => ?_) (Elsewhere.ensure c s.streams s.message.stream)
    by_cases hcd : c = d
    · subst hcd
      cases hkc.symm.trans ho.ctx
      exact ⟨_, Function.update_self .., rfl, rfl, rfl⟩
    · exact ⟨kc, (Function.update_of_ne hcd _ _).trans hkc, rfl, rfl, rfl⟩
  | @read k a ho =>
    have hne : d ≠ c := hsp.mem (t := [.event d .streamRead, .subscribed d s.message.stream
      s.message.pattern]) (by simp) _ (List.mem_cons_of_mem _ List.mem_cons_self)
    refine h.written hw (i := .command (.compile d s.message.pattern)) rfl ?_
      (Function.update_of_ne hne.symm _ _)
    intro k' hk'
    cases hk'
    exact hne
  | @cancelled k a ho =>
    have hne : d ≠ c := hsp.mem (t := [.event d .streamCancel, .cancelled d s.message.stream])
      (by simp) _ (List.mem_cons_of_mem _ List.mem_cons_self)
    refine h.written hw (i := .command (.cancel d)) rfl ?_ (Function.update_of_ne hne.symm _ _)
    intro k' hk'
    cases hk'
    exact hne
  | @published k a r ho hwr =>
    obtain ⟨st, hst⟩ := hw.writers d k r ho.ctx hwr
    refine h.same rfl (Elsewhere.push hst (hw.distinct r st hst) fun k' hk' => ?_)
    cases hk'
  | unwritten ho _ =>
    exact hleave _ ho rfl ((hadd ..).trans ((hadd ..).trans (hadd ..))) rfl rfl rfl rfl rfl
  | mailed _ hm => exact (henter _).frame (mailed_same hm).ctx (mailed_same hm).streams
  | requested _ hm => exact (henter _).frame (requested_same hm).ctx (requested_same hm).streams
  | @offered k a s₁ _ _ hs₁ hscan =>
    subst hs₁
    exact h.frame (scan_same hscan).ctx (scan_same hscan).streams
  | confirmed ho =>
    exact hleave _ ho rfl ((hadd ..).trans ((hadd ..).trans (hadd ..))) rfl rfl rfl rfl rfl
  | credited _ => exact henter _
  | pinged _ => exact h.frame rfl rfl
  | closed ho => exact hleave _ ho rfl ((hadd ..).trans (hadd ..)) rfl rfl rfl rfl rfl
  | expired ho => exact hleave (s.enter d .expired) ho rfl (hadd ..) rfl rfl rfl rfl rfl
  | invalid ho _ => exact hleave _ ho rfl ((hadd ..).trans (hadd ..)) rfl rfl rfl rfl rfl

/-! ## Steps -/

theorem Standing.received (hr : Reg s) (hw : Wired s) (h : Standing c readers n F s)
    {parts : List Frame} (hrecv : Received rex s parts s') (hsp : Grows (Obs.Spares c) s s') :
    Standing c readers n F s' := by
  have hin : ∀ p rest, Standing c readers n F (s.received p rest) := fun p rest =>
    h.frame rfl rfl
  have hrequire : ∀ {p : Proto} {rest : List Frame} {d : Cid} {s₁ : Server},
      (s.received p rest).clientRequire (p.routingId.getD []) = (d, s₁) →
        Standing c readers n F s₁ := by
    intro p rest d s₁ hreq
    rcases clientRequire_cases hreq with ⟨-, rfl⟩ | ⟨-, -, rfl⟩
    · exact hin p rest
    · obtain ⟨k, hk, -⟩ := h.context
      refine (hin p rest).same ?_ (.refl c _)
      rw [clientNew_eq]
      exact Function.update_of_ne (Nat.ne_of_lt (hr.fresh c k hk)) _ _
  cases hrecv with
  | @interrupted p rest _ => exact (hin p rest).frame rfl rfl
  | ignored _ => exact hrequire rfl
  | @handled p rest d s₁ _ _ hreq hh =>
    have hr₁ := (reg_clientRequire (reg_received hr p rest) hreq).1
    have hw₀ : Wired (s.received p rest) := hw.frame rfl rfl rfl
    have hw₁ : Wired (s₁.hear d parts.tail p) := (hw₀.clientRequire hreq).frame rfl rfl rfl
    have hheard : Standing c readers n F (s₁.hear d parts.tail p) :=
      (hrequire hreq).frame rfl rfl
    have hadded := handled_trace hh
    have hgrows : s.trace <+: (s₁.hear d parts.tail p).trace := by
      rw [hear_trace, clientRequire_trace hreq]
      exact List.prefix_append ..
    refine standing_handled (reg_hear hr₁ ..) hw₁ hheard hh ?_
    exact hsp.part hgrows ((List.prefix_append ..).trans hadded) List.prefix_rfl

/-- The server reads an ACK: that of `c` gives up one reference. -/
theorem Standing.acked {up : List Traffic} {st : Stream} {r : Str}
    (h : Standing c readers n F s) (hst : s.streams.get r = some st) (hup : st.up = .ack d :: up)
    (hk : s.ctx d = some k) : Standing c readers n F ((s.popStream r st up).put d k) := by
  have hput : ((s.popStream r st up).put d k).streams = s.streams.set r { st with up := up } := by
    unfold Server.put
    split <;> rfl
  have hrel := releases_set hst { st with up := up } c
  rw [Stream.releases_pop hup c] at hrel
  have hfinal : ∀ name, streamOf (s.streams.set r { st with up := up }) name =
      { streamOf s.streams name with
        up := (streamOf (s.streams.set r { st with up := up }) name).up } := by
    intro name
    unfold streamOf
    rw [Table.get_set]
    by_cases hn : name = r
    · rw [if_pos hn, hn, hst]
      rfl
    · rw [if_neg hn]
  obtain ⟨kc, hkc, hsc, hrd, hn⟩ := h.context
  refine ⟨?_, fun name p => ?_⟩
  · rw [hput]
    by_cases hcd : c = d
    · subst hcd
      cases hk.symm.trans hkc
      rw [if_pos rfl] at hrel
      have hctx : ((s.popStream r st up).put c k).ctx c =
          some { k with refcount := k.refcount - 1 } := by
        unfold Server.put
        rw [if_neg (by simp [hsc])]
        exact Function.update_self ..
      refine ⟨_, hctx, hsc, hrd, ?_⟩
      show k.refcount - 1 = n + releases (s.streams.set r { st with up := up }) c
      omega
    · rw [if_neg (by rintro ⟨⟩; exact hcd rfl), Nat.add_zero] at hrel
      have hctx : ((s.popStream r st up).put d k).ctx c = s.ctx c := by
        unfold Server.put
        split
        · exact Function.update_of_ne hcd _ _
        · exact Function.update_of_ne hcd _ _
      refine ⟨kc, hctx.trans hkc, hsc, hrd, ?_⟩
      omega
  · rw [hput, hfinal]
    exact h.final name p

theorem Standing.moved {l : Label} (hr : Reg s) (hw : Wired s) (h : Standing c readers n F s)
    (hm : Moved rex s l s') (hsp : Grows (Obs.Spares c) s s') : Standing c readers n F s' := by
  have hpop : ∀ {r : Str} {st : Stream} {m : Msg} {up : List Traffic} {d : Cid},
      s.streams.get r = some st → st.up = .deliver d m :: up →
        Standing c readers n F (s.popStream r st up) := by
    intro r st m up d hst hup
    refine h.same rfl (.set hst ?_ fun _ => .rfl)
    rw [Stream.releases_pop hup c, if_neg (by simp), Nat.add_zero]
  cases hm with
  | router _ _ hrecv => exact h.received hr hw hrecv hsp
  | more _ hrecv => exact h.received hr hw hrecv hsp
  | expired _ _ _ hh => exact standing_handled hr hw h hh hsp
  | acked _ hst hup hk => exact h.acked hst hup hk
  | discarded _ hst hup _ _ => exact (hpop hst hup).frame rfl rfl
  | delivered _ hst hup _ => exact (hpop hst hup).frame rfl rfl
  | command hst hcmd =>
    refine h.same rfl (.set hst (Stream.releases_handleCommand hcmd c) fun p => ?_)
    rw [Stream.final_handleCommand hcmd]
  | message hst hmsg =>
    refine h.same rfl (.set hst (Stream.releases_handleMessage hmsg c) fun p => ?_)
    rw [Stream.final_handleMessage hmsg]
  | mailbox _ hread =>
    exact h.frame (mailboxRead_only hread).same.ctx (mailboxRead_only hread).same.streams
  | configured _ hreads =>
    exact h.frame (mailboxReads_only hreads).same.ctx (mailboxReads_only hreads).same.streams

/-- **Whatever others do**, and whatever the engines read, a client stands as it
did. -/
theorem Standing.run {ls : List Label} (hr : Regular s) (h : Standing c readers n F s)
    (hrun : (broker rex).Run s ls s') (hsp : Grows (Obs.Spares c) s s') :
    Standing c readers n F s' := by
  induction hrun with
  | nil => exact h
  | @snoc s₁ s₂ ls l hrun hstep ih =>
    have hr₁ := (regular_inductive rex).run hr hrun
    have hm := moved_of_step hr₁.reg hr₁.wired hstep
    have htr := run_trace hr hrun
    have h₁ := ih (hsp.part List.prefix_rfl htr (moved_trace hm))
    exact h₁.moved hr₁.reg hr₁.wired hm (hsp.part htr (moved_trace hm) List.prefix_rfl)

/-! ## The command -/

/-- What is left of client `c`, whose context was `k`, once STREAM CANCEL of
`name` has been processed and acknowledged. -/
structure Unsubscribed (c : Cid) (k : Client) (name : Str) (s s' : Server) : Prop where
  readers : ∃ k', s'.ctx c = some k' ∧ name ∉ k'.readers ∧
    k'.readers.filter (· ≠ name) = k.readers.filter (· ≠ name) ∧
    k'.refcount = k'.readers.length
  engine : ∀ p, ¬ Holds (s'.stream name).selectors c p
  others : ∀ r, r ≠ name → ∀ p, Holds (s'.stream r).final c p ↔ Holds (s.stream r).final c p

/-- STREAM CANCEL of `name` takes the server from `s` to `s₁`, and `s'` is when
it has been acknowledged. A stream that is not there raises the exception. -/
structure CancelsExactly (c : Cid) (k : Client) (name : Str) (s s₁ s' : Server) : Prop where
  unknown : s.streams.get name = none →
    s₁.streams.get name = none ∧ ∃ t, s₁.trace = s.trace ++ t ∧ .event c .exception ∈ t
  known : (∃ st, s.streams.get name = some st) → Unsubscribed c k name s s'

/-- The state after the command. -/
theorem cancelled_of_step {s₁ : Server} (hr : Regular s) (hc : Connected s c k)
    (hstep : (broker rex).step s (.request k.hashkey (.streamCancel name)) s₁) :
    s₁.ctx = Function.update s.ctx c (some { k with readers := k.readers.tail }) ∧
      s₁.streams = (s.streams.ensure name .new).modify name (·.push (.command (.cancel c))) := by
  obtain ⟨a, ho⟩ := hr.reg.open_of hc.ctx hc.state
  have hh := handled_of_request (moved_of_step hr.reg hr.wired hstep) ho.hashed
  have hevent : protocolEvent ((Wire.streamCancel name).load
      { s.message with routingId := some k.hashkey }) = .streamCancel := by
    simp [protocolEvent, Wire.load, Wire.id]
  rw [hevent] at hh
  cases hh with
  | unopened hk hs _ =>
    cases ho.ctx.symm.trans hk
    cases hc.state.symm.trans hs
  | cancelled ho' =>
    cases ho.ctx.symm.trans ho'.ctx
    exact ⟨rfl, rfl⟩
  | invalid _ hinv => simp [connectedState] at hinv

theorem standing_cancelled {s₁ : Server} (hr : Regular s) (hc : Connected s c k)
    (hstep : (broker rex).step s (.request k.hashkey (.streamCancel name)) s₁) :
    Standing c k.readers.tail (k.refcount - releases s.streams c - 1)
      (fun r p => r ≠ name ∧ Holds (s.stream r).final c p) s₁ := by
  obtain ⟨hctx, hst⟩ := cancelled_of_step hr hc hstep
  have hens := Elsewhere.ensure c s.streams name
  have hget : (s.streams.ensure name .new).get name = some (streamOf s.streams name) := by
    rw [Table.get_ensure, if_pos rfl]
    rfl
  have hd : Distinct (streamOf s.streams name).selectors := by
    unfold streamOf
    cases h : s.streams.get name with
    | none => exact distinct_nil
    | some st => exact hr.wired.distinct name st h
  rw [Table.modify_of_get hget] at hst
  have hnew : ∀ r, streamOf s₁.streams r =
      if r = name then (streamOf s.streams name).push (.command (.cancel c))
      else streamOf (s.streams.ensure name .new) r := by
    intro r
    rw [hst]
    unfold streamOf
    rw [Table.get_set]
    split <;> rfl
  refine ⟨⟨{ k with readers := k.readers.tail }, ?_, hc.state, rfl, ?_⟩, fun r p => ?_⟩
  · rw [hctx, Function.update_self]
  · have hrel := releases_set hget ((streamOf s.streams name).push (.command (.cancel c))) c
    rw [Stream.releases_push, if_pos rfl, hens.releases, ← hst] at hrel
    show k.refcount = _
    omega
  · rw [hnew]
    by_cases hn : r = name
    · rw [if_pos hn, Stream.final_push_command]
      refine iff_of_false (fun h => ?_) fun h => h.1 hn
      exact ((holds_cancel (distinct_runIssues hd _) c c p).1 h).2 rfl
    · rw [if_neg hn, hens.final r p]
      exact ⟨fun h => ⟨hn, h⟩, fun h => h.2⟩

/-- When nothing of `c` is on its way, the engine lists it for nothing. -/
theorem Standing.unlisted (h : Standing c readers n F s) (hr : Regular s)
    (hack : releases s.streams c = 0) (hF : ∀ p, ¬ F name p) (p : Str) :
    ¬ Holds (streamOf s.streams name).selectors c p := by
  intro hholds
  have hd : Distinct (streamOf s.streams name).selectors := by
    unfold streamOf
    cases hst : s.streams.get name with
    | none => exact distinct_nil
    | some st => exact hr.wired.distinct name st hst
  have hcancel : .command (.cancel c) ∉ (streamOf s.streams name).pending := by
    intro hmem
    have hpos := Stream.releases_pos_of_cancel hmem
    unfold streamOf at hpos
    cases hst : s.streams.get name with
    | none =>
      rw [hst] at hpos
      cases hpos
    | some st =>
      rw [hst] at hpos
      exact absurd hack (Nat.ne_of_gt (releases_pos hst hpos))
  exact hF p ((h.final name p).1 (holds_runIssues_of_no_cancel hd hcancel (.inl hholds)))

/-- Taking the first entry off takes off exactly those for `name`. -/
theorem tail_eq_filter_iff {readers : List Str} : readers.tail = readers.filter (· ≠ name) ↔
    readers = [] ∨ ∃ rest, readers = name :: rest ∧ name ∉ rest := by
  cases readers with
  | nil => simp
  | cons r rest =>
    rw [List.tail_cons]
    constructor
    · intro h
      by_cases hr : r = name
      · subst hr
        rw [List.filter_cons_of_neg (by simp)] at h
        refine .inr ⟨rest, rfl, fun hmem => ?_⟩
        rw [h] at hmem
        simp at hmem
      · -- the list would have one `r` less than it has
        have hkept : decide (r ≠ name) = true := decide_eq_true hr
        rw [List.filter_cons, if_pos hkept] at h
        have hcount := congrArg (List.count r) h
        rw [List.count_cons_self, List.count_filter (p := fun x => decide (x ≠ name)) hkept] at hcount
        omega
    · intro h
      rcases h with h | ⟨rest', h, hnot⟩
      · cases h
      · cases h
        rw [List.filter_cons_of_neg (by simp)]
        refine (List.filter_eq_self.2 fun r hr => decide_eq_true ?_).symm
        rintro rfl
        exact hnot hr

/-- **When STREAM CANCEL does what it should**: the stream exists; the list of readers is empty, or
its first entry is for the stream and no other is; and the count was what it should be. -/
theorem cancel_exact_iff (h : (broker rex).Reachable s) (hc : Connected s c k) {s₁ : Server}
    (hstep : (broker rex).step s (.request k.hashkey (.streamCancel name)) s₁) {ls : List Label}
    (hrun : (broker rex).Run s₁ ls s') (hsp : Grows (Obs.Spares c) s₁ s')
    (hack : releases s'.streams c = 0) :
    CancelsExactly c k name s s₁ s' ↔ (∃ st, s.streams.get name = some st) ∧
      (k.readers = [] ∨ ∃ rest, k.readers = name :: rest ∧ name ∉ rest) ∧
      k.refcount = k.readers.tail.length + 1 + releases s.streams c := by
  rw [← tail_eq_filter_iff]
  have hr := (regular_inductive rex).reachable s h
  have hr₁ := (regular_inductive rex).step _ _ _ hr hstep
  have hst := (standing_cancelled hr hc hstep).run hr₁ hrun hsp
  obtain ⟨k', hk', -, hrd, hn⟩ := hst.context
  rw [hack] at hn
  constructor
  · intro hex
    have hknown : ∃ st, s.streams.get name = some st := by
      cases hget : s.streams.get name with
      | some st => exact ⟨st, rfl⟩
      | none =>
        have hnone := (hex.unknown hget).1
        rw [(cancelled_of_step hr hc hstep).2, Table.get_modify, if_pos rfl, Table.get_ensure,
          if_pos rfl] at hnone
        cases hnone
    obtain ⟨⟨k'', hk'', hname, hfilter, hcount⟩, -, -⟩ := hex.known hknown
    cases hk'.symm.trans hk''
    rw [hrd] at hname hfilter hcount
    refine ⟨hknown, ?_, by omega⟩
    rw [← hfilter]
    refine (List.filter_eq_self.2 fun r hmem => ?_).symm
    refine decide_eq_true ?_
    rintro rfl
    exact hname hmem
  · rintro ⟨hknown, htail, hcount⟩
    refine ⟨fun hnone => ?_, fun _ => ⟨⟨k', hk', ?_, ?_, ?_⟩, ?_, ?_⟩⟩
    · obtain ⟨st, hget⟩ := hknown
      rw [hnone] at hget
      cases hget
    · rw [hrd, htail]
      simp
    · rw [hrd, htail, List.filter_filter]
      simp
    · rw [hrd]
      omega
    · exact hst.unlisted ((regular_inductive rex).run hr₁ hrun) hack fun p hF => hF.1 rfl
    · intro r hne p
      exact (hst.final r p).trans ⟨fun h => h.2, fun h => ⟨hne, h⟩⟩

end

/-! ## Runs on both sides of the condition -/

/-- One client reads two streams. -/
def readerRun : List Label :=
  [.request [1] (.connectionOpen .empty), .request [1] (.streamRead streamA .empty),
    .request [1] (.streamRead streamB .empty), .command streamA, .command streamB]

/-- Its context. -/
def reader : Client where
  hashkey := [1]
  refcount := 2
  state := .connected
  nextEvent := none
  exception := none
  address := some .empty
  writer := none
  readers := [streamA, streamB]
  msg := none

/-- It cancels one of them, and the engine acknowledges. -/
theorem acknowledged {name : Str} (hname : name = streamA ∨ name = streamB) :
    ∃ s s₁ s', (broker fun _ _ => true).Reachable s ∧ Connected s 0 reader ∧
      (broker fun _ _ => true).step s (.request [1] (.streamCancel name)) s₁ ∧
      (broker fun _ _ => true).Run s₁ [.command name, .traffic name] s' ∧
      Grows (Obs.Spares 0) s₁ s' ∧ releases s.streams 0 = 0 ∧ releases s'.streams 0 = 0 ∧
      (∃ st, s.streams.get name = some st) ∧ (s'.ctx 0).map Client.readers = some [streamB] := by
  let rex := fun (_ _ : Str) => true
  have hrun : ((Server.new.steps rex (fun _ _ => True) 20 readerRun).any fun s =>
      (s.steps rex (fun _ _ => True) 20 [.request [1] (.streamCancel name)]).any fun s₁ =>
        (s₁.steps rex (fun _ _ => True) 20 [.command name, .traffic name]).any fun s' =>
          s.ctx 0 = some reader ∧ s'.trace = s₁.trace ∧ releases s.streams 0 = 0 ∧
            releases s'.streams 0 = 0 ∧ (s.streams.get name).isSome = true ∧
            (s'.ctx 0).map Client.readers = some [streamB]) = true := by
    rcases hname with rfl | rfl
    · decide +kernel
    · decide +kernel
  obtain ⟨s, hs, hrun⟩ := (Option.any_eq_true _ _).1 hrun
  obtain ⟨s₁, hs₁, hrun⟩ := (Option.any_eq_true _ _).1 hrun
  obtain ⟨s', hs', hp⟩ := (Option.any_eq_true _ _).1 hrun
  obtain ⟨hctx, htrace, hrel, hrel', hsome, hreaders⟩ := of_decide_eq_true hp
  obtain ⟨s₂, hstep, hnil⟩ := LTS.Run.cons_iff.1 (run_of_steps hs₁).of_within
  cases hnil.nil_eq
  exact ⟨s, s₁, s', (reachable_of_steps hs).of_within, ⟨hctx, rfl⟩, hstep,
    (run_of_steps hs').of_within, grows_same htrace, hrel, hrel', Option.isSome_iff_exists.1 hsome,
    hreaders⟩

theorem cancel_exact_first : ∃ s s₁ s', (broker fun _ _ => true).Reachable s ∧
    Connected s 0 reader ∧ CancelsExactly 0 reader streamA s s₁ s' := by
  obtain ⟨s, s₁, s', hreach, hc, hstep, hrun, hgrows, hrel, hrel', hknown, -⟩ :=
    acknowledged (.inl rfl)
  refine ⟨s, s₁, s', hreach, hc,
    (cancel_exact_iff hreach hc hstep hrun hgrows hrel').2
      ⟨hknown, .inr ⟨[streamB], rfl, by decide⟩, ?_⟩⟩
  rw [hrel]
  rfl

/-- Cancelling the second leaves it on the list, and takes the first off. -/
theorem cancels_other_entry : ∃ s s₁ s', (broker fun _ _ => true).Reachable s ∧
    Connected s 0 reader ∧
    (broker fun _ _ => true).step s (.request [1] (.streamCancel streamB)) s₁ ∧
    (broker fun _ _ => true).Run s₁ [.command streamB, .traffic streamB] s' ∧
    releases s'.streams 0 = 0 ∧ ¬ CancelsExactly 0 reader streamB s s₁ s' := by
  obtain ⟨s, s₁, s', hreach, hc, hstep, hrun, -, -, hrel', hknown, hreaders⟩ :=
    acknowledged (.inr rfl)
  refine ⟨s, s₁, s', hreach, hc, hstep, hrun, hrel', fun hex => ?_⟩
  obtain ⟨k', hk', hnot, -⟩ := (hex.known hknown).readers
  rw [hk'] at hreaders
  simp only [Option.map_some, Option.some.injEq] at hreaders
  rw [hreaders] at hnot
  exact hnot List.mem_cons_self

end Malamute.L3
