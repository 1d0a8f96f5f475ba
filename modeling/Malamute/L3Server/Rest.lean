import Malamute.L3Server.Completion
import Malamute.L3Server.Lifetime
import Malamute.L3Server.Settled
import Malamute.L3Server.Written

/-!
# The broker at rest

The actors go on with what is in the pipes when no client sends anything: the engines read
commands and messages, the server reads what they send back.

* `comes_to_rest`: this ends, in whatever order the actors go; and when it has ended nothing is
  left over: no terminated client is still there, every context and every message is accounted
  for by a client that is connected or a queue.
-/
namespace Malamute.L3
open Malamute.Core Malamute.L1 Malamute.L2 Server

/-- The steps that no client and no timer has a part in. -/
def Internal (_ : Server) : Label → Prop
  | .traffic _ | .command _ | .message _ | .mailbox => True
  | .router _ _ | .more | .expired _ | .configure _ _ => False

/-- All pipes are empty. -/
structure Resting (s : Server) : Prop where
  engines : ∀ name, (s.stream name).pending = [] ∧ (s.stream name).up = []
  mailbox : s.mailboxPipe = []

/-- Nothing is left over. -/
structure Clean (s : Server) : Prop where
  /-- every context is that of a client the engine knows -/
  contexts : ∀ c k, s.ctx c = some k → s.clients.get k.hashkey = some c
  zombies : ∀ key, s.zombies.get key = none
  /-- the only references to it are those of its readers -/
  counts : ∀ c k, s.ctx c = some k → k.refcount = k.readers.length
  /-- an engine lists clients that are connected and read its stream -/
  listed : ∀ name c p, Holds (s.stream name).selectors c p →
    ∃ k, s.ctx c = some k ∧ k.state = .connected ∧ name ∈ k.readers
  /-- a message is in a mailbox or in the queue of a service -/
  messages : ∀ i, s.refs i = mailboxHeld s.mailbox i + servicesHeld s.services i

/-- What the engines have to read, and then what the server has. -/
def backlog (s : Server) : Nat × Nat :=
  (s.mailboxPipe.length + s.streams.sum fun st => st.pending.length,
    s.streams.sum fun st => st.up.length)

/-- The zombies in the hash are zombies, under their keys. -/
def Buried (s : Server) : Prop := ∀ key c, s.zombies.get key = some c →
  ∃ k, s.ctx c = some k ∧ k.state = .zombie ∧ k.hashkey = key

/-- Zombies may be added, and none changes. -/
structure Interred (s s' : Server) : Prop where
  stay : ∀ c k, s.ctx c = some k → k.state = .zombie → s'.ctx c = some k
  new : ∀ key c, s'.zombies.get key = some c → s.zombies.get key = some c ∨
    ∃ k, s'.ctx c = some k ∧ k.state = .zombie ∧ k.hashkey = key

section
variable {rex : Str → Str → Bool} {s s' : Server} {c d : Cid} {k : Client} {a name : Str} {e : Event}

/-! ## Zombies -/

theorem Interred.trans {s₁ : Server} (h : Interred s s₁) (h' : Interred s₁ s') : Interred s s' := by
  refine ⟨fun c k hk hz => h'.stay c k (h.stay c k hk hz) hz, fun key c hc => ?_⟩
  rcases h'.new key c hc with hc | hc
  · rcases h.new key c hc with hc | ⟨k, hk, hz, hkey⟩
    · exact .inl hc
    · exact .inr ⟨k, h'.stay c k hk hz, hz, hkey⟩
  · exact .inr hc

theorem Buried.interred (h : Buried s) (hi : Interred s s') : Buried s' := by
  intro key c hc
  rcases hi.new key c hc with hc | hc
  · obtain ⟨k, hk, hz, hkey⟩ := h key c hc
    exact ⟨k, hi.stay c k hk hz, hz, hkey⟩
  · exact hc

theorem interred_same (hx : s'.ctx = s.ctx) (hz : s'.zombies = s.zombies) : Interred s s' := by
  refine ⟨fun c k hk _ => by rw [hx]; exact hk, fun key c hc => .inl ?_⟩
  rw [← hz]
  exact hc

theorem SameClients.interred (h : SameClients s s') : Interred s s' :=
  interred_same h.ctx h.zombies

/-- A context that is not a zombie changes. -/
theorem interred_update {x : Option Client} (hc : ∀ k, s.ctx c = some k → k.state ≠ .zombie)
    (hx : s'.ctx = Function.update s.ctx c x) (hz : s'.zombies = s.zombies) : Interred s s' := by
  refine ⟨fun d k hk hs => ?_, fun key d hd => .inl (by rw [← hz]; exact hd)⟩
  have hne : d ≠ c := by
    rintro rfl
    exact hc k hk hs
  rw [hx, Function.update_of_ne hne]
  exact hk

/-- A context becomes a zombie, or is freed. -/
theorem interred_bury (hc : ∀ j, s.ctx c = some j → j.state ≠ .zombie) (k : Client) :
    Interred s (s.bury c k) := by
  refine ⟨fun d j hj hs => ?_, fun key d hd => ?_⟩
  · have hne : d ≠ c := by
      rintro rfl
      exact hc j hj hs
    rw [bury_ctx, Function.update_of_ne hne]
    exact hj
  · rw [bury_zombies] at hd
    by_cases hr : k.refcount = 0
    · rw [if_pos hr] at hd
      exact .inl hd
    · rw [if_neg hr, Table.get_ensure] at hd
      by_cases hkey : key = k.hashkey
      · rw [if_pos hkey] at hd
        cases hold : s.zombies.get k.hashkey with
        | some d' =>
          rw [hold] at hd
          rw [hkey, hold]
          exact .inl hd
        | none =>
          rw [hold] at hd
          cases hd
          refine .inr ⟨{ k with state := .zombie, nextEvent := some .terminate }, ?_, rfl, hkey.symm⟩
          rw [Option.getD_none, bury_ctx, Function.update_self, if_neg hr]
      · rw [if_neg hkey] at hd
        exact .inl hd

theorem interred_leave (ho : Open s c k a) : Interred s (s.leave c k a) := by
  have hstate : ∀ j, (s.deregister c k a).ctx c = some j → j.state ≠ .zombie := by
    intro j hj
    rw [ho.connected_of hj]
    simp
  have hgone : Interred s (s.deregister c k a) := interred_same rfl rfl
  exact hgone.trans (interred_bury hstate (k.deregistered a))

theorem interred_evicted (h : Evicted a s s') : Interred s s' := by
  cases h with
  | nobody _ => exact interred_same rfl rfl
  | @holder old t _ _ ho =>
    have henter : Interred s (s.enter old .expired) := interred_same rfl rfl
    exact henter.trans (interred_leave (ho.frame rfl rfl rfl))

theorem interred_handled (hr : Reg s) (h : Handled rex s c e s') : Interred s s' := by
  have hsame : ∀ {s' : Server}, s'.ctx = s.ctx → s'.zombies = s.zombies → Interred s s' :=
    interred_same
  -- the context of an open client changes
  have hopen : ∀ {k : Client} {a : Str} {x : Option Client} {s' : Server}, Open s c k a →
      s'.ctx = Function.update s.ctx c x → s'.zombies = s.zombies → Interred s s' := by
    intro k a x s' ho hx hz
    refine interred_update (fun j hj => ?_) hx hz
    rw [ho.connected_of hj]
    simp
  have hleave : ∀ {s₁ : Server} {k : Client} {a : Str}, Open s c k a → s₁.ctx = s.ctx →
      s₁.zombies = s.zombies → s₁.clients = s.clients → s₁.addresses = s.addresses →
      Interred s (s₁.leave c k a) := by
    intro s₁ k a ho h1 h2 h3 h4
    exact (hsame h1 h2).trans (interred_leave (ho.frame h1 h3 h4))
  have hfail : ∀ {e : Event} {k : Client} {a : Str}, Open s c k a →
      Interred s ((s.enter c e).fail c k a) := fun ho => hleave ho rfl rfl rfl rfl
  cases h with
  | @opened k s₁ _ hk hs hev hd =>
    have hr₀ : Reg (s.enter c .connectionOpen) := hr.frame rfl rfl rfl rfl hr.offers
    obtain ⟨-, hk₁, -⟩ := evicted_spec hr₀ hev hk hs
    have henter : Interred s (s.enter c .connectionOpen) := hsame rfl rfl
    have hreg : Interred s₁ (s₁.register c k s.message.address) := by
      rw [register_eq]
      refine interred_update (c := c) (fun j hj => ?_) rfl rfl
      cases hj.symm.trans hk₁
      simp [hs]
    exact ((henter.trans (interred_evicted hev)).trans hreg).trans (drain_same hd).interred
  | @departed k hk hs =>
    have hset : Interred s ((s.enter c .expired).setStatus success) := hsame rfl rfl
    refine hset.trans (interred_bury (fun j hj => ?_) k)
    cases hj.symm.trans hk
    simp [hs]
  | unopened _ _ _ => exact hsame rfl rfl
  | wrote ho => exact hopen ho rfl rfl
  | read ho => exact hopen ho rfl rfl
  | cancelled ho => exact hopen ho rfl rfl
  | published _ _ => exact hsame rfl rfl
  | unwritten ho _ => exact hfail ho
  | mailed _ hm =>
    have henter : Interred s (s.enter c .mailboxSend) := hsame rfl rfl
    exact henter.trans (mailed_same hm).interred
  | requested _ hm =>
    have henter : Interred s (s.enter c .serviceSend) := hsame rfl rfl
    exact henter.trans (requested_same hm).interred
  | @offered k a s₁ _ _ hs₁ hscan =>
    have hoffer : Interred s (s₁.setService s.message.address ((s₁.service
        s.message.address).setQueue (s₁.service s.message.address).queue.first.1)) := by
      rw [hs₁]
      exact hsame rfl rfl
    exact hoffer.trans (scan_same hscan).interred
  | confirmed ho => exact hfail ho
  | credited _ => exact hsame rfl rfl
  | pinged _ => exact hsame rfl rfl
  | closed ho => exact hleave ho rfl rfl rfl rfl
  | expired ho => exact hleave ho rfl rfl rfl rfl
  | invalid ho _ => exact hleave ho rfl rfl rfl rfl

theorem interred_clientRequire (hr : Reg s) {key : Key} {s₁ : Server}
    (h : s.clientRequire key = (c, s₁)) : Interred s s₁ := by
  rcases clientRequire_cases h with ⟨-, rfl⟩ | ⟨-, -, rfl⟩
  · exact interred_same rfl rfl
  · refine interred_update (c := s.clientId) (fun j hj => ?_) (by rw [clientNew_eq]) rfl
    exact absurd (hr.fresh _ j hj) (Nat.lt_irrefl _)

theorem interred_received (hr : Reg s) {parts : List Frame} (h : Received rex s parts s') :
    Interred s s' := by
  have hin : ∀ p rest, Interred s (s.received p rest) := fun p rest => interred_same rfl rfl
  cases h with
  | interrupted _ => exact interred_same rfl rfl
  | @ignored p rest _ =>
    exact (hin p rest).trans (interred_clientRequire (reg_received hr p rest) rfl)
  | @handled p rest c s₁ _ _ hreq hh =>
    have hr₀ := reg_received hr p rest
    have hheard : Interred s₁ (s₁.hear c parts.tail p) := interred_same rfl rfl
    have hr₁ := reg_hear (reg_clientRequire hr₀ hreq).1 c parts.tail p
    exact (((hin p rest).trans (interred_clientRequire hr₀ hreq)).trans hheard).trans
      (interred_handled hr₁ hh)

/-- The reference of an ACK is given up; the last one of a zombie frees it. -/
theorem Buried.put (h : Buried s) (hk : s.ctx c = some k) : Buried (s.put c k) := by
  unfold Server.put
  split
  · intro key d hd
    rw [freeClient_zombies, setZombies_zombies, Table.get_del] at hd
    split at hd
    · cases hd
    · rename_i hkey
      obtain ⟨j, hj, hz, hjkey⟩ := h key d hd
      have hne : d ≠ c := by
        rintro rfl
        cases hj.symm.trans hk
        exact hkey hjkey.symm
      refine ⟨j, ?_, hz, hjkey⟩
      rw [freeClient_ctx, Function.update_of_ne hne]
      exact hj
  · intro key d hd
    obtain ⟨j, hj, hz, hjkey⟩ := h key d hd
    by_cases hdc : d = c
    · rw [hdc] at hj ⊢
      cases hj.symm.trans hk
      exact ⟨{ k with refcount := k.refcount - 1 }, by rw [setClient_ctx, Function.update_self],
        hz, hjkey⟩
    · refine ⟨j, ?_, hz, hjkey⟩
      rw [setClient_ctx, Function.update_of_ne hdc]
      exact hj

theorem buried_moved {l : Label} (hr : Reg s) (h : Buried s) (hm : Moved rex s l s') :
    Buried s' := by
  cases hm with
  | router _ _ hrecv => exact h.interred (interred_received hr hrecv)
  | more _ hrecv => exact h.interred (interred_received hr hrecv)
  | expired _ _ _ hh => exact h.interred (interred_handled hr hh)
  | @acked name st c up k _ _ _ hk =>
    have hpop : Buried (s.popStream name st up) := h
    exact hpop.put hk
  | discarded _ _ _ _ _ => exact h
  | delivered _ _ _ _ => exact h
  | command _ _ => exact h
  | message _ _ => exact h
  | mailbox _ hread => exact h.interred (mailboxRead_only hread).same.interred
  | @configured service mailbox s₁ _ hreads =>
    have hcfg : Interred s { s with serviceCfg := service } := interred_same rfl rfl
    have hread := hcfg.trans (mailboxReads_only hreads).same.interred
    exact h.interred (hread.trans (interred_same rfl rfl))

theorem buried_inductive (rex : Str → Str → Bool) :
    (broker rex).Inductive fun s => Regular s ∧ Buried s := by
  refine (regular_inductive rex).strengthen (Q := Buried) ?_ ?_
  · rintro s rfl key c hc
    cases hc
  · intro s l s' hr _ h hstep
    exact buried_moved hr.reg h (moved_of_step hr.reg hr.wired hstep)

/-! ## At rest -/

theorem Resting.sum (h : Resting s) {f : Stream → Nat}
    (hf : ∀ st, st.pending = [] → st.up = [] → f st = 0) : s.streams.sum f = 0 := by
  refine Nat.eq_zero_of_not_pos fun hpos => ?_
  obtain ⟨name, st, hst, hpos⟩ := Table.exists_of_sum_pos hpos
  have hempty := h.engines name
  rw [stream_of_get hst] at hempty
  rw [hf st hempty.1 hempty.2] at hpos
  exact Nat.lt_irrefl 0 hpos

/-- **Nothing is left over at rest.** -/
theorem clean_of_resting (hset : Settled s) (hacc : Accounted s) (hbur : Buried s)
    (h : Resting s) : Clean s := by
  have hlife := lifetimes_of_accounted hacc
  have hreleases : ∀ c, releases s.streams c = 0 := fun c =>
    h.sum fun st hp hu => by rw [Stream.releases, hp, hu]; rfl
  have hzombie : ∀ c k, s.ctx c = some k → k.state ≠ .zombie := by
    intro c k hk hz
    obtain ⟨name, st, hst, hrel⟩ := hlife.freed c k hk hz
    have hempty := h.engines name
    rw [stream_of_get hst] at hempty
    rw [hempty.1, hempty.2] at hrel
    simp at hrel
  refine ⟨fun c k hk => ?_, fun key => ?_, fun c k hk => ?_, fun name c p hp => ?_, fun i => ?_⟩
  · cases hset.regular.reg.phase c k hk with
    | start _ hhash => exact hhash
    | opened a ho => exact ho.hashed
    | zombie hz _ _ => exact absurd hz (hzombie c k hk)
  · cases hc : s.zombies.get key with
    | none => rfl
    | some c =>
      obtain ⟨k, hk, hz, -⟩ := hbur key c hc
      exact absurd hz (hzombie c k hk)
  · rw [hlife.counted c k hk, hreleases]
    rfl
  · cases hst : s.streams.get name with
    | none =>
      rw [stream, hst] at hp
      exact absurd hp (holds_nil c p)
    | some st =>
      have hempty := h.engines name
      rw [stream_of_get hst] at hempty hp
      have hfinal : Holds st.final c p := by
        rw [Stream.final, hempty.1]
        exact hp
      obtain ⟨k, hk, hread⟩ := (hacc.counted.balanced c).listed name st p hst hfinal
      refine ⟨k, hk, ?_, hread⟩
      cases hset.regular.reg.phase c k hk with
      | start hu _ =>
        rw [hu.readers] at hread
        cases hread
      | opened a ho => exact ho.state
      | zombie hz _ _ => exact absurd hz (hzombie c k hk)
  · have hstreams : streamsHeld s.streams i = 0 :=
      h.sum fun st hp hu => by rw [streamMessages, hp, hu]; rfl
    have hslots : slotsHeld s.ctx s.clientId i = 0 := by
      refine List.sum_eq_zero fun n hn => ?_
      obtain ⟨c, -, rfl⟩ := List.mem_map.1 hn
      cases hc : s.ctx c with
      | none => rfl
      | some k => rw [slotOf, Option.bind_some, hset.vacant c k hc]; rfl
    rw [hset.exact.counted i, holders, held, hstreams, hslots, h.mailbox]
    simp

/-! ## On the way there -/

/-- A step is possible as long as something is in a pipe. -/
theorem exists_internal (hgo : s.running = true) (hrest : s.rest = []) (h : ¬Resting s) :
    ∃ l, Internal s l ∧ s.step rex 0 l ≠ none := by
  by_cases hpipe : s.mailboxPipe = []
  · obtain ⟨name, hname⟩ : ∃ name, ¬((s.stream name).pending = [] ∧ (s.stream name).up = []) := by
      by_contra hnone
      exact h ⟨fun name => by_contra fun hname => hnone ⟨name, hname⟩, hpipe⟩
    cases hst : s.streams.get name with
    | none =>
      rw [stream, hst] at hname
      exact absurd ⟨rfl, rfl⟩ hname
    | some st =>
      rw [stream_of_get hst] at hname
      rcases hup : st.up with - | ⟨t, up⟩
      · rcases hpend : st.pending with - | ⟨i, pending⟩
        · exact absurd ⟨hpend, hup⟩ hname
        · cases i with
          | command x =>
            have hfind : (Issue.command x :: pending).find? Stream.isCommand = some (.command x) :=
              rfl
            refine ⟨.command name, trivial, ?_⟩
            simp [Server.step, hgo, hst, Stream.handleCommand, hpend, hfind]
          | message d m =>
            refine ⟨.message name, trivial, ?_⟩
            simp [Server.step, hgo, hst, Stream.handleMessage, hpend, Stream.isCommand]
      · refine ⟨.traffic name, trivial, ?_⟩
        obtain ⟨sel, pending, up'⟩ := st
        cases hup
        simp [Server.step, hgo, hst, hrest]
  · refine ⟨.mailbox, trivial, ?_⟩
    simp [Server.step, hgo, hpipe]

theorem mailboxRead_pipe (h : s.mailboxPipe ≠ []) (hread : s.mailboxRead = .ok s') :
    ∃ p, s.mailboxPipe = p :: s'.mailboxPipe := by
  obtain ⟨⟨a, m⟩, pipe, hp⟩ := List.exists_cons_of_ne_nil h
  unfold mailboxRead at hread
  rw [hp] at hread ⊢
  obtain ⟨⟨b, v⟩, -, hv⟩ := bind_eq_ok.1 hread
  cases v with
  | queued w =>
    cases hv
    exact ⟨_, rfl⟩
  | refused =>
    cases hv
    exact ⟨_, rfl⟩

theorem backlog_set {st st' : Stream} (hst : s.streams.get name = some st)
    (hset : s'.streams = s.streams.set name st') (hpipe : s'.mailboxPipe = s.mailboxPipe)
    (h : st'.pending.length < st.pending.length ∨
      st'.pending.length = st.pending.length ∧ st'.up.length < st.up.length) :
    Prod.Lex (· < ·) (· < ·) (backlog s') (backlog s) := by
  have hpend := Table.sum_set_of_get s.streams (fun st => st.pending.length) st' hst
  have hup := Table.sum_set_of_get s.streams (fun st => st.up.length) st' hst
  rw [Prod.lex_def]
  simp only [backlog, hset, hpipe]
  omega

/-- Less is left to read after each step. -/
theorem backlog_moved {l : Label} (hl : Internal s l) (h : Moved rex s l s') :
    Prod.Lex (· < ·) (· < ·) (backlog s') (backlog s) := by
  cases h with
  | router _ _ _ => exact hl.elim
  | more _ _ => exact hl.elim
  | expired _ _ _ _ => exact hl.elim
  | configured _ _ => exact hl.elim
  | @acked name st c up k _ hst hup _ =>
    have hset : ((s.popStream name st up).put c k).streams =
        s.streams.set name { st with up := up } := by
      unfold Server.put
      split <;> rfl
    have hpipe : ((s.popStream name st up).put c k).mailboxPipe = s.mailboxPipe := by
      unfold Server.put
      split <;> rfl
    exact backlog_set hst hset hpipe (.inr ⟨rfl, by rw [hup]; exact Nat.lt_succ_self _⟩)
  | discarded _ hst hup _ _ =>
    exact backlog_set hst rfl rfl (.inr ⟨rfl, by rw [hup]; exact Nat.lt_succ_self _⟩)
  | delivered _ hst hup _ =>
    exact backlog_set hst rfl rfl (.inr ⟨rfl, by rw [hup]; exact Nat.lt_succ_self _⟩)
  | command hst hcmd =>
    obtain ⟨x, pre, post, hp, -, hp', -, -⟩ := Stream.handleCommand_cases hcmd
    refine backlog_set hst rfl rfl (.inl ?_)
    rw [hp, hp']
    simp
  | message hst hmsg =>
    obtain ⟨d, pre, post, hp, -, -, hp', -, -⟩ := Stream.handleMessage_cases hmsg
    refine backlog_set hst rfl rfl (.inl ?_)
    rw [hp, hp']
    simp
  | mailbox hne hread =>
    obtain ⟨p, hp⟩ := mailboxRead_pipe hne hread
    have hst := (mailboxRead_only hread).same.streams
    rw [Prod.lex_def]
    simp only [backlog, hst, hp, List.length_cons]
    omega

/-- The server runs, has read what was sent to it, and the mailbox engine will find a content in
every message. -/
structure Unattended (rex : Str → Str → Bool) (s : Server) : Prop where
  reachable : ((broker rex).within CancelsFirst).Reachable s
  running : s.running = true
  rest : s.rest = []
  bodies : ¬Bodiless s

theorem Unattended.regular (h : Unattended rex s) : Regular s :=
  (regular_inductive rex).reachable s h.reachable.of_within

/-- No internal step is one that the broker does not survive. -/
theorem Unattended.survives {l : Label} (h : Unattended rex s) (hl : Internal s l) :
    ¬Aborts rex s l := by
  intro ha
  cases ha with
  | router _ => exact hl.elim
  | more _ => exact hl.elim
  | configure _ => exact hl.elim
  | mailbox hp hm => exact h.bodies ⟨_, by rw [hp]; exact List.mem_cons_self, hm⟩
  | @traffic name st t up c hst hup ht hc =>
    have hlife := lifetimes_of_accounted ((lifetimes_inductive rex).reachable s h.reachable)
    have hnames : st.Names c := by
      have hmem : t ∈ st.up := by
        rw [hup]
        exact List.mem_cons_self
      rcases ht with rfl | ⟨m, rfl⟩
      · exact .ack hmem
      · exact .deliver m hmem
    obtain ⟨k, hk⟩ := hlife.allocated name st c hst hnames
    rw [hc] at hk
    cases hk

theorem Unattended.step {l : Label} (h : Unattended rex s) (hl : Internal s l)
    (hstep : (broker rex).step s l s') : Unattended rex s' := by
  have hr := h.regular
  have hfirst : CancelsFirst s l := by
    intro parts hparts
    cases l with
    | router rid frames => exact hl.elim
    | more => exact hl.elim
    | _ => cases hparts
  -- the pipe to the mailbox engine only gets shorter
  have hkeep : s'.running = s.running ∧ s'.rest = s.rest ∧
      ∀ p ∈ s'.mailboxPipe, p ∈ s.mailboxPipe := by
    cases moved_of_step hr.reg hr.wired hstep with
    | router _ _ _ => exact hl.elim
    | more _ _ => exact hl.elim
    | expired _ _ _ _ => exact hl.elim
    | configured _ _ => exact hl.elim
    | acked _ _ _ _ =>
      unfold Server.put
      split <;> exact ⟨rfl, rfl, fun _ hp => hp⟩
    | discarded _ _ _ _ _ => exact ⟨rfl, rfl, fun _ hp => hp⟩
    | delivered _ _ _ _ => exact ⟨rfl, rfl, fun _ hp => hp⟩
    | command _ _ => exact ⟨rfl, rfl, fun _ hp => hp⟩
    | message _ _ => exact ⟨rfl, rfl, fun _ hp => hp⟩
    | mailbox hne hread =>
      have hsame := (mailboxRead_only hread).same
      obtain ⟨x, hx⟩ := mailboxRead_pipe hne hread
      exact ⟨hsame.running, hsame.rest, fun p hp => by rw [hx]; exact List.mem_cons_of_mem _ hp⟩
  obtain ⟨hrun, hrest, hpipe⟩ := hkeep
  refine ⟨h.reachable.step ⟨hfirst, hstep⟩, hrun.trans h.running, hrest.trans h.rest, ?_⟩
  rintro ⟨p, hp, hm⟩
  exact h.bodies ⟨p, hpipe p hp, hm⟩

theorem Unattended.ends {n : Nat} {l : Label} (h : Unattended rex s) (hl : Internal s l)
    (hposs : s.step rex n l ≠ none) : ∃ s', Outcome rex s l (.ok s') := by
  have hwithin : ((broker rex).within (Configures fun _ _ => True)).Reachable s :=
    h.reachable.of_within.within fun _ l => by cases l <;> simp [Configures]
  have hqueues := ((queues_inductive rex fun _ _ => True).reachable s hwithin).2
  exact (step_ends h.regular hqueues hposs).1 (h.survives hl)

/-- As long as something is in a pipe, the broker goes on. -/
theorem Unattended.goes_on (h : Unattended rex s) (hrest : ¬Resting s) :
    ∃ l s', ((broker rex).within Internal).step s l s' := by
  obtain ⟨l, hl, hposs⟩ : ∃ l, Internal s l ∧ s.step rex 0 l ≠ none :=
    exists_internal h.running h.rest hrest
  obtain ⟨s', hs'⟩ := h.ends hl hposs
  exact ⟨l, s', hl, hs'⟩

theorem Unattended.clean (h : Unattended rex s) (hrest : Resting s) : Clean s :=
  clean_of_resting ((settled_inductive rex).reachable s h.reachable.of_within)
    ((lifetimes_inductive rex).reachable s h.reachable)
    ((buried_inductive rex).reachable s h.reachable.of_within).2 hrest

/-- **Left alone, the broker comes to rest, and nothing is left over.** From every state that can
be reached when each STREAM CANCEL names the first reader of its client, in which the server runs
and has read what was sent to it: the actors cannot go on for ever with what is in the pipes,
whichever of them goes when; none of their steps ends in a fault; and as soon as no step is
possible all pipes are empty and the state is clean: no terminated client is still there, every
reference to a client is that of one of its readers, an engine lists none but connected clients
that read its stream, and every message is in a mailbox or waits for a service. -/
theorem comes_to_rest (h : ((broker rex).within CancelsFirst).Reachable s)
    (hgo : s.running = true) (hrest : s.rest = []) (hb : ¬Bodiless s) :
    Acc ((broker rex).within Internal).Next s ∧
    ∀ ls s', ((broker rex).within Internal).Run s ls s' →
      (∀ n l, Internal s' l → s'.step rex n l ≠ none → ∃ s'', Outcome rex s' l (.ok s'')) ∧
      ((∃ l s'', ((broker rex).within Internal).step s' l s'') ∨ Resting s' ∧ Clean s') := by
  have hu : Unattended rex s := ⟨h, hgo, hrest, hb⟩
  have hdec : ∀ s l s', Unattended rex s → ((broker rex).within Internal).step s l s' →
      Unattended rex s' ∧ Prod.Lex (· < ·) (· < ·) (backlog s') (backlog s) := by
    intro s l s' hu hstep
    have hr := hu.regular
    exact ⟨hu.step hstep.1 hstep.2,
      backlog_moved hstep.1 (moved_of_step hr.reg hr.wired hstep.2)⟩
  refine ⟨LTS.acc_next (Prod.lex ⟨_, Nat.lt_wfRel.wf⟩ ⟨_, Nat.lt_wfRel.wf⟩).wf backlog hdec hu,
    fun ls s' hrun => ?_⟩
  have hu' : Unattended rex s' := by
    induction hrun with
    | nil => exact hu
    | snoc _ hstep ih => exact (hdec _ _ _ ih hstep).1
  refine ⟨fun n l hl hposs => hu'.ends hl hposs, ?_⟩
  by_cases hr : Resting s'
  · exact .inr ⟨hr, hu'.clean hr⟩
  · exact .inl (hu'.goes_on hr)

/-- A client has read two streams, cancelled one and closed: its context waits for the ACKs. -/
theorem comes_to_rest_cancelRun : ∃ s, ((broker fun _ _ => true).within CancelsFirst).Reachable s ∧
    s.ctx 0 ≠ none ∧ Acc ((broker fun _ _ => true).within Internal).Next s ∧
    ∀ ls s', ((broker fun _ _ => true).within Internal).Run s ls s' →
      (∃ l s'', ((broker fun _ _ => true).within Internal).step s' l s'') ∨
        Resting s' ∧ Clean s' := by
  have hrun : ((Server.new.steps (fun _ _ => true) CancelsFirst 20 (cancelRun streamA)).any
      fun s => s.ctx 0 ≠ none ∧ s.running = true ∧ s.rest = [] ∧ s.mailboxPipe.isEmpty) = true := by
    decide +kernel
  obtain ⟨s, hs, hp⟩ := (Option.any_eq_true _ _).1 hrun
  obtain ⟨hctx, hgo, hrest, hpipe⟩ := of_decide_eq_true hp
  have hbodies : ¬Bodiless s := by
    rintro ⟨p, hp, -⟩
    rw [List.isEmpty_iff.1 hpipe] at hp
    cases hp
  obtain ⟨hacc, hends⟩ := comes_to_rest (reachable_of_steps hs) hgo hrest hbodies
  exact ⟨s, reachable_of_steps hs, hctx, hacc, fun ls s' hr => (hends ls s' hr).2⟩

end
end Malamute.L3
