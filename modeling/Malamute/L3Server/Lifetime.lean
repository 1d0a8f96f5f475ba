import Malamute.L3Server.Invariant
import Malamute.L2Engine.Release

/-!
# How long a client context lives

Engines and pipes hold pointers to client contexts; the reference count is to
keep a context until they have all been given up. `Lifetimes` is what that
means in one state.

STREAM READ adds a stream to the list of readers and takes a reference; the
release is the CANCEL that `deregister_the_client` sends to every reader in the
list, and the ACK that comes back. STREAM CANCEL sends a CANCEL to the stream
it names, and takes the *first* reader off the list, which may be another
stream. Then an engine is never told to forget the client.

* `lifetimes_of_cancelsFirst`: `Lifetimes` holds in every state of every run in
  which each STREAM CANCEL names the first reader of its client.
* `freed_while_named`: without that, a context is freed while an engine lists it.
-/
namespace Malamute.L3
open Malamute.Core Malamute.L1 Malamute.L2 Server

/-- CANCELs and ACKs of `c` on their way, in all streams. -/
def releases (t : Table Str Stream) (c : Cid) : Nat := t.sum (Stream.releases c)

structure Lifetimes (s : Server) : Prop where
  /-- a context that a selector or an item in flight names has not been freed -/
  allocated : ∀ name st c, s.streams.get name = some st → st.Names c → ∃ k, s.ctx c = some k
  /-- the count is the number of subscriptions that are not released yet: listed
  as readers, or with a release on its way -/
  counted : ∀ c k, s.ctx c = some k → k.refcount = k.readers.length + releases s.streams c
  /-- an ACK never meets a count of zero -/
  positive : ∀ name st c, s.streams.get name = some st → .ack c ∈ st.up →
    ∃ k, s.ctx c = some k ∧ 0 < k.refcount
  /-- a terminated client that is still there has a release on its way -/
  freed : ∀ c k, s.ctx c = some k → k.state = .zombie →
    ∃ name st, s.streams.get name = some st ∧
      (.command (.cancel c) ∈ st.pending ∨ .ack c ∈ st.up)

/-- If the step executes a STREAM CANCEL of an open client, the message names
the first stream in the client's list of readers. -/
def CancelsFirst (s : Server) (l : Label) : Prop :=
  ∀ parts ∈ l.parts s,
    ∀ k ∈ (s.clients.get ((recv s.message parts).1.routingId.getD [])).bind s.ctx,
      (recv s.message parts).2.1 = .ok → protocolEvent (recv s.message parts).1 = .streamCancel →
        k.state = .connected → k.readers.head? = some (recv s.message parts).1.stream

instance (s : Server) (l : Label) : Decidable (CancelsFirst s l) :=
  inferInstanceAs (Decidable (∀ parts ∈ l.parts s,
    ∀ k ∈ (s.clients.get ((recv s.message parts).1.routingId.getD [])).bind s.ctx,
      (recv s.message parts).2.1 = .ok → protocolEvent (recv s.message parts).1 = .streamCancel →
        k.state = .connected → k.readers.head? = some (recv s.message parts).1.stream))

/-! ## One client -/

/-- What holds of the context of `c`, if there is one, and the streams.
`listed`: a stream whose selectors will list `c` when all commands have been
read is among the readers of `c`. -/
structure Balanced (x : Option Client) (t : Table Str Stream) (c : Cid) : Prop where
  count : ∀ k, x = some k → k.refcount = k.readers.length + releases t c
  unused : x = none → releases t c = 0
  zombie : ∀ k, x = some k → k.state = .zombie → k.refcount ≠ 0
  listed : ∀ name st p, t.get name = some st → Holds st.final c p →
    ∃ k, x = some k ∧ name ∈ k.readers

theorem releases_set {t : Table Str Stream} {name : Str} {st : Stream} (h : t.get name = some st)
    (st' : Stream) (c : Cid) :
    releases (t.set name st') c + st.releases c = releases t c + st'.releases c :=
  t.sum_set_of_get _ st' h

theorem releases_pos {t : Table Str Stream} {name : Str} {st : Stream} {c : Cid}
    (h : t.get name = some st) (hc : 0 < st.releases c) : 0 < releases t c :=
  Nat.lt_of_lt_of_le hc (Table.le_sum _ h)

namespace Balanced
variable {x : Option Client} {t : Table Str Stream} {name : Str} {st st' : Stream} {c : Cid}
  {k : Client}

/-- A stream changes in a way that does not concern `c`. -/
theorem set (h : Balanced x t c) (hst : t.get name = some st)
    (hr : st'.releases c = st.releases c) (hf : ∀ p, Holds st'.final c p → Holds st.final c p) :
    Balanced x (t.set name st') c := by
  have hrel : releases (t.set name st') c = releases t c := by
    have := releases_set hst st' c
    omega
  refine ⟨by rw [hrel]; exact h.count, by rw [hrel]; exact h.unused, h.zombie, ?_⟩
  intro name' st₁ p hget hp
  rw [Table.get_set] at hget
  split at hget
  · rename_i heq
    cases hget
    subst heq
    exact h.listed _ st p hst (hf p hp)
  · exact h.listed name' st₁ p hget hp

theorem ensure (h : Balanced x t c) (name : Str) : Balanced x (t.ensure name .new) c := by
  cases hst : t.get name with
  | some st =>
    have hsame : t.ensure name .new = t := by simp [Table.ensure, hst]
    rw [hsame]
    exact h
  | none =>
    have hset : t.ensure name .new = t.set name .new := by simp [Table.ensure, hst]
    have hrel : releases (t.set name .new) c = releases t c := by
      have hsum : releases (t.set name .new) c = releases t c + Stream.new.releases c :=
        t.sum_set_new (Stream.releases c) .new hst
      rw [hsum, Stream.releases_new, Nat.add_zero]
    rw [hset]
    refine ⟨by rw [hrel]; exact h.count, by rw [hrel]; exact h.unused, h.zombie, ?_⟩
    intro name' st₁ p hget hp
    rw [Table.get_set] at hget
    split at hget
    · cases hget
      simp at hp
    · exact h.listed name' st₁ p hget hp

/-- The context changes, but for its readers and its count. -/
theorem context (h : Balanced (some k) t c) {j : Client} (hn : j.refcount = k.refcount)
    (hr : j.readers = k.readers) (hz : j.state = .zombie → k.state = .zombie) :
    Balanced (some j) t c := by
  refine ⟨?_, by simp, ?_, ?_⟩
  · intro i hi
    cases hi
    rw [hn, hr]
    exact h.count k rfl
  · intro i hi hzi
    cases hi
    rw [hn]
    exact h.zombie k rfl (hz hzi)
  · intro name st p hst hp
    obtain ⟨i, hi, hmem⟩ := h.listed name st p hst hp
    cases hi
    exact ⟨j, rfl, by rw [hr]; exact hmem⟩

/-- STREAM READ. -/
theorem read (h : Balanced (some k) t c) (hst : t.get name = some st) (hz : k.state ≠ .zombie)
    (p : Str) :
    Balanced (some (k.reading name)) (t.set name (st.push (.command (.compile c p)))) c := by
  have hcount := h.count k rfl
  have hrel := releases_set hst (st.push (.command (.compile c p))) c
  rw [Stream.releases_push, if_neg (by simp)] at hrel
  refine ⟨?_, by simp, ?_, ?_⟩
  · intro j hj
    cases hj
    simp only [Client.reading, List.length_append, List.length_singleton]
    omega
  · intro j hj hzj
    cases hj
    exact absurd hzj hz
  · intro name' st₁ q hget hq
    refine ⟨_, rfl, ?_⟩
    rw [Table.get_set] at hget
    split at hget
    · rename_i heq
      rw [heq]
      exact List.mem_append_right _ (List.mem_singleton.2 rfl)
    · obtain ⟨j, hj, hmem⟩ := h.listed name' st₁ q hget hq
      cases hj
      exact List.mem_append_left _ hmem

/-- STREAM CANCEL of the first reader; also one step of leaving. -/
theorem cancelFirst (h : Balanced (some k) t c) (hst : t.get name = some st)
    (hd : Distinct st.selectors) (hz : k.state ≠ .zombie) {readers : List Str}
    (hr : k.readers = name :: readers) :
    Balanced (some { k with readers := readers })
      (t.set name (st.push (.command (.cancel c)))) c := by
  have hcount := h.count k rfl
  have hrel := releases_set hst (st.push (.command (.cancel c))) c
  rw [Stream.releases_push, if_pos rfl] at hrel
  rw [hr, List.length_cons] at hcount
  refine ⟨?_, by simp, ?_, ?_⟩
  · intro j hj
    cases hj
    show k.refcount = readers.length + _
    push_cast at hcount
    omega
  · intro j hj hzj
    cases hj
    exact absurd hzj hz
  · intro name' st₁ q hget hq
    refine ⟨_, rfl, ?_⟩
    rw [Table.get_set] at hget
    split at hget
    · cases hget
      rw [Stream.final_push_command] at hq
      exact absurd rfl ((holds_cancel (distinct_runIssues hd _) ..).1 hq).2
    · rename_i hne
      obtain ⟨j, hj, hmem⟩ := h.listed name' st₁ q hget hq
      cases hj
      rw [hr] at hmem
      exact (List.mem_cons.1 hmem).resolve_left hne

/-- Nobody lists a client without readers for good. -/
theorem not_listed (h : Balanced (some k) t c) (hr : k.readers = []) (hst : t.get name = some st)
    (p : Str) : ¬ Holds st.final c p := by
  intro hp
  obtain ⟨i, hi, hmem⟩ := h.listed name st p hst hp
  cases hi
  rw [hr] at hmem
  cases hmem

/-- A client without readers is gone: freed, or a zombie until its releases have
come back. -/
theorem bury (h : Balanced (some k) t c) (hr : k.readers = []) {j : Client}
    (hn : j.refcount = k.refcount) (hj : j.readers = []) :
    Balanced (if k.refcount = 0 then none else some j) t c := by
  have hcount := h.count k rfl
  rw [hr, List.length_nil] at hcount
  by_cases hzero : k.refcount = 0
  · rw [if_pos hzero]
    refine ⟨by simp, ?_, by simp, ?_⟩
    · intro _
      omega
    · intro name st p hst hp
      exact absurd hp (h.not_listed hr hst p)
  · rw [if_neg hzero]
    refine ⟨?_, by simp, ?_, ?_⟩
    · intro i hi
      cases hi
      rw [hn, hj, List.length_nil]
      exact hcount
    · intro i hi _
      cases hi
      rw [hn]
      exact hzero
    · intro name st p hst hp
      exact absurd hp (h.not_listed hr hst p)

/-- A new context. -/
theorem fresh (h : Balanced none t c) {j : Client} (hn : j.refcount = 0) (hj : j.readers = [])
    (hs : j.state ≠ .zombie) : Balanced (some j) t c := by
  have hunused := h.unused rfl
  refine ⟨?_, by simp, ?_, ?_⟩
  · intro i hi
    cases hi
    rw [hn, hj, hunused]
    rfl
  · intro i hi hz
    cases hi
    exact absurd hz hs
  · intro name st p hst hp
    obtain ⟨i, hi, -⟩ := h.listed name st p hst hp
    cases hi

/-- The server reads an ACK of `c` and gives a reference back. -/
theorem put (h : Balanced (some k) t c) {up : List Traffic} (hst : t.get name = some st)
    (hup : st.up = .ack c :: up) (hz : k.state = .zombie → k.readers = []) :
    Balanced (if k.refcount - 1 = 0 ∧ k.state = .zombie then none
      else some { k with refcount := k.refcount - 1 }) (t.set name { st with up := up }) c := by
  have hcount := h.count k rfl
  have hrel := releases_set hst { st with up := up } c
  have hpop := Stream.releases_pop hup c
  rw [if_pos rfl] at hpop
  have hlisted : ∀ name' st₁ p, (t.set name { st with up := up }).get name' = some st₁ →
      Holds st₁.final c p → name' ∈ k.readers := by
    intro name' st₁ p hget hp
    rw [Table.get_set] at hget
    split at hget
    · rename_i heq
      cases hget
      subst heq
      obtain ⟨i, hi, hmem⟩ := h.listed _ st p hst hp
      cases hi
      exact hmem
    · obtain ⟨i, hi, hmem⟩ := h.listed name' st₁ p hget hp
      cases hi
      exact hmem
  by_cases hfree : k.refcount - 1 = 0 ∧ k.state = .zombie
  · rw [if_pos hfree]
    rw [hz hfree.2, List.length_nil] at hcount
    refine ⟨by simp, ?_, by simp, ?_⟩
    · intro _
      omega
    · intro name' st₁ p hget hp
      have hmem := hlisted name' st₁ p hget hp
      rw [hz hfree.2] at hmem
      cases hmem
  · rw [if_neg hfree]
    refine ⟨?_, by simp, ?_, ?_⟩
    · intro i hi
      cases hi
      show k.refcount - 1 = k.readers.length + _
      omega
    · intro i hi hzi
      cases hi
      exact fun hzero => hfree ⟨hzero, hzi⟩
    · intro name' st₁ p hget hp
      exact ⟨_, rfl, hlisted name' st₁ p hget hp⟩

end Balanced

/-! ## All clients -/

structure Counted (ctx : Cid → Option Client) (t : Table Str Stream) : Prop where
  balanced : ∀ c, Balanced (ctx c) t c
  tracked : ∀ name st, t.get name = some st → st.Tracked

theorem tracked_set {t : Table Str Stream} (h : ∀ name st, t.get name = some st → st.Tracked)
    {name : Str} {st' : Stream} (ht : st'.Tracked) :
    ∀ name' st, (t.set name st').get name' = some st → st.Tracked := by
  intro name' st hget
  rw [Table.get_set] at hget
  split at hget
  · cases hget
    exact ht
  · exact h name' st hget

namespace Counted
variable {ctx : Cid → Option Client} {t : Table Str Stream} {name : Str} {st st' : Stream}
  {c : Cid} {k : Client}

theorem at_ (h : Counted ctx t) (hk : ctx c = some k) : Balanced (some k) t c := by
  rw [← hk]
  exact h.balanced c

/-- An engine or the server has read an item: no client is concerned. -/
theorem setStream (h : Counted ctx t) (hst : t.get name = some st) (hf : st'.final = st.final)
    (hr : ∀ c, st'.releases c = st.releases c) (ht : st'.Tracked) :
    Counted ctx (t.set name st') where
  balanced c := (h.balanced c).set hst (hr c) (by rw [hf]; exact fun _ hp => hp)
  tracked := tracked_set h.tracked ht

theorem ensure (h : Counted ctx t) (name : Str) : Counted ctx (t.ensure name .new) where
  balanced c := (h.balanced c).ensure name
  tracked name' st hget := by
    rw [Table.get_ensure] at hget
    split at hget
    · cases hst : t.get name with
      | none =>
        rw [hst] at hget
        cases hget
        exact Stream.tracked_new
      | some st₀ =>
        rw [hst] at hget
        cases hget
        exact h.tracked name _ hst
    · exact h.tracked name' st hget

/-- The context of `c` becomes `x`. -/
theorem replace (h : Counted ctx t) {x : Option Client} (hx : Balanced x t c) :
    Counted (Function.update ctx c x) t where
  balanced d := by
    by_cases hd : d = c
    · subst hd
      rw [Function.update_self]
      exact hx
    · rw [Function.update_of_ne hd]
      exact h.balanced d
  tracked := h.tracked

/-- The context of `c` and one stream change; the other clients are not
concerned. -/
theorem move (h : Counted ctx t) {x : Option Client} (hst : t.get name = some st)
    (ht : st'.Tracked) (hx : Balanced x (t.set name st') c)
    (hr : ∀ d, d ≠ c → st'.releases d = st.releases d)
    (hf : ∀ d p, d ≠ c → Holds st'.final d p → Holds st.final d p) :
    Counted (Function.update ctx c x) (t.set name st') where
  balanced d := by
    by_cases hd : d = c
    · subst hd
      rw [Function.update_self]
      exact hx
    · rw [Function.update_of_ne hd]
      exact (h.balanced d).set hst (hr d hd) fun p => hf d p hd
  tracked := tracked_set h.tracked ht

/-- STREAM READ. -/
theorem read (h : Counted ctx t) (hst : t.get name = some st) (hk : ctx c = some k)
    (hz : k.state ≠ .zombie) (p : Str) :
    Counted (Function.update ctx c (some (k.reading name)))
      (t.set name (st.push (.command (.compile c p)))) := by
  refine h.move hst ((h.tracked _ _ hst).push _) ((h.at_ hk).read hst hz p) ?_ ?_
  · intro d _
    rw [Stream.releases_push, if_neg (by simp), Nat.add_zero]
  · intro d q hd hq
    rw [Stream.final_push_command] at hq
    rcases (holds_compile ..).1 hq with hq | ⟨rfl, -⟩
    · exact hq
    · exact absurd rfl hd

/-- STREAM CANCEL of the first reader; also one step of leaving. -/
theorem cancelFirst (h : Counted ctx t) (hst : t.get name = some st) (hk : ctx c = some k)
    (hd : Distinct st.selectors) (hz : k.state ≠ .zombie) {readers : List Str}
    (hr : k.readers = name :: readers) :
    Counted (Function.update ctx c (some { k with readers := readers }))
      (t.set name (st.push (.command (.cancel c)))) := by
  refine h.move hst ((h.tracked _ _ hst).push _) ((h.at_ hk).cancelFirst hst hd hz hr) ?_ ?_
  · intro d hne
    rw [Stream.releases_push, if_neg, Nat.add_zero]
    rintro he
    cases he
    exact hne rfl
  · intro d q _ hq
    rw [Stream.final_push_command] at hq
    exact ((holds_cancel (distinct_runIssues hd _) ..).1 hq).1

/-- The server reads an ACK of `c`. -/
theorem put (h : Counted ctx t) {up : List Traffic} (hst : t.get name = some st)
    (hup : st.up = .ack c :: up) (hk : ctx c = some k) (hz : k.state = .zombie → k.readers = []) :
    Counted (Function.update ctx c
      (if k.refcount - 1 = 0 ∧ k.state = .zombie then none
        else some { k with refcount := k.refcount - 1 })) (t.set name { st with up := up }) := by
  refine h.move hst ((h.tracked _ _ hst).pop hup) ((h.at_ hk).put hst hup hz) ?_ ?_
  · intro d hne
    rw [Stream.releases_pop hup d, if_neg, Nat.add_zero]
    rintro he
    cases he
    exact hne rfl
  · intro d p _ hp
    exact hp

/-- The server reads a forwarded message. -/
theorem pop (h : Counted ctx t) {up : List Traffic} {m : Msg} (hst : t.get name = some st)
    (hup : st.up = .deliver c m :: up) : Counted ctx (t.set name { st with up := up }) := by
  refine h.setStream hst rfl ?_ ((h.tracked _ _ hst).pop hup)
  intro d
  rw [Stream.releases_pop hup d, if_neg (by simp), Nat.add_zero]

/-- Leaving cancels the readers one by one, each time the first. -/
theorem cancelReaders (h : Counted ctx t) (hk : ctx c = some k)
    (hd : ∀ name st, t.get name = some st → Distinct st.selectors) (hz : k.state ≠ .zombie)
    (hex : ∀ name ∈ k.readers, ∃ st, t.get name = some st) :
    Counted (Function.update ctx c (some { k with readers := [] }))
      (k.readers.foldl (fun t name => t.modify name (·.push (.command (.cancel c)))) t) := by
  obtain ⟨rs, hrs⟩ : ∃ rs, k.readers = rs := ⟨_, rfl⟩
  induction rs generalizing ctx t k with
  | nil =>
    have hself : ({ k with readers := [] } : Client) = k := by rw [← hrs]
    rw [hrs, hself, ← hk, Function.update_eq_self]
    exact h
  | cons name rs ih =>
    obtain ⟨st, hst⟩ := hex name (by rw [hrs]; simp)
    have hstep := h.cancelFirst hst hk (hd name st hst) hz hrs
    have hdone := ih (k := { k with readers := rs }) hstep (Function.update_self ..) ?_ hz ?_ rfl
    · rw [Function.update_idem] at hdone
      rw [hrs, List.foldl_cons, Table.modify_of_get hst]
      exact hdone
    · intro name' st' hget
      rw [Table.get_set] at hget
      split at hget
      · cases hget
        exact hd name st hst
      · exact hd name' st' hget
    · intro name' hmem
      rw [Table.get_set]
      split
      · exact ⟨_, rfl⟩
      · exact hex name' (by rw [hrs]; exact List.mem_cons_of_mem _ hmem)

end Counted

/-! ## The broker -/

section Broker
variable {rex : Str → Str → Bool} {s s' : Server} {c : Cid} {k : Client} {a : Str}

theorem counted_leave (hw : Wired s) (ho : Open s c k a) (h : Counted s.ctx s.streams) :
    Counted (s.leave c k a).ctx (s.leave c k a).streams := by
  have hz : k.state ≠ .zombie := by
    rw [ho.state]
    simp
  have hcancel := h.cancelReaders ho.ctx hw.distinct hz (hw.readers c k ho.ctx)
  have hbury := hcancel.replace ((hcancel.at_ (Function.update_self ..)).bury rfl
    (j := { k.deregistered a with state := .zombie, nextEvent := some .terminate }) rfl rfl)
  rw [Function.update_idem] at hbury
  exact hbury

theorem counted_evicted {s₁ : Server} (hw : Wired s) (h : Counted s.ctx s.streams)
    (he : Evicted a s s₁) : Counted s₁.ctx s₁.streams := by
  cases he with
  | nobody _ => exact h
  | @holder old t _ _ ho =>
    have hw₁ : Wired (s.enter old .expired) := hw.frame rfl rfl rfl
    exact counted_leave hw₁ (ho.frame rfl rfl rfl) h

theorem counted_handled {e : Event} (hr : Reg s) (hw : Wired s) (h : Counted s.ctx s.streams)
    (hh : Handled rex s c e s')
    (hfirst : e = .streamCancel → ∀ k a, Open s c k a → k.readers.head? = some s.message.stream) :
    Counted s'.ctx s'.streams := by
  have hleave : ∀ {s₁ : Server} {k : Client} {a : Str}, s₁.ctx = s.ctx → s₁.clients = s.clients →
      s₁.addresses = s.addresses → s₁.clientId = s.clientId → s₁.streams = s.streams →
      Open s c k a → Counted (s₁.leave c k a).ctx (s₁.leave c k a).streams := by
    intro s₁ k a h1 h2 h3 h4 h5 ho
    refine counted_leave (hw.frame h5 h1 h4) (ho.frame h1 h2 h3) ?_
    rw [h1, h5]
    exact h
  have hopen : ∀ {k : Client} {a : Str}, Open s c k a → k.state ≠ .zombie := by
    intro k a ho
    rw [ho.state]
    simp
  -- the stream that the message names exists from now on
  have hreq := h.ensure s.message.stream
  have hget : ∃ st, (s.streams.ensure s.message.stream .new).get s.message.stream = some st := by
    rw [Table.get_ensure, if_pos rfl]
    exact ⟨_, rfl⟩
  cases hh with
  | @opened k s₁ _ hk hs hev hd =>
    have henter : Reg (s.enter c .connectionOpen) := hr.frame rfl rfl rfl rfl hr.offers
    have hwenter : Wired (s.enter c .connectionOpen) := hw.frame rfl rfl rfl
    obtain ⟨-, hk₁, -⟩ := evicted_spec henter hev hk hs
    have h₁ : Counted s₁.ctx s₁.streams := counted_evicted hwenter h hev
    have hopened := h₁.replace ((h₁.at_ hk₁).context (j := k.opened s.message.address) rfl rfl
      (by simp [Client.opened]))
    have hsame := drain_same hd
    rw [hsame.ctx, hsame.streams, register_eq]
    exact hopened
  | @departed k hk hs =>
    obtain ⟨⟨-, -, -, hrd, -, -⟩, -⟩ := hr.start_of hk hs
    exact h.replace ((h.at_ hk).bury hrd
      (j := { k with state := .zombie, nextEvent := some .terminate }) rfl hrd)
  | unopened hk hs _ => exact h
  | @wrote k a ho =>
    exact hreq.replace ((hreq.at_ ho.ctx).context (j := { k with writer := some s.message.stream })
      rfl rfl id)
  | @read k a ho =>
    obtain ⟨st, hst⟩ := hget
    have hread := hreq.read hst ho.ctx (hopen ho) s.message.pattern
    rw [← Table.modify_of_get hst (·.push (.command (.compile c s.message.pattern)))] at hread
    exact hread
  | @cancelled k a ho =>
    obtain ⟨st, hst⟩ := hget
    obtain ⟨rs, hrs⟩ : ∃ rs, k.readers = s.message.stream :: rs := by
      have hhead := hfirst rfl k a ho
      cases hrd : k.readers with
      | nil => rw [hrd] at hhead; cases hhead
      | cons name rs => rw [hrd] at hhead; cases hhead; exact ⟨rs, rfl⟩
    have hw₁ : Wired (s.streamRequire s.message.stream) := hw.streamRequire hr _
    have hcancel := hreq.cancelFirst hst ho.ctx (hw₁.distinct _ st hst) (hopen ho) hrs
    rw [← Table.modify_of_get hst (·.push (.command (.cancel c)))] at hcancel
    show Counted (Function.update s.ctx c (some { k with readers := k.readers.tail })) _
    rw [hrs]
    exact hcancel
  | @published k a name ho hwr =>
    obtain ⟨st, hst⟩ := hw.writers c k name ho.ctx hwr
    have hpush : ∀ m, Counted s.ctx (s.streams.modify name (·.push (.message c m))) := by
      intro m
      rw [Table.modify_of_get hst]
      refine h.setStream hst (Stream.final_push_message st c m) ?_ ((h.tracked _ _ hst).push _)
      intro d
      rw [Stream.releases_push, if_neg (by simp), Nat.add_zero]
    exact hpush _
  | unwritten ho _ => exact hleave rfl rfl rfl rfl rfl ho
  | mailed ho hm =>
    have hs := mailed_same hm
    rw [hs.ctx, hs.streams]
    exact h
  | requested ho hm =>
    have hs := requested_same hm
    rw [hs.ctx, hs.streams]
    exact h
  | offered ho hs₁ hscan =>
    have hs := scan_same hscan
    subst hs₁
    rw [hs.ctx, hs.streams]
    exact h
  | confirmed ho => exact hleave rfl rfl rfl rfl rfl ho
  | credited ho => exact h
  | pinged ho => exact h
  | closed ho => exact hleave rfl rfl rfl rfl rfl ho
  | expired ho => exact hleave rfl rfl rfl rfl rfl ho
  | invalid ho _ => exact hleave rfl rfl rfl rfl rfl ho

theorem counted_received {parts : List Frame} (hr : Reg s) (hw : Wired s)
    (h : Counted s.ctx s.streams) (hrec : Received rex s parts s')
    (hfirst : ∀ k ∈ (s.clients.get ((recv s.message parts).1.routingId.getD [])).bind s.ctx,
      (recv s.message parts).2.1 = .ok → protocolEvent (recv s.message parts).1 = .streamCancel →
        k.state = .connected → k.readers.head? = some (recv s.message parts).1.stream) :
    Counted s'.ctx s'.streams := by
  have hrequire : ∀ {s : Server} {key : Key} {c : Cid} {s₁ : Server}, Reg s →
      Counted s.ctx s.streams → s.clientRequire key = (c, s₁) → Counted s₁.ctx s₁.streams := by
    intro s key c s₁ hr h hreq
    rcases clientRequire_cases hreq with ⟨-, rfl⟩ | ⟨-, rfl, rfl⟩
    · exact h
    · have hnone : s.ctx s.clientId = none := by
        cases hk : s.ctx s.clientId with
        | none => rfl
        | some k => exact absurd (hr.fresh _ _ hk) (Nat.lt_irrefl _)
      have hb := h.balanced s.clientId
      rw [hnone] at hb
      exact h.replace (hb.fresh (j := .fresh key) rfl rfl (by simp [Client.fresh]))
  cases hrec with
  | interrupted _ => exact h
  | @ignored p rest _ => exact hrequire (reg_received hr p rest) h rfl
  | @handled p rest c s₁ _ hrecv hreq hh =>
    have hr₁ := reg_received hr p rest
    have hw₁ : Wired (s₁.hear c parts.tail p) := by
      have hw₀ : Wired (s.received p rest) := hw.frame rfl rfl rfl
      exact (hw₀.clientRequire hreq).frame rfl rfl rfl
    have hcount := hrequire hr₁ h hreq
    refine counted_handled (reg_hear (reg_clientRequire hr₁ hreq).1 ..) hw₁ hcount hh ?_
    intro he k a ho
    rw [hrecv] at hfirst
    obtain ⟨hc, ho', -⟩ := known_of_open hreq ho
    obtain rfl : s₁ = s.received p rest := (known_of_open hreq ho).2.2
    exact hfirst k (Option.bind_eq_some_iff.2 ⟨c, hc, ho'.ctx⟩) rfl he ho'.state

theorem counted_moved {l : Label} (hr : Reg s) (hw : Wired s) (h : Counted s.ctx s.streams)
    (hm : Moved rex s l s') (hfirst : CancelsFirst s l) : Counted s'.ctx s'.streams := by
  cases hm with
  | router _ _ hrec => exact counted_received hr hw h hrec (hfirst _ rfl)
  | more _ hrec => exact counted_received hr hw h hrec (hfirst _ rfl)
  | expired _ _ _ hh => exact counted_handled hr hw h hh fun he => by cases he
  | @acked name st c up k _ hst hup hk =>
    have hz : k.state = .zombie → k.readers = [] := by
      intro hz
      cases hr.phase c k hk with
      | start hu => cases hz.symm.trans hu.state
      | opened a ho => rw [ho.state] at hz; cases hz
      | zombie _ hrd _ => exact hrd
    have hput := h.put hst hup hk hz
    unfold Server.put
    by_cases hfree : k.refcount - 1 = 0 ∧ k.state = .zombie
    · rw [if_pos hfree] at hput ⊢
      exact hput
    · rw [if_neg hfree] at hput ⊢
      exact hput
  | discarded _ hst hup _ _ => exact h.pop hst hup
  | delivered _ hst hup _ => exact h.pop hst hup
  | command hst hcmd =>
    exact h.setStream hst (Stream.final_handleCommand hcmd) (Stream.releases_handleCommand hcmd)
      ((h.tracked _ _ hst).handleCommand (hw.distinct _ _ hst) hcmd)
  | message hst hmsg =>
    exact h.setStream hst (Stream.final_handleMessage hmsg) (Stream.releases_handleMessage hmsg)
      ((h.tracked _ _ hst).handleMessage hmsg)
  | mailbox _ hread =>
    have hs := (mailboxRead_only hread).same
    rw [hs.ctx, hs.streams]
    exact h
  | @configured service mailbox s₁ _ hreads =>
    have hs := (mailboxReads_only hreads).same
    show Counted s₁.ctx s₁.streams
    rw [hs.ctx, hs.streams]
    exact h

/-- The invariant of the runs in which every STREAM CANCEL names the first
reader. -/
structure Accounted (s : Server) : Prop where
  regular : Regular s
  counted : Counted s.ctx s.streams

theorem lifetimes_inductive (rex : Str → Str → Bool) :
    ((broker rex).within CancelsFirst).Inductive Accounted where
  init s h := by
    refine ⟨(regular_inductive rex).init s h, ?_⟩
    rw [show s = Server.new from h]
    refine ⟨fun c => ⟨?_, fun _ => rfl, ?_, ?_⟩, ?_⟩
    · intro k hk
      cases hk
    · intro k hk
      cases hk
    · intro name st p hst
      cases hst
    · intro name st hst
      cases hst
  step s l s' h hstep := by
    obtain ⟨hfirst, hstep⟩ := hstep
    have hm := moved_of_step h.regular.reg h.regular.wired hstep
    exact ⟨regular_moved h.regular hm,
      counted_moved h.regular.reg h.regular.wired h.counted hm hfirst⟩

theorem lifetimes_of_accounted (h : Accounted s) : Lifetimes s := by
  have hc := h.counted
  have hrel : ∀ c, 0 < releases s.streams c → ∃ k, s.ctx c = some k := by
    intro c hpos
    cases hk : s.ctx c with
    | some k => exact ⟨k, rfl⟩
    | none =>
      have hzero := (hc.balanced c).unused hk
      omega
  refine ⟨?_, ?_, ?_, ?_⟩
  · intro name st c hst hn
    rcases Stream.names_cases (h.regular.wired.distinct name st hst) (hc.tracked name st hst) hn with
      hpos | ⟨p, hp⟩
    · exact hrel c (releases_pos hst hpos)
    · obtain ⟨k, hk, -⟩ := (hc.balanced c).listed name st p hst hp
      exact ⟨k, hk⟩
  · intro c k hk
    exact (hc.balanced c).count k hk
  · intro name st c hst hack
    have hpos := releases_pos hst (Stream.releases_pos_of_ack hack)
    obtain ⟨k, hk⟩ := hrel c hpos
    have hcount := (hc.balanced c).count k hk
    exact ⟨k, hk, by omega⟩
  · intro c k hk hz
    have hne := (hc.balanced c).zombie k hk hz
    have hcount := (hc.balanced c).count k hk
    have hrd : k.readers = [] := by
      cases h.regular.reg.phase c k hk with
      | start hu => cases hz.symm.trans hu.state
      | opened a ho => rw [ho.state] at hz; cases hz
      | zombie _ hrd _ => exact hrd
    rw [hrd, List.length_nil] at hcount
    obtain ⟨name, st, hst, hpos⟩ := Table.exists_of_sum_pos
      (show 0 < s.streams.sum (Stream.releases c) by
        have : releases s.streams c = s.streams.sum (Stream.releases c) := rfl
        omega)
    exact ⟨name, st, hst, Stream.releases_pos hpos⟩

/-- **Contexts live as long as they are named, and no longer**, in every run in
which each STREAM CANCEL names the first reader of its client. -/
theorem lifetimes_of_cancelsFirst (rex : Str → Str → Bool) (s : Server)
    (h : ((broker rex).within CancelsFirst).Reachable s) : Lifetimes s :=
  lifetimes_of_accounted ((lifetimes_inductive rex).reachable s h)

end Broker

/-! ## Runs on both sides of the condition -/

def streamA : Str := .ofBytes [65]
def streamB : Str := .ofBytes [66]

/-- One client reads two streams, cancels `stream` and closes; then the engines
read their commands and the server reads the ACKs of `streamB`. -/
def cancelRun (stream : Str) : List Label :=
  [.request [1] (.connectionOpen .empty), .request [1] (.streamRead streamA .empty),
    .request [1] (.streamRead streamB .empty), .request [1] (.streamCancel stream),
    .request [1] .connectionClose, .command streamA, .command streamB, .command streamB]

theorem lifetimes_cancelRun : ∃ s, ((broker fun _ _ => true).within CancelsFirst).Reachable s ∧
    Lifetimes s ∧ s.ctx 0 ≠ none := by
  have hrun : ((Server.new.steps (fun _ _ => true) CancelsFirst 20 (cancelRun streamA)).any
      fun s => s.ctx 0 ≠ none) = true := by decide +kernel
  obtain ⟨s, hs, hctx⟩ := (Option.any_eq_true _ _).1 hrun
  have hreach := reachable_of_steps hs
  exact ⟨s, hreach, lifetimes_of_cancelsFirst _ s hreach, of_decide_eq_true hctx⟩

/-- Cancelling the second of two streams takes the first off the list. Both
CANCELs go to the second engine, both references come back, and the context is
freed; the first engine still lists it. -/
theorem freed_while_named : ∃ s, (broker fun _ _ => true).Reachable s ∧ s.ctx 0 = none ∧
    (∃ st, s.streams.get streamA = some st ∧ st.Names 0) ∧ ¬ Lifetimes s := by
  have hrun : ((Server.new.steps (fun _ _ => true) (fun _ _ => True) 20
      (cancelRun streamB ++ [.command streamB, .traffic streamB, .traffic streamB])).any
        fun s => s.ctx 0 = none ∧ (s.streams.get streamA).any
          fun st => decide (Holds st.selectors 0 .empty)) = true := by decide +kernel
  obtain ⟨s, hs, hp⟩ := (Option.any_eq_true _ _).1 hrun
  obtain ⟨hctx, hst⟩ := of_decide_eq_true hp
  obtain ⟨st, hget, hholds⟩ := (Option.any_eq_true _ _).1 hst
  have hnamed : st.Names 0 := .selector .empty (of_decide_eq_true hholds)
  refine ⟨s, (reachable_of_steps hs).of_within, hctx, ⟨st, hget, hnamed⟩, fun h => ?_⟩
  obtain ⟨k, hk⟩ := h.allocated streamA st 0 hget hnamed
  rw [hctx] at hk
  cases hk

end Malamute.L3
