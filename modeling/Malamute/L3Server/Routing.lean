import Malamute.L3Server.Told

/-!
# Routing ids and contexts

A routing id stands for one context at a time: the one that the next message from it goes to.
What a step sends to a routing id belongs to the conversation of that context, or of the one
that the step has made for it.
-/
namespace Malamute.L3
open Malamute.Core Malamute.L1 Malamute.L2 Server

/-- The routing id `key` stands for the context `c`. -/
def Stands (s : Server) (key : Key) (c : Cid) : Prop :=
  ∃ k, s.ctx c = some k ∧ k.state ≠ .zombie ∧ k.hashkey = key

/-- The message `w` of the routing id `key` is handled: `s₁` is the state in which it has been
read from the context `d`. -/
structure Heeded (rex : Str → Str → Bool) (s : Server) (key : Key) (w : Wire) (d : Cid)
    (s₁ s' : Server) : Prop where
  handled : Handled rex s₁ d (heardAs w) s'
  trace : ∃ holder, s₁.trace = s.trace ++ [.received d holder w.encode (some w)]
  message : ∃ p, s₁.message = w.load p
  messageId : s₁.messageId = s.messageId
  context : (Stands s key d ∧ s₁.ctx = s.ctx ∧ s₁.clientId = s.clientId) ∨
    (d = s.clientId ∧ s₁.ctx = Function.update s.ctx d (some (.fresh key)) ∧
      s₁.clientId = s.clientId + 1 ∧ s.clients.get key = none)

section
variable {rex : Str → Str → Bool} {s s' s₁ : Server} {c d : Cid} {key key' : Key} {e : Event}
  {l : Label} {v w : Wire} {t : List Obs}

/-- It is the context in the hash. -/
theorem Stands.hashed (h : Stands s key c) (hr : Reg s) : s.clients.get key = some c := by
  obtain ⟨k, hk, hz, rfl⟩ := h
  cases hr.phase c k hk with
  | start _ hh => exact hh
  | opened a ho => exact ho.hashed
  | zombie hs _ _ => exact absurd hs hz

theorem stands_of_hashed (hr : Reg s) (h : s.clients.get key = some c) : Stands s key c := by
  obtain ⟨k, hk, hkey, hz⟩ := hr.hashed _ _ h
  exact ⟨k, hk, hz, hkey⟩

theorem Stands.frame (h : Stands s' key c) (hctx : s'.ctx = s.ctx) : Stands s key c := by
  obtain ⟨k, hk, hz, hkey⟩ := h
  exact ⟨k, by rw [← hctx]; exact hk, hz, hkey⟩

/-! ## No routing id changes hands -/

theorem stands_handled (hh : Handled rex s d e s') (h : Stands s' key c) : Stands s key c := by
  obtain ⟨k, hk, hz, hkey⟩ := h
  cases before_handled hh hk hz with
  | kept hk₀ hs hkey₀ _ _ => exact ⟨_, hk₀, by rw [hs]; exact hz, hkey₀.trans hkey⟩
  | commanded _ hk₀ hs _ hkey₀ _ _ => exact ⟨_, hk₀, by simp [hs], hkey₀.trans hkey⟩
  | opened _ _ hk₀ hs _ hkey₀ _ => exact ⟨_, hk₀, by simp [hs], hkey₀.trans hkey⟩

theorem stands_put {k : Client} (hd : s.ctx d = some k) (h : Stands (s.put d k) key c) :
    Stands s key c := by
  obtain ⟨k', hk, hz, hkey⟩ := h
  unfold put at hk
  by_cases hcd : c = d
  · subst hcd
    split at hk
    · simp [freeClient] at hk
    · simp only [setClient_ctx, Function.update_self, Option.some.injEq] at hk
      subst hk
      exact ⟨k, hd, hz, hkey⟩
  · split at hk
    · simp only [freeClient_ctx, Function.update_of_ne hcd] at hk
      exact ⟨k', hk, hz, hkey⟩
    · simp only [setClient_ctx, Function.update_of_ne hcd] at hk
      exact ⟨k', hk, hz, hkey⟩

theorem stands_inner (hm : Moved rex s l s') (hl : l.inner = true) (h : Stands s' key c) :
    Stands s key c := by
  cases hm with
  | router _ _ _ => cases hl
  | more _ _ => cases hl
  | expired _ _ _ hh => exact stands_handled hh h
  | @acked name st d up k _ _ _ hd =>
    have hpop : Stands (s.popStream name st up) key c := stands_put hd h
    exact hpop.frame rfl
  | discarded _ _ _ _ _ => exact h.frame rfl
  | delivered _ _ _ _ => exact h.frame rfl
  | command _ _ => exact h.frame rfl
  | message _ _ => exact h.frame rfl
  | mailbox _ hread => exact h.frame (mailboxRead_only hread).same.ctx
  | configured _ hreads =>
    have hread := (mailboxReads_only hreads).same.ctx
    exact h.frame hread

/-! ## A message -/

theorem heeded_of_request (hr : Reg s) (h : Moved rex s (.request key w) s') :
    ∃ d s₁, Heeded rex s key w d s₁ s' := by
  have hrid : (w.load { s.message with routingId := some key }).routingId = some key := by
    cases w <;> rfl
  have hread := recv_encode w s.message key
  cases h with
  | router _ _ hrecv =>
    cases hrecv with
    | interrupted hrecv => cases hread.symm.trans hrecv
    | ignored hrecv => cases hread.symm.trans hrecv
    | @handled p rest d s₁ _ hrecv hreq hh =>
      cases hread.symm.trans hrecv
      rw [hrid] at hreq
      rw [heardAs_load] at hh
      have htrace : (s₁.hear d w.encode (w.load { s.message with routingId := some key })).trace =
          s.trace ++ [.received d ((s₁.ctx d).bind (·.address)) w.encode (some w)] := by
        rw [hear_trace, clientRequire_trace hreq, wire_load]
        rfl
      rcases clientRequire_cases hreq with ⟨hget, rfl⟩ | ⟨hget, rfl, rfl⟩
      · exact ⟨d, _, hh, ⟨_, htrace⟩, ⟨_, rfl⟩, rfl, .inl ⟨stands_of_hashed hr hget, rfl, rfl⟩⟩
      · rw [clientNew_eq] at hh htrace
        exact ⟨_, _, hh, ⟨_, htrace⟩, ⟨_, rfl⟩, rfl, .inr ⟨rfl, rfl, rfl, hget⟩⟩

/-- No other routing id stands for its context. -/
theorem Heeded.unique (hr : Reg s) (h : Heeded rex s key w d s₁ s') (hst : Stands s key' d) :
    key' = key := by
  obtain ⟨k, hk, -, rfl⟩ := hst
  rcases h.context with ⟨⟨k', hk', -, rfl⟩, -, -⟩ | ⟨rfl, -, -⟩
  · cases hk.symm.trans hk'
    rfl
  · exact absurd (hr.fresh _ _ hk) (Nat.lt_irrefl _)

/-- `key` stands for its context from then on, and the others for those as before. -/
theorem Heeded.stands (hr : Reg s) (h : Heeded rex s key w d s₁ s') (hst : Stands s' key' c) :
    c ≠ d ∧ Stands s key' c ∨ c = d ∧ key' = key := by
  obtain ⟨k, hk, hz, rfl⟩ := stands_handled h.handled hst
  by_cases hcd : c = d
  · refine .inr ⟨hcd, ?_⟩
    rcases h.context with ⟨-, hctx, -⟩ | ⟨-, hctx, -⟩
    · exact h.unique hr ⟨k, by rw [← hctx, ← hcd]; exact hk, hz, rfl⟩
    · rw [hctx, hcd, Function.update_self] at hk
      cases hk
      rfl
  · refine .inl ⟨hcd, ?_⟩
    rcases h.context with ⟨-, hctx, -⟩ | ⟨-, hctx, -⟩
    · exact ⟨k, by rw [← hctx]; exact hk, hz, rfl⟩
    · rw [hctx, Function.update_of_ne hcd] at hk
      exact ⟨k, hk, hz, rfl⟩

/-- Of a new context nothing has been read. -/
theorem Heeded.unread (hr : Recited s) (h : Heeded rex s key w d s₁ s') {holder : Option Str}
    {frames : List Frame} {v : Wire} (hmem : .received d holder frames (some v) ∈ s.trace) :
    Stands s key d := by
  rcases h.context with ⟨hst, -, -⟩ | ⟨rfl, -, -⟩
  · exact hst
  · have hsilent := (hr.fresh _ (Nat.le_refl _) _ hmem).2
    simp [Obs.heardFrom] at hsilent

/-- Nothing else is read. -/
theorem Heeded.heard (h : Heeded rex s key w d s₁ s') {holder : Option Str} {frames : List Frame}
    {x : Option Wire} (hmem : .received c holder frames x ∈ s'.trace) :
    .received c holder frames x ∈ s.trace ∨ c = d ∧ frames = w.encode ∧ x = some w := by
  obtain ⟨t, ht, hfollows⟩ := follows_handled h.handled
  obtain ⟨holder', htrace⟩ := h.trace
  rw [ht, htrace, List.append_assoc] at hmem
  rcases List.mem_append.1 hmem with hmem | hmem
  · exact .inl hmem
  · rcases List.mem_cons.1 hmem with hmem | hmem
    · cases hmem
      exact .inr ⟨rfl, rfl, rfl⟩
    · exact (hfollows _ hmem).elim

/-- Other steps read nothing. -/
theorem heard_inner (hm : Moved rex s l s') (hl : l.inner = true) {holder : Option Str}
    {frames : List Frame} {x : Option Wire} (hmem : .received c holder frames x ∈ s'.trace) :
    .received c holder frames x ∈ s.trace := by
  obtain ⟨s₁, d, e, ⟨t, ht, hfollows⟩, ⟨hs₁, -⟩ | ⟨hl', -⟩⟩ := moved_follows hm
  · rw [ht, hs₁] at hmem
    exact (List.mem_append.1 hmem).resolve_right fun h => hfollows _ h
  · cases hl.symm.trans hl'

/-! ## To whom a frame goes -/

/-- Once the client is gone there is nothing more of it. -/
theorem gone_silent {q : Talk} (h : (talk c).run (.gone, []) t = some q) {o : Obs} (ho : o ∈ t) :
    o.client? ≠ some c := by
  intro hc
  obtain ⟨t₁, t₂, rfl⟩ := List.append_of_mem ho
  obtain ⟨q₁, q₂, h₁, h₂, -⟩ := Monitor.run_split h
  have hstay : q₁ = (.gone, []) := by
    refine Monitor.run_closed (P := fun q => q = (.gone, [])) (fun q o q' hq hn => ?_) rfl h₁
    subst hq
    by_cases hc' : o.client? = some c
    · rw [next_self hc'] at hn
      cases hn
    · rw [next_other hc'] at hn
      exact (Option.some.inj hn).symm
  rw [hstay, next_self hc] at h₂
  cases h₂

/-- Nothing is sent to a client that was gone before. -/
theorem sent_there (hr : Regular s) (hm : Moved rex s l s') (ht : s'.trace = s.trace ++ t)
    {holder : Option Str} {x : Option Wire} {hand : Option Msg}
    (hmem : .sent c holder x hand ∈ t) : stageOf s c ≠ .gone := by
  intro hgone
  obtain ⟨t', ht', hrun⟩ := freely_moved hr.reg hm c
  rw [hgone] at hrun
  have heq : t' = t := List.append_cancel_left (ht'.symm.trans ht)
  exact gone_silent hrun (heq ▸ hmem) rfl

/-- The context that a frame to `key` belongs to: the one that `key` stands for, or a new one. -/
theorem outputs_stands (hr : Regular s) (hm : Moved rex s l s') (hv : v ∈ outputs s s' key) :
    ∃ c holder m, .sent c holder (some v) m ∈ s'.trace ∧
      (Stands s key c ∨ s.clientId ≤ c ∧ ∃ k, s'.ctx c = some k ∧ k.hashkey = key) := by
  obtain ⟨t, ht⟩ := moved_trace hm
  have hgrows : Grows (· ∈ t) s s' := ⟨t, ht.symm, fun _ h => h⟩
  obtain ⟨c, holder, m, hmem, hkey⟩ := mem_outputs hgrows hv
  refine ⟨c, holder, m, by rw [← ht]; exact List.mem_append_right _ hmem, ?_⟩
  have hnot := sent_there hr hm ht.symm hmem
  unfold keyOf at hkey
  cases hk : s.ctx c with
  | none =>
    rw [hk, Option.none_or] at hkey
    refine .inr ⟨Nat.le_of_not_lt fun hlt => hnot (by simp [stageOf, hk, hlt]), ?_⟩
    exact Option.map_eq_some_iff.1 hkey
  | some k =>
    rw [hk] at hkey
    refine .inl ⟨k, hk, fun hz => hnot (by simp [stageOf, hk, hz]), ?_⟩
    exact Option.some.inj hkey

theorem clientId_inner (hm : Moved rex s l s') (hl : l.inner = true) :
    s'.clientId = s.clientId := by
  cases hm with
  | router _ _ _ => cases hl
  | more _ _ => cases hl
  | expired _ _ _ hh => exact handled_clientId hh
  | @acked name st d up k _ _ _ _ =>
    show ((s.popStream name st up).put d k).clientId = s.clientId
    unfold put
    split <;> rfl
  | mailbox _ hread => exact (mailboxRead_only hread).same.clientId
  | configured _ hreads =>
    have hread := (mailboxReads_only hreads).same.clientId
    exact hread
  | _ => rfl

/-- A step that reads no message sends to a routing id what is for its context. -/
theorem sent_inner (hr : Regular s) (hm : Moved rex s l s') (hl : l.inner = true) (hr' : Reg s')
    (hv : v ∈ outputs s s' key) :
    ∃ c holder m, .sent c holder (some v) m ∈ s'.trace ∧ Stands s key c := by
  obtain ⟨c, holder, m, hmem, hst | ⟨hle, k, hk, -⟩⟩ := outputs_stands hr hm hv
  · exact ⟨c, holder, m, hmem, hst⟩
  · have hlt := hr'.fresh c k hk
    rw [clientId_inner hm hl] at hlt
    exact absurd hlt (Nat.not_lt.2 hle)

/-- So does one that reads a message, unless it is for the context of the message. -/
theorem sent_request (hr : Regular s) (hm : Moved rex s (.request key w) s') (hr' : Reg s')
    (h : Heeded rex s key w d s₁ s') (hv : v ∈ outputs s s' key') :
    ∃ c holder m, .sent c holder (some v) m ∈ s'.trace ∧
      (Stands s key' c ∨ c = d ∧ key' = key) := by
  obtain ⟨c, holder, m, hmem, hst | ⟨hle, k, hk, rfl⟩⟩ := outputs_stands hr hm hv
  · exact ⟨c, holder, m, hmem, .inl hst⟩
  · have hlt := hr'.fresh c k hk
    rw [handled_clientId h.handled] at hlt
    rcases h.context with ⟨-, -, hid⟩ | ⟨rfl, hctx, hid, -⟩
    · rw [hid] at hlt
      exact absurd hlt (Nat.not_lt.2 hle)
    · rw [hid] at hlt
      obtain rfl := Nat.le_antisymm (Nat.le_of_lt_succ hlt) hle
      have hfresh : s₁.ctx s.clientId = some (.fresh key) := by rw [hctx, Function.update_self]
      exact ⟨_, holder, m, hmem, .inr ⟨rfl, handled_key h.handled hfresh rfl hk⟩⟩

end
end Malamute.L3
