import Malamute.L2Queue.Refine
import Malamute.Core.LTS

/-!
# Any sequence of calls on one queue

`queue ok` is one queue with the configuration it refers to: the calls of
`mlm_msgq` in any order, and changes of the configuration that `ok` allows.
`called_of_call` says once what a call does to a queue whose books are right.

* `accounted_inductive`: the byte count is that of the messages in the queue.
* `queue_total`: every call returns.
* `within_limit`: with a limit that is not lowered, the bytes stay within it.
* `warnings_alternate`: the soft limit is reported when it is crossed, and not
  again before half of it has been flushed.
-/
namespace Malamute.L2
open Malamute.Core Malamute.Core.BoundedQueues Malamute.L1

/-- The soft limit in force. -/
def MsgqCfg.warn (cfg : MsgqCfg) : Option Nat :=
  if cfg.sizeWarn = sizeMax then none else some cfg.sizeWarn

theorem MsgqCfg.fits_warn_iff (cfg : MsgqCfg) (n : Nat) :
    Fits cfg.warn n ↔ cfg.sizeWarn = sizeMax ∨ n ≤ cfg.sizeWarn := by
  unfold warn
  by_cases h : cfg.sizeWarn = sizeMax <;> simp [h, Fits]

theorem MsgqCfg.not_fits_warn (cfg : MsgqCfg) (n : Nat) :
    (!decide (Fits cfg.warn n)) =
      (decide (cfg.sizeWarn ≠ sizeMax) && decide (cfg.sizeWarn < n)) := by
  rw [decide_eq_decide.2 (cfg.fits_warn_iff n), Bool.decide_or, Bool.not_or, decide_not,
    ← decide_not (p := n ≤ cfg.sizeWarn), decide_eq_decide.2 Nat.not_le]

/-- A queue and the configuration it refers to. -/
structure Held where
  cfg : MsgqCfg
  queue : Msgq

inductive Call where
  | enqueue (m : Msg)
  | dequeue
  | dequeueCursor
  | first
  | next
  | configure (cfg : MsgqCfg)
  deriving DecidableEq

/-- What is enqueued has content. -/
def Call.HasContent : Call → Prop
  | .enqueue m => m.content ≠ none
  | _ => True

namespace Held

/-- The bytes in the queue. -/
def bytes (x : Held) : Nat := load Msg.bytes x.queue.items

/-- One call; `true` if it reports that the soft limit is reached. -/
def call (x : Held) : Call → Except Fault (Held × Bool)
  | .enqueue m => do
    let (q, verdict) ← x.queue.enqueue x.cfg m
    .ok (⟨x.cfg, q⟩, verdict = .queued true)
  | .dequeue => do
    let (q, _) ← x.queue.dequeue x.cfg
    .ok (⟨x.cfg, q⟩, false)
  | .dequeueCursor => do
    let q ← x.queue.dequeueCursor x.cfg
    .ok (⟨x.cfg, q⟩, false)
  | .first => .ok (⟨x.cfg, x.queue.first.1⟩, false)
  | .next => .ok (⟨x.cfg, x.queue.next.1⟩, false)
  | .configure cfg => .ok (⟨cfg, x.queue⟩, false)

end Held

/-- A queue from its creation; its configuration changes only as `ok` allows. -/
def queue (ok : MsgqCfg → MsgqCfg → Prop) : LTS Held Call where
  init x := x.queue = .new
  step x k x' := (∃ w, x.call k = .ok (x', w)) ∧ ∀ cfg, k = .configure cfg → ok x.cfg cfg

/-- What a call does to a queue whose books are right. -/
inductive Called (x : Held) : Call → Held → Bool → Prop where
  | accepted {m : Msg} {q : Msgq} {w : Bool} : m.content ≠ none →
      Fits x.cfg.limit (x.bytes + m.bytes) → q.items = x.queue.items ++ [m] →
      q.messagesSize = x.bytes + m.bytes →
      w = (!x.queue.warned && !decide (Fits x.cfg.warn (x.bytes + m.bytes))) →
      q.warned = (x.queue.warned || w) → Called x (.enqueue m) ⟨x.cfg, q⟩ w
  | refused {m : Msg} : m.content ≠ none → ¬Fits x.cfg.limit (x.bytes + m.bytes) →
      Called x (.enqueue m) x false
  /-- a message is taken out; its bytes are in the count -/
  | removed {k : Call} {m : Msg} {l r : List Msg} {q : Msgq} : k = .dequeue ∨ k = .dequeueCursor →
      x.queue.items = l ++ m :: r → q.items = l ++ r → q.messagesSize + m.bytes = x.bytes →
      q.warned = (if q.messagesSize ≤ x.cfg.sizeWarn / 2 then false else x.queue.warned) →
      Called x k ⟨x.cfg, q⟩ false
  | moved {k : Call} {q : Msgq} : q.items = x.queue.items →
      q.messagesSize = x.queue.messagesSize → q.warned = x.queue.warned →
      (∀ m, k ≠ .enqueue m) → Called x k ⟨x.cfg, q⟩ false
  | configured {cfg : MsgqCfg} : Called x (.configure cfg) ⟨cfg, x.queue⟩ false

section
variable {x x' : Held} {k : Call} {w : Bool} {ok : MsgqCfg → MsgqCfg → Prop}

/-! ## One call -/

theorem Msgq.Accounted.le (h : x.queue.Accounted) {m : Msg} (hm : m ∈ x.queue.items) :
    m.bytes ≤ x.queue.messagesSize := by
  rw [h.size]
  obtain ⟨l, r, hlr⟩ := List.append_of_mem hm
  rw [hlr, load_append, load_cons]
  omega

/-- A message is taken out of the list. -/
theorem called_dequeued (h : x.queue.Accounted) (hk : k = .dequeue ∨ k = .dequeueCursor)
    {list : CursorList Msg} {m : Msg} {l r : List Msg} (hitems : x.queue.items = l ++ m :: r)
    (hlist : list.items = l ++ r) :
    ∃ q, x.queue.dequeued x.cfg list m = .ok q ∧ Called x k ⟨x.cfg, q⟩ false := by
  have hm : m ∈ x.queue.items := by simp [hitems]
  have hle := h.le hm
  have hsub : Msgq.sizeSub x.queue.messagesSize m.bytes + m.bytes = x.queue.messagesSize := by
    unfold Msgq.sizeSub
    rw [if_pos hle]
    omega
  refine ⟨_, by rw [Msgq.dequeued, Msg.contentSize_eq (h.content m hm)]; rfl, ?_⟩
  exact .removed hk hitems hlist (hsub.trans h.size) rfl

/-- The oldest message is taken out, if there is one. -/
theorem called_dequeue (h : x.queue.Accounted) (hk : k = .dequeue ∨ k = .dequeueCursor) :
    ∃ q r, x.queue.dequeue x.cfg = .ok (q, r) ∧ Called x k ⟨x.cfg, q⟩ false := by
  have hne : ∀ m, k ≠ .enqueue m := by
    rintro m rfl
    simp at hk
  obtain ⟨hitems, hhead⟩ := CursorList.popFirst_items x.queue.queue
  unfold Msgq.dequeue
  cases hp : x.queue.queue.popFirst with
  | mk list r =>
    rw [hp] at hitems hhead
    cases r with
    | none => exact ⟨x.queue, none, rfl, .moved rfl rfl rfl hne⟩
    | some m =>
      have hcons : x.queue.items = [] ++ m :: x.queue.items.tail :=
        List.eq_cons_of_mem_head? hhead.symm
      obtain ⟨q, hq, hc⟩ := called_dequeued h hk hcons hitems
      exact ⟨q, some m, by simp only [hq, ok_bind], hc⟩

theorem called_enqueue (h : x.queue.Accounted) {m : Msg} (hm : m.content ≠ none) :
    ∃ x' w, x.call (.enqueue m) = .ok (x', w) ∧ Called x (.enqueue m) x' w := by
  have hsize : x.queue.messagesSize = x.bytes := h.size
  by_cases hfits : Fits x.cfg.limit (x.bytes + m.bytes)
  · have hcond := (MsgqCfg.fits_iff ..).1 hfits
    have hwarn := x.cfg.not_fits_warn (x.bytes + m.bytes)
    have hitems : (⟨x.queue.queue.addEnd m, x.bytes + m.bytes, x.queue.warned ||
        (!x.queue.warned && !decide (Fits x.cfg.warn (x.bytes + m.bytes)))⟩ : Msgq).items =
          x.queue.items ++ [m] := by
      simp [Msgq.items]
    refine ⟨_, _, ?_, .accepted hm hfits hitems rfl rfl rfl⟩
    rw [hwarn]
    simp only [Held.call, Msgq.enqueue, Msg.contentSize_eq hm, ok_bind, if_pos hcond, hsize,
      Bool.and_assoc]
    simp
  · have hcond := mt (MsgqCfg.fits_iff ..).2 hfits
    rw [← hsize] at hcond
    refine ⟨x, false, ?_, .refused hm hfits⟩
    simp [Held.call, Msgq.enqueue, Msg.contentSize_eq hm, ok_bind, if_neg hcond]

/-- **A call returns**, and does what `Called` says. -/
theorem call_cases (h : x.queue.Accounted) (hk : k.HasContent) :
    ∃ x' w, x.call k = .ok (x', w) ∧ Called x k x' w := by
  cases k with
  | enqueue m => exact called_enqueue h hk
  | dequeue =>
    obtain ⟨q, r, hq, hc⟩ := called_dequeue h (.inl rfl)
    exact ⟨_, _, by simp only [Held.call, hq, ok_bind], hc⟩
  | dequeueCursor =>
    cases hb : x.queue.queue.back with
    | nil =>
      -- no cursor: `zlistx_detach` takes the first message
      obtain ⟨q, r, hq, hc⟩ := called_dequeue h (.inr rfl)
      exact ⟨_, _, by simp only [Held.call, Msgq.dequeueCursor, hb, hq, ok_bind], hc⟩
    | cons m ms =>
      have hitems : x.queue.items = ms.reverse ++ m :: x.queue.queue.post := by
        simp [Msgq.items, CursorList.items, hb]
      have hleft : x.queue.queue.deleteCursor.items = ms.reverse ++ x.queue.queue.post := by
        simp [CursorList.deleteCursor, CursorList.items, hb]
      obtain ⟨q, hq, hc⟩ := called_dequeued h (.inr rfl) hitems hleft
      exact ⟨_, _, by simp only [Held.call, Msgq.dequeueCursor, hb, hq, ok_bind], hc⟩
  | first => exact ⟨_, _, rfl, .moved (Msgq.items_first _) rfl rfl (by simp)⟩
  | next => exact ⟨_, _, rfl, .moved (Msgq.items_next _) rfl rfl (by simp)⟩
  | configure cfg => exact ⟨_, _, rfl, .configured⟩

/-- What has been enqueued had content. -/
theorem hasContent_of_call (h : x.call k = .ok (x', w)) : k.HasContent := by
  cases k with
  | enqueue m =>
    intro hm
    simp [Held.call, Msgq.enqueue, Msg.contentSize, hm, error_bind] at h
  | _ => exact trivial

theorem called_of_call (hx : x.queue.Accounted) (h : x.call k = .ok (x', w)) :
    Called x k x' w := by
  obtain ⟨y, v, hy, hc⟩ := call_cases hx (hasContent_of_call h)
  cases h.symm.trans hy
  exact hc

theorem Called.accounted (h : Called x k x' w) (hx : x.queue.Accounted) : x'.queue.Accounted := by
  cases h with
  | accepted hm _ hitems hsize _ _ =>
    refine ⟨?_, fun y hy => ?_⟩
    · rw [hsize, hitems, load_append, load_cons, load_nil, Nat.add_zero]
      rfl
    · rw [hitems] at hy
      rcases List.mem_append.1 hy with hy | hy
      · exact hx.content y hy
      · rw [List.mem_singleton.1 hy]
        exact hm
  | refused => exact hx
  | removed _ hitems hleft hsize _ =>
    refine ⟨?_, fun y hy => ?_⟩
    · rw [Held.bytes, hitems, load_append, load_cons] at hsize
      rw [hleft, load_append]
      dsimp only
      omega
    · have hy' : y ∈ x.queue.items := by
        rw [hitems]
        rw [hleft] at hy
        rcases List.mem_append.1 hy with hy | hy
        · exact List.mem_append_left _ hy
        · exact List.mem_append_right _ (List.mem_cons_of_mem _ hy)
      exact hx.content y hy'
  | moved hitems hsize _ _ =>
    refine ⟨?_, fun y hy => hx.content y (hitems ▸ hy)⟩
    rw [hsize, hitems]
    exact hx.size
  | configured => exact hx

/-! ## Any number of calls -/

/-- **The byte count is right, whatever is called.** -/
theorem accounted_inductive (ok : MsgqCfg → MsgqCfg → Prop) :
    (queue ok).Inductive fun x => x.queue.Accounted where
  init := by
    intro x hx
    rw [show x.queue = .new from hx]
    exact Msgq.accounted_new
  step := by
    intro x k x' h hs
    obtain ⟨⟨w, hcall⟩, -⟩ := hs
    exact (called_of_call h hcall).accounted h

/-- The limit is not lowered. -/
def Raised (cfg cfg' : MsgqCfg) : Prop := ∀ n, Fits cfg.limit n → Fits cfg'.limit n

theorem fits_mono {l : Option Nat} {n n' : Nat} (h : Fits l n) (hle : n' ≤ n) : Fits l n' := by
  cases l with
  | none => exact trivial
  | some l => exact Nat.le_trans hle h

/-- **With a limit that is not lowered, the bytes stay within it.** -/
theorem within_limit : (queue Raised).Inductive fun x =>
    x.queue.Accounted ∧ Fits x.cfg.limit x.queue.messagesSize := by
  refine (accounted_inductive Raised).strengthen
    (Q := fun x => Fits x.cfg.limit x.queue.messagesSize) ?_ ?_
  · intro x hx
    rw [show x.queue = .new from hx, Msgq.new]
    exact fits_mono (n := 0) (by cases x.cfg.limit <;> simp [Fits]) (Nat.le_refl _)
  · intro x k x' hx _ hfits hs
    obtain ⟨⟨w, hcall⟩, hok⟩ := hs
    have hsize : x.queue.messagesSize = x.bytes := hx.size
    cases called_of_call hx hcall with
    | accepted _ hin _ htotal _ _ => exact htotal ▸ hin
    | refused => exact hfits
    | removed _ _ _ hless _ =>
      rw [hsize, ← hless] at hfits
      exact fits_mono hfits (Nat.le_add_right _ _)
    | moved _ hsame _ _ => exact fits_mono hfits (Nat.le_of_eq hsame)
    | configured => exact hok _ rfl _ hfits

/-! ## The soft limit -/

/-- The configuration does not change. -/
abbrev Fixed (_ _ : MsgqCfg) : Prop := False

theorem cfg_of_step (hx : x.queue.Accounted) (h : (queue Fixed).step x k x') : x'.cfg = x.cfg := by
  obtain ⟨⟨w, hcall⟩, hok⟩ := h
  cases called_of_call hx hcall with
  | configured => exact (hok _ rfl).elim
  | _ => rfl

theorem cfg_of_run {ks : List Call} (hx : x.queue.Accounted) (h : (queue Fixed).Run x ks x') :
    x'.cfg = x.cfg := by
  induction h with
  | nil => rfl
  | snoc hrun hstep ih =>
    have hacc := (accounted_inductive Fixed).run hx hrun
    exact (cfg_of_step hacc hstep).trans ih

/-- With a message gone and more than half of the soft limit left, the flag stays. -/
theorem fits_of_half {cfg : MsgqCfg} {n : Nat} (h : n ≤ cfg.sizeWarn / 2) : Fits cfg.warn n := by
  rw [MsgqCfg.fits_warn_iff]
  omega

/-- **More than the soft limit is held only with the flag set.** -/
theorem warned_inductive : (queue Fixed).Inductive fun x =>
    x.queue.Accounted ∧ (¬Fits x.cfg.warn x.bytes → x.queue.warned = true) := by
  refine (accounted_inductive Fixed).strengthen
    (Q := fun x => ¬Fits x.cfg.warn x.bytes → x.queue.warned = true) ?_ ?_
  · intro x hx hover
    refine absurd (fits_of_half ?_) hover
    rw [Held.bytes, show x.queue = .new from hx]
    exact Nat.zero_le _
  · intro x k x' hx hx' hwarned hs hover
    obtain ⟨⟨w, hcall⟩, hok⟩ := hs
    have hsize : x.queue.messagesSize = x.bytes := hx.size
    have hsize' : x'.queue.messagesSize = x'.bytes := hx'.size
    rw [← hsize'] at hover
    cases called_of_call hx hcall with
    | accepted _ _ _ htotal hw hflag =>
      rw [htotal] at hover
      rw [hflag, hw]
      cases x.queue.warned <;> simp [hover]
    | refused => exact hwarned (hsize ▸ hover)
    | removed _ _ _ hless hflag =>
      have hhalf := mt fits_of_half hover
      rw [hflag, if_neg hhalf]
      exact hwarned fun hfits => hover (fits_mono hfits (Nat.le.intro hless))
    | moved _ hsame hflag _ =>
      rw [hflag]
      exact hwarned (hsize ▸ hsame ▸ hover)
    | configured => exact (hok _ rfl).elim

/-- A report is made by an enqueue that is accepted. -/
theorem reports_of_called (h : Called x k x' true) : ∃ m, k = .enqueue m ∧ x'.cfg = x.cfg ∧
    x'.queue.items = x.queue.items ++ [m] ∧ x.queue.warned = false ∧
    ¬Fits x.cfg.warn x'.queue.messagesSize ∧ x'.queue.warned = true := by
  cases h with
  | @accepted m q _ _ _ hitems htotal hw hflag =>
    rw [eq_comm, Bool.and_eq_true, Bool.not_eq_true', Bool.not_eq_true', decide_eq_false_iff_not]
      at hw
    exact ⟨m, rfl, rfl, hitems, hw.1, htotal ▸ hw.2, by simp [hflag]⟩

/-- Only a removal that leaves at most half of the soft limit takes the flag back. -/
theorem removed_of_cleared (h : Called x k x' w) (hx : x.queue.warned = true)
    (hx' : ¬x'.queue.warned = true) : x'.cfg = x.cfg ∧ (k = .dequeue ∨ k = .dequeueCursor) ∧
    (∃ l m r, x.queue.items = l ++ m :: r ∧ x'.queue.items = l ++ r) ∧
    x'.queue.messagesSize ≤ x.cfg.sizeWarn / 2 := by
  cases h with
  | accepted _ _ _ _ _ hflag => simp [hflag, hx] at hx'
  | refused => exact absurd hx hx'
  | @removed k m l r q hk hitems hleft hless hflag =>
    refine ⟨rfl, hk, ⟨l, m, r, hitems, hleft⟩, ?_⟩
    by_contra hmore
    exact hx' (by rw [hflag, if_neg hmore, hx])
  | moved _ _ hflag _ => exact absurd (hflag ▸ hx) hx'
  | configured => exact absurd hx hx'

/-- **The soft limit is reported by the enqueues that cross it, and not again before a
removal has left at most half of it.** -/
theorem warnings_alternate :
    (∀ x, (queue Fixed).Reachable x → ¬Fits x.cfg.warn x.bytes → x.queue.warned = true) ∧
    (∀ x k x' w, (queue Fixed).Reachable x → x.call k = .ok (x', w) →
      (w = true ↔ ∃ m, k = .enqueue m ∧ x'.queue.items = x.queue.items ++ [m] ∧
        x.queue.warned = false ∧ Fits x.cfg.warn x.bytes ∧ ¬Fits x.cfg.warn x'.bytes)) ∧
    ∀ x₀ k x ks y k' z, (queue Fixed).Reachable x₀ → x₀.call k = .ok (x, true) →
      (queue Fixed).Run x ks y → y.call k' = .ok (z, true) →
      ∃ ks₁ r ks₂ b a, ks = ks₁ ++ r :: ks₂ ∧ (queue Fixed).Run x ks₁ b ∧
        (queue Fixed).step b r a ∧ (queue Fixed).Run a ks₂ y ∧ (r = .dequeue ∨ r = .dequeueCursor) ∧
        (∃ l m l', b.queue.items = l ++ m :: l' ∧ a.queue.items = l ++ l') ∧
        a.bytes ≤ x₀.cfg.sizeWarn / 2 := by
  refine ⟨fun x hx => (warned_inductive.reachable x hx).2, ?_, ?_⟩
  · intro x k x' w hx hcall
    obtain ⟨hacc, hsoft⟩ := warned_inductive.reachable x hx
    have hc := called_of_call hacc hcall
    have hsize' : x'.queue.messagesSize = x'.bytes := (hc.accounted hacc).size
    constructor
    · intro hw
      subst hw
      obtain ⟨m, rfl, -, hitems, hclear, hover, -⟩ := reports_of_called hc
      refine ⟨m, rfl, hitems, hclear, ?_, hsize' ▸ hover⟩
      by_contra hfits
      cases hclear.symm.trans (hsoft hfits)
    · rintro ⟨m, rfl, hitems, hclear, -, hover⟩
      rw [← hsize'] at hover
      cases hc with
      | accepted _ _ _ htotal hw _ =>
        rw [htotal] at hover
        simp [hw, hclear, hover]
      | refused => simp at hitems
      | removed hk _ _ _ _ => simp at hk
      | moved _ _ _ hne => exact absurd rfl (hne m)
  · intro x₀ k x ks y k' z hx₀ hfirst hrun hsecond
    obtain ⟨hacc₀, -⟩ := warned_inductive.reachable x₀ hx₀
    have hc₀ := called_of_call hacc₀ hfirst
    have hacc := hc₀.accounted hacc₀
    obtain ⟨m, -, hcfg, -, -, -, hset⟩ := reports_of_called hc₀
    have hclear : ¬y.queue.warned = true := by
      have haccy := (accounted_inductive Fixed).run hacc hrun
      obtain ⟨m', -, -, -, hclear, -, -⟩ := reports_of_called (called_of_call haccy hsecond)
      simp [hclear]
    obtain ⟨ks₁, r, ks₂, b, a, rfl, h₁, hstep, h₂, hb, ha⟩ :=
      hrun.exists_loss (P := fun y => y.queue.warned = true) hset hclear
    have haccb := (accounted_inductive Fixed).run hacc h₁
    have hcfgb := cfg_of_run hacc h₁
    obtain ⟨w, hcall⟩ := hstep.1
    have hc := called_of_call haccb hcall
    have hsize : a.queue.messagesSize = a.bytes := (hc.accounted haccb).size
    obtain ⟨-, hr, hout, hhalf⟩ := removed_of_cleared hc hb ha
    rw [hsize, hcfgb, hcfg] at hhalf
    exact ⟨ks₁, r, ks₂, b, a, rfl, h₁, hstep, h₂, hr, hout, hhalf⟩

end

/-- Six bytes, with a soft limit of five: reported, taken out, reported again. -/
theorem warnings_alternate_twice : ∃ (m : Msg) (x y z : Held),
    Held.call ⟨⟨5, sizeMax⟩, .new⟩ (.enqueue m) = .ok (x, true) ∧
    (queue Fixed).Run x [.dequeue] y ∧ y.call (.enqueue m) = .ok (z, true) ∧
    ∃ ks₁ r ks₂ a, [.dequeue] = ks₁ ++ r :: ks₂ ∧ (queue Fixed).Run a ks₂ y ∧ a.bytes ≤ 5 / 2 := by
  let m : Msg := ⟨0, .empty, .empty, .empty, none, 0, some [[1, 2, 3, 4, 5, 6]]⟩
  let x : Held := ⟨⟨5, sizeMax⟩, ⟨⟨[], [m]⟩, 6, true⟩⟩
  have h₁ : Held.call ⟨⟨5, sizeMax⟩, .new⟩ (.enqueue m) = .ok (x, true) := by rfl
  have h₂ : (queue Fixed).Run x [.dequeue] ⟨⟨5, sizeMax⟩, ⟨⟨[], []⟩, 0, false⟩⟩ :=
    .single ⟨⟨false, by rfl⟩, by simp⟩
  have h₃ : Held.call ⟨⟨5, sizeMax⟩, ⟨⟨[], []⟩, 0, false⟩⟩ (.enqueue m) = .ok (x, true) := by rfl
  have hinit : (queue Fixed).init ⟨⟨5, sizeMax⟩, .new⟩ := rfl
  obtain ⟨ks₁, r, ks₂, b, a, hks, -, -, hrun, -, -, hhalf⟩ :=
    warnings_alternate.2.2 _ _ _ _ _ _ _ (.initial hinit) h₁ h₂ h₃
  exact ⟨m, x, _, x, h₁, h₂, h₃, ks₁, r, ks₂, a, hks, hrun, hhalf⟩

end Malamute.L2
