import Mathlib.Algebra.GroupWithZero.Nat
import Mathlib.Logic.Function.Basic

/-!
# A map of bounded queues

What a store with one queue for each key is for: items go in at the end of the
queue of their key unless its load would exceed the limit in force, a query
takes the oldest item of a key, and the limit may change at any time.

`fifo` says that what was accepted for a key is what was returned for it
followed by what is held, and `run_local` that a key sees only its own commands
and the changes of the limit.
-/
namespace Malamute.Core

/-- A command to the queues; `none` is no limit. -/
inductive QueueCommand (κ α : Type) where
  | store (k : κ) (x : α)
  | query (k : κ)
  | limit (l : Option Nat)

inductive QueueReply (α : Type) where
  | accepted
  | refused
  | answer (x : Option α)
  | changed
  deriving DecidableEq

structure BoundedQueues (κ α : Type) where
  held : κ → List α
  limit : Option Nat

namespace BoundedQueues
variable {κ α : Type} [DecidableEq κ] {size : α → Nat}

def empty : BoundedQueues κ α := ⟨fun _ => [], none⟩

/-- The size of all items together. -/
def load (size : α → Nat) (xs : List α) : Nat := (xs.map size).sum

@[simp] theorem load_nil : load size [] = 0 := rfl

@[simp] theorem load_cons (x : α) (xs : List α) :
    load size (x :: xs) = size x + load size xs := by simp [load]

@[simp] theorem load_append (xs ys : List α) :
    load size (xs ++ ys) = load size xs + load size ys := by simp [load]

/-- `n` is within the limit. -/
def Fits : Option Nat → Nat → Prop
  | none, _ => True
  | some l, n => n ≤ l

instance : ∀ l n, Decidable (Fits l n)
  | none, _ => .isTrue trivial
  | some l, n => inferInstanceAs (Decidable (n ≤ l))

/-- One command, and what is said to it. -/
def step (size : α → Nat) (b : BoundedQueues κ α) :
    QueueCommand κ α → BoundedQueues κ α × QueueReply α
  | .store k x =>
    if Fits b.limit (load size (b.held k) + size x) then
      ({ b with held := Function.update b.held k (b.held k ++ [x]) }, .accepted)
    else (b, .refused)
  | .query k =>
    ({ b with held := Function.update b.held k (b.held k).tail }, .answer (b.held k).head?)
  | .limit l => ({ b with limit := l }, .changed)

theorem step_accepted {b : BoundedQueues κ α} {k : κ} {x : α}
    (h : Fits b.limit (load size (b.held k) + size x)) : b.step size (.store k x) =
      ({ b with held := Function.update b.held k (b.held k ++ [x]) }, .accepted) := if_pos h

theorem step_refused {b : BoundedQueues κ α} {k : κ} {x : α}
    (h : ¬ Fits b.limit (load size (b.held k) + size x)) :
    b.step size (.store k x) = (b, .refused) := if_neg h

/-- A sequence of commands, with one reply for each. -/
def run (size : α → Nat) (b : BoundedQueues κ α) :
    List (QueueCommand κ α) → BoundedQueues κ α × List (QueueReply α)
  | [] => (b, [])
  | c :: cs =>
    let (b, reply) := b.step size c
    let (b, replies) := b.run size cs
    (b, reply :: replies)

variable (size)

/-! ## First in, first out -/

/-- What a command and its reply put into the queue of `k`. -/
def entered (k : κ) : QueueCommand κ α × QueueReply α → List α
  | (.store k' x, .accepted) => if k' = k then [x] else []
  | _ => []

/-- What a command and its reply took out of the queue of `k`. -/
def handed (k : κ) : QueueCommand κ α × QueueReply α → List α
  | (.query k', .answer x) => if k' = k then x.toList else []
  | _ => []

theorem step_fifo (b : BoundedQueues κ α) (c : QueueCommand κ α) (k : κ) :
    b.held k ++ entered k (c, (b.step size c).2) =
      handed k (c, (b.step size c).2) ++ (b.step size c).1.held k := by
  cases c with
  | store k' x =>
    by_cases hx : Fits b.limit (load size (b.held k') + size x)
    · rw [step_accepted hx]
      by_cases hk : k' = k
      · subst hk; simp [entered, handed]
      · simp [entered, handed, hk, Function.update_of_ne (Ne.symm hk)]
    · rw [step_refused hx]
      simp [entered, handed]
  | query k' =>
    by_cases hk : k' = k
    · subst hk
      cases hb : b.held k' <;> simp [step, entered, handed, hb]
    · simp [step, entered, handed, hk, Function.update_of_ne (Ne.symm hk)]
  | limit l => simp [step, entered, handed]

/-- What was held and what is accepted for a key is, in order, what is returned
for it and what is held in the end. -/
theorem fifo (b : BoundedQueues κ α) (cs : List (QueueCommand κ α)) (k : κ) :
    b.held k ++ (cs.zip (b.run size cs).2).flatMap (entered k) =
      (cs.zip (b.run size cs).2).flatMap (handed k) ++ (b.run size cs).1.held k := by
  induction cs generalizing b with
  | nil => simp [run]
  | cons c cs ih =>
    have hstep := step_fifo size b c k
    have hrest := ih (b.step size c).1
    simp only [run, List.zip_cons_cons, List.flatMap_cons]
    rw [← List.append_assoc, hstep, List.append_assoc, hrest, List.append_assoc]

/-! ## One key at a time -/

/-- The commands that a key is to see. -/
def concerns (k : κ) : QueueCommand κ α → Bool
  | .store k' _ | .query k' => k' = k
  | .limit _ => true

/-- Two maps that are the same for one key. -/
def SameAt (k : κ) (b b' : BoundedQueues κ α) : Prop := b.held k = b'.held k ∧ b.limit = b'.limit

theorem step_other (b : BoundedQueues κ α) {c : QueueCommand κ α} {k : κ}
    (hc : concerns k c = false) : SameAt k (b.step size c).1 b := by
  cases c with
  | store k' x =>
    have hk : k' ≠ k := by simpa [concerns] using hc
    by_cases hx : Fits b.limit (load size (b.held k') + size x)
    · rw [step_accepted hx]
      exact ⟨Function.update_of_ne (Ne.symm hk) .., rfl⟩
    · rw [step_refused hx]
      exact ⟨rfl, rfl⟩
  | query k' =>
    have hk : k' ≠ k := by simpa [concerns] using hc
    exact ⟨Function.update_of_ne (Ne.symm hk) .., rfl⟩
  | limit l => simp [concerns] at hc

theorem step_same {b b' : BoundedQueues κ α} {c : QueueCommand κ α} {k : κ} (h : SameAt k b b')
    (hc : concerns k c = true) :
    SameAt k (b.step size c).1 (b'.step size c).1 ∧ (b.step size c).2 = (b'.step size c).2 := by
  obtain ⟨hheld, hlimit⟩ := h
  cases c with
  | store k' x =>
    obtain rfl : k' = k := by simpa [concerns] using hc
    by_cases hx : Fits b.limit (load size (b.held k') + size x)
    · have hx' : Fits b'.limit (load size (b'.held k') + size x) := hheld ▸ hlimit ▸ hx
      rw [step_accepted hx, step_accepted hx']
      exact ⟨⟨by simp [hheld], hlimit⟩, rfl⟩
    · have hx' : ¬ Fits b'.limit (load size (b'.held k') + size x) := hheld ▸ hlimit ▸ hx
      rw [step_refused hx, step_refused hx']
      exact ⟨⟨hheld, hlimit⟩, rfl⟩
  | query k' =>
    obtain rfl : k' = k := by simpa [concerns] using hc
    exact ⟨⟨by simp [step, hheld], hlimit⟩, by simp [step, hheld]⟩
  | limit l => exact ⟨⟨hheld, rfl⟩, rfl⟩

/-- What is held for a key, and the replies it gets, are those of the run of its
own commands. -/
theorem run_local {b b' : BoundedQueues κ α} {k : κ} (h : SameAt k b b')
    (cs : List (QueueCommand κ α)) :
    (b.run size cs).1.held k = (b'.run size (cs.filter (concerns k))).1.held k ∧
      ((cs.zip (b.run size cs).2).filter fun p => concerns k p.1).map Prod.snd =
        (b'.run size (cs.filter (concerns k))).2 := by
  induction cs generalizing b b' with
  | nil => exact ⟨h.1, rfl⟩
  | cons c cs ih =>
    cases hc : concerns k c with
    | true =>
      obtain ⟨hsame, hreply⟩ := step_same size h hc
      obtain ⟨hheld, hrest⟩ := ih hsame
      rw [List.filter_cons_of_pos hc]
      refine ⟨hheld, ?_⟩
      simp only [run, List.zip_cons_cons]
      rw [List.filter_cons_of_pos (a := (c, _)) hc, List.map_cons, hrest, hreply]
    | false =>
      have hother := step_other size b hc
      obtain ⟨hheld, hrest⟩ := ih (b := (b.step size c).1) ⟨hother.1.trans h.1, hother.2.trans h.2⟩
      have hc' : ¬ concerns k c = true := by simp [hc]
      rw [List.filter_cons_of_neg hc']
      refine ⟨hheld, ?_⟩
      simp only [run, List.zip_cons_cons]
      rw [List.filter_cons_of_neg (a := (c, _)) hc', hrest]

end BoundedQueues
end Malamute.Core
