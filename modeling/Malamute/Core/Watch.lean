import Malamute.Core.Partial

/-!
# Computations under watch

A fallible computation `x` may be run with checks added, as a computation `w`
whose errors are those of `x` and the failures of the checks. `Agrees f w x P`
says that no check fails: `w` ends as `x` does, and what comes out meets `P`.
The rules take two such computations apart side by side.
-/
namespace Malamute.Core

variable {ε η : Type} {α β : Type}

structure Agrees (f : ε → η) (w : Except η α) (x : Except ε α) (P : α → Prop) : Prop where
  eq : w = x.mapError f
  post : ∀ a, x = .ok a → P a

namespace Agrees
variable {f : ε → η} {w : Except η α} {x : Except ε α} {P Q : α → Prop} {R : β → Prop}

theorem ok {a : α} (h : P a) : Agrees f (.ok a) (.ok a) P :=
  ⟨rfl, fun b hb => by cases hb; exact h⟩

theorem error (e : ε) : Agrees f (.error (f e)) (.error e : Except ε α) P :=
  ⟨rfl, fun b hb => by cases hb⟩

/-- Nothing is checked. -/
theorem lift (h : ∀ a, x = .ok a → P a) : Agrees f (x.mapError f) x P := ⟨rfl, h⟩

theorem mono (h : Agrees f w x P) (hq : ∀ a, x = .ok a → P a → Q a) : Agrees f w x Q :=
  ⟨h.eq, fun a ha => hq a ha (h.post a ha)⟩

theorem bind {g : α → Except η β} {k : α → Except ε β} (h : Agrees f w x P)
    (hg : ∀ a, x = .ok a → P a → Agrees f (g a) (k a) R) :
    Agrees f (w >>= g) (x >>= k) R := by
  cases x with
  | error e =>
    rw [h.eq]
    exact error e
  | ok a =>
    rw [h.eq]
    exact hg a rfl (h.post a rfl)

/-- A check that passes. -/
theorem check {c : Except η β} {b : β} {g : β → Except η α} (hc : c = .ok b)
    (h : Agrees f (g b) x P) : Agrees f (c >>= g) x P := by
  rw [hc]
  exact h

/-- A check at the end. -/
theorem andThen {g : α → Except η α} (h : Agrees f w x P) (hg : ∀ a, x = .ok a → P a → g a = .ok a) :
    Agrees f (w >>= g) x P := by
  cases x with
  | error e =>
    rw [h.eq]
    exact error e
  | ok a =>
    rw [h.eq]
    have hga := hg a rfl (h.post a rfl)
    exact ⟨hga, h.post⟩

end Agrees
end Malamute.Core
