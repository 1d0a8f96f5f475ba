/-!
# Computations that may fail or run out of fuel

`bind_eq_ok` takes a successful sequence of two computations apart, `guard_eq_ok` one
behind an assertion.

A loop or a recursion of unknown length is run with fuel, and running out is
one distinguished error `out`. `Le out r r'` says that `r'` is `r`, or `r` ran
out: the order in which more fuel can only help. It is a congruence for
`bind`, so a program built from monotone parts is monotone in its fuel, and
two runs that do not run out agree (`Le.agree`).

`Ends f r` says that with enough fuel `f` is `r`. It follows the program: a
sequence ends if its parts do (`Ends.bind`), and a loop that spends one unit a
round ends if the round and what follows it do (`Ends.succ`).
-/
namespace Malamute.Core

variable {ε α β : Type}

@[simp] theorem ok_bind (a : α) (f : α → Except ε β) : (Except.ok a >>= f) = f a := rfl

@[simp] theorem error_bind (e : ε) (f : α → Except ε β) :
    ((Except.error e : Except ε α) >>= f) = .error e := rfl

theorem bind_eq_ok {x : Except ε α} {f : α → Except ε β} {b : β} :
    (x >>= f) = .ok b ↔ ∃ a, x = .ok a ∧ f a = .ok b := by
  cases x with
  | error e => simp
  | ok a => simp

theorem map_eq_ok {x : Except ε α} {f : α → β} {b : β} :
    x.map f = .ok b ↔ ∃ a, x = .ok a ∧ f a = b := by
  cases x with
  | error e => simp [Except.map]
  | ok a => simp [Except.map]

/-- A computation behind an assertion. -/
theorem guard_eq_ok {p : Prop} [Decidable p] {x : Except ε α} {e : ε} {a : α} :
    (if p then x else .error e) = .ok a ↔ p ∧ x = .ok a := by
  by_cases h : p
  · simp [h]
  · simp [h]

def Le (out : ε) (r r' : Except ε α) : Prop := r = .error out ∨ r' = r

namespace Le
variable {out : ε}

theorem refl (r : Except ε α) : Le out r r := .inr rfl

theorem bot (r : Except ε α) : Le out (.error out) r := .inl rfl

theorem trans {a b c : Except ε α} (h1 : Le out a b) (h2 : Le out b c) : Le out a c := by
  rcases h1 with rfl | rfl
  · exact bot _
  · exact h2

theorem bind {r r' : Except ε α} {f f' : α → Except ε β} (h : Le out r r')
    (hf : ∀ a, Le out (f a) (f' a)) : Le out (r >>= f) (r' >>= f') := by
  rcases h with rfl | rfl
  · exact bot _
  · cases r' with
    | error e => exact refl _
    | ok a => exact hf a

/-- A run that did not run out is not changed by more fuel. -/
theorem eq {r r' : Except ε α} (h : Le out r r') (hr : r ≠ .error out) : r' = r := by
  rcases h with h | h
  · exact absurd h hr
  · exact h

end Le

/-- A family of computations that is monotone in its fuel. -/
theorem Le.of_le {out : ε} {f : Nat → Except ε α} (h : ∀ n, Le out (f n) (f (n + 1))) {m n : Nat}
    (hmn : m ≤ n) : Le out (f m) (f n) := by
  induction hmn with
  | refl => exact .refl _
  | step _ ih => exact ih.trans (h _)

/-- Two runs of a monotone family that do not run out agree. -/
theorem Le.agree {out : ε} {f : Nat → Except ε α} (h : ∀ n, Le out (f n) (f (n + 1))) {m n : Nat}
    {r r' : Except ε α} (hm : f m = r) (hr : r ≠ .error out) (hn : f n = r')
    (hr' : r' ≠ .error out) : r = r' := by
  subst hm hn
  rcases Nat.le_total m n with hle | hle
  · exact ((of_le h hle).eq hr).symm
  · exact (of_le h hle).eq hr'

/-! ## Computations that end -/

def Ends (f : Nat → Except ε α) (r : Except ε α) : Prop := ∃ n, ∀ m, n ≤ m → f m = r

namespace Ends
variable {f : Nat → Except ε α} {r : Except ε α}

theorem always (h : ∀ n, f n = r) : Ends f r := ⟨0, fun m _ => h m⟩

theorem congr {g : Nat → Except ε α} (h : Ends g r) (heq : ∀ n, f n = g n) : Ends f r := by
  obtain ⟨n, h⟩ := h
  exact ⟨n, fun m hm => (heq m).trans (h m hm)⟩

theorem succ (h : Ends (fun n => f (n + 1)) r) : Ends f r := by
  obtain ⟨n, h⟩ := h
  refine ⟨n + 1, fun m hm => ?_⟩
  obtain ⟨m, rfl⟩ : ∃ k, m = k + 1 := ⟨m - 1, by omega⟩
  exact h m (Nat.le_of_succ_le_succ hm)

theorem bind {a : α} {g : Nat → α → Except ε β} {r : Except ε β} (h : Ends f (.ok a))
    (hg : Ends (fun n => g n a) r) : Ends (fun n => f n >>= g n) r := by
  obtain ⟨n, h⟩ := h
  obtain ⟨n', hg⟩ := hg
  refine ⟨max n n', fun m hm => ?_⟩
  dsimp only
  rw [h m (Nat.le_trans (Nat.le_max_left ..) hm), ok_bind]
  exact hg m (Nat.le_trans (Nat.le_max_right ..) hm)

theorem error {e : ε} {g : Nat → α → Except ε β} (h : Ends f (.error e)) :
    Ends (fun n => f n >>= g n) (.error e) := by
  obtain ⟨n, h⟩ := h
  refine ⟨n, fun m hm => ?_⟩
  dsimp only
  rw [h m hm, error_bind]

/-- One run of a monotone family that does not run out decides. -/
theorem of_eq {out : ε} (hf : ∀ n, Le out (f n) (f (n + 1))) {n : Nat} (h : f n = r)
    (hr : r ≠ .error out) : Ends f r := by
  subst h
  exact ⟨n, fun m hm => (Le.of_le hf hm).eq hr⟩

end Ends
end Malamute.Core
