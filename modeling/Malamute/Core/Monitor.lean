import Malamute.Core.LTS

/-!
# Monitors

A monitor reads a trace and refuses what is not allowed: a deterministic automaton whose
`next` may fail. A system conforms to it if the monitor accepts the trace of every run; it is
enough that each step appends something that takes the monitor from its view of the state
before to its view of the state after (`conforms`).

`Justified J t` is the other kind of condition on a trace: `J` vouches for every entry by those
before it.
-/
namespace Malamute.Core

structure Monitor (Q O : Type) where
  start : Q
  next : Q → O → Option Q

namespace Monitor
variable {Q O : Type} {M : Monitor Q O} {q q' : Q} {o : O} {t t' : List O}

/-- The state after `t`; `none` if something in it is refused. -/
def run (M : Monitor Q O) (q : Q) (t : List O) : Option Q := t.foldlM M.next q

@[simp] theorem run_nil : M.run q [] = some q := rfl

theorem run_cons : M.run q (o :: t) = (M.next q o).bind fun q' => M.run q' t := by
  rw [run, List.foldlM_cons]
  rfl

theorem run_append : M.run q (t ++ t') = (M.run q t).bind fun q' => M.run q' t' := by
  rw [run, List.foldlM_append]
  rfl

/-- Nothing in `t` moves the monitor. -/
theorem run_still (h : ∀ o ∈ t, M.next q o = some q) : M.run q t = some q := by
  induction t with
  | nil => rfl
  | cons o t ih =>
    rw [run_cons, h o List.mem_cons_self, Option.bind_some]
    exact ih fun o' ho' => h o' (List.mem_cons_of_mem _ ho')

/-- A trace that is accepted is accepted up to any place. -/
theorem run_split (h : M.run q (t ++ o :: t') = some q') :
    ∃ q₁ q₂, M.run q t = some q₁ ∧ M.next q₁ o = some q₂ ∧ M.run q₂ t' = some q' := by
  rw [run_append] at h
  obtain ⟨q₁, h₁, h⟩ := Option.bind_eq_some_iff.1 h
  rw [run_cons] at h
  obtain ⟨q₂, h₂, h⟩ := Option.bind_eq_some_iff.1 h
  exact ⟨q₁, q₂, h₁, h₂, h⟩

/-- A state with `P` is only left for another. -/
theorem run_closed {P : Q → Prop} (hP : ∀ q o q', P q → M.next q o = some q' → P q') (hq : P q)
    (h : M.run q t = some q') : P q' := by
  induction t generalizing q with
  | nil =>
    cases h
    exact hq
  | cons o t ih =>
    rw [run_cons] at h
    obtain ⟨q₁, h₁, h⟩ := Option.bind_eq_some_iff.1 h
    exact ih (hP _ _ _ hq h₁) h

variable {S L : Type} {T : LTS S L}

/-- **A system whose steps the monitor accepts conforms to it**: `f` is the trace of a state,
`g` the monitor's view of it. -/
theorem conforms {f : S → List O} {g : S → Q} {I : S → Prop} (hI : T.Inductive I)
    (hinit : ∀ s, T.init s → M.run M.start (f s) = some (g s))
    (hstep : ∀ s l s', I s → T.step s l s' →
      ∃ t, f s' = f s ++ t ∧ M.run (g s) t = some (g s'))
    {s : S} (h : T.Reachable s) : M.run M.start (f s) = some (g s) := by
  have hP := hI.strengthen (Q := fun s => M.run M.start (f s) = some (g s)) hinit
    fun s l s' hIs _ hq hst => by
      obtain ⟨t, ht, hrun⟩ := hstep s l s' hIs hst
      rw [ht, run_append, hq, Option.bind_some, hrun]
  exact (hP.reachable s h).2

end Monitor

/-- `J` holds of every entry and what comes before it. -/
def Justified {O : Type} (J : List O → O → Prop) (t : List O) : Prop :=
  ∀ t₁ o t₂, t = t₁ ++ o :: t₂ → J t₁ o

namespace Justified
variable {O : Type} {J : List O → O → Prop} {t t' : List O} {o : O}

theorem nil : Justified J [] := fun t₁ o t₂ h => by simp at h

theorem snoc (h : Justified J t) (ho : J t o) : Justified J (t ++ [o]) := by
  intro t₁ x t₂ hs
  rcases List.eq_nil_or_concat t₂ with rfl | ⟨t₃, y, rfl⟩
  · obtain ⟨rfl, hx⟩ := List.append_inj' hs rfl
    obtain ⟨rfl, -⟩ := List.cons.inj hx
    exact ho
  · rw [List.concat_eq_append, ← List.cons_append, ← List.append_assoc] at hs
    exact h t₁ x t₃ (List.append_inj' hs rfl).1

/-- What needs no reason may follow. -/
theorem append (h : Justified J t) (ht : ∀ o ∈ t', ∀ t, J t o) : Justified J (t ++ t') := by
  induction t' generalizing t with
  | nil => rwa [List.append_nil]
  | cons o t' ih =>
    rw [List.append_cons]
    exact ih (h.snoc (ht o List.mem_cons_self t)) fun x hx => ht x (List.mem_cons_of_mem _ hx)

/-- What has its reasons before all of it may follow, if reasons last. -/
theorem extend (hJ : ∀ t t' o, J t o → J (t ++ t') o) (h : Justified J t) (ht : ∀ o ∈ t', J t o) :
    Justified J (t ++ t') := by
  induction t' generalizing t with
  | nil => rwa [List.append_nil]
  | cons o t' ih =>
    rw [List.append_cons]
    exact ih (h.snoc (ht o List.mem_cons_self)) fun x hx =>
      hJ t [o] x (ht x (List.mem_cons_of_mem _ hx))

/-- The reason for an entry. -/
theorem of_mem (h : Justified J t) (ho : o ∈ t) : ∃ t₁ t₂, t = t₁ ++ o :: t₂ ∧ J t₁ o := by
  obtain ⟨t₁, t₂, ht⟩ := List.append_of_mem ho
  exact ⟨t₁, t₂, ht, h t₁ o t₂ ht⟩

/-- The entries up to a place. -/
theorem before (h : Justified J (t ++ t')) : Justified J t := fun t₁ o t₂ ht =>
  h t₁ o (t₂ ++ t') (by rw [ht, List.append_assoc, List.cons_append])

end Justified
end Malamute.Core
