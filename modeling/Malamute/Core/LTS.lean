/-!
# Labelled transition systems

`Run` is a finite sequence of labelled steps, `Reachable` the states a run
from an initial state ends in. `Inductive P` packages the two obligations of
an invariant; `Inductive.reachable` is the induction over runs, done once.
`LTS.within ok` keeps only the steps that meet `ok` (a condition on the state
before the step and the label), for properties that hold of the runs whose
steps all meet it. `Refines U I f g` says that `f` maps the steps of one system to
steps of another or to none, and `g` which. `T.Next b a` if `b` comes right after `a`: that
no run from `a` is infinite is `Acc T.Next a`.
-/
namespace Malamute.Core

structure LTS (S L : Type) where
  init : S → Prop
  step : S → L → S → Prop

namespace LTS
variable {S L : Type} {T : LTS S L}

inductive Run (T : LTS S L) : S → List L → S → Prop where
  | nil (s : S) : Run T s [] s
  | snoc {s s' s'' : S} {ls : List L} {l : L} :
      Run T s ls s' → T.step s' l s'' → Run T s (ls ++ [l]) s''

def Reachable (T : LTS S L) (s : S) : Prop := ∃ s₀ ls, T.init s₀ ∧ T.Run s₀ ls s

theorem Run.single {s s' : S} {l : L} (h : T.step s l s') : T.Run s [l] s' :=
  .snoc (.nil s) h

theorem Run.append {a b c : S} {l1 l2 : List L} (h1 : T.Run a l1 b) (h2 : T.Run b l2 c) :
    T.Run a (l1 ++ l2) c := by
  induction h2 with
  | nil => simpa using h1
  | snoc _ hs ih => rw [← List.append_assoc]; exact .snoc ih hs

theorem Run.nil_eq {a c : S} (h : T.Run a [] c) : c = a := by
  obtain ⟨ls, hls⟩ : ∃ ls : List L, ls = [] := ⟨_, rfl⟩
  rw [← hls] at h
  cases h with
  | nil => rfl
  | snoc _ _ => simp at hls

/-- A run taken apart at its first step. -/
theorem Run.cons_iff {a c : S} {l : L} {ls : List L} :
    T.Run a (l :: ls) c ↔ ∃ b, T.step a l b ∧ T.Run b ls c := by
  constructor
  · intro h
    obtain ⟨ks, hks⟩ : ∃ ks, ks = l :: ls := ⟨_, rfl⟩
    rw [← hks] at h
    induction h generalizing ls with
    | nil => cases hks
    | @snoc s' s'' ks' l' hrun hstep ih =>
      cases ks' with
      | nil =>
        cases hks
        rw [hrun.nil_eq] at hstep
        exact ⟨s'', hstep, .nil _⟩
      | cons k ks' =>
        cases hks
        obtain ⟨b, hb, hrest⟩ := ih rfl
        exact ⟨b, hb, .snoc hrest hstep⟩
  · rintro ⟨b, hstep, hrun⟩
    exact (Run.single hstep).append hrun

theorem Reachable.initial {s : S} (h : T.init s) : T.Reachable s := ⟨s, [], h, .nil s⟩

theorem Reachable.step {s s' : S} {l : L} (hr : T.Reachable s) (h : T.step s l s') :
    T.Reachable s' := by
  obtain ⟨s₀, ls, hi, hrun⟩ := hr
  exact ⟨s₀, ls ++ [l], hi, .snoc hrun h⟩

theorem Reachable.run {s s' : S} {ls : List L} (hr : T.Reachable s) (h : T.Run s ls s') :
    T.Reachable s' := by
  obtain ⟨s₀, ls₀, hi, hrun⟩ := hr
  exact ⟨s₀, ls₀ ++ ls, hi, hrun.append h⟩

/-- Steps computed one after the other are a run. -/
theorem Run.of_foldlM {f : S → L → Option S} {ls : List L} {s s' : S}
    (hf : ∀ s l s', f s l = some s' → T.step s l s') (h : ls.foldlM f s = some s') :
    T.Run s ls s' := by
  induction ls generalizing s with
  | nil =>
    cases h
    exact .nil _
  | cons l ls ih =>
    rw [List.foldlM_cons] at h
    obtain ⟨b, hb, hrest⟩ := Option.bind_eq_some_iff.1 h
    exact cons_iff.2 ⟨b, hf _ _ _ hb, ih hrest⟩

/-- The two obligations of an invariant. -/
structure Inductive (T : LTS S L) (P : S → Prop) : Prop where
  init : ∀ s, T.init s → P s
  step : ∀ s l s', P s → T.step s l s' → P s'

theorem Inductive.run {P : S → Prop} (h : T.Inductive P) {s s' : S} {ls : List L}
    (hs : P s) (hr : T.Run s ls s') : P s' := by
  induction hr with
  | nil => exact hs
  | snoc _ hstep ih => exact h.step _ _ _ ih hstep

theorem Inductive.reachable {P : S → Prop} (h : T.Inductive P) (s : S) (hr : T.Reachable s) :
    P s := by
  obtain ⟨s₀, ls, hi, hrun⟩ := hr
  exact h.run (h.init s₀ hi) hrun

/-- A run from a state with `P` to one without it has a step that loses `P`. -/
theorem Run.exists_loss {P : S → Prop} {s s' : S} {ls : List L} (h : T.Run s ls s') (hs : P s)
    (hs' : ¬P s') : ∃ l₁ l l₂ b a, ls = l₁ ++ l :: l₂ ∧ T.Run s l₁ b ∧ T.step b l a ∧
      T.Run a l₂ s' ∧ P b ∧ ¬P a := by
  induction h with
  | nil => exact absurd hs hs'
  | @snoc b s'' ls l hrun hstep ih =>
    by_cases hb : P b
    · exact ⟨ls, l, [], b, s'', rfl, hrun, hstep, .nil _, hb, hs'⟩
    · obtain ⟨l₁, l', l₂, b', a, rfl, h₁, hl, h₂, hb', ha⟩ := ih hb
      exact ⟨l₁, l', l₂ ++ [l], b', a, by simp, h₁, hl, .snoc h₂ hstep, hb', ha⟩

/-- An invariant may use another one that is already known: `Q` is proved on
steps between states that satisfy `P`. -/
theorem Inductive.strengthen {P Q : S → Prop} (hP : T.Inductive P) (hi : ∀ s, T.init s → Q s)
    (hs : ∀ s l s', P s → P s' → Q s → T.step s l s' → Q s') :
    T.Inductive (fun s => P s ∧ Q s) where
  init s h := ⟨hP.init s h, hi s h⟩
  step s l s' h hst := ⟨hP.step s l s' h.1 hst, hs s l s' h.1 (hP.step s l s' h.1 hst) h.2 hst⟩

/-- The steps of `T` that meet `ok`. -/
def within (T : LTS S L) (ok : S → L → Prop) : LTS S L where
  init := T.init
  step s l s' := ok s l ∧ T.step s l s'

theorem Run.of_within {ok : S → L → Prop} {s s' : S} {ls : List L}
    (h : (T.within ok).Run s ls s') : T.Run s ls s' := by
  induction h with
  | nil => exact .nil _
  | snoc _ hs ih => exact .snoc ih hs.2

theorem Reachable.of_within {ok : S → L → Prop} {s : S} (h : (T.within ok).Reachable s) :
    T.Reachable s := by
  obtain ⟨s₀, ls, hi, hrun⟩ := h
  exact ⟨s₀, ls, hi, hrun.of_within⟩

theorem Reachable.weaken {ok ok' : S → L → Prop} {s : S} (h : (T.within ok).Reachable s)
    (hok : ∀ s l, ok s l → ok' s l) : (T.within ok').Reachable s := by
  obtain ⟨s₀, ls, hi, hrun⟩ := h
  refine ⟨s₀, ls, hi, ?_⟩
  clear hi
  induction hrun with
  | nil => exact .nil _
  | snoc _ hs ih => exact .snoc ih ⟨hok _ _ hs.1, hs.2⟩

/-- A condition that every step meets takes no state away. -/
theorem Reachable.within {ok : S → L → Prop} {s : S} (h : T.Reachable s) (hok : ∀ s l, ok s l) :
    (T.within ok).Reachable s := by
  obtain ⟨s₀, ls, hi, hrun⟩ := h
  refine ⟨s₀, ls, hi, ?_⟩
  clear hi
  induction hrun with
  | nil => exact .nil _
  | snoc _ hs ih => exact .snoc ih ⟨hok _ _, hs⟩

theorem Inductive.within {P : S → Prop} (h : T.Inductive P) (ok : S → L → Prop) :
    (T.within ok).Inductive P where
  init := h.init
  step s l s' hP hs := h.step s l s' hP hs.2

/-! ## Termination -/

def Next (T : LTS S L) (b a : S) : Prop := ∃ l, T.step a l b

/-- From states with `I`, each step makes `f` smaller. -/
theorem acc_next {A : Type} {r : A → A → Prop} (hr : WellFounded r) (f : S → A) {I : S → Prop}
    (hI : ∀ s l s', I s → T.step s l s' → I s' ∧ r (f s') (f s)) {s : S} (hs : I s) :
    Acc T.Next s := by
  revert hs
  refine (InvImage.wf f hr).induction (C := fun s => I s → Acc T.Next s) s fun s ih hs => ?_
  refine ⟨s, fun b hb => ?_⟩
  obtain ⟨l, hstep⟩ := hb
  obtain ⟨hb, hlt⟩ := hI s l b hs hstep
  exact ih b hlt hb

/-! ## Refinement -/

/-- From states with `I`, a step `l` of `T` is the step `g s l` of `U` between the images
under `f`, or leaves the image as it is. -/
structure Refines {S' L' : Type} (T : LTS S L) (U : LTS S' L') (I : S → Prop) (f : S → S')
    (g : S → L → Option L') : Prop where
  init : ∀ s, T.init s → U.init (f s)
  step : ∀ s l s', I s → T.step s l s' →
    (∃ l', g s l = some l' ∧ U.step (f s) l' (f s')) ∨ g s l = none ∧ f s' = f s

section
variable {S' L' : Type} {U : LTS S' L'} {I : S → Prop} {f : S → S'} {g : S → L → Option L'}

theorem Refines.reachable {s : S} (h : T.Refines U I f g) (hI : T.Inductive I)
    (hs : T.Reachable s) : U.Reachable (f s) := by
  have hP : T.Inductive fun s => I s ∧ U.Reachable (f s) := by
    refine hI.strengthen (fun s hs => .initial (h.init s hs)) fun s l s' hi _ hr hst => ?_
    rcases h.step s l s' hi hst with ⟨l', -, hst'⟩ | ⟨-, heq⟩
    · exact hr.step hst'
    · rw [heq]
      exact hr
  exact (hP.reachable s hs).2

/-- A condition on the steps of `U` is one on the steps of `T` that make them. -/
theorem Refines.within (h : T.Refines U I f g) (ok : S' → L' → Prop) :
    (T.within fun s l => ∀ l', g s l = some l' → ok (f s) l').Refines (U.within ok) I f g where
  init := h.init
  step s l s' hi hst := by
    rcases h.step s l s' hi hst.2 with ⟨l', hl, hst'⟩ | hstill
    · exact .inl ⟨l', hl, hst.1 l' hl, hst'⟩
    · exact .inr hstill

end
end LTS
end Malamute.Core
