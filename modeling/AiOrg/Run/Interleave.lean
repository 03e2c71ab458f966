import Mathlib

/-!
# Processes that share a value

Any number of processes, each with a local state, take turns on one shared value. A property of
the shared value, and one of each process that the steps of the others do not break, hold in every
reachable state (`Reachable.both`); what one step does to the shared value, a run does
(`Run.shared`).
-/

namespace AiOrg

open Relation

/-- The shared value and the local states. -/
structure Processes (π γ ℓ : Type*) where
  shared : γ
  loc : π → ℓ

namespace Processes

variable {π γ ℓ : Type*} [DecidableEq π]

inductive Step (step : π → γ → ℓ → γ → ℓ → Prop) :
    Processes π γ ℓ → Processes π γ ℓ → Prop where
  | take {s : Processes π γ ℓ} (p : π) {shared : γ} {l : ℓ} (h : step p s.shared (s.loc p) shared l) :
    Step step s ⟨shared, Function.update s.loc p l⟩

def Run (step : π → γ → ℓ → γ → ℓ → Prop) : Processes π γ ℓ → Processes π γ ℓ → Prop :=
  ReflTransGen (Step step)

/-- What a run from one of the initial states leads to. -/
def Reachable (init : Processes π γ ℓ → Prop) (step : π → γ → ℓ → γ → ℓ → Prop)
    (s : Processes π γ ℓ) : Prop := ∃ s₀, init s₀ ∧ Run step s₀ s

variable {init : Processes π γ ℓ → Prop} {step : π → γ → ℓ → γ → ℓ → Prop}

theorem Reachable.run {s s' : Processes π γ ℓ} (h : Reachable init step s) (hrun : Run step s s') :
    Reachable init step s' := by
  obtain ⟨s₀, hinit, hs⟩ := h
  exact ⟨s₀, hinit, hs.trans hrun⟩

theorem Reachable.invariant {I : Processes π γ ℓ → Prop} (hinit : ∀ s, init s → I s)
    (hstep : ∀ s s', Reachable init step s → I s → Step step s s' → I s') {s : Processes π γ ℓ}
    (h : Reachable init step s) : I s := by
  obtain ⟨s₀, hs₀, hrun⟩ := h
  induction hrun with
  | refl => exact hinit s₀ hs₀
  | tail hrun hlast ih => exact hstep _ _ ⟨s₀, hs₀, hrun⟩ ih hlast

/-- A property `I` of the shared value and one `L` of each process: the step of a process keeps its
own and changes the shared value in a way `G` that the properties of the others stand. -/
theorem Reachable.both {I : γ → Prop} {L : π → γ → ℓ → Prop} {G : γ → γ → Prop}
    (hinit : ∀ s, init s → I s.shared ∧ ∀ p, L p s.shared (s.loc p))
    (hstep : ∀ p shared l shared' l', I shared → L p shared l → step p shared l shared' l' →
      I shared' ∧ L p shared' l' ∧ G shared shared')
    (hstable : ∀ p shared shared' l, L p shared l → G shared shared' → L p shared' l)
    {s : Processes π γ ℓ} (h : Reachable init step s) :
    I s.shared ∧ ∀ p, L p s.shared (s.loc p) := by
  refine h.invariant (I := fun s => I s.shared ∧ ∀ p, L p s.shared (s.loc p)) hinit ?_
  rintro s s' - ⟨hI, hL⟩ ⟨p, htake⟩
  obtain ⟨hI', hp, hG⟩ := hstep p _ _ _ _ hI (hL p) htake
  refine ⟨hI', fun q => ?_⟩
  by_cases hq : q = p
  · subst hq
    simpa using hp
  · simpa [Function.update_of_ne hq] using hstable q _ _ _ (hL q) hG

/-- What every step of a run does to the shared value, the run does. -/
theorem Run.shared {G : γ → γ → Prop} (hrefl : ∀ a, G a a)
    (htrans : ∀ a b c, G a b → G b c → G a c)
    (hstep : ∀ s s', Reachable init step s → Step step s s' → G s.shared s'.shared)
    {s s' : Processes π γ ℓ} (h : Reachable init step s) (hrun : Run step s s') :
    G s.shared s'.shared := by
  induction hrun with
  | refl => exact hrefl _
  | tail hrun hlast ih => exact htrans _ _ _ ih (hstep _ _ (h.run hrun) hlast)

theorem Run.solo (step : π → γ → ℓ → γ → ℓ → Prop) (p : π) {a b : γ × ℓ}
    (h : ReflTransGen (fun x y => step p x.1 x.2 y.1 y.2) a b) {s : Processes π γ ℓ}
    (hshared : s.shared = a.1) (hloc : s.loc p = a.2) :
    ∃ s', Run step s s' ∧ s'.shared = b.1 ∧ s'.loc p = b.2 ∧ ∀ q ≠ p, s'.loc q = s.loc q := by
  induction h with
  | refl => exact ⟨s, .refl, hshared, hloc, fun _ _ => rfl⟩
  | @tail b c _ hlast ih =>
    obtain ⟨s', hrun, hshared', hloc', hothers⟩ := ih
    rw [← hshared', ← hloc'] at hlast
    refine ⟨_, hrun.tail (.take p hlast), rfl, Function.update_self .., fun q hq => ?_⟩
    exact (Function.update_of_ne hq ..).trans (hothers q hq)

end Processes

end AiOrg
