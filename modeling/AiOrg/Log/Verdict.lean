import Mathlib

/-!
# Logs of independent records

A log whose records are judged one by one: a record is blank, is rejected with a diagnostic, or is
applied to the state, and which of these it is does not depend on the state. In such a log the
rejected records can be taken out without changing the state (`run_state`), and every one of them
leaves its diagnostic (`run_diagnostics`). A fallible fold that follows the verdicts under an
invariant is the run (`foldlM_eq_foldl`).
-/

namespace AiOrg

open List

/-- What one record does to a state of type `σ`. -/
inductive Verdict (σ δ : Type*) where
  | blank
  | rejected (diagnostic : δ)
  | applied (effect : σ → σ)

namespace Verdict

variable {ι σ δ : Type*}

def isApplied : Verdict σ δ → Bool
  | .applied _ => true
  | _ => false

def diagnostic? : Verdict σ δ → Option δ
  | .rejected d => some d
  | _ => none

def step (s : σ × List δ) : Verdict σ δ → σ × List δ
  | .blank => s
  | .rejected d => (s.1, s.2 ++ [d])
  | .applied effect => (effect s.1, s.2)

def run (verdict : ι → Verdict σ δ) (s : σ × List δ) (log : List ι) : σ × List δ :=
  log.foldl (fun s record => step s (verdict record)) s

variable (verdict : ι → Verdict σ δ)

theorem run_diagnostics (log : List ι) (s : σ × List δ) :
    (run verdict s log).2 = s.2 ++ log.filterMap fun record => (verdict record).diagnostic? := by
  unfold run
  induction log generalizing s with
  | nil => simp
  | cons record log ih =>
    rw [foldl_cons, ih]
    rcases h : verdict record with _ | d | effect <;> simp [step, diagnostic?, h]

/-- The state is the one the applied records alone lead to, and these leave no diagnostic. -/
theorem run_state (log : List ι) (s : σ × List δ) (ds : List δ) :
    run verdict (s.1, ds) (log.filter fun record => (verdict record).isApplied)
      = ((run verdict s log).1, ds) := by
  unfold run
  induction log generalizing s with
  | nil => rfl
  | cons record log ih =>
    rw [foldl_cons, filter_cons]
    rcases h : verdict record with _ | d | effect
    · simpa [isApplied, step] using ih s
    · simpa [isApplied, step] using ih (s.1, s.2 ++ [d])
    · simpa [isApplied, step, h] using ih (effect s.1, s.2)

end Verdict

/-- A fallible fold whose steps succeed as a total step does, as long as an invariant holds. -/
theorem foldlM_eq_foldl {α β ε : Type*} (Inv : β → Prop) (f : β → α → Except ε β) (g : β → α → β)
    (log : List α) (hstep : ∀ a ∈ log, ∀ b, Inv b → f b a = .ok (g b a) ∧ Inv (g b a)) (b : β)
    (hb : Inv b) : log.foldlM f b = .ok (log.foldl g b) ∧ Inv (log.foldl g b) := by
  induction log generalizing b with
  | nil => exact ⟨rfl, hb⟩
  | cons a log ih =>
    obtain ⟨hok, hinv⟩ := hstep a mem_cons_self b hb
    rw [foldlM_cons, hok, foldl_cons]
    exact ih (fun c hc => hstep c (mem_cons_of_mem _ hc)) (g b a) hinv

theorem step_ok_of_foldlM_ok {α β ε : Type*} {f : β → α → Except ε β} {log : List α} {b c : β}
    (h : log.foldlM f b = .ok c) : ∀ a ∈ log, ∃ b' c', f b' a = .ok c' := by
  induction log generalizing b with
  | nil => simp
  | cons a log ih =>
    rw [foldlM_cons] at h
    rcases hstep : f b a with e | b'
    · rw [hstep] at h
      exact absurd h nofun
    · rw [hstep] at h
      exact forall_mem_cons.2 ⟨⟨b, b', hstep⟩, ih h⟩

end AiOrg
