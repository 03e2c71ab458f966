import Mathlib

/-!
# Programs that fail and keep their effects

A program changes a state and returns or raises; what it did before it raised stays done. `Meets`
says where it can end from the states of a precondition, one rule per construct.
-/

namespace AiOrg

/-- A program over a state `σ` that may raise an `ε`. -/
abbrev Stateful (σ ε α : Type) := ExceptT ε (StateM σ) α

namespace Stateful

variable {σ ε α β : Type}

/-- What a program returns or raises, and the state it leaves. -/
def exec (m : Stateful σ ε α) (s : σ) : Except ε α × σ := StateT.run (ExceptT.run m) s

/-- `try: body` with `finally: cleanup`; what the cleanup raises replaces what the body did. -/
def finallyDo (body : Stateful σ ε α) (cleanup : Stateful σ ε Unit) : Stateful σ ε α :=
  ExceptT.mk fun s =>
    match exec body s with
    | (result, s') =>
      match exec cleanup s' with
      | (.ok (), s'') => (result, s'')
      | (.error e, s'') => (.error e, s'')

theorem exec_bind (m : Stateful σ ε α) (f : α → Stateful σ ε β) (s : σ) :
    exec (m >>= f) s = match exec m s with
      | (.ok a, s') => exec (f a) s'
      | (.error e, s') => (.error e, s') := by
  unfold exec
  rw [ExceptT.run_bind, StateT.run_bind]
  rcases StateT.run (ExceptT.run m) s with ⟨_ | a, s'⟩ <;> rfl

theorem exec_finallyDo (body : Stateful σ ε α) (cleanup : Stateful σ ε Unit) (s : σ) :
    exec (finallyDo body cleanup) s =
      match exec body s with
      | (result, s') =>
        match exec cleanup s' with
        | (.ok (), s'') => (result, s'')
        | (.error e, s'') => (.error e, s'') := rfl

/-- From a state of `pre` a program returns `a` in a state of `post a`, or raises in one of
`raised`. -/
def Meets (pre : σ → Prop) (m : Stateful σ ε α) (post : α → σ → Prop) (raised : σ → Prop) : Prop :=
  ∀ s, pre s → match exec m s with
    | (.ok a, s') => post a s'
    | (.error _, s') => raised s'

variable {pre pre' raised : σ → Prop} {Q : α → σ → Prop} {post : β → σ → Prop}

namespace Meets

theorem pure {a : β} (h : ∀ s, pre s → post a s) :
    Meets pre (Pure.pure a : Stateful σ ε β) post raised := h

theorem throw {e : ε} (h : ∀ s, pre s → raised s) :
    Meets pre (MonadExcept.throw e : Stateful σ ε β) post raised := h

theorem bind {m : Stateful σ ε α} {f : α → Stateful σ ε β} (hm : Meets pre m Q raised)
    (hf : ∀ a, Meets (Q a) (f a) post raised) : Meets pre (m >>= f) post raised := by
  intro s hs
  have hs' := hm s hs
  rw [exec_bind]
  rcases hexec : exec m s with ⟨_ | a, s'⟩ <;> rw [hexec] at hs'
  · exact hs'
  · exact hf a s' hs'

theorem get {Q : σ → σ → Prop} (h : ∀ s, pre s → Q s s) :
    Meets pre (MonadState.get : Stateful σ ε σ) Q raised := h

theorem update {f : σ → σ} {post : PUnit → σ → Prop} (h : ∀ s, pre s → post ⟨⟩ (f s)) :
    Meets pre (modify f : Stateful σ ε PUnit) post raised := h

theorem weaken {m : Stateful σ ε β} (hm : Meets pre m post raised) (h : ∀ s, pre' s → pre s) :
    Meets pre' m post raised := fun s hs => hm s (h s hs)

theorem raises {m : Stateful σ ε β} {raised' : σ → Prop} (hm : Meets pre m post raised)
    (h : ∀ s, raised s → raised' s) : Meets pre m post raised' := by
  intro s hs
  have hs' := hm s hs
  rcases hrun : exec m s with ⟨_ | b, s'⟩ <;> rw [hrun] at hs'
  · exact h s' hs'
  · exact hs'

theorem returns {m : Stateful σ ε β} {post' : β → σ → Prop} (hm : Meets pre m post raised)
    (h : ∀ b s, post b s → post' b s) : Meets pre m post' raised := by
  intro s hs
  have hs' := hm s hs
  rcases hrun : exec m s with ⟨_ | b, s'⟩ <;> rw [hrun] at hs'
  · exact hs'
  · exact h b s' hs'

theorem finallyDo {body : Stateful σ ε β} {cleanup : Stateful σ ε Unit}
    (hbody : Meets pre body post raised)
    (hpost : ∀ b, Meets (post b) cleanup (fun _ => post b) raised)
    (hraised : Meets raised cleanup (fun _ => raised) raised) :
    Meets pre (Stateful.finallyDo body cleanup) post raised := by
  intro s hs
  have hs' := hbody s hs
  rw [exec_finallyDo]
  rcases hbodyRun : exec body s with ⟨_ | b, s'⟩ <;> rw [hbodyRun] at hs'
  · have hclean := hraised s' hs'
    rcases hrun : exec cleanup s' with ⟨_ | _, s''⟩ <;> rw [hrun] at hclean <;>
      simpa [hrun] using hclean
  · have hclean := hpost b s' hs'
    rcases hrun : exec cleanup s' with ⟨_ | _, s''⟩ <;> rw [hrun] at hclean <;>
      simpa [hrun] using hclean

end Meets

end Stateful

end AiOrg
