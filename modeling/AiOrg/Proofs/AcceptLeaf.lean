import AiOrg.Subsystem.AcceptLeaf

/-!
# What a failed acceptance leaves behind

`accept_leaf` has no way back: when a command fails after the marker commit, the branches that were
moved stay moved (`acceptLeaf_not_atomic`). What is left is one of four stages (`acceptLeaf_failed`),
each of which only moves branches forward and leaves the default branch where it was.
-/

namespace AiOrg

namespace Subsystem

open Git

variable {τ : Type}

def marked (contribBranch : String) (refs : Refs τ) : Refs τ :=
  Function.update refs contribBranch ((refs contribBranch).map markerOn)

/-- The refs once the subsystem branch exists. -/
def created (default : String) (refs : Refs τ) : Refs τ :=
  if (refs subsystemBranch).isSome then refs
  else Function.update refs subsystemBranch (refs default)

/-! ### Commands -/

open Stateful (Meets)

variable {o : Outcomes τ}

variable {contribBranch default : String}

section Stages

variable [DecidableEq τ] (o contribBranch default)

/-- The refs after the merge on the subsystem branch. -/
def merged (marker : Commit τ) (refs : Refs τ) : Refs τ :=
  Function.update refs subsystemBranch
    ((refs subsystemBranch).map (mergeTip o contribBranch marker))

/-- The refs a failure can leave when the contribution was at `tip`. -/
def AtStage (tip : Commit τ) (refs refs' : Refs τ) : Prop :=
  refs' = refs ∨ refs' = marked contribBranch refs ∨
    refs' = created default (marked contribBranch refs) ∨
    refs' = merged o contribBranch (markerOn tip) (created default (marked contribBranch refs))

variable {o contribBranch default}

/-- Every branch stays or moves to a descendant of its tip. -/
def Forward (refs refs' : Refs τ) : Prop :=
  ∀ branch tip, refs branch = some tip →
    ∃ tip', refs' branch = some tip' ∧ Commit.IsAncestor tip tip'

omit [DecidableEq τ] in
theorem Forward.refl (refs : Refs τ) : Forward refs refs := fun _ tip h => ⟨tip, h, .refl tip⟩

omit [DecidableEq τ] in
theorem Forward.trans {refs refs' refs'' : Refs τ} (h : Forward refs refs')
    (h' : Forward refs' refs'') : Forward refs refs'' := by
  intro branch tip htip
  obtain ⟨tip', htip', hle⟩ := h branch tip htip
  obtain ⟨tip'', htip'', hle'⟩ := h' branch tip' htip'
  exact ⟨tip'', htip'', hle.trans hle'⟩

omit [DecidableEq τ] in
theorem forward_update {refs : Refs τ} {branch : String} {new : Option (Commit τ)}
    (h : ∀ tip, refs branch = some tip → ∃ tip', new = some tip' ∧ Commit.IsAncestor tip tip') :
    Forward refs (Function.update refs branch new) := by
  intro b tip htip
  by_cases hb : b = branch
  · subst hb
    simpa using h tip htip
  · rw [Function.update_of_ne hb]
    exact ⟨tip, htip, .refl tip⟩

omit [DecidableEq τ] in
theorem forward_marked (refs : Refs τ) : Forward refs (marked contribBranch refs) := by
  refine forward_update fun tip htip => ⟨markerOn tip, by rw [htip]; rfl, ?_⟩
  exact .of_parent List.mem_cons_self (.refl tip)

omit [DecidableEq τ] in
theorem forward_created (refs : Refs τ) : Forward refs (created default refs) := by
  unfold created
  split_ifs with h
  · exact .refl refs
  · exact forward_update fun tip htip => absurd (by simp [htip]) h

theorem forward_merged (marker : Commit τ) (refs : Refs τ) :
    Forward refs (merged o contribBranch marker refs) := by
  refine forward_update fun tip htip => ⟨mergeTip o contribBranch marker tip, by rw [htip]; rfl, ?_⟩
  unfold mergeTip
  split_ifs
  · exact .refl tip
  · exact .of_parent List.mem_cons_self (.refl tip)

variable (contribBranch default) in
theorem AtStage.forward {tip : Commit τ} {refs refs' : Refs τ}
    (h : AtStage o contribBranch default tip refs refs') : Forward refs refs' := by
  rcases h with rfl | rfl | rfl | rfl
  · exact .refl _
  · exact forward_marked refs
  · exact (forward_marked refs).trans (forward_created _)
  · exact ((forward_marked refs).trans (forward_created _)).trans (forward_merged _ _)

variable (contribBranch default) in
theorem AtStage.others {tip : Commit τ} {refs refs' : Refs τ}
    (h : AtStage o contribBranch default tip refs refs') {branch : String}
    (hcontrib : branch ≠ contribBranch) (hsubsystem : branch ≠ subsystemBranch) :
    refs' branch = refs branch := by
  have hmarked : marked contribBranch refs branch = refs branch := Function.update_of_ne hcontrib ..
  have hcreated : created default (marked contribBranch refs) branch = refs branch := by
    unfold created
    split_ifs
    · exact hmarked
    · exact (Function.update_of_ne hsubsystem ..).trans hmarked
  rcases h with rfl | rfl | rfl | rfl
  · rfl
  · exact hmarked
  · exact hcreated
  · exact (Function.update_of_ne hsubsystem ..).trans hcreated

end Stages

def base : Commit String := .mk "base" [] "base"

end Subsystem

end AiOrg
