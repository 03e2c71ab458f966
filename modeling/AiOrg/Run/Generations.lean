import Mathlib

/-!
# Generations

Generations of elements with links between them. An element keeps its links as long as it is held, and the
links of a new one lead to elements that the generation before held and this one does not. Where nothing that a
link leads to comes back after it was gone, the links have no cycle.
-/

namespace AiOrg

structure Generations (α : Type*) where
  last : ℕ
  Held : ℕ → α → Prop
  Link : ℕ → α → α → Prop
  start : ∀ x y, ¬ Link 0 x y
  held : ∀ i x y, i ≤ last → Link i x y → Held i x
  retained : ∀ i x y, i < last → Held i x → Link (i + 1) x y → Link i x y
  minted : ∀ i x y, i < last → ¬ Held i x → Link (i + 1) x y → Held i y ∧ ¬ Held (i + 1) y

namespace Generations

variable {α : Type*} {g : Generations α} {i j : ℕ} {x y : α}

/-- An element comes back after it was gone. -/
def Returns (g : Generations α) (x : α) : Prop :=
  ∃ i j k, i < j ∧ j < k ∧ k ≤ g.last ∧ g.Held i x ∧ ¬ g.Held j x ∧ g.Held k x

/-- Some generation links one element to another. -/
def Linked (g : Generations α) (x y : α) : Prop := ∃ i ≤ g.last, g.Link i x y

theorem exists_minted (hi : i ≤ g.last) (h : g.Link i x y) :
    ∃ k < i, ¬ g.Held k x ∧ g.Held (k + 1) x ∧ g.Held k y ∧ ¬ g.Held (k + 1) y := by
  induction i with
  | zero => exact absurd h (g.start x y)
  | succ i ih =>
    by_cases hx : g.Held i x
    · obtain ⟨k, hk, hminted⟩ := ih (by omega) (g.retained i x y (by omega) hx h)
      exact ⟨k, by omega, hminted⟩
    · obtain ⟨hy, hgone⟩ := g.minted i x y (by omega) hx h
      exact ⟨i, by omega, hx, g.held _ x y hi h, hy, hgone⟩

theorem not_held_of_link (hreturn : ¬ g.Returns y) (h : g.Link i x y) (hij : i ≤ j) (hj : j ≤ g.last) :
    ¬ g.Held j y := by
  intro hheld
  obtain ⟨k, hk, -, -, hy, hgone⟩ := exists_minted (hij.trans hj) h
  rcases (show k + 1 ≤ j by omega).eq_or_lt with rfl | hlt
  · exact hgone hheld
  · exact hreturn ⟨k, k + 1, j, by omega, hlt, hj, hy, hgone, hheld⟩

theorem Linked.held_before (hreturn : ¬ g.Returns x) (h : g.Linked x y) :
    ∃ k, g.Held k y ∧ ∀ m ≤ k, ¬ g.Held m x := by
  obtain ⟨i, hi, h⟩ := h
  obtain ⟨k, hk, hnew, hnext, hy, -⟩ := exists_minted hi h
  refine ⟨k, hy, fun m hm hheld => ?_⟩
  rcases hm.eq_or_lt with rfl | hlt
  · exact hnew hheld
  · exact hreturn ⟨m, k, k + 1, hlt, by omega, by omega, hheld, hnew, hnext⟩

theorem held_before (hx : ¬ g.Returns x) (hreturn : ∀ x y, g.Linked x y → ¬ g.Returns y)
    (h : Relation.TransGen g.Linked x y) : ∃ k, g.Held k y ∧ ∀ m ≤ k, ¬ g.Held m x := by
  induction h with
  | single h => exact h.held_before hx
  | tail hchain h ih =>
    obtain ⟨_, -, hlast⟩ := Relation.TransGen.tail'_iff.1 hchain
    obtain ⟨k, hk, hbefore⟩ := ih
    obtain ⟨l, hl, hbefore'⟩ := h.held_before (hreturn _ _ hlast)
    have hlt : l < k := by
      by_contra hle
      exact hbefore' k (by omega) hk
    exact ⟨l, hl, fun m hm => hbefore m (by omega)⟩

theorem acyclic (hreturn : ∀ x y, g.Linked x y → ¬ g.Returns y) (x : α) :
    ¬ Relation.TransGen g.Linked x x := by
  intro h
  obtain ⟨_, -, hlast⟩ := Relation.TransGen.tail'_iff.1 h
  obtain ⟨k, hk, hbefore⟩ := held_before (hreturn _ _ hlast) hreturn h
  exact hbefore k le_rfl hk

end Generations

end AiOrg
