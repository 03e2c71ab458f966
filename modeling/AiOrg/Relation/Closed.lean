import Mathlib

/-!
# Finite closed sets of a relation

A finite set closed under a relation holds a point from which every way leads back; a finite set
where everything has a predecessor holds a cycle; below an accessible point there is none.
-/

namespace AiOrg

open Relation

variable {α : Type*} {r : α → α → Prop}

theorem mem_of_reflTransGen {s : Set α} (hs : ∀ x ∈ s, ∀ y, r x y → y ∈ s) {x y : α}
    (h : ReflTransGen r x y) (hx : x ∈ s) : y ∈ s := by
  induction h with
  | refl => exact hx
  | tail _ hyz ih => exact hs _ ih _ hyz

theorem exists_bottom {s : Set α} (hfin : s.Finite) (hne : s.Nonempty)
    (hs : ∀ x ∈ s, ∀ y, r x y → y ∈ s) :
    ∃ x ∈ s, ∀ y, ReflTransGen r x y → ReflTransGen r y x := by
  obtain ⟨x, hx, hmin⟩ := Set.exists_min_image s (fun x => {y | ReflTransGen r x y}.ncard) hfin
    hne
  refine ⟨x, hx, fun y hxy => ?_⟩
  have hsub : {z | ReflTransGen r y z} ⊆ {z | ReflTransGen r x z} := fun z hz => hxy.trans hz
  have hreach : {z | ReflTransGen r x z}.Finite :=
    hfin.subset fun z hz => mem_of_reflTransGen hs hz hx
  have heq := Set.eq_of_subset_of_ncard_le hsub (hmin y (mem_of_reflTransGen hs hxy hx)) hreach
  have hxx : x ∈ {z | ReflTransGen r x z} := ReflTransGen.refl
  rw [← heq] at hxx
  exact hxx

theorem exists_transGen_self {s : Set α} (hfin : s.Finite) (hne : s.Nonempty)
    (hs : ∀ x ∈ s, ∃ y ∈ s, r y x) : ∃ x, TransGen r x x := by
  by_contra hno
  have : Finite s := hfin
  have : IsTrans s (fun a b => TransGen r a b) := ⟨fun _ _ _ => TransGen.trans⟩
  have : Std.Irrefl (fun a b : s => TransGen r a b) := ⟨fun a ha => hno ⟨a, ha⟩⟩
  have hwf := Finite.wellFounded_of_trans_of_irrefl (fun a b : s => TransGen r a b)
  obtain ⟨x, hx⟩ := hne
  obtain ⟨m, -, hm⟩ := hwf.has_min Set.univ ⟨⟨x, hx⟩, trivial⟩
  obtain ⟨y, hy, hym⟩ := hs m m.2
  exact hm ⟨y, hy⟩ trivial (TransGen.single hym)

theorem not_transGen_self_of_acc {x : α} (h : Acc (fun b a => r a b) x) : ¬ TransGen r x x := by
  induction h with
  | intro x _ ih =>
    intro hx
    obtain ⟨y, hxy, hyx⟩ := TransGen.head'_iff.1 hx
    exact ih y hxy (TransGen.tail'_iff.2 ⟨x, hyx, hxy⟩)

structure ClosedWalk (r : α → α → Prop) (walk : List α) : Prop where
  chain : walk.IsChain r
  ends : walk.head? = walk.getLast?
  steps : 2 ≤ walk.length

theorem ClosedWalk.transGen {walk : List α} (h : ClosedWalk r walk) : ∃ x, TransGen r x x := by
  obtain ⟨chain, ends, steps⟩ := h
  match walk, steps with
  | x :: y :: rest, _ =>
    rw [List.isChain_cons_cons] at chain
    have hlast : (y :: rest).getLast (List.cons_ne_nil y rest) = x := by
      simpa [List.getLast?_eq_getLast_of_ne_nil, eq_comm] using ends
    have hback := List.relationReflTransGen_of_exists_isChain_cons rest chain.2 hlast
    exact ⟨x, TransGen.head' chain.1 hback⟩

/-- A cycle leads to every point of a closed walk. -/
theorem ClosedWalk.reached {walk : List α} (h : ClosedWalk r walk) {y : α} (hy : y ∈ walk) :
    ∃ x, TransGen r x x ∧ ReflTransGen r x y := by
  obtain ⟨chain, ends, steps⟩ := h
  match walk, steps with
  | x :: z :: rest, _ =>
    have hwalk : (x :: z :: rest).Pairwise (TransGen r) := List.isChain_iff_pairwise.1 (chain.imp fun _ _ => TransGen.single)
    have hfrom := (List.pairwise_cons.1 hwalk).1
    have hlast : (z :: rest).getLast (List.cons_ne_nil z rest) = x := by
      simpa [List.getLast?_eq_getLast_of_ne_nil, eq_comm] using ends
    refine ⟨x, hlast ▸ hfrom _ (List.getLast_mem _), ?_⟩
    rcases List.mem_cons.1 hy with rfl | hy
    · exact .refl
    · exact (hfrom y hy).to_reflTransGen

end AiOrg
