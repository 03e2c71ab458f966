import AiOrg.Git.Commit
import AiOrg.Relation.Reduction

/-!
# The dependency graph of branches

`dependency_graph` keeps the edges of ancestry that lead through no third ref. Where two refs name one commit, each
is between the other and everything else, so the edges of both are dropped.
-/

namespace AiOrg

open List

namespace Git

open Relation

variable {τ : Type} [DecidableEq τ] (resolve : String → Option (Commit τ))

/-- `git merge-base --is-ancestor` on names, which fails on a name of no commit. -/
def is_ancestor (a b : String) : Bool :=
  (resolve a).any fun ancestor => (resolve b).any fun descendant => decide (ancestor.IsAncestor descendant)

/-- The refs that name a commit. -/
def existing (refs : List String) : List String := refs.filter fun ref => (resolve ref).isSome

def ancestryEdges (refs : List String) : List (String × String) :=
  (existing resolve refs).flatMap fun ancestor =>
    ((existing resolve refs).filter fun descendant => ancestor ≠ descendant && is_ancestor resolve ancestor descendant).map
      (Prod.mk ancestor)

/-- The edges from an ancestor to a descendant, in order and each once. -/
def dependency_graph (refs : List String) : List (String × String) :=
  let reduced := (ancestryEdges resolve refs).filter fun edge =>
    !(existing resolve refs).any fun middle => middle ≠ edge.1 && middle ≠ edge.2 &&
      is_ancestor resolve edge.1 middle && is_ancestor resolve middle edge.2
  reduced.dedup.insertionSort fun x y => toLex x ≤ toLex y

variable {resolve} {refs : List String} {a b c : String}

theorem is_ancestor_iff : is_ancestor resolve a b = true ↔
    ∃ x y, resolve a = some x ∧ resolve b = some y ∧ x.IsAncestor y := by
  simp [is_ancestor, Option.any_eq_true]

omit [DecidableEq τ] in
theorem mem_existing : a ∈ existing resolve refs ↔ a ∈ refs ∧ (resolve a).isSome = true := mem_filter

theorem mem_existing_left (ha : a ∈ refs) (h : is_ancestor resolve a b = true) : a ∈ existing resolve refs := by
  obtain ⟨x, -, hx, -⟩ := is_ancestor_iff.1 h
  exact mem_existing.2 ⟨ha, by simp [hx]⟩

theorem mem_existing_right (hb : b ∈ refs) (h : is_ancestor resolve a b = true) : b ∈ existing resolve refs := by
  obtain ⟨-, y, -, hy, -⟩ := is_ancestor_iff.1 h
  exact mem_existing.2 ⟨hb, by simp [hy]⟩

theorem is_ancestor_refl (h : a ∈ existing resolve refs) : is_ancestor resolve a a = true := by
  obtain ⟨x, hx⟩ := Option.isSome_iff_exists.1 (mem_existing.1 h).2
  exact is_ancestor_iff.2 ⟨x, x, hx, hx, .refl x⟩

theorem is_ancestor_trans (hab : is_ancestor resolve a b = true) (hbc : is_ancestor resolve b c = true) :
    is_ancestor resolve a c = true := by
  obtain ⟨x, y, hx, hy, hxy⟩ := is_ancestor_iff.1 hab
  obtain ⟨y', z, hy', hz, hyz⟩ := is_ancestor_iff.1 hbc
  obtain rfl := Option.eq_some_unique hy hy'
  exact is_ancestor_iff.2 ⟨x, z, hx, hz, hxy.trans hyz⟩

theorem is_ancestor_mutual_iff : is_ancestor resolve a b = true ∧ is_ancestor resolve b a = true ↔
    resolve a = resolve b ∧ (resolve a).isSome = true := by
  constructor
  · rintro ⟨hab, hba⟩
    obtain ⟨x, y, hx, hy, hxy⟩ := is_ancestor_iff.1 hab
    obtain ⟨y', x', hy', hx', hyx⟩ := is_ancestor_iff.1 hba
    obtain rfl := Option.eq_some_unique hx hx'
    obtain rfl := Option.eq_some_unique hy hy'
    rw [hx, hy, hxy.antisymm hyx]
    exact ⟨rfl, rfl⟩
  · rintro ⟨heq, hsome⟩
    obtain ⟨x, hx⟩ := Option.isSome_iff_exists.1 hsome
    have hy := heq.symm.trans hx
    exact ⟨is_ancestor_iff.2 ⟨x, x, hx, hy, .refl x⟩, is_ancestor_iff.2 ⟨x, x, hy, hx, .refl x⟩⟩

theorem mem_ancestryEdges : (a, b) ∈ ancestryEdges resolve refs ↔
    a ∈ existing resolve refs ∧ b ∈ existing resolve refs ∧ a ≠ b ∧ is_ancestor resolve a b = true := by
  simp only [ancestryEdges, mem_flatMap, mem_map, mem_filter, Bool.and_eq_true, decide_eq_true_eq,
    Prod.mk.injEq]
  constructor
  · rintro ⟨a, ha, b, ⟨hb, hne, hab⟩, rfl, rfl⟩
    exact ⟨ha, hb, hne, hab⟩
  · rintro ⟨ha, hb, hne, hab⟩
    exact ⟨a, ha, b, ⟨hb, hne, hab⟩, rfl, rfl⟩

theorem mem_dependency_graph : (a, b) ∈ dependency_graph resolve refs ↔
    Kept (fun x y => is_ancestor resolve x y = true) (existing resolve refs).toFinset a b := by
  have hreduced : ∀ middle, (middle ≠ a && middle ≠ b && is_ancestor resolve a middle && is_ancestor resolve middle b) =
      true ↔ middle ≠ a ∧ middle ≠ b ∧ is_ancestor resolve a middle = true ∧ is_ancestor resolve middle b = true := by
    intro middle
    simp [and_assoc]
  rw [dependency_graph, mem_insertionSort, mem_dedup, mem_filter, mem_ancestryEdges,
    Bool.not_eq_true', any_eq_false]
  simp only [hreduced]
  constructor
  · rintro ⟨⟨ha, hb, hne, hab⟩, hdirect⟩
    exact ⟨mem_toFinset.2 ha, mem_toFinset.2 hb, hne, hab, fun middle hmiddle hma hmb ham hmb' =>
      hdirect middle (mem_toFinset.1 hmiddle) ⟨hma, hmb, ham, hmb'⟩⟩
  · rintro ⟨ha, hb, hne, hab, hdirect⟩
    exact ⟨⟨mem_toFinset.1 ha, mem_toFinset.1 hb, hne, hab⟩, fun middle hmiddle h =>
      hdirect middle (mem_toFinset.2 hmiddle) h.1 h.2.1 h.2.2.1 h.2.2.2⟩

/-- Two refs that name one commit are related to no third ref. -/
def TwinsAlone (resolve : String → Option (Commit τ)) (refs : List String) : Prop :=
  ∀ a ∈ refs, ∀ b ∈ refs, a ≠ b → resolve a = resolve b → (resolve a).isSome = true →
    ∀ c ∈ refs, c ≠ a → c ≠ b → is_ancestor resolve a c = false ∧ is_ancestor resolve c a = false

theorem isolated_iff :
    Isolated (fun x y => is_ancestor resolve x y = true) (existing resolve refs).toFinset ↔ TwinsAlone resolve refs := by
  simp only [Isolated, mem_toFinset, Bool.not_eq_true]
  constructor
  · intro h a ha b hb hne heq hsome c hc hca hcb
    obtain ⟨hab, hba⟩ := is_ancestor_mutual_iff.2 ⟨heq, hsome⟩
    have halone := h a (mem_existing_left ha hab) b (mem_existing_right hb hab) hne hab hba
    constructor
    · by_contra hac
      have hac := Bool.eq_true_of_not_eq_false hac
      exact absurd (halone c (mem_existing_right hc hac) hca hcb).1 (by simp [hac])
    · by_contra hca'
      have hca' := Bool.eq_true_of_not_eq_false hca'
      exact absurd (halone c (mem_existing_left hc hca') hca hcb).2 (by simp [hca'])
  · intro h a ha b hb hne hab hba c hc hca hcb
    obtain ⟨heq, hsome⟩ := is_ancestor_mutual_iff.1 ⟨hab, hba⟩
    exact h a (mem_existing.1 ha).1 b (mem_existing.1 hb).1 hne heq hsome c (mem_existing.1 hc).1 hca hcb

/-- The kept edges give ancestry back exactly where two refs that name one commit are related to no third one. -/
theorem dependency_graph_reaches_iff (resolve : String → Option (Commit τ)) (refs : List String) :
    (∀ a ∈ refs, ∀ b ∈ refs, a ≠ b → (is_ancestor resolve a b = true ↔
      TransGen (fun x y => (x, y) ∈ dependency_graph resolve refs) a b)) ↔ TwinsAlone resolve refs := by
  have hkept : (fun x y => (x, y) ∈ dependency_graph resolve refs) =
      Kept (fun x y => is_ancestor resolve x y = true) (existing resolve refs).toFinset := by
    funext x y
    exact propext mem_dependency_graph
  have hrefl : ∀ x ∈ (existing resolve refs).toFinset, is_ancestor resolve x x = true := fun x hx =>
    is_ancestor_refl (mem_toFinset.1 hx)
  have htrans : ∀ x y z, is_ancestor resolve x y = true → is_ancestor resolve y z = true →
      is_ancestor resolve x z = true := fun _ _ _ => is_ancestor_trans
  rw [hkept, ← isolated_iff, ← @reaches_iff _ (fun x y => is_ancestor resolve x y = true) _ _ hrefl htrans]
  constructor
  · intro h a ha b hb
    exact h a (mem_existing.1 (mem_toFinset.1 ha)).1 b (mem_existing.1 (mem_toFinset.1 hb)).1
  · intro h a ha b hb hne
    constructor
    · intro hab
      exact (h a (mem_toFinset.2 (mem_existing_left ha hab)) b (mem_toFinset.2 (mem_existing_right hb hab))
        hne).1 hab
    · exact @rel_of_kept _ (fun x y => is_ancestor resolve x y = true) _ htrans _ _

def root : Commit Unit := .mk () [] "root"

def twins : String → Option (Commit Unit)
  | "a" => some root
  | "b" => some root
  | "c" => some (.mk () [root] "c")
  | _ => none

/-- No edge of the third branch is kept. -/
theorem twins_lost : is_ancestor twins "a" "c" = true ∧
    ¬ TransGen (fun x y => (x, y) ∈ dependency_graph twins ["a", "b", "c"]) "a" "c" := by
  have hgraph : ∀ edge ∈ dependency_graph twins ["a", "b", "c"], edge.2 ≠ "c" := by decide +kernel
  refine ⟨by decide, fun h => ?_⟩
  obtain ⟨x, -, hxc⟩ := TransGen.tail'_iff.1 h
  exact hgraph _ hxc rfl

end Git

end AiOrg
