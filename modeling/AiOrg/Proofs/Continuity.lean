import AiOrg.Reform.Reconcile

/-!
# The gate and the ledger

The gate finds nothing exactly when every reference and every anchor that it looks at resolves
(`violations_eq_nil_iff`), and the ledger of two trees is their difference (`delta_exact`).
-/

namespace AiOrg

open List

namespace Reform

variable {py : PyLib} {canonical : Json → String} {previous revised tree : Json} {id : String}

def IsNode (id : String) (tree : Json) : Prop := ∃ value, Json.Within value tree ∧ nodeId value = some id

/-- The first node with an id, as text. -/
def contentAt (canonical : Json → String) (tree : Json) (id : String) : Option String :=
  (tree.preorder.find? fun value => nodeId value = some id).map canonical

theorem mem_dedupe {α : Type*} [DecidableEq α] {x : α} {xs : List α} :
    x ∈ Selection.firsts (fun y => y) [] xs ↔ x ∈ xs := by
  rw [Selection.mem_firsts]
  constructor
  · exact fun h => (Selection.firstWith_mem h).1
  · intro h
    obtain ⟨y, hy⟩ := @Selection.exists_firstWith _ _ _ (fun y => y) _ _ h
    have hkey : y = x := (Selection.firstWith_mem hy).2
    rw [hy, hkey]

theorem mem_nodeIds : id ∈ nodeIds tree ↔ IsNode id tree := by
  rw [nodeIds]
  refine mem_dedupe.trans ?_
  simp only [mem_filterMap, Json.mem_preorder]
  rfl

theorem lookup_eq_firstWith {α : Type*} (id : String) (entries : List (String × α)) :
    entries.lookup id = (Selection.firstWith Prod.fst id entries).map Prod.snd := by
  induction entries with
  | nil => rfl
  | cons entry entries ih =>
    obtain ⟨key, value⟩ := entry
    rw [Selection.firstWith_cons, lookup_cons]
    by_cases h : key = id
    · simp [h]
    · have hne : (id == key) = false := by simpa using Ne.symm h
      rw [hne, ih, if_neg h]

theorem lookup_contents : (_tree_node_contents canonical tree).lookup id =
    contentAt canonical tree id := by
  rw [_tree_node_contents, lookup_eq_firstWith, Selection.firstWith_firsts not_mem_nil, contentAt]
  induction tree.preorder with
  | nil => rfl
  | cons value values ih =>
    rw [filterMap_cons, find?_cons]
    rcases hid : nodeId value with _ | other
    · simpa using ih
    · rw [Option.map_some, Selection.firstWith_cons]
      by_cases h : other = id
      · simp [h]
      · simpa [h] using ih

/-- An id of a node, or one that a node replaces. -/
def Resolves (py : PyLib) (previous revised : Json) (id : String) : Prop :=
  IsNode id revised ∨ ∃ replacement ∈ _revision_replacements py previous revised,
    replacement.replacedNodeId = id

theorem resolves_iff : resolves (nodeIds revised) (_revision_replacements py previous revised) id ↔
    Resolves py previous revised id := by
  simp only [resolves, Bool.or_eq_true, decide_eq_true_eq, mem_nodeIds, mem_map, Resolves]

theorem dedupe_eq_nil {xs : List String} : Selection.firsts (fun y => y) [] xs = [] ↔ xs = [] := by
  rw [eq_nil_iff_forall_not_mem, eq_nil_iff_forall_not_mem]
  exact forall_congr' fun x => not_congr mem_dedupe

/-- The gate finds nothing when all ids resolve, or are anchors that are indexed anew. -/
theorem violations_eq_nil_iff {objections : List Fields} :
    _revision_continuity_violations py previous revised objections = [] ↔
      (∀ reference ∈ _id_typed_tree_references revised,
        Resolves py previous revised reference.reference) ∧
      ∀ objection ∈ objections, ∀ anchor ∈ anchors objection,
        startsWith anchor reindexedFamilyIdPrefixes = false → Resolves py previous revised anchor := by
  rw [_revision_continuity_violations]
  refine dedupe_eq_nil.trans ?_
  rw [append_eq_nil_iff]
  refine and_congr ?_ ?_
  · rw [map_eq_nil_iff, filter_eq_nil_iff]
    refine forall₂_congr fun reference _ => ?_
    rw [← resolves_iff, Bool.not_eq_true, Bool.not_eq_false']
  · rw [flatMap_eq_nil_iff]
    refine forall₂_congr fun objection _ => ?_
    rw [map_eq_nil_iff, filter_eq_nil_iff]
    refine forall₂_congr fun anchor _ => ?_
    rw [← resolves_iff]
    cases resolves (nodeIds revised) (_revision_replacements py previous revised) anchor <;> simp

structure IsDelta (canonical : Json → String) (previous revised : Json) (delta : Delta) : Prop where
  added : ∀ id, id ∈ delta.added ↔ IsNode id revised ∧ ¬ IsNode id previous
  pruned : ∀ id, id ∈ delta.pruned ↔ IsNode id previous ∧ ¬ IsNode id revised
  changed : ∀ id, id ∈ delta.changed ↔ IsNode id previous ∧ IsNode id revised ∧
    contentAt canonical previous id ≠ contentAt canonical revised id

theorem delta_exact : IsDelta canonical previous revised (delta canonical previous revised) where
  added id := by
    simp only [delta, mem_sorted, mem_filter, mem_nodeIds, decide_eq_true_eq]
  pruned id := by
    simp only [delta, mem_sorted, mem_filter, mem_nodeIds, decide_eq_true_eq]
  changed id := by
    simp only [delta, mem_sorted, mem_filter, mem_nodeIds, decide_eq_true_eq, lookup_contents]

end Reform

end AiOrg
