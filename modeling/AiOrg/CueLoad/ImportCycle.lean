import AiOrg.Graph.Tarjan
import AiOrg.Python.Dict

/-!
# Import cycles

The loader of CUE packages reports the import cycles of a closure: one path for each cyclic component of the import graph,
the least of its members, in order (`importCyclePaths_exact`).
-/

namespace AiOrg

open List

namespace CueLoad

open Tarjan (Edge Represents)

/-- For each import path the paths that it imports. -/
abbrev ImportGraph := List (String × List String)

namespace ImportGraph

/-- `graph[node]`. -/
def targets (graph : ImportGraph) (node : String) : List String := (graph.lookup node).getD []

def nodes (graph : ImportGraph) : List String :=
  (graph.flatMap fun row => row.1 :: row.2).dedup.insertionSort (· ≤ ·)

end ImportGraph

/-- `importCyclePaths`. A visit is never inside more visits than there are nodes. -/
def importCyclePaths (graph : ImportGraph) : List String :=
  (Tarjan.search graph.targets graph.nodes.length graph.nodes).cycles.insertionSort (· ≤ ·)

namespace ImportGraph

variable {graph : ImportGraph} {node target : String}

theorem mem_nodes : node ∈ graph.nodes ↔ ∃ row ∈ graph, node = row.1 ∨ node ∈ row.2 := by
  rw [nodes, mem_insertionSort, mem_dedup, mem_flatMap]
  simp only [mem_cons]

theorem edge_nodes (h : Edge graph.targets node target) : node ∈ graph.nodes ∧ target ∈ graph.nodes := by
  have htarget : target ∈ (graph.lookup node).getD [] := h
  rcases hlookup : graph.lookup node with _ | row <;> rw [hlookup] at htarget
  · cases htarget
  · have hrow := mem_of_lookup hlookup
    exact ⟨mem_nodes.2 ⟨_, hrow, .inl rfl⟩, mem_nodes.2 ⟨_, hrow, .inr htarget⟩⟩

theorem represents_nodes (h : Represents graph.targets node) : node ∈ graph.nodes := by
  rcases h.cycle with hself | ⟨other, hne, hreach, -⟩
  · exact (edge_nodes hself).1
  · rcases Relation.ReflTransGen.cases_head hreach with heq | ⟨next, hedge, -⟩
    · exact absurd heq.symm hne
    · exact (edge_nodes hedge).1

end ImportGraph

/-- The least member of every component with a cycle is reported, once and in order, and nothing else; of a graph without
cycles there is nothing to report. -/
theorem importCyclePaths_exact (graph : ImportGraph) : (importCyclePaths graph).Pairwise (· < ·) ∧
    (∀ m, m ∈ importCyclePaths graph ↔ Represents graph.targets m) ∧
    ((∀ m, ¬ Relation.TransGen (Edge graph.targets) m m) → importCyclePaths graph = []) := by
  have hcard : graph.nodes.toFinset.card ≤ graph.nodes.length := toFinset_card_le _
  obtain ⟨hnodup, hsound, hcomplete⟩ := @Tarjan.search_spec _ _ graph.targets _ _ _
    (fun v _ w hedge => mem_toFinset.2 (ImportGraph.edge_nodes hedge).2) (fun v => mem_toFinset.symm) hcard
  have hmem : ∀ m, m ∈ importCyclePaths graph ↔ Represents graph.targets m := fun m => by
    rw [importCyclePaths, mem_insertionSort]
    exact ⟨hsound m, fun h => hcomplete m (mem_toFinset.2 (ImportGraph.represents_nodes h)) h⟩
  refine ⟨?_, hmem, fun hacyclic => eq_nil_iff_forall_not_mem.2 fun m hm => ?_⟩
  · have hsorted := pairwise_insertionSort (· ≤ ·)
      (Tarjan.search graph.targets graph.nodes.length graph.nodes).cycles
    have hdistinct := (perm_insertionSort (· ≤ ·) _).nodup_iff.2 hnodup
    exact hsorted.imp₂ (fun _ _ hle hne => lt_of_le_of_ne hle hne) hdistinct
  · rcases ((hmem m).1 hm).cycle with hself | ⟨other, hne, hthere, hback⟩
    · exact hacyclic m (.single hself)
    · rcases Relation.reflTransGen_iff_eq_or_transGen.1 hthere with heq | htrans
      · exact hne heq
      · exact hacyclic m (htrans.trans_left hback)

example : importCyclePaths [("c", ["b", "d"]), ("b", ["a"]), ("a", ["c"]), ("d", ["d"]), ("e", ["a"])] = ["a", "d"] := by
  decide

end CueLoad

end AiOrg
