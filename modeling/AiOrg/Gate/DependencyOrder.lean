import AiOrg.Proofs.CycleWalk
import AiOrg.Proofs.Deadlock
import AiOrg.Relation.TopologicalSort

/-!
# Dependency order and critical path

`topological_order` sorts the nodes along the active dependencies, and `critical_path` follows a longest chain of them.
What they return for every graph and every projected state is `dependency_order_spec`.
-/

namespace AiOrg

open Relation TopologicalSort List

namespace DependencyOrder

variable (py : PyLib)

/-- One node's turn of the loop of `_active_dependency_pairs`; a manifest that is not a mapping has no edges. -/
def nodeDependencyPairs (nodes : Nodes) (state : CheckState) (node : String × Fields) :
    Except GateError (List (String × String)) := do
  let active ← activeEdges py node.2 state node.1
  pure ((active.filter isDepends).flatMap (blockingPair nodes node.1))

def _active_dependency_pairs (nodes : Nodes) (state : CheckState) : Except GateError (List (String × String)) := do
  let pairs ← mapOk (nodeDependencyPairs py nodes state) nodes
  pure pairs.flatten

/-- The pairs of which both ends are keys. -/
def knownPairs (keys : List String) (active : List (String × String)) : List (String × String) :=
  active.filter fun pair => pair.1 ∈ keys ∧ pair.2 ∈ keys

/-- The number of pairs to a key. -/
def incoming (known : List (String × String)) (key : String) : ℤ := known.countP fun pair => pair.2 = key

/-- The dependents of a key, one for each pair. -/
def outgoing (known : List (String × String)) (key : String) : List String :=
  (known.filter fun pair => pair.1 = key).map Prod.snd

/-- The prerequisites of a key, one for each pair. -/
def predecessors (known : List (String × String)) (key : String) : List String :=
  (known.filter fun pair => pair.2 = key).map Prod.fst

def topological_order (G : Graph) (patchwork_check_values : CheckState) : Except GateError (List String) := do
  let keys := G.nodes.map Prod.fst
  let active ← _active_dependency_pairs py G.nodes ((stateDefaults G.registry).update patchwork_check_values)
  let known := knownPairs keys active
  let ready := sorted (keys.filter fun key => incoming known key = 0)
  match kahn sorted (fun key => sorted (outgoing known key)) keys.length (incoming known) ready [] with
  | some ordered => .ok ordered
  | none => .error .outOfFuel

def critical_path (G : Graph) (patchwork_check_values : CheckState) : Except GateError (List String) := do
  let order ← topological_order py G patchwork_check_values
  if order.length ≠ G.nodes.length then .ok []
  else do
    let active ← _active_dependency_pairs py G.nodes ((stateDefaults G.registry).update patchwork_check_values)
    match LongestPath.longest (predecessors (knownPairs (G.nodes.map Prod.fst) active)) order with
    | some path => .ok path
    | none => .error .outOfFuel

variable (G : Graph) (P : Projection)

def Node (key : String) : Prop := key ∈ G.nodes.map Prod.fst

/-- An active `depends` edge of one node names another. -/
def DependsOn (prerequisite dependent : String) : Prop :=
  Node G prerequisite ∧ ∃ manifest, (dependent, manifest) ∈ G.nodes ∧
    ∃ edge ∈ activeDepends py (G.state P) manifest, edge.target = prerequisite

structure IsOrder (order : List String) : Prop where
  nodup : order.Nodup
  precedes : ∀ prerequisite dependent, DependsOn py G P prerequisite dependent → dependent ∈ order →
    TopologicalSort.Precedes order prerequisite dependent
  mem : ∀ key, key ∈ order ↔ Node G key ∧ ¬ OnCycle (DependsOn py G P) key
  complete : (∀ key, Node G key → key ∈ order) ↔ ∀ key, ¬ TransGen (DependsOn py G P) key key

structure IsCritical (path : List String) : Prop where
  chain : (∀ key, ¬ TransGen (DependsOn py G P) key key) →
    path.IsChain (DependsOn py G P) ∧ (∀ key ∈ path, Node G key) ∧
      ∀ other : List String, other.IsChain (DependsOn py G P) → (∀ key ∈ other, Node G key) → other.length ≤ path.length
  cyclic : (∃ key, TransGen (DependsOn py G P) key key) → path = []

variable {py G P} {known : List (String × String)} {key : String}

theorem active_dependency_pairs_ok {nodes : Nodes} {state : CheckState} (hs : state.Scalar) :
    ∃ active, _active_dependency_pairs py nodes state = .ok active ∧ ∀ a b, (a, b) ∈ active ↔
      ∃ manifest, (b, manifest) ∈ nodes ∧ (nodes.lookup a).isSome ∧
        ∃ edge ∈ activeDepends py state manifest, edge.target = a := by
  have hnode : ∀ node ∈ nodes, nodeDependencyPairs py nodes state node =
      .ok ((activeDepends py state node.2).flatMap (blockingPair nodes node.1)) := by
    intro node _
    have hactive := activeEdges_eq py (evaluates_of_scalar py hs nodes node.2) node.1
    rw [nodeDependencyPairs, hactive, ← filter_isDepends_active]
    rfl
  refine ⟨_, by rw [_active_dependency_pairs, mapOk_of_forall hnode]; rfl, fun a b => ?_⟩
  simp only [mem_flatten, mem_map, exists_exists_and_eq_and, mem_flatMap, mem_blockingPair]
  constructor
  · rintro ⟨⟨_, manifest⟩, hmem, edge, hedge, hkey, htarget, rfl⟩
    exact ⟨manifest, hmem, hkey, edge, hedge, htarget⟩
  · rintro ⟨manifest, hmem, hkey, edge, hedge, htarget⟩
    exact ⟨(b, manifest), hmem, edge, hedge, hkey, htarget, rfl⟩

theorem isSome_lookup_iff (nodes : Nodes) (key : String) : (nodes.lookup key).isSome ↔ key ∈ nodes.map Prod.fst := by
  simp [List.lookup_isSome_iff]

theorem exists_known (py : PyLib) (G : Graph) (P : Projection) : ∃ active,
    _active_dependency_pairs py G.nodes ((stateDefaults G.registry).update P.values) = .ok active ∧
      ∀ a b, (a, b) ∈ knownPairs (G.nodes.map Prod.fst) active ↔ DependsOn py G P a b := by
  obtain ⟨active, hactive, hmem⟩ := @active_dependency_pairs_ok py G.nodes _ (G.state_scalar P)
  refine ⟨active, hactive, fun a b => ?_⟩
  rw [knownPairs, mem_filter, hmem]
  simp only [decide_eq_true_eq, isSome_lookup_iff]
  constructor
  · rintro ⟨⟨manifest, hb, ha, hedge⟩, -⟩
    exact ⟨ha, manifest, hb, hedge⟩
  · rintro ⟨ha, manifest, hb, hedge⟩
    exact ⟨⟨manifest, hb, ha, hedge⟩, ha, mem_map_of_mem hb⟩

theorem mem_predecessors {a b : String} : a ∈ predecessors known b ↔ (a, b) ∈ known := by
  simp [predecessors]

theorem sorted_perm (l : List String) : (sorted l).Perm l := perm_insertionSort _ l

theorem IsOrder.length_eq_iff {order : List String} (h : IsOrder py G P order) :
    order.length = G.nodes.length ↔ ∀ key, ¬ TransGen (DependsOn py G P) key key := by
  have hsub : order ⊆ G.nodes.map Prod.fst := fun key hkey => ((h.mem key).1 hkey).1
  have hle := subperm_of_subset h.nodup hsub
  rw [← h.complete, ← length_map Prod.fst]
  constructor
  · intro hlength key hkey
    exact (hle.perm_of_length_le hlength.ge).mem_iff.2 hkey
  · intro hall
    exact (hle.antisymm (subperm_of_subset G.keys_nodup hall)).length_eq

section Known

variable {active : List (String × String)}
  (hactive : _active_dependency_pairs py G.nodes ((stateDefaults G.registry).update P.values) = .ok active)
  (hknown : ∀ a b, (a, b) ∈ knownPairs (G.nodes.map Prod.fst) active ↔ DependsOn py G P a b)

include hactive hknown

theorem topological_order_spec : ∃ order, topological_order py G P.values = .ok order ∧ IsOrder py G P order := by
  have hends : ∀ a b, (a, b) ∈ knownPairs (G.nodes.map Prod.fst) active → Node G a ∧ Node G b := fun a b hpair => by
    simpa [Node] using (mem_filter.1 hpair).2
  have hincoming : ∀ key, incoming (knownPairs (G.nodes.map Prod.fst) active) key =
      ((knownPairs (G.nodes.map Prod.fst) active).countP fun pair => pair.2 = key : ℕ) := fun _ => rfl
  obtain ⟨order, horder, hnodup, hmem, hprecedes⟩ := kahn_spec sorted_perm
    (fun key => sorted_perm (outgoing (knownPairs (G.nodes.map Prod.fst) active) key))
    (fun a b hpair => (hends a b hpair).2) (fun a b hpair => (hends a b hpair).1) G.keys_nodup hincoming
    (sorted_perm _)
  have hrel : (fun a b => (a, b) ∈ knownPairs (G.nodes.map Prod.fst) active) = DependsOn py G P := by
    funext a b
    exact propext (hknown a b)
  simp only [hrel] at hmem
  refine ⟨order, ?_, hnodup, fun a b hab => hprecedes a b ((hknown a b).2 hab), hmem, fun hall key hcycle => ?_,
    fun hfree key hkey => (hmem key).2 ⟨hkey, fun ⟨c, hcycle, _⟩ => hfree c hcycle⟩⟩
  · simp only [topological_order, hactive, bind, Except.bind, horder]
  · obtain ⟨next, hstep, -⟩ := TransGen.head'_iff.1 hcycle
    exact ((hmem key).1 (hall key hstep.1)).2 ⟨key, hcycle, .refl⟩

theorem critical_path_spec {order : List String} (horder : topological_order py G P.values = .ok order)
    (h : IsOrder py G P order) : ∃ path, critical_path py G P.values = .ok path ∧ IsCritical py G P path := by
  have hlength := h.length_eq_iff
  unfold critical_path
  simp only [horder, bind, Except.bind]
  split_ifs with hshort
  · refine ⟨[], rfl, fun hfree => absurd (hlength.2 hfree) hshort, fun _ => rfl⟩
  · have hfree := hlength.1 (not_not.1 hshort)
    have hpreds : ∀ a b, a ∈ predecessors (knownPairs (G.nodes.map Prod.fst) active) b ↔ DependsOn py G P a b :=
      fun a b => mem_predecessors.trans (hknown a b)
    obtain ⟨path, hpath, hchain, hnodes, hlongest⟩ := LongestPath.longest_spec h.nodup hpreds h.precedes
    refine ⟨path, by simp only [hactive, hpath], fun _ => ⟨hchain, fun key hkey => ((h.mem key).1 (hnodes key hkey)).1,
      fun other hother hsub => hlongest other hother fun key hkey => h.complete.2 hfree key (hsub key hkey)⟩, ?_⟩
    rintro ⟨key, hcycle⟩
    exact absurd hcycle (hfree key)

end Known

/-- For every graph and every projected state, the order holds the nodes that no cycle leads to, once and after their
prerequisites, and the path is a longest chain where there is no cycle. -/
theorem dependency_order_spec (py : PyLib) (G : Graph) (P : Projection) : ∃ order path,
    topological_order py G P.values = .ok order ∧ critical_path py G P.values = .ok path ∧
      IsOrder py G P order ∧ IsCritical py G P path := by
  obtain ⟨active, hactive, hknown⟩ := exists_known py G P
  obtain ⟨order, horder, hspec⟩ := topological_order_spec hactive hknown
  obtain ⟨path, hpath, hcritical⟩ := critical_path_spec hactive hknown horder hspec
  exact ⟨order, path, horder, hpath, hspec, hcritical⟩

/-- The nodes of an instant cycle are left out of the order, and where there is one no path is critical. -/
theorem instant_cycle_unordered (py : PyLib) (G : Graph) (P : Projection) : ∃ order found,
    topological_order py G P.values = .ok order ∧ instantCycle py G.nodes (G.state P) = .ok found ∧
      (∀ key ∈ found, Node G key ∧ key ∉ order) ∧ (found ≠ [] → critical_path py G P.values = .ok []) := by
  obtain ⟨active, hactive, hknown⟩ := exists_known py G P
  obtain ⟨order, horder, hspec⟩ := topological_order_spec hactive hknown
  obtain ⟨path, hpath, hcritical⟩ := critical_path_spec hactive hknown horder hspec
  obtain ⟨pairs, hpairs, hmem⟩ := @blockingDependencyPairs_ok py G.nodes _ (G.state_scalar P)
  -- an edge that blocks is an active one
  have hsub : ∀ a b, (a, b) ∈ pairs → DependsOn py G P a b := by
    intro a b hab
    obtain ⟨manifest, hb, ha, edge, hedge, rfl⟩ := (hmem a b).1 hab
    exact ⟨(isSome_lookup_iff _ _).1 ha, manifest, hb, edge, (mem_filter.1 hedge).1, rfl⟩
  have hreached : ∀ key ∈ cycle pairs, ∃ start, TransGen (DependsOn py G P) start start ∧
      ReflTransGen (DependsOn py G P) start key := by
    intro key hkey
    obtain ⟨start, hcycle, hway⟩ := (cycle_walk pairs (ne_nil_of_mem hkey)).reached hkey
    exact ⟨start, TransGen.mono hsub _ _ hcycle, ReflTransGen.mono hsub _ _ hway⟩
  refine ⟨order, cycle pairs, horder, by simp only [instantCycle, hpairs]; rfl, fun key hkey => ?_, fun hne => ?_⟩
  · obtain ⟨start, hcycle, hway⟩ := hreached key hkey
    obtain ⟨before, -, -, manifest, hmanifest, -⟩ := TransGen.tail'_iff.1 (hcycle.trans_left hway)
    exact ⟨mem_map_of_mem hmanifest, fun hordered => ((hspec.mem key).1 hordered).2 ⟨start, hcycle, hway⟩⟩
  · obtain ⟨key, hkey⟩ := exists_mem_of_ne_nil _ hne
    obtain ⟨start, hcycle, -⟩ := hreached key hkey
    rw [hpath, hcritical.cyclic ⟨start, hcycle⟩]

end DependencyOrder

end AiOrg
