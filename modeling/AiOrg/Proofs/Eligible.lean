import AiOrg.Proofs.Blocking

/-!
# Eligibility and the published facts

`_computed_edge_facts` groups the edges and then looks at their activity; its blocking list holds
the facts of the blocking edges, and its two lists together hold every fact once.
-/

namespace AiOrg

open List

variable (py : PyLib) {nodes : Nodes} {state : CheckState} {manifest : Fields} {node : String}

theorem computedEdgeFact_active {edge : Edge} {i : ℕ} {fact : EdgeFact} {active : Bool}
    (h : computedEdgeFact py edge state node i = .ok (fact, active)) :
    active = edgeOn py state edge := by
  rw [edgeOn, edgeActive_congr py "" node 0 i]
  simp only [computedEdgeFact, bind, Except.bind, pure, Except.pure] at h
  simp only [edgeActive]
  rcases hw : edge.when with _ | text <;> rw [hw] at h
  · simp only [Option.filter_none] at h
    cases h
    rfl
  · by_cases hempty : text = ""
    · subst hempty
      cases h
      rfl
    · simp only [Option.filter_some, decide_not, decide_eq_false hempty, Bool.not_false,
        ↓reduceIte] at h
      simp only
      rcases he : evaluateWhen py state text node (some i) with e | ⟨b, w⟩ <;> rw [he] at h
      · cases e <;> cases h
        rfl
      · cases h
        rfl

theorem edgeEntry_ok {edge : Edge} {i : ℕ} {entry : EdgeEntry}
    (h : edgeEntry py nodes state node (edge, i) = .ok entry) :
    entry.edge = edge ∧ entry.active = edgeOn py state edge
      ∧ edgeTargetSatisfied py edge nodes state = .ok entry.targetSatisfied
      ∧ computedEdgeFact py edge state node i = .ok (entry.fact, entry.active) := by
  simp only [edgeEntry, bind, Except.bind, pure, Except.pure] at h
  rcases hf : computedEdgeFact py edge state node i with e | ⟨fact, active⟩ <;> rw [hf] at h <;>
    simp only at h
  · cases h
  rcases hs : edgeTargetSatisfied py edge nodes state with e | satisfied <;> rw [hs] at h <;>
    simp only at h
  · cases h
  cases h
  exact ⟨rfl, computedEdgeFact_active py hf, rfl, rfl⟩

structure Entries (nodes : Nodes) (state : CheckState) (manifest : Fields)
    (entries : List EdgeEntry) : Prop where
  edges : dependsEdges py manifest = entries.map EdgeEntry.edge
  active : ∀ m ∈ entries, m.active = edgeOn py state m.edge
  satisfied : ∀ m ∈ entries, edgeTargetSatisfied py m.edge nodes state = .ok m.targetSatisfied

theorem entries_of_forall₂ {indexed : List (Edge × ℕ)} {entries : List EdgeEntry}
    (h : Forall₂ (fun x y => edgeEntry py nodes state node x = .ok y) indexed entries) :
    indexed.map Prod.fst = entries.map EdgeEntry.edge
      ∧ (∀ m ∈ entries, m.active = edgeOn py state m.edge
        ∧ edgeTargetSatisfied py m.edge nodes state = .ok m.targetSatisfied)
      ∧ mapOk (fun x => computedEdgeFact py x.1 state node x.2) indexed
        = .ok (entries.map fun m => (m.fact, m.active)) := by
  induction h with
  | nil => simp [mapOk]
  | @cons x entry indexed entries hx _ ih =>
    obtain ⟨edge, i⟩ := x
    obtain ⟨rfl, hactive, hsat, hfact⟩ := edgeEntry_ok py hx
    obtain ⟨hedges, hall, hfacts⟩ := ih
    refine ⟨by simp [hedges], ?_, ?_⟩
    · intro m hm
      rcases mem_cons.1 hm with rfl | hm
      · exact ⟨hactive, hsat⟩
      · exact hall m hm
    · simp only [mapOk, hfact, hfacts, bind, Except.bind]
      rfl

section Split

variable {entries : List EdgeEntry} (he : Entries py nodes state manifest entries)
include he

theorem edgeSat_of_entries {m : EdgeEntry} (hm : m ∈ entries) :
    edgeSat py nodes state m.edge = m.targetSatisfied := by
  simp only [edgeSat, he.satisfied m hm]

theorem groupSatisfied_eq_unlocked {m : EdgeEntry} {g : String} (hg : m.edge.group = some g) :
    groupSatisfied (entries.filter fun e => e.edge.group = some g)
      = unlocked py nodes state manifest m.edge := by
  rw [unlocked_of_group_some py hg, activeDepends, he.edges, Bool.eq_iff_iff]
  simp only [groupSatisfied, any_eq_true, mem_filter, mem_map, Bool.and_eq_true,
    decide_eq_true_eq]
  constructor
  · rintro ⟨e, ⟨hmem, hge⟩, hact, hsat⟩
    exact ⟨e.edge, ⟨⟨⟨e, hmem, rfl⟩, by rw [← he.active e hmem, hact]⟩, hge⟩, by
      rw [edgeSat_of_entries py he hmem, hsat]⟩
  · rintro ⟨_, ⟨⟨⟨e, hmem, rfl⟩, hon⟩, hge⟩, hsat⟩
    exact ⟨e, ⟨hmem, hge⟩, by rw [he.active e hmem, hon], by
      rw [← edgeSat_of_entries py he hmem, hsat]⟩

def entryBlocks (nodes : Nodes) (state : CheckState) (manifest : Fields) (m : EdgeEntry) : Bool :=
  m.active && !unlocked py nodes state manifest m.edge

theorem and_blocks {m : EdgeEntry} (hm : m ∈ entries) (hg : m.edge.group = none) :
    (!(!m.active || m.targetSatisfied)) = entryBlocks py nodes state manifest m := by
  rw [entryBlocks, unlocked_of_group_none py hg, edgeSat_of_entries py he hm]
  cases m.active <;> rfl

theorem group_blocks {g : String} {members : List EdgeEntry}
    (h : (g, members) ∈ groupBy (fun e => e.edge.group) entries) :
    groupBlocking members
        = (members.filter (entryBlocks py nodes state manifest)).map EdgeEntry.fact
      ∧ groupSatisfiedFacts members
        = (members.filter (!entryBlocks py nodes state manifest ·)).map EdgeEntry.fact := by
  obtain ⟨rfl, -⟩ := mem_groupBy.1 h
  have hun : ∀ m ∈ entries.filter (fun e => e.edge.group = some g),
      unlocked py nodes state manifest m.edge
        = groupSatisfied (entries.filter fun e => e.edge.group = some g) := by
    intro m hm
    exact (groupSatisfied_eq_unlocked py he (by simpa using (mem_filter.1 hm).2)).symm
  unfold groupBlocking groupSatisfiedFacts
  rcases hs : groupSatisfied (entries.filter fun e => e.edge.group = some g) with _ | _ <;>
    rw [hs] at hun
  · constructor <;> simp only [Bool.false_eq_true, ↓reduceIte] <;> congr 1 <;>
      refine filter_congr fun m hm => ?_ <;> simp [entryBlocks, hun m hm]
  · constructor
    · simp only [↓reduceIte]
      rw [filter_eq_nil_iff.2 fun m hm => by simp [entryBlocks, hun m hm]]
      rfl
    · simp only [↓reduceIte]
      refine congrArg _ (filter_eq_self.2 fun m hm => ?_).symm
      simp [entryBlocks, hun m hm]

theorem splitFacts_perm :
    (splitFacts entries).1.Perm
        ((entries.filter (entryBlocks py nodes state manifest)).map EdgeEntry.fact)
      ∧ (splitFacts entries).2.Perm
        ((entries.filter (!entryBlocks py nodes state manifest ·)).map EdgeEntry.fact) := by
  have hgroups : ∀ p : EdgeEntry → Bool,
      ((groupBy (fun e => e.edge.group) entries).flatMap fun g =>
          (g.2.filter p).map EdgeEntry.fact).Perm
        (((entries.filter fun e => !decide (e.edge.group = none)).filter p).map
          EdgeEntry.fact) := by
    intro p
    have hperm := perm_flatMap_groupBy (fun e : EdgeEntry => e.edge.group) entries
    have hsome : (entries.filter fun e => e.edge.group.isSome)
        = entries.filter fun e => !decide (e.edge.group = none) :=
      filter_congr fun e _ => by cases e.edge.group <;> rfl
    rw [hsome] at hperm
    have := (hperm.filter p).map EdgeEntry.fact
    rwa [filter_flatMap, map_flatMap] at this
  have hjoin : ∀ p : EdgeEntry → Bool,
      (((entries.filter fun e => decide (e.edge.group = none)).filter p).map EdgeEntry.fact
        ++ ((entries.filter fun e => !decide (e.edge.group = none)).filter p).map
          EdgeEntry.fact).Perm ((entries.filter p).map EdgeEntry.fact) := by
    intro p
    rw [← map_append, ← filter_append]
    exact ((filter_append_perm _ entries).filter p).map _
  constructor
  · refine List.Perm.trans (List.Perm.append ?_ ?_)
      (hjoin (entryBlocks py nodes state manifest))
    · refine List.Perm.of_eq (congrArg _ (filter_congr fun m hm => ?_))
      obtain ⟨hm, hg⟩ := mem_filter.1 hm
      exact and_blocks py he hm (by simpa using hg)
    · refine List.Perm.trans (List.Perm.of_eq (flatMap_congr fun g hg => ?_)) (hgroups _)
      exact (group_blocks py he hg).1
  · refine List.Perm.trans (List.Perm.append ?_ ?_)
      (hjoin (!entryBlocks py nodes state manifest ·))
    · refine List.Perm.of_eq (congrArg _ (filter_congr fun m hm => ?_))
      obtain ⟨hm, hg⟩ := mem_filter.1 hm
      rw [← and_blocks py he hm (by simpa using hg), Bool.not_not]
    · refine List.Perm.trans (List.Perm.of_eq (flatMap_congr fun g hg => ?_)) (hgroups _)
      exact (group_blocks py he hg).2

theorem blocking_eq_nil_iff :
    (splitFacts entries).1 = [] ↔ (blockingEdges py nodes state manifest).isEmpty := by
  have hedges : blockingEdges py nodes state manifest
      = (entries.filter (entryBlocks py nodes state manifest)).map EdgeEntry.edge := by
    rw [blockingEdges, activeDepends, he.edges, filter_map, filter_map,
      filter_filter]
    refine congrArg _ (filter_congr fun m hm => ?_)
    simp [entryBlocks, he.active m hm, Bool.and_comm]
  rw [List.isEmpty_iff, hedges, map_eq_nil_iff, ← length_eq_zero_iff,
    (splitFacts_perm py he).1.length_eq, length_map, length_eq_zero_iff]

end Split

/-- Where nothing raises, a node is eligible exactly when its blocking list is empty, and its two
lists hold the fact of every `depends` edge exactly once. -/
theorem eligible_iff_blocking_nil (graph : Graph) {values : CheckState} {b : Bool}
    {blocking satisfied : List EdgeFact} (hm : graph.nodes.lookup node = some manifest)
    (heligible : eligible py node values graph = .ok b)
    (hfacts : computedEdgeFacts py node manifest graph.nodes
      ((stateDefaults graph.registry).update values) = .ok (blocking, satisfied)) :
    (b = true ↔ blocking = [])
      ∧ ∃ facts, mapOk (fun x => computedEdgeFact py x.1
            ((stateDefaults graph.registry).update values) node x.2)
          (dependsEdges py manifest).zipIdx = .ok facts
        ∧ (blocking ++ satisfied).Perm (facts.map Prod.fst) := by
  set state := (stateDefaults graph.registry).update values with hstate
  simp only [computedEdgeFacts, bind, Except.bind, pure, Except.pure] at hfacts
  rcases hent : mapOk (edgeEntry py graph.nodes state node) (dependsEdges py manifest).zipIdx
    with e | entries <;> rw [hent] at hfacts <;> simp only at hfacts
  · cases hfacts
  obtain ⟨hblocking, hsatisfied⟩ := Prod.mk.inj (Except.ok.inj hfacts)
  obtain ⟨hedges, hall, hmap⟩ := entries_of_forall₂ py (mapOk_ok_iff.1 hent)
  rw [zipIdx_map_fst] at hedges
  have he : Entries py graph.nodes state manifest entries :=
    ⟨hedges, fun m hm => (hall m hm).1, fun m hm => (hall m hm).2⟩
  have ev : Evaluates py graph.nodes state manifest := by
    refine ⟨?_, ?_⟩
    · simp only [eligible, hm, ← hstate, bind, Except.bind] at heligible
      rcases hact : activeEdges py manifest state node with e | active <;> rw [hact] at heligible
      · cases heligible
      · exact (activeEdgesFrom_ok py hact).2
    · intro e hmem
      rw [hedges] at hmem
      obtain ⟨m, hm, rfl⟩ := mem_map.1 hmem
      rw [he.satisfied m hm, edgeSat_of_entries py he hm]
  refine ⟨?_, _, hmap, ?_⟩
  · rw [eligible_eq py hm ev] at heligible
    rw [← Except.ok.inj heligible, ← hblocking]
    exact (blocking_eq_nil_iff py he).symm
  · obtain ⟨hleft, hright⟩ := splitFacts_perm py he
    rw [← hblocking, ← hsatisfied, map_map]
    refine (hleft.append hright).trans ?_
    rw [← map_append]
    exact (filter_append_perm _ entries).map _

/-- A node that waits for one of two others, and has a satisfied dependency on the second. -/
def waitingNode : Fields :=
  [("edges", .arr
    [.obj [("type", .str "depends"), ("to", .str "b")],
      .obj [("type", .str "depends"), ("to", .str "c"), ("state", .str "posted_to_mailing_list")],
      .obj [("type", .str "part_of"), ("to", .str "root")]])]

def waitingGraph : Graph where
  nodes := [("a", waitingNode), ("b", [("node_kind", .str "leaf")]),
    ("c", [("node_kind", .str "coarse")])]
  keys_nodup := by decide
  registry := []

/-- The fact of an edge without a predicate. -/
def plainFact (target required : String) : EdgeFact := ⟨target, required, "", "", none⟩

theorem eligible_iff_blocking_nil_waiting :
    (false = true ↔ [plainFact "b" subsystemMerged] = [])
      ∧ ∃ facts, mapOk (fun x => computedEdgeFact asciiLib x.1
            ((stateDefaults waitingGraph.registry).update fun _ => none) "a" x.2)
          (dependsEdges asciiLib waitingNode).zipIdx = .ok facts
        ∧ ([plainFact "b" subsystemMerged]
            ++ [plainFact "c" "posted_to_mailing_list"]).Perm (facts.map Prod.fst) :=
  eligible_iff_blocking_nil asciiLib waitingGraph rfl (by decide +kernel) (by decide +kernel)

end AiOrg
