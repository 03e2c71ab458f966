import AiOrg.Proofs.Blocking
import AiOrg.Proofs.Cycle

/-!
# What the cycle check says about deadlocks

On projected states nothing raises.  Blocking pairs are made for targets that are node keys, while
satisfaction resolves serial ids too; when the cycle check is silent, a deadlock therefore exists
exactly where a loop of waiting runs through a serial id.
-/

namespace AiOrg

open List

section Projected

variable (py : PyLib)

theorem stateDefaults_scalar (registry : Registry) : (stateDefaults registry).Scalar := by
  intro name v h
  obtain ⟨type, -, rfl⟩ := Option.map_eq_some_iff.1 h
  cases type <;> trivial

theorem Graph.state_scalar (G : Graph) (P : Projection) : (G.state P).Scalar := by
  intro name v h
  simp only [Graph.state, CheckState.update, Option.or_eq_some_iff] at h
  rcases h with h | ⟨-, h⟩
  · exact P.scalar name v h
  · exact stateDefaults_scalar _ name v h

theorem milestoneReached_ok {v : Json} (h : v = .null ∨ v.IsScalar) :
    ∃ b, milestoneReached v = .ok b := by
  cases v <;> first | exact ⟨_, rfl⟩ | rcases h with h | h <;> cases h

theorem evaluates_of_scalar {state : CheckState} (hs : state.Scalar) (nodes : Nodes)
    (manifest : Fields) : Evaluates py nodes state manifest := by
  refine ⟨fun e _ => ?_, fun e _ => ?_⟩
  · have hok : ∃ b, edgeActive py state "" 0 e = .ok b := by
      unfold edgeActive
      rcases e.when with _ | text
      · exact ⟨_, rfl⟩
      · rcases evaluateWhen_total py hs text "" (some 0) with ⟨⟨b, w⟩, h⟩ | ⟨message, h⟩
        · exact ⟨b, by simp only [h]⟩
        · exact ⟨false, by simp only [h]⟩
    obtain ⟨b, hb⟩ := hok
    rw [hb, edgeOn_of_edgeActive py hb]
  · have hok : ∃ b, edgeTargetSatisfied py e nodes state = .ok b := by
      unfold edgeTargetSatisfied
      split
      · exact ⟨_, rfl⟩
      · exact ⟨_, rfl⟩
      · simp only
        split_ifs
        · exact ⟨_, rfl⟩
        · exact ⟨_, rfl⟩
        · refine milestoneReached_ok ?_
          unfold milestoneStateValue
          split
          · rename_i v hv
            exact .inr (hs _ v hv)
          · rcases hv : state (e.target ++ "." ++ requiredState e) with _ | v
            · exact .inl rfl
            · exact .inr (hs _ v hv)
        · exact ⟨_, rfl⟩
    obtain ⟨b, hb⟩ := hok
    simp only [hb, edgeSat]

end Projected

section Pairs

variable (py : PyLib) {nodes : Nodes} {state : CheckState}

theorem mem_blockingPair {key t k : String} {e : Edge} :
    (t, k) ∈ blockingPair nodes key e
      ↔ (nodes.lookup t).isSome ∧ e.target = t ∧ k = key := by
  unfold blockingPair
  split_ifs with h
  · simp only [mem_singleton, Prod.mk.injEq]
    exact ⟨fun ⟨ht, hk⟩ => ⟨ht ▸ h, ht.symm, hk⟩, fun ⟨_, ht, hk⟩ => ⟨ht.symm, hk⟩⟩
  · simp only [not_mem_nil, false_iff]
    rintro ⟨ht, rfl, -⟩
    exact h ht

/-- The pairs of a node are its blocking edges whose targets are node keys. -/
theorem nodeBlockingPairs_ok (key : String) {manifest : Fields}
    (ev : Evaluates py nodes state manifest) :
    ∃ pairs, nodeBlockingPairs py nodes state (key, manifest) = .ok pairs
      ∧ ∀ t k, (t, k) ∈ pairs ↔ k = key ∧ (nodes.lookup t).isSome
        ∧ ∃ e ∈ blockingEdges py nodes state manifest, e.target = t := by
  have hsat : ∀ e ∈ activeDepends py state manifest,
      edgeTargetSatisfied py e nodes state = .ok (edgeSat py nodes state e) :=
    fun e he => ev.satisfied e ((mem_activeDepends py).1 he).1
  have hand : ∀ e ∈ (activeDepends py state manifest).filter fun e => e.group = none,
      (if (nodes.lookup e.target).isSome then do
          if ← edgeTargetSatisfied py e nodes state then pure []
          else pure (blockingPair nodes key e)
        else pure [])
        = Except.ok (if edgeSat py nodes state e then [] else blockingPair nodes key e) := by
    intro e he
    rw [hsat e (mem_filter.1 he).1]
    by_cases hkey : (nodes.lookup e.target).isSome
    · simp only [hkey, ↓reduceIte, bind, Except.bind, pure, Except.pure]
      split_ifs <;> rfl
    · have hnil : blockingPair nodes key e = [] := by simp only [blockingPair, hkey]; rfl
      rw [if_neg hkey, hnil, ite_self]
      rfl
  have hor : ∀ g ∈ groupBy Edge.group (activeDepends py state manifest),
      (do
        if ← anyOk (fun e => edgeTargetSatisfied py e nodes state) g.2 then pure []
        else pure (g.2.flatMap (blockingPair nodes key)))
        = Except.ok (if g.2.any (edgeSat py nodes state) then []
          else g.2.flatMap (blockingPair nodes key)) := by
    rintro ⟨g, members⟩ hmem
    obtain ⟨rfl, -⟩ := mem_groupBy.1 hmem
    rw [anyOk_of_forall fun e he => hsat e (mem_filter.1 he).1]
    simp only [bind, Except.bind, pure, Except.pure]
    split_ifs <;> rfl
  refine ⟨_, by
    simp only [nodeBlockingPairs, activeEdges_eq py ev, filter_isDepends_active, bind, Except.bind]
      at hand hor ⊢
    rw [mapOk_of_forall hand, mapOk_of_forall hor]
    rfl, fun t k => ?_⟩
  simp only [mem_append, mem_flatten, mem_map, mem_filter, decide_eq_true_eq,
    mem_blockingEdges]
  constructor
  · rintro (⟨_, ⟨e, ⟨he, hg⟩, rfl⟩, hmem⟩ | ⟨_, ⟨⟨g, members⟩, hg, rfl⟩, hmem⟩)
    · split_ifs at hmem with hs
      · cases hmem
      · obtain ⟨ht, htarget, rfl⟩ := mem_blockingPair.1 hmem
        rw [← @unlocked_of_group_none py state nodes manifest e hg, Bool.not_eq_true] at hs
        exact ⟨rfl, ht, e, ⟨he, hs⟩, htarget⟩
    · obtain ⟨rfl, -⟩ := mem_groupBy.1 hg
      split_ifs at hmem with hs
      · cases hmem
      · obtain ⟨e, he, hmem⟩ := mem_flatMap.1 hmem
        obtain ⟨he, hge⟩ := mem_filter.1 he
        obtain ⟨ht, htarget, rfl⟩ := mem_blockingPair.1 hmem
        rw [← unlocked_of_group_some py (by simpa using hge), Bool.not_eq_true] at hs
        exact ⟨rfl, ht, e, ⟨he, hs⟩, htarget⟩
  · rintro ⟨rfl, ht, e, ⟨he, hlocked⟩, htarget⟩
    have hpair : (t, k) ∈ blockingPair nodes k e := mem_blockingPair.2 ⟨ht, htarget, rfl⟩
    rcases hg : e.group with _ | g
    · refine .inl ⟨_, ⟨e, ⟨he, hg⟩, rfl⟩, ?_⟩
      rw [unlocked_of_group_none py hg] at hlocked
      simpa only [hlocked, Bool.false_eq_true, ↓reduceIte] using hpair
    · have hmem : e ∈ (activeDepends py state manifest).filter fun e => e.group = some g :=
        mem_filter.2 ⟨he, by simp [hg]⟩
      refine .inr ⟨_, ⟨(g, _), mem_groupBy.2 ⟨rfl, ne_nil_of_mem hmem⟩, rfl⟩, ?_⟩
      rw [unlocked_of_group_some py hg] at hlocked
      simp only [hlocked, Bool.false_eq_true, ↓reduceIte]
      exact mem_flatMap.2 ⟨e, hmem, hpair⟩

theorem mapOk_flatten {α β : Type*} {f : α → Except GateError (List β)} :
    ∀ {xs : List α}, (∀ x ∈ xs, ∃ ys, f x = .ok ys) →
      ∃ yss, mapOk f xs = .ok yss ∧ ∀ y, y ∈ yss.flatten ↔ ∃ x ∈ xs, ∃ ys, f x = .ok ys ∧ y ∈ ys
  | [], _ => ⟨[], rfl, by simp⟩
  | x :: xs, h => by
    obtain ⟨ys, hys⟩ := h x (mem_cons_self ..)
    obtain ⟨yss, hyss, hmem⟩ := mapOk_flatten fun z hz => h z (mem_cons_of_mem _ hz)
    refine ⟨ys :: yss, by simp only [mapOk, hys, hyss]; rfl, fun y => ?_⟩
    simp only [flatten_cons, mem_append, hmem, mem_cons, exists_eq_or_imp, hys,
      Except.ok.injEq, exists_eq_left']

theorem blockingDependencyPairs_ok (hs : state.Scalar) :
    ∃ pairs, blockingDependencyPairs py nodes state = .ok pairs
      ∧ ∀ t k, (t, k) ∈ pairs ↔ ∃ m, (k, m) ∈ nodes ∧ (nodes.lookup t).isSome
        ∧ ∃ e ∈ blockingEdges py nodes state m, e.target = t := by
  have hnode : ∀ x ∈ nodes, ∃ ys, nodeBlockingPairs py nodes state x = .ok ys := by
    rintro ⟨key, manifest⟩ -
    obtain ⟨pairs, h, -⟩ := nodeBlockingPairs_ok py key
      (evaluates_of_scalar py hs nodes manifest)
    exact ⟨pairs, h⟩
  obtain ⟨yss, hyss, hmem⟩ := mapOk_flatten hnode
  refine ⟨yss.flatten, by simp only [blockingDependencyPairs, hyss]; rfl, fun t k => ?_⟩
  rw [hmem]
  constructor
  · rintro ⟨⟨key, manifest⟩, hx, ys, hys, htk⟩
    obtain ⟨pairs, h, hpairs⟩ := nodeBlockingPairs_ok py key
      (evaluates_of_scalar py hs nodes manifest)
    rw [hys] at h
    cases h
    obtain ⟨rfl, ht, he⟩ := (hpairs t k).1 htk
    exact ⟨manifest, hx, ht, he⟩
  · rintro ⟨m, hm, ht, he⟩
    obtain ⟨pairs, h, hpairs⟩ := nodeBlockingPairs_ok py k
      (evaluates_of_scalar py hs nodes m)
    exact ⟨(k, m), hm, pairs, h, (hpairs t k).2 ⟨rfl, ht, he⟩⟩

end Pairs

section Deadlock

variable {py : PyLib} {G : Graph} {P : Projection}

theorem resolveEntry_lookup {target y : String} {n : Fields}
    (h : resolveEntry target G.nodes = some (y, n)) : G.nodes.lookup y = some n := by
  unfold resolveEntry at h
  split at h
  · rename_i m hm
    cases h
    exact hm
  · exact lookup_of_mem G.keys_nodup (mem_of_find?_eq_some h)

theorem resolveEntry_of_lookup {target : String} {n : Fields}
    (h : G.nodes.lookup target = some n) : resolveEntry target G.nodes = some (target, n) := by
  simp only [resolveEntry, h]

theorem eligible_of_lookup {x : String} {m : Fields} (hm : G.nodes.lookup x = some m) :
    eligible py x P.values G = .ok (blockingEdges py G.nodes (G.state P) m).isEmpty :=
  eligible_eq py hm (evaluates_of_scalar py (G.state_scalar P) _ _)

theorem exists_blocking {x : String} {m : Fields} (hm : G.nodes.lookup x = some m)
    (h : eligible py x P.values G = .ok false) :
    ∃ e, e ∈ blockingEdges py G.nodes (G.state P) m := by
  rw [eligible_of_lookup hm, Except.ok.injEq] at h
  exact exists_mem_of_ne_nil _ (by simpa using h)

theorem ineligible_of_blocking {x : String} {m : Fields} {e : Edge}
    (hm : G.nodes.lookup x = some m) (he : e ∈ blockingEdges py G.nodes (G.state P) m) :
    eligible py x P.values G = .ok false := by
  rw [eligible_of_lookup hm, Except.ok.injEq]
  simpa using ne_nil_of_mem he

theorem WaitsFor.node {x y : String} (h : WaitsFor py G P x y) : (G.nodes.lookup y).isSome := by
  obtain ⟨_, -, _, -, n, hn⟩ := h
  rw [resolveEntry_lookup hn]
  rfl

theorem WaitsFor.ineligible {x y : String} (h : WaitsFor py G P x y) :
    eligible py x P.values G = .ok false := by
  obtain ⟨_, hm, _, he, -⟩ := h
  exact ineligible_of_blocking hm he

theorem Deadlock.exists_waitsFor {S : Set String} (hS : Deadlock py G P S) {x : String}
    (hx : x ∈ S) : ∃ y ∈ S, WaitsFor py G P x y := by
  obtain ⟨m, hm⟩ := Option.isSome_iff_exists.1 (hS.node x hx)
  obtain ⟨e, he⟩ := exists_blocking hm (hS.ineligible x hx)
  obtain ⟨⟨y, n⟩, hn⟩ := Option.isSome_iff_exists.1 (hS.resolve x hx m hm e he)
  have hw : WaitsFor py G P x y := ⟨m, hm, e, he, n, hn⟩
  exact ⟨y, hS.closed x hx y hw, hw⟩

theorem Deadlock.finite {S : Set String} (hS : Deadlock py G P S) : S.Finite := by
  refine (G.nodes.map Prod.fst).toFinset.finite_toSet.subset fun x hx => ?_
  simpa using lookup_isSome_iff.1 (hS.node x hx)

def waited (py : PyLib) (G : Graph) (P : Projection) (x : String) : Set String :=
  {y | Relation.ReflTransGen (WaitsFor py G P) x y}

theorem deadlock_waited {x : String} (hx : (G.nodes.lookup x).isSome)
    (hblocked : ∀ y ∈ waited py G P x, eligible py y P.values G = .ok false)
    (hresolve : ∀ y ∈ waited py G P x, BlockersResolve py G P y) :
    Deadlock py G P (waited py G P x) where
  nonempty := ⟨x, .refl⟩
  node y hy := by
    rcases Relation.ReflTransGen.cases_tail hy with rfl | ⟨z, -, hzy⟩
    · exact hx
    · exact hzy.node
  ineligible := hblocked
  resolve := hresolve
  closed _ hy _ hyz := Relation.ReflTransGen.tail hy hyz

theorem exists_serial {C : Set String} (hcycle : instantCycle py G.nodes (G.state P) = .ok [])
    (hfin : C.Finite) (hne : C.Nonempty) (hC : ∀ x ∈ C, ∃ y ∈ C, WaitsFor py G P x y) :
    ∃ x ∈ C, ∃ m, G.nodes.lookup x = some m ∧
      ∃ e ∈ blockingEdges py G.nodes (G.state P) m, G.nodes.lookup e.target = none := by
  by_contra hno
  push Not at hno
  obtain ⟨pairs, hpairs, hmem⟩ := @blockingDependencyPairs_ok py G.nodes _
    (G.state_scalar P)
  have hnil : cycle pairs = [] := by
    simp only [instantCycle, hpairs, bind, Except.bind] at hcycle
    exact Except.ok.inj hcycle
  have hpred : ∀ x ∈ C, ∃ y ∈ C, (y, x) ∈ pairs := by
    intro x hx
    obtain ⟨y, hy, m, hm, e, he, n, hn⟩ := hC x hx
    have hkey := hno x hx m hm e he
    obtain ⟨n', hn'⟩ := Option.ne_none_iff_exists'.1 hkey
    rw [resolveEntry_of_lookup hn', Option.some.injEq, Prod.mk.injEq] at hn
    refine ⟨y, hy, (hmem y x).2 ⟨m, mem_of_lookup hm, ?_, e, he, hn.1⟩⟩
    rw [← hn.1, hn']
    rfl
  obtain ⟨x, hx⟩ := exists_transGen_self (r := fun a b => (a, b) ∈ pairs) hfin hne hpred
  exact acyclic_of_cycle_eq_nil pairs hnil x hx

theorem Deadlock.exists_serialLoop {S : Set String} (hS : Deadlock py G P S)
    (hcycle : instantCycle py G.nodes (G.state P) = .ok []) : ∃ x, SerialLoop py G P x := by
  obtain ⟨x, hx, hbottom⟩ := exists_bottom hS.finite hS.nonempty hS.closed
  have hsub : waited py G P x ⊆ S := fun y hy => mem_of_reflTransGen hS.closed hy hx
  obtain ⟨z, hz, hserial⟩ := exists_serial hcycle (hS.finite.subset hsub) ⟨x, .refl⟩ <| by
    intro y hy
    obtain ⟨w, -, hw⟩ := hS.exists_waitsFor (hsub hy)
    exact ⟨w, Relation.ReflTransGen.tail hy hw, hw⟩
  refine ⟨z, hserial, fun y hy => hS.resolve y (hsub (hz.trans hy)), fun y hy => ?_⟩
  exact (hbottom y (hz.trans hy)).trans hz

theorem SerialLoop.deadlock {x : String} (h : SerialLoop py G P x) :
    Deadlock py G P (waited py G P x) := by
  obtain ⟨m, hm, e, he, -⟩ := h.serial
  have hx : eligible py x P.values G = .ok false := ineligible_of_blocking hm he
  refine deadlock_waited (by rw [hm]; rfl) (fun y hy => ?_) h.resolve
  rcases Relation.ReflTransGen.cases_head (h.back y hy) with rfl | ⟨z, hyz, -⟩
  · exact hx
  · exact hyz.ineligible

theorem chainsEnd_iff (htargets : TargetsResolve py G) :
    ChainsEnd py G P ↔ ¬ ∃ S, Deadlock py G P S := by
  constructor
  · rintro hchains ⟨S, hS⟩
    obtain ⟨x, hx⟩ := hS.nonempty
    obtain ⟨y, hxy, hy⟩ := hchains x (hS.node x hx) (hS.ineligible x hx)
    have := hS.ineligible y (mem_of_reflTransGen hS.closed hxy hx)
    rw [hy] at this
    cases this
  · intro hno x hx hinel
    by_contra hend
    push Not at hend
    refine hno ⟨_, @deadlock_waited py G P x hx (fun y hy => ?_) ?_⟩
    · have hnode : (G.nodes.lookup y).isSome := by
        rcases Relation.ReflTransGen.cases_tail hy with rfl | ⟨z, -, hzy⟩
        · exact hx
        · exact hzy.node
      obtain ⟨m, hm⟩ := Option.isSome_iff_exists.1 hnode
      have := hend y hy
      rw [eligible_of_lookup hm] at this ⊢
      cases hb : (blockingEdges py G.nodes (G.state P) m).isEmpty
      · rfl
      · rw [hb] at this
        exact absurd rfl this
    · intro y _ m hm e he
      exact htargets y m hm e ((mem_activeDepends py).1 ((mem_blockingEdges py).1 he).1).1

/-- Where the cycle check is silent and every target is accepted, there is no deadlock, and every
ineligible node waits for an eligible one, exactly when no loop of waiting runs through a serial
id. -/
theorem deadlock_free_iff (py : PyLib) (G : Graph) (P : Projection)
    (htargets : TargetsResolve py G)
    (hcycle : instantCycle py G.nodes (G.state P) = .ok []) :
    ((¬ ∃ S, Deadlock py G P S) ↔ ¬ ∃ x, SerialLoop py G P x)
      ∧ (ChainsEnd py G P ↔ ¬ ∃ x, SerialLoop py G P x) := by
  have hiff : (¬ ∃ S, Deadlock py G P S) ↔ ¬ ∃ x, SerialLoop py G P x :=
    not_congr ⟨fun ⟨_, hS⟩ => hS.exists_serialLoop hcycle, fun ⟨_, hx⟩ => ⟨_, hx.deadlock⟩⟩
  exact ⟨hiff, (chainsEnd_iff htargets).trans hiff⟩

end Deadlock

section Serial

/-- A node that depends on another by its serial id. -/
def serialNode (serial target : String) : Fields :=
  [("serial_id", .str serial), ("edges", .arr [.obj [("type", .str "depends"), ("to", .str target)]])]

/-- Two nodes that depend on each other by serial id. -/
def serialGraph : Graph where
  nodes := [("a", serialNode "0001" "0002"), ("b", serialNode "0002" "0001")]
  keys_nodup := by decide
  registry := []

/-- No patchwork check is set. -/
def emptyProjection : Projection where
  values := fun _ => none
  scalar := by intro name v h; cases h

theorem serialGraph_targetsResolve : TargetsResolve asciiLib serialGraph := by
  intro x m hm
  have hmem : (x, m) ∈ serialGraph.nodes := mem_of_lookup hm
  simp only [serialGraph, mem_cons, Prod.mk.injEq, not_mem_nil, or_false] at hmem
  rcases hmem with ⟨-, rfl⟩ | ⟨-, rfl⟩ <;> decide +kernel

theorem serialGraph_instantCycle :
    instantCycle asciiLib serialGraph.nodes (serialGraph.state emptyProjection) = .ok [] := by
  decide +kernel

theorem deadlock_free_iff_serialGraph :
    ((¬ ∃ S, Deadlock asciiLib serialGraph emptyProjection S)
        ↔ ¬ ∃ x, SerialLoop asciiLib serialGraph emptyProjection x)
      ∧ (ChainsEnd asciiLib serialGraph emptyProjection
        ↔ ¬ ∃ x, SerialLoop asciiLib serialGraph emptyProjection x) :=
  deadlock_free_iff asciiLib serialGraph emptyProjection serialGraph_targetsResolve
    serialGraph_instantCycle

/-- Every target is accepted and no cycle is reported, yet the two nodes wait for each other. -/
theorem serialGraph_deadlock :
    TargetsResolve asciiLib serialGraph
      ∧ instantCycle asciiLib serialGraph.nodes (serialGraph.state emptyProjection) = .ok []
      ∧ ∃ S, Deadlock asciiLib serialGraph emptyProjection S := by
  have hnode : ∀ x, (serialGraph.nodes.lookup x).isSome ↔ x = "a" ∨ x = "b" := by
    intro x
    rw [lookup_isSome_iff]
    simp [serialGraph]
  refine ⟨serialGraph_targetsResolve, serialGraph_instantCycle, {"a", "b"}, ⟨"a", .inl rfl⟩,
    ?_, ?_, ?_, ?_⟩
  · exact fun x hx => (hnode x).2 hx
  · rintro x (rfl | rfl) <;> decide +kernel
  · intro x _ m hm e he
    exact serialGraph_targetsResolve x m hm e
      ((mem_activeDepends _).1 ((mem_blockingEdges _).1 he).1).1
  · exact fun x _ y hxy => (hnode y).1 hxy.node

end Serial

end AiOrg
