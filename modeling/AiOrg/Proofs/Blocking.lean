import AiOrg.Gate.Blocking
import AiOrg.Proofs.WhenStatic

/-!
# The traversals of the gate see the blocking edges

`eligible`, `_computed_edge_facts` and `_blocking_dependency_pairs` walk the edges of a node in
three ways; each of them is a function of the blocking edges.
-/

namespace AiOrg

open List

section Sequence

variable {α β : Type*}

theorem mapOk_ok_iff {f : α → Except GateError β} : ∀ {xs : List α} {ys : List β},
    mapOk f xs = .ok ys ↔ Forall₂ (fun x y => f x = .ok y) xs ys
  | [], [] => by simp [mapOk]
  | [], _ :: _ => by simp [mapOk]
  | x :: xs, [] => by
    simp only [mapOk, bind, Except.bind, pure, Except.pure]
    rcases f x with e | y
    · simp
    · rcases mapOk f xs with e | zs <;> simp
  | x :: xs, z :: zs => by
    rw [forall₂_cons, ← mapOk_ok_iff]
    simp only [mapOk, bind, Except.bind, pure, Except.pure]
    rcases f x with e | y
    · simp
    · rcases mapOk f xs with e | ys <;> simp

theorem mapOk_of_forall {f : α → Except GateError β} {g : α → β} : ∀ {xs : List α},
    (∀ x ∈ xs, f x = .ok (g x)) → mapOk f xs = .ok (xs.map g)
  | [], _ => rfl
  | x :: xs, h => by
    simp only [mapOk, h x (mem_cons_self ..), bind, Except.bind,
      mapOk_of_forall fun y hy => h y (mem_cons_of_mem _ hy)]
    rfl

theorem allOk_of_forall {f : α → Except GateError Bool} {g : α → Bool} : ∀ {xs : List α},
    (∀ x ∈ xs, f x = .ok (g x)) → allOk f xs = .ok (xs.all g)
  | [], _ => rfl
  | x :: xs, h => by
    simp only [allOk, h x (mem_cons_self ..), bind, Except.bind,
      allOk_of_forall fun y hy => h y (mem_cons_of_mem _ hy), all_cons]
    cases g x <;> rfl

theorem anyOk_of_forall {f : α → Except GateError Bool} {g : α → Bool} : ∀ {xs : List α},
    (∀ x ∈ xs, f x = .ok (g x)) → anyOk f xs = .ok (xs.any g)
  | [], _ => rfl
  | x :: xs, h => by
    simp only [anyOk, h x (mem_cons_self ..), bind, Except.bind,
      anyOk_of_forall fun y hy => h y (mem_cons_of_mem _ hy), any_cons]
    cases g x <;> rfl

end Sequence

section Active

variable (py : PyLib) {state : CheckState}

theorem evaluateWhen_map_fst (text node node' : String) (i i' : Option ℕ) :
    (evaluateWhen py state text node i).map Prod.fst
      = (evaluateWhen py state text node' i').map Prod.fst := by
  unfold evaluateWhen
  simp only
  split_ifs
  · rfl
  · simp only [bind, Except.bind]
    rcases parseWhen py (pyStrip text) with e | ast
    · rfl
    · simp only
      rcases evalWhenAst py state ast with e | ⟨v, w⟩ <;> rfl

theorem edgeActive_congr (node node' : String) (i i' : ℕ) (edge : Edge) :
    edgeActive py state node i edge = edgeActive py state node' i' edge := by
  unfold edgeActive
  rcases edge.when with _ | text
  · rfl
  · have := @evaluateWhen_map_fst py state text node node' (some i) (some i')
    simp only
    rcases hl : evaluateWhen py state text node (some i) with e | ⟨b, w⟩ <;>
      rcases hr : evaluateWhen py state text node' (some i') with e' | ⟨b', w'⟩ <;>
      rw [hl, hr] at this <;> simp only [Except.map, Except.error.injEq, Except.ok.injEq,
        reduceCtorEq] at this <;> subst this <;> rfl

theorem edgeOn_of_edgeActive {node : String} {i : ℕ} {edge : Edge} {b : Bool}
    (h : edgeActive py state node i edge = .ok b) : edgeOn py state edge = b := by
  rw [edgeActive_congr py node "" i 0] at h
  simp only [edgeOn, h]

theorem activeEdgesFrom_ok {node : String} : ∀ {i : ℕ} {edges active : List Edge},
    activeEdgesFrom py state node i edges = .ok active →
      active = edges.filter (edgeOn py state)
        ∧ ∀ e ∈ edges, edgeActive py state "" 0 e = .ok (edgeOn py state e)
  | _, [], active, h => by
    cases h
    simp
  | i, e :: edges, active, h => by
    simp only [activeEdgesFrom, bind, Except.bind, pure, Except.pure] at h
    rcases he : edgeActive py state node i e with er | b <;> rw [he] at h <;> simp only at h
    · cases h
    rcases hr : activeEdgesFrom py state node (i + 1) edges with er | rest <;> rw [hr] at h <;>
      simp only at h
    · cases h
    obtain ⟨hrest, hedges⟩ := activeEdgesFrom_ok hr
    have hb := edgeOn_of_edgeActive py he
    refine ⟨?_, ?_⟩
    · cases h
      rw [filter_cons, hb, hrest]
    · intro e' he'
      rcases mem_cons.1 he' with rfl | he'
      · rw [edgeActive_congr py "" node 0 i, he, hb]
      · exact hedges e' he'

theorem activeEdgesFrom_of_forall {node : String} : ∀ {i : ℕ} {edges : List Edge},
    (∀ e ∈ edges, edgeActive py state "" 0 e = .ok (edgeOn py state e)) →
      activeEdgesFrom py state node i edges = .ok (edges.filter (edgeOn py state))
  | _, [], _ => rfl
  | i, e :: edges, h => by
    have he := h e (mem_cons_self ..)
    rw [edgeActive_congr py "" node 0 i] at he
    simp only [activeEdgesFrom, he, bind, Except.bind,
      activeEdgesFrom_of_forall fun e' he' => h e' (mem_cons_of_mem _ he'), filter_cons]
    rfl

theorem activeEdges_eq {manifest : Fields} {nodes : Nodes}
    (ev : Evaluates py nodes state manifest) (node : String) :
    activeEdges py manifest state node
      = .ok ((manifestEdges py manifest).filter (edgeOn py state)) :=
  activeEdgesFrom_of_forall py ev.active

theorem filter_isDepends_active (manifest : Fields) :
    ((manifestEdges py manifest).filter (edgeOn py state)).filter isDepends
      = activeDepends py state manifest := by
  rw [activeDepends, dependsEdges, filter_comm]

theorem mem_activeDepends {manifest : Fields} {e : Edge} :
    e ∈ activeDepends py state manifest ↔ e ∈ dependsEdges py manifest ∧ edgeOn py state e :=
  mem_filter

end Active

section Blocking

variable (py : PyLib) {state : CheckState} {nodes : Nodes} {manifest : Fields}

theorem mem_blockingEdges {e : Edge} : e ∈ blockingEdges py nodes state manifest ↔
    e ∈ activeDepends py state manifest ∧ unlocked py nodes state manifest e = false := by
  simp [blockingEdges]

theorem unlocked_of_group_none {e : Edge} (h : e.group = none) :
    unlocked py nodes state manifest e = edgeSat py nodes state e := by
  simp only [unlocked, h]

theorem unlocked_of_group_some {e : Edge} {g : String} (h : e.group = some g) :
    unlocked py nodes state manifest e
      = ((activeDepends py state manifest).filter fun e => e.group = some g).any
          (edgeSat py nodes state) := by
  simp only [unlocked, h, any_filter]

theorem blockingEdges_isEmpty : (blockingEdges py nodes state manifest).isEmpty
    = (((activeDepends py state manifest).filter fun e => e.group = none).all
        (edgeSat py nodes state)
      && (groupBy Edge.group (activeDepends py state manifest)).all fun g =>
        g.2.any (edgeSat py nodes state)) := by
  rw [Bool.eq_iff_iff]
  simp only [List.isEmpty_iff, blockingEdges, filter_eq_nil_iff, Bool.not_eq_true',
    Bool.not_eq_false, Bool.and_eq_true, all_eq_true, mem_filter, decide_eq_true_eq]
  constructor
  · intro h
    refine ⟨fun e ⟨he, hg⟩ => ?_, fun ⟨g, members⟩ hmem => ?_⟩
    · rw [← unlocked_of_group_none py hg]
      exact h e he
    · obtain ⟨rfl, hne⟩ := mem_groupBy.1 hmem
      obtain ⟨e, he⟩ := exists_mem_of_ne_nil _ hne
      simp only [mem_filter, decide_eq_true_eq] at he
      rw [← unlocked_of_group_some py he.2]
      exact h e he.1
  · rintro ⟨hand, hor⟩ e he
    rcases hg : e.group with _ | g
    · rw [unlocked_of_group_none py hg]
      exact hand e ⟨he, hg⟩
    · rw [unlocked_of_group_some py hg]
      refine hor (g, _) (mem_groupBy.2 ⟨rfl, ne_nil_of_mem (a := e) ?_⟩)
      simp [he, hg]

theorem eligible_eq {graph : Graph} {values : CheckState} {key : String}
    (hm : graph.nodes.lookup key = some manifest)
    (ev : Evaluates py graph.nodes ((stateDefaults graph.registry).update values) manifest) :
    eligible py key values graph = .ok (blockingEdges py graph.nodes
      ((stateDefaults graph.registry).update values) manifest).isEmpty := by
  set state := (stateDefaults graph.registry).update values with hstate
  have hsat : ∀ e ∈ activeDepends py state manifest,
      edgeTargetSatisfied py e graph.nodes state = .ok (edgeSat py graph.nodes state e) :=
    fun e he => ev.satisfied e ((mem_activeDepends py).1 he).1
  have hgroups : ∀ g ∈ groupBy Edge.group (activeDepends py state manifest),
      anyOk (fun e => edgeTargetSatisfied py e graph.nodes state) g.2
        = .ok (g.2.any (edgeSat py graph.nodes state)) := by
    rintro ⟨g, members⟩ hmem
    obtain ⟨rfl, -⟩ := mem_groupBy.1 hmem
    exact anyOk_of_forall fun e he => hsat e (mem_filter.1 he).1
  simp only [eligible, hm, ← hstate, activeEdges_eq py ev, bind, Except.bind, pure, Except.pure,
    filter_isDepends_active, allOk_of_forall fun e he => hsat e (mem_filter.1 he).1,
    allOk_of_forall hgroups, blockingEdges_isEmpty]
  cases ((activeDepends py state manifest).filter fun e => e.group = none).all
    (edgeSat py graph.nodes state) <;> rfl

end Blocking

end AiOrg
