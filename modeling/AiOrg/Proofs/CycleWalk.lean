import AiOrg.Proofs.Cycle

/-!
# The cycle search reports a cycle

The nodes on the stack are a walk, and once its top is entered the path is this walk and every node
of it has its position. So what the search returns from a node that is being visited is a walk that
ends where it starts, and it returns one exactly if there is one.
-/

namespace AiOrg

open List

section Search

variable {α : Type*} [DecidableEq α] {adj : α → List α}

namespace CycleState

theorem enter_of_mem {s : CycleState α} {n : α} (h : n ∈ s.visiting) : s.enter n = s := by
  simp [enter, h]

theorem mem_enter (s : CycleState α) {n : α} (h : n ∉ s.visited) : n ∈ (s.enter n).visiting :=
  (mem_enter_visiting h).2 (.inl rfl)

theorem enter_of_new {s : CycleState α} {n : α} (h : n ∉ s.visiting) (h' : n ∉ s.visited) :
    s.enter n = { s with
      visiting := n :: s.visiting
      positions := (n, s.path.length) :: s.positions
      path := s.path ++ [n] } :=
  if_pos ⟨h, h'⟩

structure OnPath (s : CycleState α) : Prop where
  path : s.path = s.nodes.reverse
  positions : ∀ v ∈ s.path, ∃ i, s.positions.lookup v = some i ∧ s.path[i]? = some v

end CycleState

/-- What holds of the path at the top of the `while stack` loop. -/
structure PathInv (adj : α → List α) (s : CycleState α) : Prop where
  chain : s.nodes.IsChain fun above below => above ∈ adj below
  rest_sub : ∀ f ∈ s.stack, f.rest ⊆ adj f.node
  entered : ∀ f below, s.stack = f :: below → (s.enter f.node).OnPath
  left : s.stack = [] → s.path = []

theorem lookup_filter_ne {β : Type*} {v n : α} (h : v ≠ n) (entries : List (α × β)) :
    (entries.filter (·.1 ≠ n)).lookup v = entries.lookup v := by
  induction entries with
  | nil => rfl
  | cons entry entries ih =>
    obtain ⟨k, x⟩ := entry
    by_cases hk : k = n
    · rw [filter_cons_of_neg (by simp [hk]), ih, lookup_cons, beq_false_of_ne (hk ▸ h)]
    · rw [filter_cons_of_pos (by simp [hk]), lookup_cons, lookup_cons, ih]

section Pass

variable {s s' : CycleState α} {f : Frame α} {below : List (Frame α)}

theorem PathInv.top (path : PathInv adj s) (hs : s.stack = f :: below) :
    (s.enter f.node).path = (below.map Frame.node).reverse ++ [f.node] := by
  have h := (path.entered f below hs).path
  rwa [CycleState.nodes, CycleState.enter_stack, hs, map_cons, reverse_cons] at h

theorem PathInv.mem_path (inv : CycleInv adj s) (path : PathInv adj s) (hs : s.stack = f :: below) {v : α} :
    v ∈ (s.enter f.node).path ↔ v ∈ (s.enter f.node).visiting := by
  have hfresh : f.node ∉ s.visited := inv.fresh _ (by simp [CycleState.nodes, hs])
  have hentered := inv.entered
  have hsub := inv.visiting_sub
  simp only [CycleState.nodes, hs, map_cons, tail_cons] at hentered hsub
  rw [path.top hs, CycleState.mem_enter_visiting hfresh, mem_append, mem_reverse, mem_singleton]
  constructor
  · rintro (hv | hv)
    · exact .inr (hentered v hv)
    · exact .inl hv
  · rintro (hv | hv)
    · exact .inr hv
    · exact (mem_cons.1 (hsub hv)).symm

theorem PathInv.leave (inv : CycleInv adj s) (path : PathInv adj s) (hs : s.stack = f :: below)
    {t : CycleState α} (ht : t = (s.enter f.node).leave f.node below) : t.OnPath := by
  have htop := path.top hs
  have hfresh : f.node ∉ s.visited := inv.fresh _ (by simp [CycleState.nodes, hs])
  have hnodup := inv.nodup
  rw [CycleState.nodes, hs, map_cons, nodup_cons] at hnodup
  have hpath : t.path = (below.map Frame.node).reverse := by
    simp [ht, CycleState.leave, s.mem_enter hfresh, htop]
  have hstack : t.stack = below := by simp [ht, CycleState.leave, s.mem_enter hfresh]
  refine ⟨by rw [hpath, CycleState.nodes, hstack], ?_⟩
  intro v hv
  rw [hpath] at hv ⊢
  have hne : v ≠ f.node := by
    rintro rfl
    exact hnodup.1 (mem_reverse.1 hv)
  obtain ⟨i, hlookup, hi⟩ := (path.entered f below hs).positions v (by rw [htop]; simp [hv])
  refine ⟨i, ?_, ?_⟩
  · simpa [ht, CycleState.leave, s.mem_enter hfresh, ← lookup_filter_ne hne (s.enter f.node).positions] using hlookup
  · rw [htop] at hi
    have hlt : i < (below.map Frame.node).reverse.length := by
      by_contra hge
      rw [getElem?_append_right (by omega), getElem?_singleton] at hi
      split_ifs at hi
      exact hne (Option.some.inj hi).symm
    rwa [getElem?_append_left hlt] at hi

theorem PathInv.push (inv : CycleInv adj s) (path : PathInv adj s) (hs : s.stack = f :: below) {next : α}
    {rest : List α} (hnew : next ∉ (s.enter f.node).visiting) (hvisited : next ∉ (s.enter f.node).visited) {t : CycleState α}
    (ht : t = { s.enter f.node with stack := ⟨next, adj next⟩ :: ⟨f.node, rest⟩ :: below }) :
    (t.enter next).OnPath := by
  have htop := path.top hs
  have hon := path.entered f below hs
  have hnew' : next ∉ t.visiting := by rwa [ht]
  have hvisited' : next ∉ t.visited := by rwa [ht]
  have hpath : next ∉ t.path := by rwa [ht, path.mem_path inv hs]
  rw [CycleState.enter_of_new hnew' hvisited']
  constructor
  · simp [CycleState.nodes, ht, htop]
  · intro v hv
    by_cases hv' : v ∈ t.path
    · have hne : v ≠ next := fun heq => hpath (heq ▸ hv')
      rw [ht] at hv'
      obtain ⟨i, hlookup, hi⟩ := hon.positions v hv'
      refine ⟨i, ?_, ?_⟩
      · rw [lookup_cons, beq_false_of_ne hne, ht]
        exact hlookup
      · rw [ht, getElem?_append_left (List.getElem?_eq_some_iff.1 hi).1]
        exact hi
    · have hvn : v = next := by simpa [hv'] using hv
      exact ⟨t.path.length, by simp [hvn], by simp [hvn]⟩

theorem PathInv.step (inv : CycleInv adj s) (path : PathInv adj s) (hs : s.stack = f :: below)
    (h : cycleStep adj s f below = .running s') : PathInv adj s' := by
  have hfresh : f.node ∉ s.visited := inv.fresh _ (by simp [CycleState.nodes, hs])
  have hchain := path.chain
  have hrest_sub := path.rest_sub
  rw [CycleState.nodes, hs, map_cons] at hchain
  simp only [hs, forall_mem_cons] at hrest_sub
  obtain ⟨hf, hbelow⟩ := hrest_sub
  unfold cycleStep at h
  rcases hrest : f.rest with _ | ⟨next, rest⟩ <;> simp only [hrest] at h hf
  · have ht : s' = (s.enter f.node).leave f.node below := by simpa using h.symm
    have hon := path.leave inv hs ht
    have hstack : s'.stack = below := by simp [ht, CycleState.leave, s.mem_enter hfresh]
    refine ⟨?_, by rwa [hstack], ?_, ?_⟩
    · rw [CycleState.nodes, hstack]
      exact hchain.tail
    · intro g below' hg
      have hnodup := inv.nodup
      have hentered := inv.entered g.node
      rw [hstack] at hg
      simp only [CycleState.nodes, hs, hg, map_cons, nodup_cons, mem_cons, not_or, tail_cons,
        true_or, forall_const] at hnodup hentered
      have hmem : g.node ∈ s'.visiting := by
        simp only [ht, CycleState.leave, s.mem_enter hfresh, ↓reduceIte]
        exact (mem_erase_of_ne (Ne.symm hnodup.1.1)).2 ((CycleState.mem_enter_visiting hfresh).2 (.inr hentered))
      rwa [CycleState.enter_of_mem hmem]
    · intro hnil
      rw [hon.path, CycleState.nodes, hnil]
      rfl
  · have hnext : next ∈ adj f.node := hf mem_cons_self
    have hsub : rest ⊆ adj f.node := fun b hb => hf (mem_cons_of_mem _ hb)
    split_ifs at h with hvisiting hvisited
    · obtain rfl := (CycleStep.running.inj h).symm
      refine ⟨hchain, ?_, ?_, fun hnil => absurd hnil (cons_ne_nil _ _)⟩
      · rintro g (_ | ⟨_, hg⟩)
        · exact hsub
        · exact hbelow g hg
      · rintro g below' hg
        obtain ⟨rfl, -⟩ := List.cons.inj hg
        have hpath := path.top hs
        rw [CycleState.enter_of_mem (by exact s.mem_enter hfresh)]
        exact ⟨by simpa [CycleState.nodes] using hpath, (path.entered f below hs).positions⟩
    · obtain rfl := (CycleStep.running.inj h).symm
      refine ⟨isChain_cons_cons.2 ⟨hnext, hchain⟩, ?_, ?_, fun hnil => absurd hnil (cons_ne_nil _ _)⟩
      · rintro g (_ | ⟨_, _ | ⟨_, hg⟩⟩)
        · exact fun _ hb => hb
        · exact hsub
        · exact hbelow g hg
      · rintro g below' hg
        obtain ⟨rfl, -⟩ := List.cons.inj hg
        exact path.push inv hs hvisiting hvisited rfl

theorem PathInv.found (inv : CycleInv adj s) (path : PathInv adj s) (hs : s.stack = f :: below) {c : List α}
    (h : cycleStep adj s f below = .found c) : ClosedWalk (fun a b => b ∈ adj a) c := by
  unfold cycleStep at h
  rcases hrest : f.rest with _ | ⟨next, rest⟩ <;> simp only [hrest] at h
  · cases h
  split_ifs at h with hvisiting
  obtain rfl := CycleStep.found.inj h
  obtain ⟨i, hlookup, hi⟩ := (path.entered f below hs).positions next ((path.mem_path inv hs).2 hvisiting)
  obtain ⟨hlt, hget⟩ := List.getElem?_eq_some_iff.1 hi
  have hchain : (s.enter f.node).path.IsChain fun a b => b ∈ adj a := by
    rw [(path.entered f below hs).path, isChain_reverse, CycleState.nodes, CycleState.enter_stack]
    exact path.chain
  have hnext : next ∈ adj f.node := path.rest_sub f (by simp [hs]) (by simp [hrest])
  have hdrop : (s.enter f.node).path.drop i = next :: (s.enter f.node).path.drop (i + 1) := by
    rw [drop_eq_getElem_cons hlt, hget]
  have hlast : ((s.enter f.node).path.drop i).getLast? = some f.node := by
    have htop := path.top hs
    rw [htop, length_append, length_singleton] at hlt
    rw [htop, drop_append_of_le_length (by omega), getLast?_concat]
  rw [hlookup, Option.getD_some]
  refine ⟨?_, ?_, ?_⟩
  · rw [isChain_append]
    refine ⟨hchain.drop i, isChain_singleton _, ?_⟩
    intro a ha b hb
    rw [hlast] at ha
    obtain rfl := Option.some.inj ha
    obtain rfl := Option.some.inj hb
    exact hnext
  · rw [getLast?_concat, hdrop]
    rfl
  · rw [hdrop]
    simp

end Pass

theorem cycleLoop_walk : ∀ (fuel : ℕ) (s : CycleState α), CycleInv adj s → PathInv adj s →
    (∀ c, cycleLoop adj fuel s = some (.found c) → ClosedWalk (fun a b => b ∈ adj a) c) ∧
      ∀ s', cycleLoop adj fuel s = some (.running s') → Rested adj s' ∧ s'.path = []
  | 0, _, _, _ => ⟨fun _ h => (nomatch h), fun _ h => (nomatch h)⟩
  | fuel + 1, s, inv, path => by
    rcases hs : s.stack with _ | ⟨f, below⟩
    · simp only [cycleLoop, hs]
      refine ⟨fun _ h => (by cases h), ?_⟩
      rintro s' h
      obtain rfl := CycleStep.running.inj (Option.some.inj h)
      exact ⟨inv.rested adj hs, path.left hs⟩
    · rcases hstep : cycleStep adj s f below with s' | c
      · simp only [cycleLoop, hs, hstep]
        exact cycleLoop_walk fuel s' (inv.step adj hs hstep) (path.step inv hs hstep)
      · simp only [cycleLoop, hs, hstep]
        refine ⟨?_, fun _ h => (by cases h)⟩
        rintro c' h
        obtain rfl := CycleStep.found.inj (Option.some.inj h)
        exact path.found inv hs hstep

theorem Rested.startPath {s : CycleState α} (h : Rested adj s) (hpath : s.path = []) {n : α} (hn : n ∉ s.visited) :
    PathInv adj { s with stack := [⟨n, adj n⟩] } := by
  refine ⟨isChain_singleton _, by simp, ?_, fun hnil => absurd hnil (cons_ne_nil _ _)⟩
  intro g below hg
  obtain ⟨rfl, -⟩ := List.cons.inj hg
  rw [CycleState.enter_of_new (by simp [h.visiting]) (by exact hn)]
  constructor
  · simp [CycleState.nodes, hpath]
  · simp [hpath]

theorem cycleFrom_walk (fuel : ℕ) : ∀ (nodes : List α) (s : CycleState α), Rested adj s → s.path = [] →
    ∀ c, cycleFrom adj fuel nodes s = some c → c ≠ [] → ClosedWalk (fun a b => b ∈ adj a) c
  | [], _, _, _, c, h, hne => absurd (Option.some.inj h).symm hne
  | n :: nodes, s, hrest, hpath, c, h, hne => by
    rw [cycleFrom] at h
    split_ifs at h with hn
    · exact cycleFrom_walk fuel nodes s hrest hpath c h hne
    · obtain ⟨hfound, hrunning⟩ := cycleLoop_walk fuel _ (hrest.start adj hn) (hrest.startPath hpath hn)
      rcases hloop : cycleLoop adj fuel { s with stack := [⟨n, adj n⟩] } with _ | (s' | c')
      · rw [hloop] at h
        cases h
      · rw [hloop] at h
        obtain ⟨hrest', hpath'⟩ := hrunning s' hloop
        exact cycleFrom_walk fuel nodes s' hrest' hpath' c h hne
      · rw [hloop] at h
        obtain rfl := Option.some.inj h
        exact hfound c' hloop

end Search

section Edges

variable (edges : List (String × String))

/-- The prerequisite and the dependent of an edge. -/
def Precedes (a b : String) : Prop := (a, b) ∈ edges

theorem cycle_walk (h : cycle edges ≠ []) : ClosedWalk (Precedes edges) (cycle edges) := by
  rw [cycle] at h ⊢
  rcases hrun : cycleFrom (sortedDependents edges) (cycleFuel edges)
    (sorted ((dependencyGraph edges).map Prod.fst)) ⟨[], [], [], [], []⟩ with _ | c
  · rw [hrun] at h
    exact absurd rfl h
  · rw [hrun] at h
    have hwalk := cycleFrom_walk (cycleFuel edges) _ _ ⟨rfl, by simp⟩ rfl c hrun h
    simp only [mem_sortedDependents] at hwalk
    exact hwalk

/-- `_cycle` ends, reports nothing exactly if the edges are acyclic, and else a walk along the edges that ends where
it starts. -/
theorem cycle_exact :
    cycleFrom (sortedDependents edges) (cycleFuel edges) (sorted ((dependencyGraph edges).map Prod.fst))
        ⟨[], [], [], [], []⟩ = some (cycle edges) ∧
      (cycle edges = [] ↔ ∀ a, ¬ Relation.TransGen (Precedes edges) a a) ∧
      (cycle edges ≠ [] → ClosedWalk (Precedes edges) (cycle edges)) := by
  refine ⟨cycleFrom_eq_cycle edges, ⟨acyclic_of_cycle_eq_nil edges, ?_⟩, cycle_walk edges⟩
  intro hacyclic
  by_contra hne
  obtain ⟨a, ha⟩ := (cycle_walk edges hne).transGen
  exact hacyclic a ha

end Edges

end AiOrg
