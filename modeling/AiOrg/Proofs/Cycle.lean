import AiOrg.Gate.Cycle
import AiOrg.Relation.Closed

/-!
# The cycle search is exhaustive

What the search leaves behind as visited lies on no cycle: its neighbours were visited before it.
A pass that goes on takes one off the work left, the neighbours still to look at in the frames and
in the nodes not discovered, so the loop ends within its fuel.
-/

namespace AiOrg

open List

section Search

variable {α : Type*} [DecidableEq α] (adj : α → List α)

/-- Every path from a node ends. -/
def Halts (v : α) : Prop := Acc (fun b a => b ∈ adj a) v

def FramesOk (visited : List α) : Option α → List (Frame α) → Prop
  | _, [] => True
  | above, f :: below =>
    (∀ b ∈ adj f.node, b ∈ f.rest ∨ b ∈ visited ∨ above = some b)
      ∧ FramesOk visited (some f.node) below

omit [DecidableEq α] in
theorem FramesOk.mono {visited visited' : List α} (hsub : visited ⊆ visited') :
    ∀ {above : Option α} {stack : List (Frame α)}, FramesOk adj visited above stack →
      FramesOk adj visited' above stack
  | _, [], _ => trivial
  | _, _ :: _, h =>
    ⟨fun b hb => (h.1 b hb).imp_right (Or.imp_left fun hv => hsub hv), h.2.mono hsub⟩

def CycleState.nodes (s : CycleState α) : List α := s.stack.map Frame.node

/-- What holds at the top of the `while stack` loop. -/
structure CycleInv (s : CycleState α) : Prop where
  nodup : s.nodes.Nodup
  halts : ∀ v ∈ s.visited, Halts adj v
  fresh : ∀ v ∈ s.nodes, v ∉ s.visited
  entered : ∀ v ∈ s.nodes.tail, v ∈ s.visiting
  visiting_sub : s.visiting ⊆ s.nodes
  visiting_nodup : s.visiting.Nodup
  frames : FramesOk adj s.visited none s.stack

namespace CycleState

theorem enter_visited (s : CycleState α) (n : α) : (s.enter n).visited = s.visited := by
  unfold enter
  split_ifs <;> rfl

theorem enter_stack (s : CycleState α) (n : α) : (s.enter n).stack = s.stack := by
  unfold enter
  split_ifs <;> rfl

theorem mem_enter_visiting {s : CycleState α} {n v : α} (hn : n ∉ s.visited) :
    v ∈ (s.enter n).visiting ↔ v = n ∨ v ∈ s.visiting := by
  unfold enter
  split_ifs with h
  · exact mem_cons
  · have hv : n ∈ s.visiting := by
      by_contra hv
      exact h ⟨hv, hn⟩
    exact ⟨.inr, fun h => h.elim (fun h => h ▸ hv) id⟩

theorem enter_visiting_nodup {s : CycleState α} (h : s.visiting.Nodup) (n : α) :
    (s.enter n).visiting.Nodup := by
  unfold enter
  split_ifs with hn
  · exact nodup_cons.2 ⟨hn.1, h⟩
  · exact h

end CycleState

inductive PassKind (s : CycleState α) (f : Frame α) (below : List (Frame α))
    (s' : CycleState α) : Prop
  | leave (hrest : f.rest = []) (hstack : s'.stack = below)
      (hvisited : s'.visited = f.node :: s.visited)
      (hvisiting : s'.visiting = (s.enter f.node).visiting.erase f.node)
  | skip (next : α) (rest : List α) (hrest : f.rest = next :: rest) (hnext : next ∈ s.visited)
      (hstack : s'.stack = ⟨f.node, rest⟩ :: below) (hvisited : s'.visited = s.visited)
      (hvisiting : s'.visiting = (s.enter f.node).visiting)
  | push (next : α) (rest : List α) (hrest : f.rest = next :: rest) (hnext : next ∉ s.visited)
      (hnew : next ∉ (s.enter f.node).visiting)
      (hstack : s'.stack = ⟨next, adj next⟩ :: ⟨f.node, rest⟩ :: below)
      (hvisited : s'.visited = s.visited) (hvisiting : s'.visiting = (s.enter f.node).visiting)

theorem cycleStep_running {s s' : CycleState α} {f : Frame α} {below : List (Frame α)}
    (hf : f.node ∉ s.visited) (h : cycleStep adj s f below = .running s') :
    PassKind adj s f below s' := by
  unfold cycleStep at h
  rcases hrest : f.rest with _ | ⟨next, rest⟩ <;> simp only [hrest] at h
  · have hmem : f.node ∈ (s.enter f.node).visiting :=
      (CycleState.mem_enter_visiting hf).2 (.inl rfl)
    simp only [CycleState.leave, hmem, ↓reduceIte, CycleStep.running.injEq] at h
    subst h
    exact .leave hrest rfl (by rw [CycleState.enter_visited]) rfl
  · rw [CycleState.enter_visited] at h
    split_ifs at h with hvisiting hvisited
    · cases h
      exact .skip next rest hrest hvisited rfl rfl rfl
    · cases h
      exact .push next rest hrest hvisited hvisiting rfl rfl rfl

/-- A pass keeps the invariant. -/
theorem CycleInv.step {s s' : CycleState α} {f : Frame α} {below : List (Frame α)}
    (inv : CycleInv adj s) (hs : s.stack = f :: below)
    (h : cycleStep adj s f below = .running s') : CycleInv adj s' := by
  obtain ⟨nodup, halts, fresh, entered, sub, vnodup, frames⟩ := inv
  simp only [CycleState.nodes, hs, map_cons, nodup_cons, mem_cons, tail_cons,
    forall_eq_or_imp] at nodup fresh entered sub
  rw [hs] at frames
  have hmem := fun v => CycleState.mem_enter_visiting (s := s) (v := v) fresh.1
  have hvn := CycleState.enter_visiting_nodup vnodup f.node
  cases cycleStep_running adj fresh.1 h with
  | leave hrest hstack hvisited hvisiting =>
    have hhalts : Halts adj f.node := by
      refine ⟨_, fun b hb => ?_⟩
      rcases frames.1 b hb with hb | hb | hb
      · rw [hrest] at hb
        cases hb
      · exact halts b hb
      · cases hb
    have hbelow : ∀ v ∈ below.map Frame.node, v ≠ f.node := fun v hv hvf => nodup.1 (hvf ▸ hv)
    refine ⟨?_, ?_, ?_, ?_, ?_, ?_, ?_⟩
    · simpa only [CycleState.nodes, hstack] using nodup.2
    · intro v hv
      rw [hvisited] at hv
      rcases mem_cons.1 hv with rfl | hv
      · exact hhalts
      · exact halts v hv
    · intro v hv
      rw [CycleState.nodes, hstack] at hv
      rw [hvisited, mem_cons, not_or]
      exact ⟨hbelow v hv, fresh.2 v hv⟩
    · intro v hv
      rw [CycleState.nodes, hstack] at hv
      have hv := mem_of_mem_tail hv
      rw [hvisiting, hvn.mem_erase_iff, hmem]
      exact ⟨hbelow v hv, .inr (entered v hv)⟩
    · intro v hv
      rw [hvisiting, hvn.mem_erase_iff, hmem] at hv
      rw [CycleState.nodes, hstack]
      rcases hv with ⟨hne, rfl | hv⟩
      · exact absurd rfl hne
      · exact (mem_cons.1 (sub hv)).resolve_left hne
    · rw [hvisiting]
      exact hvn.erase _
    · rw [hstack, hvisited]
      rcases below with _ | ⟨g, below⟩
      · trivial
      · refine ⟨fun b hb => ?_, frames.2.2.mono adj (subset_cons_self ..)⟩
        rcases frames.2.1 b hb with hb | hb | hb
        · exact .inl hb
        · exact .inr (.inl (mem_cons_of_mem _ hb))
        · cases hb
          exact .inr (.inl (mem_cons_self ..))
  | skip next rest hrest hnext hstack hvisited hvisiting =>
    refine ⟨?_, ?_, ?_, ?_, ?_, ?_, ?_⟩
    · simpa only [CycleState.nodes, hstack, map_cons, nodup_cons] using nodup
    · rwa [hvisited]
    · simp only [CycleState.nodes, hstack, hvisited, map_cons, mem_cons, forall_eq_or_imp]
      exact fresh
    · simp only [CycleState.nodes, hstack, hvisiting, map_cons, tail_cons, hmem]
      exact fun v hv => .inr (entered v hv)
    · intro v hv
      rw [hvisiting, hmem] at hv
      simp only [CycleState.nodes, hstack, map_cons, mem_cons]
      rcases hv with hv | hv
      · exact .inl hv
      · exact mem_cons.1 (sub hv)
    · rwa [hvisiting]
    · rw [hstack, hvisited]
      refine ⟨fun b hb => ?_, frames.2⟩
      rcases frames.1 b hb with hb | hb | hb
      · rw [hrest] at hb
        rcases mem_cons.1 hb with rfl | hb
        · exact .inr (.inl hnext)
        · exact .inl hb
      · exact .inr (.inl hb)
      · cases hb
  | push next rest hrest hnext hnew hstack hvisited hvisiting =>
    have hnew' : next ≠ f.node ∧ next ∉ s.visiting := by
      rw [hmem] at hnew
      exact not_or.1 hnew
    refine ⟨?_, ?_, ?_, ?_, ?_, ?_, ?_⟩
    · simp only [CycleState.nodes, hstack, map_cons, nodup_cons, mem_cons, not_or]
      exact ⟨⟨hnew'.1, fun hb => hnew'.2 (entered next hb)⟩, nodup⟩
    · rwa [hvisited]
    · simp only [CycleState.nodes, hstack, hvisited, map_cons, mem_cons, forall_eq_or_imp]
      exact ⟨hnext, fresh⟩
    · simp only [CycleState.nodes, hstack, hvisiting, map_cons, tail_cons, mem_cons,
        forall_eq_or_imp, hmem]
      exact ⟨.inl trivial, fun v hv => .inr (entered v hv)⟩
    · intro v hv
      rw [hvisiting, hmem] at hv
      simp only [CycleState.nodes, hstack, map_cons, mem_cons]
      rcases hv with hv | hv
      · exact .inr (.inl hv)
      · exact .inr (mem_cons.1 (sub hv))
    · rwa [hvisiting]
    · rw [hstack, hvisited]
      refine ⟨fun b hb => .inl hb, fun b hb => ?_, frames.2⟩
      rcases frames.1 b hb with hb | hb | hb
      · rw [hrest] at hb
        rcases mem_cons.1 hb with rfl | hb
        · exact .inr (.inr rfl)
        · exact .inl hb
      · exact .inr (.inl hb)
      · cases hb

/-! ### The work left -/

def CycleState.discovered (s : CycleState α) : Finset α := s.visited.toFinset ∪ s.nodes.toFinset

def CycleState.work (V : Finset α) (s : CycleState α) : ℕ :=
  ∑ v ∈ V \ s.discovered, ((adj v).length + 1)
    + (s.stack.map fun f => f.rest.length + 1).sum

/-- The frames and the neighbours stay within a set of nodes. -/
structure Inside (V : Finset α) (s : CycleState α) : Prop where
  adj_sub : ∀ v, ∀ b ∈ adj v, b ∈ V
  rest_sub : ∀ f ∈ s.stack, ∀ b ∈ f.rest, b ∈ V

theorem Inside.step {V : Finset α} {s s' : CycleState α} {f : Frame α} {below : List (Frame α)}
    (hin : Inside adj V s) (hs : s.stack = f :: below) (kind : PassKind adj s f below s') :
    Inside adj V s' := by
  have hrest := hin.rest_sub
  rw [hs] at hrest
  simp only [mem_cons, forall_eq_or_imp] at hrest
  refine ⟨hin.adj_sub, ?_⟩
  cases kind with
  | leave _ hstack => rw [hstack]; exact hrest.2
  | skip next rest hr _ hstack =>
    rw [hstack]
    simp only [mem_cons, forall_eq_or_imp]
    exact ⟨fun b hb => hrest.1 b (hr ▸ mem_cons_of_mem _ hb), hrest.2⟩
  | push next rest hr _ _ hstack =>
    rw [hstack]
    simp only [mem_cons, forall_eq_or_imp]
    exact ⟨hin.adj_sub next, fun b hb => hrest.1 b (hr ▸ mem_cons_of_mem _ hb), hrest.2⟩

theorem work_step {V : Finset α} {s s' : CycleState α} {f : Frame α} {below : List (Frame α)}
    (inv : CycleInv adj s) (hin : Inside adj V s) (hs : s.stack = f :: below)
    (kind : PassKind adj s f below s') : s'.work adj V + 1 = s.work adj V := by
  have hfresh : f.node ∉ s.visited := inv.fresh _ (by simp [CycleState.nodes, hs])
  cases kind with
  | leave hrest hstack hvisited _ =>
    have hd : s'.discovered = s.discovered := by
      ext v
      simp only [CycleState.discovered, CycleState.nodes, hstack, hvisited, hs, Finset.mem_union,
        mem_toFinset, map_cons, mem_cons]
      tauto
    simp only [CycleState.work, hd, hstack, hs, map_cons, sum_cons, hrest,
      length_nil]
    omega
  | skip next rest hrest hnext hstack hvisited _ =>
    have hd : s'.discovered = s.discovered := by
      simp only [CycleState.discovered, CycleState.nodes, hstack, hvisited, hs, map_cons]
    simp only [CycleState.work, hd, hstack, hs, map_cons, sum_cons, hrest,
      length_cons]
    omega
  | push next rest hrest hnext hnew hstack hvisited _ =>
    have hnodes : next ∉ s.nodes := by
      rw [CycleState.mem_enter_visiting hfresh, not_or] at hnew
      simp only [CycleState.nodes, hs, map_cons, mem_cons, not_or]
      have hentered := inv.entered
      simp only [CycleState.nodes, hs, map_cons, tail_cons] at hentered
      exact ⟨hnew.1, fun hb => hnew.2 (hentered next hb)⟩
    have hd : s'.discovered = insert next s.discovered := by
      ext v
      simp only [CycleState.discovered, CycleState.nodes, hstack, hvisited, hs, map_cons,
        Finset.mem_union, Finset.mem_insert, mem_toFinset, mem_cons]
      tauto
    have hmem : next ∈ V \ s.discovered := by
      have hV : next ∈ V := hin.rest_sub f (by simp [hs]) next (by simp [hrest])
      simp only [Finset.mem_sdiff, hV, CycleState.discovered, Finset.mem_union, mem_toFinset,
        hnext, hnodes, or_self, not_false_eq_true, and_self]
    have hsum := Finset.add_sum_erase _ (fun v => (adj v).length + 1) hmem
    rw [← Finset.sdiff_insert] at hsum
    simp only [CycleState.work, hd, hstack, hs, map_cons, sum_cons, hrest,
      length_cons]
    omega

theorem discovered_step {s s' : CycleState α} {f : Frame α} {below : List (Frame α)}
    (hs : s.stack = f :: below) (kind : PassKind adj s f below s') :
    s.discovered ⊆ s'.discovered := by
  intro v hv
  simp only [CycleState.discovered, CycleState.nodes, hs, Finset.mem_union, mem_toFinset,
    map_cons, mem_cons] at hv ⊢
  cases kind with
  | leave _ hstack hvisited _ =>
    simp only [hstack, hvisited, mem_cons]
    tauto
  | skip _ _ _ _ hstack hvisited _ =>
    simp only [hstack, hvisited, map_cons, mem_cons]
    tauto
  | push _ _ _ _ _ hstack hvisited _ =>
    simp only [hstack, hvisited, map_cons, mem_cons]
    tauto

theorem cycleLoop_spec {V : Finset α} : ∀ (fuel : ℕ) (s : CycleState α), CycleInv adj s →
    Inside adj V s → s.work adj V < fuel →
      (∃ c, cycleLoop adj fuel s = some (.found c) ∧ c ≠ [])
        ∨ ∃ s', cycleLoop adj fuel s = some (.running s') ∧ s'.stack = []
          ∧ CycleInv adj s' ∧ s.discovered ⊆ s'.discovered
  | 0, _, _, _, h => absurd h (Nat.not_lt_zero _)
  | fuel + 1, s, inv, hin, h => by
    rcases hs : s.stack with _ | ⟨f, below⟩
    · exact .inr ⟨s, by simp only [cycleLoop, hs], hs, inv, subset_rfl⟩
    · have hfresh : f.node ∉ s.visited := inv.fresh _ (by simp [CycleState.nodes, hs])
      rcases hstep : cycleStep adj s f below with s' | c
      · have kind := cycleStep_running adj hfresh hstep
        have hwork := work_step adj inv hin hs kind
        have hrun : cycleLoop adj (fuel + 1) s = cycleLoop adj fuel s' := by
          simp only [cycleLoop, hs, hstep]
        rw [hrun]
        rcases cycleLoop_spec fuel s' (inv.step adj hs hstep) (hin.step adj hs kind) (by omega)
          with hc | ⟨t, ht, hstack, hinv, hsub⟩
        · exact .inl hc
        · exact .inr ⟨t, ht, hstack, hinv, (discovered_step adj hs kind).trans hsub⟩
      · refine .inl ⟨c, by simp only [cycleLoop, hs, hstep], ?_⟩
        unfold cycleStep at hstep
        rcases hrest : f.rest with _ | ⟨next, rest⟩ <;> simp only [hrest] at hstep
        · cases hstep
        · split_ifs at hstep
          cases hstep
          simp

/-- The states between two turns of the outer loop. -/
structure Rested (s : CycleState α) : Prop where
  visiting : s.visiting = []
  halts : ∀ v ∈ s.visited, Halts adj v

omit [DecidableEq α] in
theorem Rested.start {s : CycleState α} (h : Rested adj s) {n : α} (hn : n ∉ s.visited) :
    CycleInv adj { s with stack := [⟨n, adj n⟩] } :=
  ⟨by simp [CycleState.nodes], h.halts, by simpa [CycleState.nodes], by simp [CycleState.nodes],
    by simp [h.visiting], by simp [h.visiting], ⟨fun _ hb => .inl hb, trivial⟩⟩

omit [DecidableEq α] in
theorem CycleInv.rested {s : CycleState α} (inv : CycleInv adj s) (hs : s.stack = []) : Rested adj s :=
  ⟨eq_nil_of_subset_nil (by simpa [CycleState.nodes, hs] using inv.visiting_sub), inv.halts⟩

theorem cycleFrom_spec {V : Finset α} {fuel : ℕ} (hadj : ∀ v, ∀ b ∈ adj v, b ∈ V)
    (hfuel : ∑ v ∈ V, ((adj v).length + 1) < fuel) : ∀ (nodes : List α) (s : CycleState α),
      Rested adj s → (∀ v ∈ nodes, v ∈ V) →
        (∃ c, cycleFrom adj fuel nodes s = some c ∧ c ≠ [])
          ∨ (cycleFrom adj fuel nodes s = some [] ∧ ∀ v ∈ nodes, Halts adj v)
  | [], _, _, _ => .inr ⟨rfl, by simp⟩
  | n :: nodes, s, hrest, hV => by
    have hV' : ∀ v ∈ nodes, v ∈ V := fun v hv => hV v (mem_cons_of_mem _ hv)
    by_cases hn : n ∈ s.visited
    · simp only [cycleFrom, hn, ↓reduceIte, mem_cons, forall_eq_or_imp, hrest.halts n hn,
        true_and]
      exact cycleFrom_spec hadj hfuel nodes s hrest hV'
    · set t : CycleState α := { s with stack := [⟨n, adj n⟩] } with ht
      have inv : CycleInv adj t := hrest.start adj hn
      have hin : Inside adj V t := ⟨hadj, by simpa [ht] using hadj n⟩
      have hwork : t.work adj V < fuel := by
        refine lt_of_le_of_lt ?_ hfuel
        have hmem : n ∉ V \ t.discovered := by simp [CycleState.discovered, CycleState.nodes, ht]
        have hsum : ∑ v ∈ insert n (V \ t.discovered), ((adj v).length + 1)
            ≤ ∑ v ∈ V, ((adj v).length + 1) := by
          refine Finset.sum_le_sum_of_subset fun v hv => ?_
          rcases Finset.mem_insert.1 hv with rfl | hv
          · exact hV _ (mem_cons_self ..)
          · exact (Finset.mem_sdiff.1 hv).1
        rw [Finset.sum_insert hmem] at hsum
        have hw : t.work adj V = ∑ v ∈ V \ t.discovered, ((adj v).length + 1)
            + ((adj n).length + 1 + 0) := rfl
        omega
      rcases cycleLoop_spec adj fuel t inv hin hwork with ⟨c, hc, hne⟩
        | ⟨s', hrun, hstack, inv', hsub⟩
      · exact .inl ⟨c, by simp only [cycleFrom, hn, ↓reduceIte, ← ht, hc], hne⟩
      · have hstep : cycleFrom adj fuel (n :: nodes) s = cycleFrom adj fuel nodes s' := by
          simp only [cycleFrom, hn, ↓reduceIte, ← ht, hrun]
        have hrest' : Rested adj s' := inv'.rested adj hstack
        have hvisited : n ∈ s'.visited := by
          have : n ∈ s'.discovered := hsub (by simp [CycleState.discovered, CycleState.nodes, ht])
          simpa [CycleState.discovered, CycleState.nodes, hstack] using this
        rw [hstep]
        simp only [mem_cons, forall_eq_or_imp, inv'.halts n hvisited, true_and]
        exact cycleFrom_spec hadj hfuel nodes s' hrest' hV'

end Search

section Edges

variable (edges : List (String × String))

theorem mem_sortedDependents {a b : String} : b ∈ sortedDependents edges a ↔ (a, b) ∈ edges := by
  simp only [sortedDependents, mem_sorted, dependencyGraph, lookup_groupBy, mem_map,
    mem_filter, Option.some.injEq, decide_eq_true_eq]
  constructor
  · rintro ⟨⟨a', b'⟩, ⟨hmem, rfl⟩, rfl⟩
    exact hmem
  · exact fun h => ⟨(a, b), ⟨h, rfl⟩, rfl⟩

theorem length_sortedDependents (a : String) :
    (sortedDependents edges a).length = edges.countP fun e => e.1 = a := by
  simp only [sortedDependents, length_sorted, dependencyGraph, lookup_groupBy, length_map,
    Option.some.injEq, countP_eq_length_filter]

def edgeNodes : Finset String := (edges.map Prod.fst ++ edges.map Prod.snd).toFinset

theorem sum_countP_le (V : Finset String) :
    ∑ v ∈ V, edges.countP (fun e => e.1 = v) ≤ edges.length := by
  induction edges with
  | nil => simp
  | cons e edges ih =>
    simp only [countP_cons, decide_eq_true_eq, Finset.sum_add_distrib, length_cons]
    have : ∑ v ∈ V, (if e.1 = v then 1 else 0) ≤ 1 := by
      rw [Finset.sum_ite_eq]
      split_ifs <;> omega
    omega

theorem work_lt_cycleFuel :
    ∑ v ∈ edgeNodes edges, ((sortedDependents edges v).length + 1) < cycleFuel edges := by
  have hcard : (edgeNodes edges).card ≤ 2 * edges.length := by
    refine (toFinset_card_le _).trans ?_
    simp only [length_append, length_map]
    omega
  have hsum := sum_countP_le edges (edgeNodes edges)
  simp only [length_sortedDependents, Finset.sum_add_distrib, Finset.sum_const, nsmul_eq_mul, Nat.cast_id,
    mul_one, cycleFuel]
  omega

theorem cycleFrom_edges :
    (∃ c, cycleFrom (sortedDependents edges) (cycleFuel edges) (sorted ((dependencyGraph edges).map Prod.fst))
        ⟨[], [], [], [], []⟩ = some c ∧ c ≠ [])
      ∨ (cycleFrom (sortedDependents edges) (cycleFuel edges) (sorted ((dependencyGraph edges).map Prod.fst))
          ⟨[], [], [], [], []⟩ = some []
        ∧ ∀ v ∈ sorted ((dependencyGraph edges).map Prod.fst), Halts (sortedDependents edges) v) := by
  have hadj : ∀ v, ∀ b ∈ sortedDependents edges v, b ∈ edgeNodes edges := by
    intro v b hb
    rw [mem_sortedDependents] at hb
    simp only [edgeNodes, mem_toFinset, mem_append, mem_map]
    exact .inr ⟨_, hb, rfl⟩
  have hkeys : ∀ v ∈ sorted ((dependencyGraph edges).map Prod.fst), v ∈ edgeNodes edges := by
    intro v hv
    rw [mem_sorted, mem_map] at hv
    obtain ⟨⟨v', es⟩, hmem, rfl⟩ := hv
    obtain ⟨rfl, hne⟩ := mem_groupBy.1 hmem
    obtain ⟨e, he⟩ := exists_mem_of_ne_nil _ hne
    simp only [mem_filter, Option.some.injEq, decide_eq_true_eq] at he
    simp only [edgeNodes, mem_toFinset, mem_append, mem_map]
    exact .inl ⟨e, he.1, he.2⟩
  exact cycleFrom_spec (sortedDependents edges) hadj (work_lt_cycleFuel edges) _ ⟨[], [], [], [], []⟩
    ⟨rfl, by simp⟩ hkeys

theorem cycleFrom_eq_cycle :
    cycleFrom (sortedDependents edges) (cycleFuel edges) (sorted ((dependencyGraph edges).map Prod.fst))
      ⟨[], [], [], [], []⟩ = some (cycle edges) := by
  rcases cycleFrom_edges edges with ⟨c, hc, -⟩ | ⟨hc, -⟩ <;> rw [cycle, hc] <;> rfl

theorem acyclic_of_cycle_eq_nil (h : cycle edges = []) (a : String) :
    ¬ Relation.TransGen (fun a b => (a, b) ∈ edges) a a := by
  have hhalts : ∀ a b, (a, b) ∈ edges → Halts (sortedDependents edges) a := by
    intro a b hab
    rcases cycleFrom_edges edges with ⟨c, hc, hne⟩ | ⟨-, hall⟩
    · rw [cycle, hc] at h
      exact absurd h hne
    · refine hall a (mem_sorted.2 (mem_map.2
        ⟨(a, edges.filter fun e => some e.1 = some a), mem_groupBy.2 ⟨rfl, ?_⟩, rfl⟩))
      exact ne_nil_of_mem (mem_filter.2 ⟨hab, by simp⟩)
  intro hcycle
  obtain ⟨b, hab, -⟩ := Relation.TransGen.head'_iff.1 hcycle
  have hacc := hhalts a b hab
  simp only [Halts, mem_sortedDependents] at hacc
  exact not_transGen_self_of_acc hacc hcycle

end Edges

end AiOrg
