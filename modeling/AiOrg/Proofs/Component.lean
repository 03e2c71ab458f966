import AiOrg.Gate.Plan

/-!
# The components of a plan

The stack loop collects what is reachable from its start, since a neighbour that is not collected is
on the stack; reading dependencies both ways makes that an equivalence, so the components are its
classes.
-/

namespace AiOrg

open Relation List

section Loop

variable {neighbors : String → List String} {start : String}

/-- One step along a neighbour. -/
def Adjacent (neighbors : String → List String) (a b : String) : Prop := b ∈ neighbors a

/-- What the loop holds at its top. -/
structure LoopInv (neighbors : String → List String) (start : String) (V : Finset String)
    (stack members : List String) : Prop where
  reach_stack : ∀ v ∈ stack, ReflTransGen (Adjacent neighbors) start v
  reach_members : ∀ v ∈ members, ReflTransGen (Adjacent neighbors) start v
  closed : ∀ v ∈ members, ∀ b ∈ neighbors v, b ∈ members ∨ b ∈ stack
  started : start ∈ members ∨ start ∈ stack
  inside : ∀ v ∈ stack, v ∈ V

/-- With fuel for the stack and the neighbours of what is not collected, the loop collects what is
reachable. -/
theorem mem_componentLoop {V : Finset String} (hV : ∀ v ∈ V, ∀ b ∈ neighbors v, b ∈ V) :
    ∀ {fuel : ℕ} {stack members : List String}, LoopInv neighbors start V stack members →
      stack.length + ∑ v ∈ V \ members.toFinset, (neighbors v).length < fuel →
        ∀ v, v ∈ componentLoop neighbors fuel stack members
          ↔ ReflTransGen (Adjacent neighbors) start v
  | 0, _, _, _, h, _ => absurd h (Nat.not_lt_zero _)
  | fuel + 1, [], members, inv, _, v => by
    simp only [componentLoop]
    refine ⟨inv.reach_members v, fun h => ?_⟩
    induction h with
    | refl => exact inv.started.resolve_right (not_mem_nil)
    | tail _ hbc ih => exact (inv.closed _ ih _ hbc).resolve_right (not_mem_nil)
  | fuel + 1, current :: stack, members, inv, h, v => by
    obtain ⟨rstack, rmembers, closed, started, inside⟩ := inv
    simp only [mem_cons, forall_eq_or_imp] at rstack inside
    simp only [componentLoop]
    split_ifs with hc
    · refine mem_componentLoop hV ⟨rstack.2, rmembers, fun u hu b hb => ?_, ?_, inside.2⟩ ?_ v
      · rcases closed u hu b hb with hb | hb
        · exact .inl hb
        · rcases mem_cons.1 hb with rfl | hb
          · exact .inl hc
          · exact .inr hb
      · rcases started with hs | hs
        · exact .inl hs
        · rcases mem_cons.1 hs with rfl | hs
          · exact .inl hc
          · exact .inr hs
      · simp only [length_cons] at h
        omega
    · set next := (neighbors current).filter (· ∉ current :: members) with hnext
      have hmem : ∀ b, b ∈ sorted next ++ stack ↔ (b ∈ neighbors current ∧ b ∉ current :: members)
          ∨ b ∈ stack := by
        intro b
        simp only [mem_append, mem_sorted, hnext, mem_filter, decide_eq_true_eq]
      refine mem_componentLoop hV ⟨fun u hu => ?_, fun u hu => ?_, fun u hu b hb => ?_, ?_,
        fun u hu => ?_⟩ ?_ v
      · rcases (hmem u).1 hu with ⟨hu, -⟩ | hu
        · exact rstack.1.tail hu
        · exact rstack.2 u hu
      · rcases mem_cons.1 hu with rfl | hu
        · exact rstack.1
        · exact rmembers u hu
      · rw [hmem]
        by_cases hbm : b ∈ current :: members
        · exact .inl hbm
        · rcases mem_cons.1 hu with rfl | hu
          · exact .inr (.inl ⟨hb, hbm⟩)
          · rcases closed u hu b hb with hb | hb
            · exact absurd (mem_cons_of_mem _ hb) hbm
            · rcases mem_cons.1 hb with rfl | hb
              · exact absurd (mem_cons_self ..) hbm
              · exact .inr (.inr hb)
      · rcases started with hs | hs
        · exact .inl (mem_cons_of_mem _ hs)
        · rcases mem_cons.1 hs with rfl | hs
          · exact .inl (mem_cons_self ..)
          · exact .inr ((hmem _).2 (.inr hs))
      · rcases (hmem u).1 hu with ⟨hu, -⟩ | hu
        · exact hV current inside.1 u hu
        · exact inside.2 u hu
      · have hcV : current ∈ V \ members.toFinset := by simp [inside.1, hc]
        have hsum := Finset.add_sum_erase _ (fun v => (neighbors v).length) hcV
        have herase : (V \ members.toFinset).erase current
            = V \ (current :: members).toFinset := by
          ext u
          simp only [Finset.mem_erase, Finset.mem_sdiff, mem_toFinset, mem_cons, not_or]
          tauto
        have hle : next.length ≤ (neighbors current).length := length_filter_le ..
        rw [herase] at hsum
        simp only [length_cons, length_append, length_sorted] at h ⊢
        omega

end Loop

section Plan

variable (py : PyLib)

/-- What `_plan_graph` guarantees of its items. -/
structure ValidPlan (items : List Fields) : Prop where
  nonempty : items ≠ []
  ids_nodup : (items.map (itemId py)).Nodup
  ids_ne : ∀ item ∈ items, itemId py item ≠ ""
  lists : ∀ item ∈ items, ∃ values, item.get "depends_on" = .arr values
    ∧ stringItems values = some (dependencies item)
  known : ∀ item ∈ items, ∀ d ∈ dependencies item, d ∈ items.map (itemId py)

theorem checkDependsOn_ok {known : List String} {item : Fields}
    (h : checkDependsOn py known item = .ok ()) :
    (∃ values, item.get "depends_on" = .arr values
      ∧ stringItems values = some (dependencies item)) ∧ ∀ d ∈ dependencies item, d ∈ known := by
  unfold checkDependsOn at h
  split at h
  · rename_i values hvalues
    split at h
    · rename_i deps hdeps
      have hd : dependencies item = deps := by simp [dependencies, hvalues, hdeps]
      refine ⟨⟨values, hvalues, by rw [hd, hdeps]⟩, ?_⟩
      simp only at h
      split_ifs at h with hnone
      intro d hmem
      rw [hd] at hmem
      by_contra hunknown
      have : d ∈ sorted (deps.dedup.filter (· ∉ known)) :=
        mem_sorted.2 (mem_filter.2 ⟨mem_dedup.2 hmem, by simpa using hunknown⟩)
      rw [hnone] at this
      cases this
    · cases h
  · cases h

theorem checkItems_ok {known : List String} : ∀ {items : List Fields},
    checkItems py known items = .ok () → ∀ item ∈ items, checkDependsOn py known item = .ok ()
  | [], _, _, hmem => by cases hmem
  | item :: items, h, item', hmem => by
    simp only [checkItems, bind, Except.bind] at h
    rcases hc : checkDependsOn py known item with e | u <;> rw [hc] at h
    · cases h
    · rcases mem_cons.1 hmem with rfl | hmem
      · exact hc
      · exact checkItems_ok h item' hmem

theorem positionalItems_ne_nil {patchPlan : Fields} {items : List Fields}
    (h : positionalItems py patchPlan = .ok items) : items ≠ [] := by
  unfold positionalItems at h
  split at h
  · simp only [bind, Except.bind, pure, Except.pure] at h
    split at h
    · cases h
    · split at h
      · cases h
      · cases h
        exact cons_ne_nil _ _
  · cases h

theorem planItems_ne_nil {patchPlan : Fields} {items : List Fields}
    (h : planItems py patchPlan = .ok items) : items ≠ [] := by
  unfold planItems at h
  simp only at h
  split_ifs at h with hg
  · cases h
    exact hg
  · exact positionalItems_ne_nil py h

theorem planGraph_ok {approach : Json} {items : List Fields}
    (h : planGraph py approach = .ok items) : ValidPlan py items := by
  unfold planGraph at h
  split at h
  · cases h
  · cases h
  · rename_i patchPlan _ _
    simp only [bind, Except.bind, pure, Except.pure] at h
    rcases hi : planItems py patchPlan with e | items' <;> rw [hi] at h <;> simp only at h
    · cases h
    have hne := planItems_ne_nil py hi
    split_ifs at h with hids
    rw [not_or, not_not] at hids
    rcases hc : checkItems py (items'.map (itemId py)) items' with e | u <;> rw [hc] at h
    · cases h
    · cases h
      have hall := fun item hmem => checkDependsOn_ok py (checkItems_ok py hc item hmem)
      refine ⟨hne, hids.2, fun item hmem hid => hids.1 ?_, fun item hmem => (hall item hmem).1,
        fun item hmem => (hall item hmem).2⟩
      exact mem_map.2 ⟨item, hmem, hid⟩

variable {items : List Fields}

theorem mem_neighborsOf {a b : String} : b ∈ neighborsOf py items a ↔
    ∃ item ∈ items, (itemId py item = a ∧ b ∈ dependencies item)
      ∨ (itemId py item = b ∧ a ∈ dependencies item) := by
  simp only [neighborsOf, mem_dedup, mem_flatMap, mem_append]
  refine exists_congr fun item => and_congr_right fun _ => or_congr ?_ ?_
  · split_ifs with h
    · simp [h]
    · simp [h]
  · split_ifs with h
    · simp [h, eq_comm]
    · simp [h]

theorem adjacent_symm {a b : String} (h : Adjacent (neighborsOf py items) a b) :
    Adjacent (neighborsOf py items) b a := by
  obtain ⟨item, hmem, h⟩ := (mem_neighborsOf py).1 h
  exact (mem_neighborsOf py).2 ⟨item, hmem, h.symm⟩

/-- Two ids are in one component. -/
def SameComponent (items : List Fields) : String → String → Prop :=
  ReflTransGen (Adjacent (neighborsOf py items))

theorem sameComponent_symm {a b : String} (h : SameComponent py items a b) :
    SameComponent py items b a :=
  reflTransGen_swap.1 (ReflTransGen.mono (fun _ _ => adjacent_symm py) _ _ h)

theorem mem_componentMembers (valid : ValidPlan py items) {start : String}
    (hstart : start ∈ items.map (itemId py)) (v : String) :
    v ∈ componentMembers py items start ↔ SameComponent py items start v := by
  have hV : ∀ v ∈ (items.map (itemId py)).toFinset, ∀ b ∈ neighborsOf py items v,
      b ∈ (items.map (itemId py)).toFinset := by
    intro v _ b hb
    rw [mem_toFinset]
    obtain ⟨item, hmem, ⟨-, hd⟩ | ⟨rfl, -⟩⟩ := (mem_neighborsOf py).1 hb
    · exact valid.known item hmem b hd
    · exact mem_map_of_mem hmem
  refine mem_componentLoop hV ⟨?_, by simp, by simp, by simp, ?_⟩ ?_ v
  · intro v hv
    rw [mem_singleton.1 hv]
  · intro v hv
    rw [mem_singleton.1 hv]
    exact mem_toFinset.2 hstart
  · have hsum := sum_toFinset (fun v => (neighborsOf py items v).length) valid.ids_nodup
    simp only [toFinset_nil, Finset.sdiff_empty, hsum, componentFuel, length_singleton]
    omega

/-- The components found from `order` on: they are classes, of different ids, and cover what is not
seen. -/
structure ComponentsOf (items : List Fields) (order seen : List String)
    (components : List (List Fields)) : Prop where
  class_of : ∀ c ∈ components, ∃ s ∈ order, s ∉ seen
    ∧ ∀ item, item ∈ c ↔ item ∈ items ∧ SameComponent py items s (itemId py item)
  sublist : ∀ c ∈ components, c.Sublist items
  apart : components.Pairwise fun c d =>
    ∀ x ∈ c, ∀ y ∈ d, ¬ SameComponent py items (itemId py x) (itemId py y)
  cover : ∀ item ∈ items, itemId py item ∈ order → itemId py item ∉ seen →
    ∃ c ∈ components, item ∈ c

theorem componentsFrom_spec (valid : ValidPlan py items) : ∀ {order seen : List String},
    (∀ s ∈ order, s ∈ items.map (itemId py)) →
      (∀ v ∈ seen, ∀ w, SameComponent py items v w → w ∈ seen) →
        ComponentsOf py items order seen (componentsFrom py items order seen)
  | [], seen, _, _ => by
    refine ⟨?_, ?_, List.Pairwise.nil, ?_⟩ <;> simp [componentsFrom]
  | start :: order, seen, horder, hseen => by
    have horder' : ∀ s ∈ order, s ∈ items.map (itemId py) :=
      fun s hs => horder s (mem_cons_of_mem _ hs)
    simp only [componentsFrom]
    split_ifs with hs
    · obtain ⟨hclass, hsub, hapart, hcover⟩ := componentsFrom_spec valid horder' hseen
      refine ⟨fun c hc => ?_, hsub, hapart, fun item hmem hid hnew => ?_⟩
      · obtain ⟨s, hs', hrest⟩ := hclass c hc
        exact ⟨s, mem_cons_of_mem _ hs', hrest⟩
      · refine hcover item hmem ?_ hnew
        rcases mem_cons.1 hid with hid | hid
        · exact absurd (hid ▸ hs) hnew
        · exact hid
    · have hmembers := mem_componentMembers py valid (horder start (mem_cons_self ..))
      have hseen' : ∀ v ∈ componentMembers py items start ++ seen, ∀ w,
          SameComponent py items v w → w ∈ componentMembers py items start ++ seen := by
        intro v hv w hvw
        rcases mem_append.1 hv with hv | hv
        · exact mem_append_left _ ((hmembers w).2 (((hmembers v).1 hv).trans hvw))
        · exact mem_append_right _ (hseen v hv w hvw)
      obtain ⟨hclass, hsub, hapart, hcover⟩ := componentsFrom_spec valid horder' hseen'
      have hfirst : ∀ item, item ∈ items.filter
          (fun item => itemId py item ∈ componentMembers py items start)
            ↔ item ∈ items ∧ SameComponent py items start (itemId py item) := by
        intro item
        rw [mem_filter, decide_eq_true_eq, hmembers]
      refine ⟨fun c hc => ?_, fun c hc => ?_, pairwise_cons.2 ⟨fun c hc x hx y hy => ?_,
        hapart⟩, fun item hmem hid hnew => ?_⟩
      · rcases mem_cons.1 hc with rfl | hc
        · exact ⟨start, mem_cons_self .., hs, hfirst⟩
        · obtain ⟨s, hs', hnew, hrest⟩ := hclass c hc
          exact ⟨s, mem_cons_of_mem _ hs',
            fun hin => hnew (mem_append_right _ hin), hrest⟩
      · rcases mem_cons.1 hc with rfl | hc
        · exact filter_sublist
        · exact hsub c hc
      · obtain ⟨s, -, hnew, hrest⟩ := hclass c hc
        intro hxy
        refine hnew (mem_append_left _ ((hmembers s).2 ?_))
        exact (((hfirst x).1 hx).2.trans hxy).trans
          (sameComponent_symm py ((hrest y).1 hy).2)
      · by_cases hin : itemId py item ∈ componentMembers py items start
        · exact ⟨_, mem_cons_self .., mem_filter.2 ⟨hmem, by simpa using hin⟩⟩
        · rcases mem_cons.1 hid with hid | hid
          · exact absurd ((hmembers _).2 (hid ▸ ReflTransGen.refl)) hin
          · obtain ⟨c, hc, hic⟩ := hcover item hmem hid
              (fun h => (mem_append.1 h).elim hin hnew)
            exact ⟨c, mem_cons_of_mem _ hc, hic⟩

end Plan

end AiOrg
