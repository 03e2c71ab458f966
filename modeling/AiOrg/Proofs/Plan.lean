import AiOrg.Proofs.Component
import AiOrg.Python.Base64
import AiOrg.Run.Traverse

/-!
# The partition of a plan is exact

The keys of the children are fresh and valid; every item stays in the child of its component, so
`_normalize_split` finds the owner of every dependency in the child itself and adds no edge but the
one to the root.
-/

namespace AiOrg

open Relation List

section Keys

variable (py : PyLib)

/-- A key that matches `^[a-z0-9_]+$`. -/
def ValidKey (key : String) : Prop := key.toList ≠ [] ∧ ∀ c ∈ key.toList, isKeyChar c

theorem isKeyChar_of_mem_subRuns : ∀ {inRun : Bool} {text : List Char} {c : Char},
    c ∈ subRuns inRun text → isKeyChar c
  | _, [], _, h => by cases h
  | inRun, d :: text, c, h => by
    simp only [subRuns] at h
    split_ifs at h with hd hrun
    · rcases mem_cons.1 h with rfl | h
      · exact hd
      · exact isKeyChar_of_mem_subRuns h
    · exact isKeyChar_of_mem_subRuns h
    · rcases mem_cons.1 h with rfl | h
      · rfl
      · exact isKeyChar_of_mem_subRuns h

theorem mem_of_mem_stripChar {d c : Char} {text : List Char} (h : c ∈ stripChar d text) :
    c ∈ text :=
  (dropWhile_suffix _).subset (( rdropWhile_prefix _ _).subset h)

theorem isKeyChar_of_mem_toString {n : ℕ} {c : Char} (h : c ∈ (toString n).toList) :
    isKeyChar c := by
  simp [isKeyChar, Text.isDigit_of_mem_toString h]

theorem validKey_baseKey (index : ℕ) (firstId : String) : ValidKey (baseKey py index firstId) := by
  unfold baseKey
  simp only
  split_ifs with h
  · have hfront : "component_".toList.all isKeyChar = true := by decide
    refine ⟨by simp, fun c hc => ?_⟩
    rw [String.toList_append, mem_append] at hc
    rcases hc with hc | hc
    · exact all_eq_true.1 hfront c hc
    · exact isKeyChar_of_mem_toString hc
  · rw [ValidKey, String.toList_ofList]
    exact ⟨h, fun c hc => isKeyChar_of_mem_subRuns (mem_of_mem_stripChar hc)⟩

theorem validKey_suffixedKey {base : String} (h : ValidKey base) (suffix : ℕ) :
    ValidKey (suffixedKey base suffix) := by
  have hmark : "_".toList.all isKeyChar = true := by decide
  refine ⟨?_, fun c hc => ?_⟩
  · simp [suffixedKey, h.1]
  · simp only [suffixedKey, String.toList_append, mem_append] at hc
    rcases hc with (hc | hc) | hc
    · exact h.2 c hc
    · exact all_eq_true.1 hmark c hc
    · exact isKeyChar_of_mem_toString hc

theorem suffixedKey_injective (base : String) : Function.Injective (suffixedKey base) := by
  intro m n h
  have hl := congrArg String.toList h
  simp only [suffixedKey, String.toList_append, append_assoc,
    append_cancel_left_eq] at hl
  exact Text.toString_toList_inj hl

theorem suffixedKey_ne (base : String) (suffix : ℕ) : base ≠ suffixedKey base suffix := by
  intro h
  have hl := congrArg (fun s => s.toList.length) h
  simp only [suffixedKey, String.toList_append, length_append] at hl
  have : "_".toList.length = 1 := rfl
  omega

theorem suffixLoop_spec (base : String) (used : List String) : ∀ fuel suffix : ℕ,
    (∃ n, suffixLoop base used fuel suffix = suffixedKey base n)
      ∧ (suffixLoop base used fuel suffix ∉ used
        ∨ ∀ j < fuel, suffixedKey base (suffix + j) ∈ used)
  | 0, suffix => ⟨⟨suffix, rfl⟩, .inr fun j hj => absurd hj (Nat.not_lt_zero _)⟩
  | fuel + 1, suffix => by
    obtain ⟨hkey, hfree⟩ := suffixLoop_spec base used fuel (suffix + 1)
    simp only [suffixLoop]
    split_ifs with h
    · refine ⟨hkey, hfree.imp_right fun hall j hj => ?_⟩
      rcases j with _ | j
      · exact h
      · rw [show suffix + (j + 1) = suffix + 1 + j by omega]
        exact hall j (by omega)
    · exact ⟨⟨suffix, rfl⟩, .inl h⟩

theorem freshKey_notMem (base : String) (used : List String) : freshKey base used ∉ used := by
  unfold freshKey
  split_ifs with h
  · rcases (suffixLoop_spec base used used.length 2).2 with hfree | hall
    · exact hfree
    · exfalso
      set candidates := (List.range used.length).map fun j => suffixedKey base (2 + j) with hc
      have hnodup : (base :: candidates).Nodup := by
        refine nodup_cons.2 ⟨fun hmem => ?_, ?_⟩
        · obtain ⟨j, -, hj⟩ := mem_map.1 hmem
          exact suffixedKey_ne base _ hj.symm
        · refine nodup_range.map fun i j hij => ?_
          have := suffixedKey_injective base hij
          omega
      have hsub : base :: candidates ⊆ used := by
        intro k hk
        rcases mem_cons.1 hk with rfl | hk
        · exact h
        · obtain ⟨j, hj, rfl⟩ := mem_map.1 hk
          exact hall j (mem_range.1 hj)
      have hle := (subperm_of_subset hnodup hsub).length_le
      simp only [hc, length_cons, length_map, length_range] at hle
      omega
  · exact h

theorem validKey_freshKey {base : String} (h : ValidKey base) (used : List String) :
    ValidKey (freshKey base used) := by
  unfold freshKey
  split_ifs
  · obtain ⟨n, hn⟩ := (suffixLoop_spec base used used.length 2).1
    rw [hn]
    exact validKey_suffixedKey h n
  · exact h

theorem not_isSpace_of_isKeyChar {c : Char} (h : isKeyChar c) : Text.isSpace c = false := by
  have hrange : 48 ≤ c.toNat ∧ c.toNat ≤ 122 := by
    simp only [isKeyChar, Char.isLower, Char.isDigit, Bool.or_eq_true, Bool.and_eq_true,
      decide_eq_true_eq, beq_iff_eq, ge_iff_le, UInt32.le_iff_toNat_le] at h
    rcases h with (h | h) | rfl
    · simp at h
      omega
    · simp at h
      omega
    · decide
  simp only [Text.isSpace, Text.isSpaceCode, Bool.or_eq_false_iff, Bool.and_eq_false_iff,
    decide_eq_false_iff_not, beq_eq_false_iff_ne, ne_eq]
  omega

theorem safeChildKey_of_validKey {key : String} (h : ValidKey key) : safeChildKey key = key := by
  have hstrip : pyStrip key = key := by
    have hleft : key.toList.dropWhile Text.isSpace = key.toList := by
      rw [dropWhile_eq_self_iff]
      intro hlen
      rw [not_isSpace_of_isKeyChar (h.2 _ (getElem_mem hlen))]
      exact Bool.false_ne_true
    have hright : key.toList.rdropWhile Text.isSpace = key.toList := by
      rw [rdropWhile_eq_self_iff]
      intro hne
      rw [not_isSpace_of_isKeyChar (h.2 _ (getLast_mem hne))]
      exact Bool.false_ne_true
    rw [pyStrip, Text.strip, hleft, hright, String.ofList_toList]
  have hne : key ≠ "" := by
    rintro rfl
    exact h.1 rfl
  simp only [safeChildKey, hstrip, hne, ↓reduceIte]

end Keys

section Children

variable (py : PyLib)

def itemsOf (child : Fields) : List Fields := (childPlanItems child).getD []

theorem listOfMappings_map (items : List Fields) :
    listOfMappings (.arr (items.map .obj)) = items := by
  simp [listOfMappings, filterMap_map]

/-- What the normalisation reads of the child made of a component. -/
structure ChildOf (component : List Fields) (child : Fields) : Prop where
  key : ∃ key, ValidKey key ∧ child.lookup "child_key" = some (.str key)
  items : childPlanItems child = some component
  edges : child.getD "edges" (.arr []) = .arr []
  criteria : ∃ criteria, child.lookup "acceptance_criteria" = some (.arr criteria)

theorem componentChild_ok {patchPlan : Fields} {key : String} {component : List Fields}
    {child : Fields} (hkey : ValidKey key)
    (h : componentChild py patchPlan key component = .ok child) :
    ChildOf component child ∧ child.get "child_key" = .str key := by
  simp only [componentChild, bind, Except.bind, pure, Except.pure] at h
  rcases hc : componentCriteria component with e | criteria <;> rw [hc] at h <;> simp only at h
  · cases h
  cases h
  refine ⟨⟨⟨key, hkey, rfl⟩, ?_, rfl, ⟨_, rfl⟩⟩, rfl⟩
  have hitems : ∀ prefixFields : Fields, prefixFields.lookup "items" = none →
      Fields.get (prefixFields ++ [("items", .arr (component.map .obj)), ("deferred", .arr []),
        ("open_questions", .arr [])]) "items" = .arr (component.map .obj) := by
    intro pre hpre
    rw [Fields.get, lookup_append, hpre]
    rfl
  change some (listOfMappings (Fields.get (_ ++ _) "items")) = some component
  rw [hitems, listOfMappings_map]
  split <;> rfl

theorem componentChildren_ok {patchPlan : Fields} : ∀ {index : ℕ} {used : List String}
    {components : List (List Fields)} {children : List Fields},
    componentChildren py patchPlan index used components = .ok children →
      Forall₂ ChildOf components children
        ∧ ∃ keys : List String, children.map (·.get "child_key") = keys.map .str ∧ keys.Nodup
          ∧ ∀ key ∈ keys, key ∉ used
  | _, _, [], children, h => by
    cases h
    exact ⟨.nil, [], rfl, nodup_nil, by simp⟩
  | index, used, component :: components, children, h => by
    simp only [componentChildren, bind, Except.bind, pure, Except.pure] at h
    set key := freshKey (baseKey py index (py.str ((component.headD []).get "id"))) used with hk
    rcases hc : componentChild py patchPlan key component with e | child <;> rw [hc] at h <;>
      simp only at h
    · cases h
    rcases hr : componentChildren py patchPlan (index + 1) (key :: used) components
      with e | rest <;> rw [hr] at h <;> simp only at h
    · cases h
    cases h
    obtain ⟨hchild, hkey⟩ := componentChild_ok py
      (validKey_freshKey (validKey_baseKey py index _) used) hc
    obtain ⟨hrest, keys, hkeys, hnodup, hfresh⟩ := componentChildren_ok hr
    refine ⟨.cons hchild hrest, key :: keys, by rw [map_cons, hkeys, hkey, ← hk]; rfl,
      nodup_cons.2 ⟨fun hmem => hfresh key hmem (mem_cons_self ..), hnodup⟩, ?_⟩
    intro k hmem
    rcases mem_cons.1 hmem with rfl | hmem
    · exact freshKey_notMem _ _
    · exact fun hin => hfresh k hmem (mem_cons_of_mem _ hin)

theorem componentCriteria_total : ∀ {component : List Fields},
    (∀ item ∈ component, (item.getD "acceptance_criteria" (.arr [])).iter.isSome) →
      ∃ criteria, componentCriteria component = .ok criteria
  | [], _ => ⟨[], rfl⟩
  | item :: component, h => by
    obtain ⟨values, hvalues⟩ := Option.isSome_iff_exists.1 (h item (mem_cons_self ..))
    obtain ⟨criteria, hcriteria⟩ :=
      componentCriteria_total fun x hx => h x (mem_cons_of_mem _ hx)
    exact ⟨_, by simp only [componentCriteria, iterOrRaise, hvalues, hcriteria]; rfl⟩

theorem componentChildren_total {patchPlan : Fields} : ∀ {index : ℕ} {used : List String}
    {components : List (List Fields)},
    (∀ component ∈ components, ∀ item ∈ component,
      (item.getD "acceptance_criteria" (.arr [])).iter.isSome) →
      ∃ children, componentChildren py patchPlan index used components = .ok children
  | _, _, [], _ => ⟨[], rfl⟩
  | index, used, component :: components, h => by
    obtain ⟨criteria, hcriteria⟩ := componentCriteria_total (h component (mem_cons_self ..))
    obtain ⟨children, hchildren⟩ : ∃ children, componentChildren py patchPlan (index + 1)
        (freshKey (baseKey py index (py.str ((component.headD []).get "id"))) used :: used)
        components = .ok children :=
      componentChildren_total fun c hc => h c (mem_cons_of_mem _ hc)
    simp only [componentChildren, componentChild, hcriteria, hchildren, bind, Except.bind, pure,
      Except.pure]
    exact ⟨_, rfl⟩

theorem mapPlan_ok {α β : Type*} {f : α → Except PlanError β} {P : α → β → Prop} :
    ∀ {l : List α}, (∀ x ∈ l, ∃ y, f x = .ok y ∧ P x y) →
      ∃ ys, mapPlan f l = .ok ys ∧ Forall₂ P l ys
  | [], _ => ⟨[], rfl, .nil⟩
  | x :: xs, h => by
    obtain ⟨y, hy, hp⟩ := h x (mem_cons_self ..)
    obtain ⟨ys, hys, hps⟩ := mapPlan_ok fun z hz => h z (mem_cons_of_mem _ hz)
    exact ⟨y :: ys, by simp only [mapPlan, hy, hys]; rfl, .cons hp hps⟩

/-- The children hold components, and different children hold different ones. -/
structure ChildrenOf (items children : List Fields) : Prop where
  child : ∀ child ∈ children, ChildOf (itemsOf child) child
  mem : ∀ child ∈ children, ∀ item ∈ itemsOf child, item ∈ items
    ∧ ∀ other ∈ items, SameComponent py items (itemId py item) (itemId py other) →
      other ∈ itemsOf child
  apart : children.Pairwise fun c d => ∀ x ∈ itemsOf c, ∀ y ∈ itemsOf d,
    ¬ SameComponent py items (itemId py x) (itemId py y)

variable {items children : List Fields}

theorem ChildrenOf.unique (hchildren : ChildrenOf py items children) {c d : Fields}
    (hc : c ∈ children) (hd : d ∈ children) {x y : Fields} (hx : x ∈ itemsOf c)
    (hy : y ∈ itemsOf d) (hxy : SameComponent py items (itemId py x) (itemId py y)) : c = d := by
  by_contra hne
  have : Std.Symm fun c d : Fields => ∀ x ∈ itemsOf c, ∀ y ∈ itemsOf d,
      ¬ SameComponent py items (itemId py x) (itemId py y) :=
    ⟨fun c d h x hx y hy hs => h y hy x hx (sameComponent_symm py hs)⟩
  exact hchildren.apart.forall hc hd hne x hx y hy hxy

theorem sameComponent_of_dependency {x y : Fields} (hx : x ∈ items)
    (hd : itemId py y ∈ dependencies x) : SameComponent py items (itemId py x) (itemId py y) :=
  ReflTransGen.single ((mem_neighborsOf py).2 ⟨x, hx, .inl ⟨rfl, hd⟩⟩)

theorem ownerOf_dependency (hchildren : ChildrenOf py items children) {c x : Fields}
    (hc : c ∈ children) (hx : x ∈ itemsOf c) {d owner : String} (hd : d ∈ dependencies x)
    (h : ownerOf (itemOwners py children) d = some owner) :
    owner = py.strOr (c.get "child_key") "" := by
  have hmem := mem_reverse.1 (mem_of_lookup h)
  simp only [itemOwners, mem_flatMap, mem_filterMap] at hmem
  obtain ⟨c', hc', y, hy, hpair⟩ := hmem
  split_ifs at hpair with hid
  simp only [Option.some.injEq, Prod.mk.injEq] at hpair
  obtain ⟨rfl, rfl⟩ := hpair
  rw [hchildren.unique py hc hc' hx hy
    (sameComponent_of_dependency py (hchildren.mem c hc x hx).1 hd)]

theorem itemEdges_eq_nil (valid : ValidPlan py items) (hchildren : ChildrenOf py items children)
    {c x : Fields} (hc : c ∈ children) (hx : x ∈ itemsOf c) {key : String}
    (hkey : c.lookup "child_key" = some (.str key)) :
    itemEdges py (itemOwners py children) key x = .ok [] := by
  obtain ⟨values, hvalues, hstrings⟩ := valid.lists x (hchildren.mem c hc x hx).1
  have hgetD : x.getD "depends_on" (.arr []) = .arr values := by
    rw [Fields.get] at hvalues
    rw [Fields.getD]
    rcases hl : x.lookup "depends_on" with _ | v <;> rw [hl] at hvalues
    · cases hvalues
    · exact hvalues
  simp only [itemEdges, hgetD, iterOrRaise, Json.iter, bind, Except.bind, pure, Except.pure,
    Except.ok.injEq, filterMap_eq_nil_iff]
  intro v hv
  have hstr : ∃ d ∈ dependencies x, v = .str d := by
    generalize dependencies x = deps at hstrings
    clear hvalues hgetD
    induction values generalizing deps with
    | nil => cases hv
    | cons w values ih =>
      cases w with
      | str t =>
        obtain ⟨rest, hrest, rfl⟩ := Option.map_eq_some_iff.1 hstrings
        rcases mem_cons.1 hv with rfl | hv
        · exact ⟨t, mem_cons_self .., rfl⟩
        · obtain ⟨d, hd, rfl⟩ := ih hv rest hrest
          exact ⟨d, mem_cons_of_mem _ hd, rfl⟩
      | _ => cases hstrings
  obtain ⟨d, hd, rfl⟩ := hstr
  rw [PyLib.str_str]
  rcases ho : ownerOf (itemOwners py children) d with _ | owner
  · rfl
  · have := ownerOf_dependency py hchildren hc hx hd ho
    rw [Fields.get, hkey, Option.getD_some, PyLib.strOr_str] at this
    simp [this]

theorem ownedEdges_eq_nil {owners : List (String × String)} {key : String} :
    ∀ {component : List Fields}, (∀ x ∈ component, itemEdges py owners key x = .ok []) →
      ownedEdges py owners key component = .ok []
  | [], _ => rfl
  | x :: component, h => by
    simp only [ownedEdges, h x (mem_cons_self ..), bind, Except.bind,
      ownedEdges_eq_nil fun y hy => h y (mem_cons_of_mem _ hy)]
    rfl

structure NodeOf (child node : Fields) : Prop where
  key : node.lookup "child_key" = child.lookup "child_key"
  items : childPlanItems node = childPlanItems child
  edges : node.get "edges" = .arr [edgeJson (partOfEdge "root")]
  criteria : node.lookup "acceptance_criteria" = child.lookup "acceptance_criteria"

theorem childPlanItems_congr {c d : Fields} (h : c.get "patch_plan" = d.get "patch_plan") :
    childPlanItems c = childPlanItems d := by
  simp only [childPlanItems, h]

theorem prepareChild_ok (valid : ValidPlan py items) (hchildren : ChildrenOf py items children)
    (scopeIds : List String) {child : Fields} (hc : child ∈ children) :
    ∃ node, prepareChild py (itemOwners py children) scopeIds child = .ok node
      ∧ NodeOf child node := by
  obtain ⟨⟨key, hvalid, hkey⟩, hitems, hedges, hcriteria⟩ := hchildren.child child hc
  have howned : ownedEdges py (itemOwners py children) key ((childPlanItems child).getD [])
      = .ok [] :=
    ownedEdges_eq_nil py fun x hx => itemEdges_eq_nil py valid hchildren hc hx hkey
  simp only [prepareChild, item?, hkey, hedges, iterOrRaise, Json.iter, PyLib.str_str,
    safeChildKey_of_validKey hvalid, howned, bind, Except.bind, pure, Except.pure]
  refine ⟨_, rfl, ?_, ?_, ?_, ?_⟩
  · simp [Fields.lookup_set, hkey]
  · refine childPlanItems_congr ?_
    rw [Fields.get_set_of_ne _ _ (by decide), Fields.get_set_of_ne _ _ (by decide),
      Fields.get_set_of_ne _ _ (by decide)]
  · rw [Fields.get_set_self]
    rfl
  · simp [Fields.lookup_set]

theorem normalizeChild_ok (rootId parentBranch : String) (horizon : ℤ) (depths : String → ℕ)
    {prepared : Fields} {key : String} {criteria : List Json} (hvalid : ValidKey key)
    (hkey : prepared.lookup "child_key" = some (.str key))
    (hcriteria : prepared.lookup "acceptance_criteria" = some (.arr criteria))
    (hedges : prepared.get "edges" = .arr [edgeJson (partOfEdge "root")]) :
    ∃ node, normalizeChild py rootId parentBranch horizon depths prepared = .ok node
      ∧ NodeOf prepared node := by
  simp only [normalizeChild, item?, hkey, hcriteria, iterOrRaise, Json.iter,
    PyLib.str_str, safeChildKey_of_validKey hvalid, bind, Except.bind, pure, Except.pure]
  refine ⟨_, rfl, ?_, childPlanItems_congr ?_, ?_, ?_⟩
  · simp [Fields.lookup_set, hkey]
  · simp [Fields.get, Fields.lookup_set]
  · rw [← hedges]
    simp [Fields.get, Fields.lookup_set]
  · simp [Fields.lookup_set, hcriteria]

theorem mapPlan_asMapping (children : List Fields) :
    mapPlan asMapping (children.map Json.obj) = .ok children := by
  induction children with
  | nil => rfl
  | cons child children ih =>
    simp only [map_cons, mapPlan, asMapping, ih, bind, Except.bind]
    rfl

def DependsEither (items : List Fields) (x y : Fields) : Prop :=
  x ∈ items ∧ y ∈ items ∧ (itemId py y ∈ dependencies x ∨ itemId py x ∈ dependencies y)

theorem item_unique (valid : ValidPlan py items) {x y : Fields} (hx : x ∈ items) (hy : y ∈ items)
    (h : itemId py x = itemId py y) : x = y :=
  inj_on_of_nodup_map valid.ids_nodup hx hy h

theorem connected_of_sameComponent (valid : ValidPlan py items) {component : List Fields}
    (hsub : ∀ x ∈ component, x ∈ items)
    (hclass : ∀ x ∈ component, ∀ y ∈ items,
      SameComponent py items (itemId py x) (itemId py y) → y ∈ component)
    {x : Fields} (hx : x ∈ component) {b : String}
    (h : SameComponent py items (itemId py x) b) :
    ∃ y ∈ component, itemId py y = b ∧ ReflTransGen (DependsEither py component) x y := by
  induction h with
  | refl => exact ⟨x, hx, rfl, .refl⟩
  | tail hxb hbc ih =>
    obtain ⟨y, hy, rfl, hxy⟩ := ih
    obtain ⟨item, hitem, ⟨hid, hd⟩ | ⟨rfl, hd⟩⟩ := (mem_neighborsOf py).1 hbc
    · rw [item_unique py valid hitem (hsub y hy) hid] at hd
      obtain ⟨z, hz, rfl⟩ := mem_map.1 (valid.known y (hsub y hy) _ hd)
      have hzc := hclass x hx z hz (hxb.tail hbc)
      exact ⟨z, hzc, rfl, hxy.tail ⟨hy, hzc, .inl hd⟩⟩
    · have hic := hclass x hx item hitem (hxb.tail hbc)
      exact ⟨item, hic, rfl, hxy.tail ⟨hy, hic, .inr hd⟩⟩

theorem weakComponents_spec (valid : ValidPlan py items) :
    ComponentsOf py items (items.map (itemId py)) [] (weakComponents py items) :=
  componentsFrom_spec py valid (fun _ h => h) (by simp)

theorem weakComponents_mem (valid : ValidPlan py items) {component : List Fields}
    (hc : component ∈ weakComponents py items) {x : Fields} (hx : x ∈ component) :
    x ∈ items ∧ ∀ y ∈ items, SameComponent py items (itemId py x) (itemId py y) →
      y ∈ component := by
  obtain ⟨s, -, -, hmem⟩ := (weakComponents_spec py valid).class_of component hc
  exact ⟨((hmem x).1 hx).1, fun y hy hxy => (hmem y).2 ⟨hy, ((hmem x).1 hx).2.trans hxy⟩⟩

theorem weakComponents_perm (valid : ValidPlan py items) :
    (weakComponents py items).flatten.Perm items := by
  have spec := weakComponents_spec py valid
  have hitems : items.Nodup := valid.ids_nodup.of_map _
  refine (perm_ext_iff_of_nodup ?_ hitems).2 fun x => ?_
  · refine nodup_flatten.2 ⟨fun c hc => hitems.sublist (spec.sublist c hc), ?_⟩
    refine spec.apart.imp fun h => ?_
    intro x hx hx'
    exact h x hx x hx' .refl
  · rw [mem_flatten]
    constructor
    · rintro ⟨c, hc, hx⟩
      exact (weakComponents_mem py valid hc hx).1
    · intro hx
      obtain ⟨c, hc, hxc⟩ := spec.cover x hx (mem_map_of_mem hx) (not_mem_nil)
      exact ⟨c, hc, hxc⟩

theorem weakComponents_length (valid : ValidPlan py items) :
    (weakComponents py items).length = 1
      ↔ ∀ x ∈ items, ∀ y ∈ items, ReflTransGen (DependsEither py items) x y := by
  have spec := weakComponents_spec py valid
  constructor
  · intro hlen x hx y hy
    obtain ⟨c, hc⟩ := length_eq_one_iff.1 hlen
    have hcover : ∀ z ∈ items, z ∈ c := by
      intro z hz
      obtain ⟨d, hd, hzd⟩ := spec.cover z hz (mem_map_of_mem hz) (not_mem_nil)
      rw [hc, mem_singleton] at hd
      rwa [← hd]
    obtain ⟨s, -, -, hmem⟩ := spec.class_of c (by rw [hc]; exact mem_singleton_self c)
    have hxy : SameComponent py items (itemId py x) (itemId py y) :=
      (sameComponent_symm py ((hmem x).1 (hcover x hx)).2).trans ((hmem y).1 (hcover y hy)).2
    obtain ⟨z, hz, hid, hpath⟩ := connected_of_sameComponent py valid (fun _ h => h)
      (fun _ _ _ h _ => h) hx hxy
    rwa [item_unique py valid hz hy hid] at hpath
  · intro hall
    obtain ⟨x, hx⟩ := exists_mem_of_ne_nil _ valid.nonempty
    obtain ⟨c, hc, hxc⟩ := spec.cover x hx (mem_map_of_mem hx) (not_mem_nil)
    have honly : ∀ y ∈ items, y ∈ c := by
      intro y hy
      refine (weakComponents_mem py valid hc hxc).2 y hy ?_
      refine (hall x hx y hy).lift (itemId py) fun a b hab => ?_
      rcases hab.2.2 with hd | hd
      · exact (mem_neighborsOf py).2 ⟨a, hab.1, .inl ⟨rfl, hd⟩⟩
      · exact (mem_neighborsOf py).2 ⟨b, hab.2.1, .inr ⟨rfl, hd⟩⟩
    have hnonempty : ∀ d ∈ weakComponents py items, ∃ y, y ∈ d := by
      intro d hd
      obtain ⟨s, hs, -, hmem⟩ := spec.class_of d hd
      obtain ⟨y, hy, rfl⟩ := mem_map.1 hs
      exact ⟨y, (hmem y).2 ⟨hy, .refl⟩⟩
    obtain ⟨before, after, heq⟩ := append_of_mem hc
    have hapart := spec.apart
    rw [heq, pairwise_append, pairwise_cons] at hapart
    have hbefore : before = [] := by
      refine eq_nil_iff_forall_not_mem.2 fun d hd => ?_
      have hdmem : d ∈ weakComponents py items := by rw [heq]; exact mem_append_left _ hd
      obtain ⟨y, hy⟩ := hnonempty d hdmem
      exact hapart.2.2 d hd c (mem_cons_self ..) y hy y
        (honly y (weakComponents_mem py valid hdmem hy).1) .refl
    have hafter : after = [] := by
      refine eq_nil_iff_forall_not_mem.2 fun d hd => ?_
      have hdmem : d ∈ weakComponents py items := by
        rw [heq]
        exact mem_append_right _ (mem_cons_of_mem _ hd)
      obtain ⟨y, hy⟩ := hnonempty d hdmem
      exact hapart.2.1.1 d hd y (honly y (weakComponents_mem py valid hdmem hy).1) y hy .refl
    rw [heq, hbefore, hafter]
    rfl

theorem map_eq_of_forall₂ {α β γ : Type*} {R : α → β → Prop} {f : α → γ} {g : β → γ}
    (hR : ∀ a b, R a b → f a = g b) {xs : List α} {ys : List β} (h : Forall₂ R xs ys) :
    xs.map f = ys.map g := by
  induction h with
  | nil => rfl
  | cons hab _ ih => rw [map_cons, map_cons, hR _ _ hab, ih]

theorem childrenOf_of_components (valid : ValidPlan py items)
    (h : Forall₂ ChildOf (weakComponents py items) children) :
    children.map itemsOf = weakComponents py items ∧ ChildrenOf py items children := by
  have hmap : children.map itemsOf = weakComponents py items := by
    have := map_eq_of_forall₂ (f := id) (g := itemsOf)
      (fun component child hc => by simp only [itemsOf, hc.items, Option.getD_some, id]) h
    rw [← this, map_id]
  have hmem : ∀ child ∈ children, itemsOf child ∈ weakComponents py items := by
    intro child hc
    rw [← hmap]
    exact mem_map_of_mem hc
  refine ⟨hmap, fun child hc => ?_, fun child hc item hitem =>
    weakComponents_mem py valid (hmem child hc) hitem, ?_⟩
  · obtain ⟨component, -, hchild⟩ := Traverse.exists_of_mem_right h hc
    have : itemsOf child = component := by simp only [itemsOf, hchild.items, Option.getD_some]
    rwa [this]
  · rw [← pairwise_map (f := itemsOf) (R := fun c d => ∀ x ∈ c, ∀ y ∈ d,
      ¬ SameComponent py items (itemId py x) (itemId py y)), hmap]
    exact (weakComponents_spec py valid).apart

/-- The children hold the items of the plan exactly once, in their order, one connected component
each; their keys are valid and distinct; their only edge is the one to the root. -/
structure ExactPartition (items children : List Fields) : Prop where
  partition : (children.flatMap itemsOf).Perm items
  ordered : ∀ child ∈ children, (itemsOf child).Sublist items
  isolated : children.Pairwise fun c d => ∀ x ∈ itemsOf c, ∀ y ∈ itemsOf d,
    itemId py y ∉ dependencies x ∧ itemId py x ∉ dependencies y
  connected : ∀ child ∈ children, itemsOf child ≠ [] ∧ ∀ x ∈ itemsOf child, ∀ y ∈ itemsOf child,
    ReflTransGen (DependsEither py (itemsOf child)) x y
  keys_nodup : (children.map (·.get "child_key")).Nodup
  keys_valid : ∀ child ∈ children, ∃ key, ValidKey key ∧ child.get "child_key" = .str key
  edges : ∀ child ∈ children, child.get "edges" = .arr [edgeJson (partOfEdge "root")]

def Connected (items : List Fields) : Prop :=
  ∀ x ∈ items, ∀ y ∈ items, ReflTransGen (DependsEither py items) x y

theorem exactPartition_of_components (valid : ValidPlan py items) {nodes : List Fields}
    {keys : List String} (hmap : nodes.map itemsOf = weakComponents py items)
    (hkeys : nodes.map (·.get "child_key") = keys.map .str) (hnodup : keys.Nodup)
    (hvalid : ∀ key ∈ keys, ValidKey key)
    (hedges : ∀ node ∈ nodes, node.get "edges" = .arr [edgeJson (partOfEdge "root")]) :
    ExactPartition py items nodes := by
  have spec := weakComponents_spec py valid
  have hmem : ∀ node ∈ nodes, itemsOf node ∈ weakComponents py items := by
    intro node hn
    rw [← hmap]
    exact mem_map_of_mem hn
  refine ⟨?_, fun node hn => spec.sublist _ (hmem node hn), ?_, fun node hn => ⟨?_, ?_⟩, ?_,
    fun node hn => ?_, hedges⟩
  · rw [flatMap_def, hmap]
    exact weakComponents_perm py valid
  · have hapart := spec.apart
    rw [← hmap, pairwise_map] at hapart
    refine hapart.imp_of_mem fun {c d} hc hd h x hx y hy => ⟨fun hdep => ?_, fun hdep => ?_⟩
    · exact h x hx y hy (sameComponent_of_dependency py
        (weakComponents_mem py valid (hmem c hc) hx).1 hdep)
    · exact h x hx y hy (sameComponent_symm py (sameComponent_of_dependency py
        (weakComponents_mem py valid (hmem d hd) hy).1 hdep))
  · obtain ⟨s, hs, -, hclass⟩ := spec.class_of _ (hmem node hn)
    obtain ⟨y, hy, rfl⟩ := mem_map.1 hs
    exact ne_nil_of_mem ((hclass y).2 ⟨hy, .refl⟩)
  · intro x hx y hy
    obtain ⟨s, -, -, hclass⟩ := spec.class_of _ (hmem node hn)
    have hxy : SameComponent py items (itemId py x) (itemId py y) :=
      (sameComponent_symm py ((hclass x).1 hx).2).trans ((hclass y).1 hy).2
    obtain ⟨z, hz, hid, hpath⟩ := connected_of_sameComponent py valid
      (fun x hx => ((hclass x).1 hx).1)
      (fun x hx => (weakComponents_mem py valid (hmem node hn) hx).2) hx hxy
    rwa [item_unique py valid ((hclass z).1 hz).1 ((hclass y).1 hy).1 hid] at hpath
  · rw [hkeys]
    exact hnodup.map fun a b h => Json.str.inj h
  · have : node.get "child_key" ∈ keys.map Json.str := by
      rw [← hkeys]
      exact mem_map.2 ⟨node, hn, rfl⟩
    obtain ⟨key, hkey, heq⟩ := mem_map.1 this
    exact ⟨key, hvalid key hkey, heq.symm⟩

theorem componentChildren_keys_valid {components : List (List Fields)}
    {keys : List String} (h : Forall₂ ChildOf components children)
    (hkeys : children.map (·.get "child_key") = keys.map .str) :
    ∀ key ∈ keys, ValidKey key := by
  intro key hmem
  have : Json.str key ∈ children.map (·.get "child_key") := by
    rw [hkeys]
    exact mem_map_of_mem hmem
  obtain ⟨child, hc, heq⟩ := mem_map.1 this
  obtain ⟨component, -, ⟨key', hvalid, hlookup⟩, -, -, -⟩ := Traverse.exists_of_mem_right h hc
  rw [Fields.get, hlookup, Option.getD_some, Json.str.injEq] at heq
  rwa [← heq]

theorem normalizeSplit_ok (valid : ValidPlan py items) {mode rationale : Json}
    {components : List (List Fields)} (hcomponents : components = weakComponents py items)
    (h : Forall₂ ChildOf components children) {keys : List String}
    (hkeys : children.map (·.get "child_key") = keys.map .str) (hnodup : keys.Nodup)
    (rootId parentBranch : String) (scopeItems : List Fields) (horizon : ℤ) :
    ∃ normalized nodes, normalizeSplit py rootId parentBranch
        [("split_mode", mode), ("rationale", rationale), ("children", .arr (children.map .obj))]
        scopeItems horizon = .ok normalized
      ∧ normalized.get "split_mode" = mode ∧ normalized.get "children" = .arr (nodes.map .obj)
      ∧ ExactPartition py items nodes := by
  subst hcomponents
  obtain ⟨hmap, hchildren⟩ := childrenOf_of_components py valid h
  obtain ⟨prepared, hprepared, hnodes⟩ := mapPlan_ok (l := children) fun child hc =>
    prepareChild_ok py valid hchildren (scopeItems.map (itemId py)) hc
  obtain ⟨nodes, hnormalized, hnodes'⟩ := mapPlan_ok (l := prepared) fun node hn => by
    obtain ⟨child, hc, hnode⟩ := Traverse.exists_of_mem_right hnodes hn
    obtain ⟨⟨key, hvalid, hkey⟩, -, -, criteria, hcriteria⟩ := hchildren.child child hc
    exact normalizeChild_ok py rootId parentBranch horizon (childDepths py prepared) hvalid
      (hnode.key.trans hkey) (hnode.criteria.trans hcriteria) hnode.edges
  have hitems : nodes.map itemsOf = weakComponents py items := by
    rw [← hmap, map_eq_of_forall₂ (f := itemsOf) (g := itemsOf) (fun a b hab => by
        simp only [itemsOf, hab.items]) hnodes,
      map_eq_of_forall₂ (f := itemsOf) (g := itemsOf) (fun a b hab => by
        simp only [itemsOf, hab.items]) hnodes']
  have hnodeKeys : nodes.map (·.get "child_key") = keys.map .str := by
    rw [← hkeys, map_eq_of_forall₂ (g := fun n : Fields => n.get "child_key") (fun a b hab => by
        simp only [Fields.get, hab.key]) hnodes,
      map_eq_of_forall₂ (f := fun n : Fields => n.get "child_key")
        (g := fun n : Fields => n.get "child_key") (fun a b hab => by
          simp only [Fields.get, hab.key]) hnodes']
  obtain ⟨normalized, hok, hmode, hget⟩ : ∃ normalized, normalizeSplit py rootId parentBranch
      [("split_mode", mode), ("rationale", rationale), ("children", .arr (children.map .obj))]
      scopeItems horizon = .ok normalized
      ∧ normalized.get "split_mode" = mode ∧ normalized.get "children" = .arr (nodes.map .obj) := by
    simp only [normalizeSplit, item?, Fields.lookup_cons_eq, bind, Except.bind, iterOrRaise,
      Json.iter, pure, Except.pure, String.reduceEq, ↓reduceIte, mapPlan_asMapping, hprepared,
      hnormalized]
    exact ⟨_, rfl, rfl, rfl⟩
  refine ⟨normalized, nodes, hok, hmode, hget, exactPartition_of_components py valid hitems
    hnodeKeys hnodup (componentChildren_keys_valid h hkeys) fun node hn => ?_⟩
  obtain ⟨_, -, hnode⟩ := Traverse.exists_of_mem_right hnodes' hn
  exact hnode.edges

/-- A plan of one component is right-sized and has no children; of any other plan the normalised
split is an exact partition. -/
theorem partition_exact (approach : Json) (hitems : planGraph py approach = .ok items)
    (hcriteria : ∀ item ∈ items, (item.getD "acceptance_criteria" (.arr [])).iter.isSome)
    (rootId parentBranch : String) (scopeItems : List Fields) (horizon : ℤ) :
    ∃ split normalized nodes, partitionPlanGraph py approach = .ok split
      ∧ normalizeSplit py rootId parentBranch split scopeItems horizon = .ok normalized
      ∧ normalized.get "children" = .arr (nodes.map .obj)
      ∧ (normalized.get "split_mode" = .str "right_sized" ↔ Connected py items)
      ∧ (Connected py items → nodes = [])
      ∧ (¬ Connected py items → ExactPartition py items nodes) := by
  have valid := planGraph_ok py hitems
  have hlen := weakComponents_length py valid
  simp only [partitionPlanGraph, hitems, bind, Except.bind, pure, Except.pure]
  by_cases hone : (weakComponents py items).length = 1
  · have hconn : Connected py items := hlen.1 hone
    rw [if_pos hone]
    exact ⟨_, _, [], rfl, rfl, rfl, ⟨fun _ => hconn, fun _ => rfl⟩, fun _ => rfl,
      fun hno => absurd hconn hno⟩
  · have hconn : ¬ Connected py items := fun h => hone (hlen.2 h)
    obtain ⟨children, hc⟩ : ∃ children, componentChildren py
        ((findFirstMapping "patch_plan" approach).getD []) 1 [] (weakComponents py items)
          = .ok children :=
      componentChildren_total py fun component hcomp item hitem =>
        hcriteria item (weakComponents_mem py valid hcomp hitem).1
    obtain ⟨hchildren, keys, hkeys, hnodup, -⟩ := componentChildren_ok py hc
    rw [if_neg hone, hc]
    obtain ⟨normalized, nodes, hok, hmode, hnodes, hexact⟩ := normalizeSplit_ok py valid rfl
      hchildren hkeys hnodup rootId parentBranch scopeItems horizon
    refine ⟨_, normalized, nodes, rfl, hok, hnodes, ?_, fun h => absurd h hconn, fun _ => hexact⟩
    rw [hmode]
    simp [hconn]

end Children

section Examples

def workItem (id : String) (dependsOn : List String) : Fields :=
  [("id", .str id), ("depends_on", .arr (dependsOn.map .str))]

/-- A technical approach with a patch plan of the given items. -/
def approachOf (items : List Fields) : Json :=
  .obj [("patch_plan", .obj [("items", .arr (items.map .obj))])]

theorem sample_plans :
    planGraph asciiLib (approachOf [workItem "api" [], workItem "docs ui" []]) =
        .ok [workItem "api" [], workItem "docs ui" []] ∧
    planGraph asciiLib (approachOf [workItem "api" []]) = .ok [workItem "api" []] ∧
    partitionPlanGraph asciiLib (approachOf [workItem "api" []]) = .ok [("split_mode", .str "right_sized"),
      ("rationale", .str "one dependency component; keep the chain in one leaf"), ("children", .arr [])] ∧
    normalizeSplit asciiLib "0001" "main" [("split_mode", .str "right_sized"),
      ("rationale", .str "one dependency component; keep the chain in one leaf"), ("children", .arr [])] [] 1 =
        .ok [("split_mode", .str "right_sized"),
          ("rationale", .str "one dependency component; keep the chain in one leaf"),
          ("parent_retained_scope_ids", .arr []), ("children", .arr [])] := by
  decide +kernel

/-- Two items that do not depend on each other are two components. -/
theorem partition_exact_two :
    ∃ split normalized nodes,
      partitionPlanGraph asciiLib (approachOf [workItem "api" [], workItem "docs ui" []]) = .ok split
      ∧ normalizeSplit asciiLib "0001" "main" split [] 1 = .ok normalized
      ∧ normalized.get "children" = .arr (nodes.map .obj)
      ∧ (normalized.get "split_mode" = .str "right_sized"
        ↔ Connected asciiLib [workItem "api" [], workItem "docs ui" []])
      ∧ (Connected asciiLib [workItem "api" [], workItem "docs ui" []] → nodes = [])
      ∧ (¬ Connected asciiLib [workItem "api" [], workItem "docs ui" []] →
        ExactPartition asciiLib [workItem "api" [], workItem "docs ui" []] nodes) :=
  partition_exact asciiLib _ sample_plans.1 (by decide) "0001" "main" [] 1

/-- A plan of one component has no children to hold its items. -/
theorem right_sized_has_no_children :
    planGraph asciiLib (approachOf [workItem "api" []]) = .ok [workItem "api" []]
      ∧ ∃ split normalized : Fields,
        partitionPlanGraph asciiLib (approachOf [workItem "api" []]) = .ok split
        ∧ normalizeSplit asciiLib "0001" "main" split [] 1 = .ok normalized
        ∧ ∀ nodes : List Fields, normalized.get "children" = .arr (nodes.map .obj) →
          ¬ (nodes.flatMap itemsOf).Perm [workItem "api" []] := by
  obtain ⟨-, hplan, hsplit, hnormal⟩ := sample_plans
  refine ⟨hplan, _, _, hsplit, hnormal, fun nodes hnodes => ?_⟩
  have hnil : nodes.map Json.obj = [] := (Json.arr.inj hnodes).symm
  rw [map_eq_nil_iff.1 hnil]
  simp

end Examples

end AiOrg
