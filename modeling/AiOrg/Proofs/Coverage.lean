import AiOrg.Gate.Coverage
import AiOrg.Proofs.Plan
import AiOrg.Python.JsonPlain

/-!
# The coverage of a split

A scope item is owned by the child that has an item of exactly that id. So the coverage is consistent where every plan
item has its stripped id in its own component, and where no child is called `root` or nothing is left to the root
(`consistent_iff`).
-/

namespace AiOrg

open List

namespace Coverage

section Scope

theorem ids_firstOfId (items : List ScopeItem) : ((firstOfId items).map ScopeItem.id).Nodup := by
  induction items with
  | nil => exact nodup_nil
  | cons item items ih =>
    rw [firstOfId, map_cons, nodup_cons]
    refine ⟨fun hmem => ?_, ih.sublist (filter_sublist.map _)⟩
    obtain ⟨other, hother, hid⟩ := mem_map.1 hmem
    simpa [hid] using (mem_filter.1 hother).2

theorem itemId_fields (py : PyLib) (item : ScopeItem) : itemId py item.fields = item.id := py.strOr_str item.id

end Scope

section Inversion

variable (py : PyLib)

/-! ### What the normalisation keeps of a child -/

theorem forall₂_of_mapPlan {α β : Type*} {f : α → Except PlanError β} {xs : List α} {ys : List β}
    (h : mapPlan f xs = .ok ys) : Forall₂ (fun x y => f x = .ok y) xs ys := by
  induction xs generalizing ys with
  | nil =>
    cases h
    exact .nil
  | cons x xs ih =>
    simp only [mapPlan, bind, Except.bind, pure, Except.pure] at h
    cases hx : f x with
    | error e =>
      rw [hx] at h
      cases h
    | ok y =>
      rw [hx] at h
      cases hxs : mapPlan f xs with
      | error e =>
        rw [hxs] at h
        cases h
      | ok rest =>
        rw [hxs] at h
        cases h
        exact .cons hx (ih hxs)

theorem forall₂_trans {α β γ : Type*} {R : α → β → Prop} {S : β → γ → Prop} {T : α → γ → Prop}
    (hT : ∀ a b c, R a b → S b c → T a c) {xs : List α} {ys : List β} {zs : List γ} (h : Forall₂ R xs ys)
    (h' : Forall₂ S ys zs) : Forall₂ T xs zs := by
  refine (Traverse.comp h h').imp fun a c hcomp => ?_
  obtain ⟨b, hab, hbc⟩ := hcomp
  exact hT a b c hab hbc

structure NodeFrom (scopeIds : List String) (child node : Fields) : Prop where
  key : ∀ key, ValidKey key → child.get "child_key" = .str key → node.get "child_key" = .str key
  items : childPlanItems node = childPlanItems child
  scope : node.get "scope_item_ids" = .arr (((childScopeIds py child).filter (· ∈ scopeIds)).map .str)

theorem getD_of_get {fields : Fields} {key : String} {value default : Json} (hvalue : value ≠ .null)
    (h : fields.get key = value) : fields.getD key default = value := by
  subst h
  rw [Fields.get, Fields.getD] at *
  cases hl : fields.lookup key with
  | none => simp [hl] at hvalue
  | some found => rfl

theorem nodeFrom_prepareChild {owners : List (String × String)} {scopeIds : List String} {child node : Fields}
    (h : prepareChild py owners scopeIds child = .ok node) : NodeFrom py scopeIds child node := by
  simp only [prepareChild, item?, bind, Except.bind, pure, Except.pure] at h
  cases hkey : child.lookup "child_key" with
  | none =>
    rw [hkey] at h
    cases h
  | some value =>
    rw [hkey] at h
    dsimp only at h
    split at h
    · cases h
    split at h
    · cases h
    cases h
    refine ⟨fun key hvalid hchild => ?_, childPlanItems_congr ?_, ?_⟩
    · rw [Fields.get, hkey, Option.getD_some] at hchild
      rw [Fields.get_set_of_ne _ _ (by decide), Fields.get_set_of_ne _ _ (by decide), Fields.get_set_self, hchild,
        PyLib.str_str, safeChildKey_of_validKey hvalid]
    · rw [Fields.get_set_of_ne _ _ (by decide), Fields.get_set_of_ne _ _ (by decide),
        Fields.get_set_of_ne _ _ (by decide)]
    · rw [Fields.get_set_of_ne _ _ (by decide), Fields.get_set_self]

theorem keys_of_nodeFrom {scopeIds : List String} {children nodes : List Fields}
    (h : Forall₂ (NodeFrom py scopeIds) children nodes)
    (hkey : ∀ child ∈ children, ∃ key, ValidKey key ∧ child.get "child_key" = .str key) :
    nodes.map (·.get "child_key") = children.map (·.get "child_key") := by
  induction h with
  | nil => rfl
  | cons hnode _ ih =>
    obtain ⟨⟨key, hvalid, hchild⟩, hrest⟩ := forall_mem_cons.1 hkey
    rw [map_cons, map_cons, ih hrest, hnode.key key hvalid hchild, hchild]

theorem normalizeChild_keeps {rootId parentBranch : String} {horizon : ℤ} {depths : String → ℕ}
    {child node : Fields} (h : normalizeChild py rootId parentBranch horizon depths child = .ok node) :
    (∀ key, ValidKey key → child.get "child_key" = .str key → node.get "child_key" = .str key) ∧
      childPlanItems node = childPlanItems child ∧ node.get "scope_item_ids" = child.get "scope_item_ids" := by
  simp only [normalizeChild, item?, bind, Except.bind, pure, Except.pure] at h
  cases hkey : child.lookup "child_key" with
  | none =>
    rw [hkey] at h
    cases h
  | some value =>
    rw [hkey] at h
    dsimp only at h
    split at h
    · cases h
    · split at h
      · cases h
      cases h
      refine ⟨fun key hvalid hchild => ?_, childPlanItems_congr ?_, ?_⟩
      · rw [Fields.get, hkey, Option.getD_some] at hchild
        simp [Fields.get, Fields.lookup_set, hchild, safeChildKey_of_validKey hvalid]
      · simp [Fields.get, Fields.lookup_set]
      · simp [Fields.get, Fields.lookup_set]

theorem normalizeSplit_inv {rootId parentBranch : String} {mode rationale : Json} {children : List Fields}
    {scopeItems : List Fields} {horizon : ℤ} {normalized : Fields}
    (h : normalizeSplit py rootId parentBranch
      [("split_mode", mode), ("rationale", rationale), ("children", .arr (children.map .obj))] scopeItems horizon =
        .ok normalized) :
    ∃ nodes, normalized.get "children" = .arr (nodes.map .obj) ∧
      Forall₂ (NodeFrom py (scopeItems.map (itemId py))) children nodes := by
  simp only [normalizeSplit, item?, Fields.lookup_cons_eq, bind, Except.bind, iterOrRaise, Json.iter, pure, Except.pure,
    String.reduceEq, ↓reduceIte, mapPlan_asMapping] at h
  cases hprepared : mapPlan (prepareChild py (itemOwners py children) (scopeItems.map (itemId py))) children with
  | error e =>
    rw [hprepared] at h
    cases h
  | ok prepared =>
    rw [hprepared] at h
    dsimp only at h
    cases hnodes : mapPlan (normalizeChild py rootId parentBranch horizon (childDepths py prepared)) prepared with
    | error e =>
      rw [hnodes] at h
      cases h
    | ok nodes =>
      rw [hnodes] at h
      cases h
      refine ⟨nodes, rfl, forall₂_trans (fun child node last hnode hlast => ?_) (forall₂_of_mapPlan hprepared)
        (forall₂_of_mapPlan hnodes)⟩
      have hnode := nodeFrom_prepareChild py hnode
      obtain ⟨hkey, hitems, hscope⟩ := normalizeChild_keeps py hlast
      exact ⟨fun key hvalid hchild => hkey key hvalid (hnode.key key hvalid hchild), hitems.trans hnode.items,
        hscope.trans hnode.scope⟩

end Inversion

section Owners

variable (py : PyLib)

/-- The nodes of a split: they hold whole components, under keys of their own. -/
structure Slices (items : List Fields) (scopeIds : List String) (nodes : List Fields) : Prop where
  mem : ∀ node ∈ nodes, ∀ item ∈ itemsOf node, item ∈ items ∧
    ∀ other ∈ items, SameComponent py items (itemId py item) (itemId py other) → other ∈ itemsOf node
  same : ∀ node ∈ nodes, ∀ x ∈ itemsOf node, ∀ y ∈ itemsOf node, SameComponent py items (itemId py x) (itemId py y)
  apart : ∀ c ∈ nodes, ∀ d ∈ nodes, ∀ x ∈ itemsOf c, ∀ y ∈ itemsOf d,
    SameComponent py items (itemId py x) (itemId py y) → c = d
  key : ∀ node ∈ nodes, ∃ key, key ≠ "" ∧ node.get "child_key" = .str key
  keys : ∀ c ∈ nodes, ∀ d ∈ nodes, c.get "child_key" = d.get "child_key" → c = d
  scope : ∀ node ∈ nodes, node.get "scope_item_ids" =
    .arr ((((itemsOf node).map (itemId py)).filter (· ∈ scopeIds)).map .str)

/-- The assignments to `owner_by_id` over the nodes. -/
def ownersOf (nodes : List Fields) : List (String × String) :=
  nodes.flatMap fun node => (scopeOf node).map fun id => (id, py.strOr (node.get "child_key") "root")

theorem stringItems_map (ids : List String) : stringItems (ids.map .str) = some ids := by
  induction ids with
  | nil => rfl
  | cons id ids ih => rw [map_cons, stringItems, ih, Option.map_some]

variable {items nodes : List Fields} {scopeIds : List String}

theorem Slices.scopeOf_eq (h : Slices py items scopeIds nodes) {node : Fields} (hnode : node ∈ nodes) :
    scopeOf node = ((itemsOf node).map (itemId py)).filter (· ∈ scopeIds) := by
  rw [scopeOf, h.scope node hnode]
  simp only [stringItems_map, Option.getD_some]

theorem Slices.mem_scopeOf_iff (h : Slices py items scopeIds nodes) {node : Fields} (hnode : node ∈ nodes)
    {id : String} : id ∈ scopeOf node ↔ id ∈ scopeIds ∧ ∃ item ∈ itemsOf node, itemId py item = id := by
  rw [h.scopeOf_eq py hnode, mem_filter, mem_map, decide_eq_true_eq, and_comm]

theorem Slices.strOr_key (h : Slices py items scopeIds nodes) {node : Fields} (hnode : node ∈ nodes) {key : String} :
    py.strOr (node.get "child_key") "root" = key ↔ node.get "child_key" = .str key := by
  obtain ⟨key', hne, hkey⟩ := h.key node hnode
  rw [hkey, PyLib.strOr, Json.str.injEq]
  simp [Json.truthy, hne]

theorem Slices.unique (h : Slices py items scopeIds nodes) {c d : Fields} (hc : c ∈ nodes)
    (hd : d ∈ nodes) {id : String} (hidc : id ∈ scopeOf c) (hidd : id ∈ scopeOf d) : c = d := by
  obtain ⟨-, x, hx, rfl⟩ := (h.mem_scopeOf_iff py hc).1 hidc
  obtain ⟨-, y, hy, hid⟩ := (h.mem_scopeOf_iff py hd).1 hidd
  refine h.apart c hc d hd x hx y hy ?_
  rw [hid]
  exact .refl

theorem Slices.ownerOf_eq_some_iff (h : Slices py items scopeIds nodes)
    {id key : String} : ownerOf (ownersOf py nodes) id = some key ↔
      ∃ node ∈ nodes, id ∈ scopeOf node ∧ node.get "child_key" = .str key := by
  have hmem : ∀ key, (id, key) ∈ (ownersOf py nodes).reverse ↔
      ∃ node ∈ nodes, id ∈ scopeOf node ∧ node.get "child_key" = .str key := by
    intro key
    simp only [ownersOf, mem_reverse, mem_flatMap, mem_map, Prod.mk.injEq]
    constructor
    · rintro ⟨node, hnode, _, hid, rfl, hkey⟩
      exact ⟨node, hnode, hid, (h.strOr_key py hnode).1 hkey⟩
    · rintro ⟨node, hnode, hid, hkey⟩
      exact ⟨node, hnode, id, hid, rfl, (h.strOr_key py hnode).2 hkey⟩
  rw [← hmem]
  refine ⟨mem_of_lookup, fun hkey => ?_⟩
  have hsome : (ownersOf py nodes).reverse.lookup id ≠ none := fun hnone =>
    (List.lookup_eq_none_iff.1 hnone) _ hkey |> fun hne => by simp at hne
  obtain ⟨key', hkey'⟩ := Option.ne_none_iff_exists'.1 hsome
  obtain ⟨c, hc, hidc, hkeyc⟩ := (hmem key).1 hkey
  obtain ⟨d, hd, hidd, hkeyd⟩ := (hmem key').1 (mem_of_lookup hkey')
  obtain rfl := h.unique py hc hd hidc hidd
  rw [hkeyc, Json.str.injEq] at hkeyd
  rw [ownerOf, hkey', hkeyd]

theorem Slices.ownerOf_eq_none_iff (h : Slices py items scopeIds nodes) {id : String} :
    ownerOf (ownersOf py nodes) id = none ↔ ∀ node ∈ nodes, id ∉ scopeOf node := by
  constructor
  · intro hnone node hnode hid
    obtain ⟨key, -, hkey⟩ := h.key node hnode
    rw [(h.ownerOf_eq_some_iff py).2 ⟨node, hnode, hid, hkey⟩] at hnone
    cases hnone
  · intro hall
    cases howner : ownerOf (ownersOf py nodes) id with
    | none => rfl
    | some key =>
      obtain ⟨node, hnode, hid, -⟩ := (h.ownerOf_eq_some_iff py).1 howner
      exact absurd hid (hall node hnode)

theorem Slices.ownerById_eq (h : Slices py items scopeIds nodes) {split : Fields}
    (hsplit : split.get "children" = .arr (nodes.map .obj)) : ownerById py split = .ok (ownersOf py nodes) := by
  have hchildren : split.getD "children" (.arr []) = .arr (nodes.map .obj) :=
    getD_of_get (by simp) hsplit
  have howned : ∀ part : List Fields, (∀ node ∈ part, node ∈ nodes) →
      mapPlan (ownedBy py) part = .ok (part.map fun node =>
        (scopeOf node).map fun id => (id, py.strOr (node.get "child_key") "root")) := by
    intro part hpart
    induction part with
    | nil => rfl
    | cons node part ih =>
      obtain ⟨hnode, hpart⟩ := forall_mem_cons.1 hpart
      have hids : node.getD "scope_item_ids" (.arr []) = .arr ((scopeOf node).map .str) := by
        rw [h.scopeOf_eq py hnode]
        exact getD_of_get (by simp) (h.scope node hnode)
      simp only [mapPlan, ownedBy, hids, iterOrRaise, Json.iter, bind, Except.bind, pure, Except.pure, ih hpart,
        map_map, Function.comp_def, PyLib.str_str, map_cons]
  simp only [ownerById, hchildren, iterOrRaise, Json.iter, bind, Except.bind, pure, Except.pure, listOfMappings_map,
    howned nodes fun _ hnode => hnode]
  rw [ownersOf, flatMap_def]

/-! ### The coverage -/

def project (owners : List (String × String)) (scope : List ScopeItem) : Projection where
  coverage := (scope.insertionSort fun a b => a.id ≤ b.id).map fun item =>
    ⟨item.id, (ownerOf owners item.id).getD "root"⟩
  retained_scope_ids := sorted ((scope.map ScopeItem.id).filter fun id => ownerOf owners id = none)

theorem mem_coverage_iff {owners : List (String × String)} {scope : List ScopeItem} {row : CoverageRow} :
    row ∈ (project owners scope).coverage ↔ row.scope_item_id ∈ scope.map ScopeItem.id ∧
      row.owner = (ownerOf owners row.scope_item_id).getD "root" := by
  simp only [project, mem_map, mem_insertionSort]
  constructor
  · rintro ⟨item, hitem, rfl⟩
    exact ⟨⟨item, hitem, rfl⟩, rfl⟩
  · rintro ⟨⟨item, hitem, hid⟩, howner⟩
    refine ⟨item, hitem, ?_⟩
    rw [hid, ← howner]

theorem rows_perm (owners : List (String × String)) (scope : List ScopeItem) :
    ((project owners scope).coverage.map CoverageRow.scope_item_id).Perm (scope.map ScopeItem.id) := by
  rw [project, map_map]
  exact (perm_insertionSort _ scope).map _

/-- A plan item finds an item of its stripped id in its own component. -/
def Placed (items : List Fields) (scopeIds : List String) : Prop :=
  ∀ item ∈ items, pyStrip (itemId py item) ∈ scopeIds →
    ∃ other ∈ items, itemId py other = pyStrip (itemId py item) ∧
      SameComponent py items (itemId py item) (itemId py other)

variable {scope : List ScopeItem}

theorem Slices.agree_iff (h : Slices py items (scope.map ScopeItem.id) nodes)
    (hall : ∀ item ∈ items, ∃ node ∈ nodes, item ∈ itemsOf node) :
    (∀ row ∈ (project (ownersOf py nodes) scope).coverage, ∀ child ∈ nodes,
      child.get "child_key" = .str row.owner ↔ row.scope_item_id ∈ scopeOf child) ↔
        (∀ node ∈ nodes, node.get "child_key" ≠ .str "root") ∨
          ∀ id ∈ scope.map ScopeItem.id, id ∈ items.map (itemId py) := by
  constructor
  · intro hagree
    by_contra hnot
    rw [not_or] at hnot
    push Not at hnot
    obtain ⟨⟨node, hnode, hkey⟩, id, hid, hplan⟩ := hnot
    have hfree : ∀ node ∈ nodes, id ∉ scopeOf node := fun node hnode hmem => by
      obtain ⟨-, item, hitem, rfl⟩ := (h.mem_scopeOf_iff py hnode).1 hmem
      exact hplan (mem_map_of_mem (h.mem node hnode item hitem).1)
    have howner := (h.ownerOf_eq_none_iff py).2 hfree
    have hrow : (⟨id, "root"⟩ : CoverageRow) ∈ (project (ownersOf py nodes) scope).coverage :=
      mem_coverage_iff.2 ⟨hid, by rw [howner]; rfl⟩
    exact hfree node hnode ((hagree _ hrow node hnode).1 hkey)
  · intro hcase row hrow child hchild
    obtain ⟨hid, hrowner⟩ := mem_coverage_iff.1 hrow
    cases howner : ownerOf (ownersOf py nodes) row.scope_item_id with
    | some key =>
      rw [howner, Option.getD_some] at hrowner
      obtain ⟨node, hnode, hmem, hkey⟩ := (h.ownerOf_eq_some_iff py).1 howner
      rw [hrowner]
      constructor
      · intro hchildKey
        rwa [h.keys child hchild node hnode (hchildKey.trans hkey.symm)]
      · intro hchildMem
        rwa [h.unique py hchild hnode hchildMem hmem]
    | none =>
      have hfree := (h.ownerOf_eq_none_iff py).1 howner
      rw [howner, Option.getD_none] at hrowner
      refine iff_of_false ?_ (hfree child hchild)
      rcases hcase with hroot | hplan
      · rw [hrowner]
        exact hroot child hchild
      · obtain ⟨item, hitem, hitemId⟩ := mem_map.1 (hplan _ hid)
        obtain ⟨node, hnode, hmem⟩ := hall item hitem
        exact absurd ((h.mem_scopeOf_iff py hnode).2 ⟨hid, item, hmem, hitemId⟩) (hfree node hnode)

theorem Slices.names_iff (h : Slices py items (scope.map ScopeItem.id) nodes)
    (hall : ∀ item ∈ items, ∃ node ∈ nodes, item ∈ itemsOf node)
    (hagree : ∀ row ∈ (project (ownersOf py nodes) scope).coverage, ∀ child ∈ nodes,
      child.get "child_key" = .str row.owner ↔ row.scope_item_id ∈ scopeOf child) :
    (∀ row ∈ (project (ownersOf py nodes) scope).coverage, ∀ child ∈ nodes, ∀ item ∈ itemsOf child,
      pyStrip (itemId py item) = row.scope_item_id → child.get "child_key" = .str row.owner) ↔
        Placed py items (scope.map ScopeItem.id) := by
  constructor
  · intro hnames item hitem hid
    obtain ⟨node, hnode, hmem⟩ := hall item hitem
    have hrow : (⟨pyStrip (itemId py item), (ownerOf (ownersOf py nodes) (pyStrip (itemId py item))).getD "root"⟩ :
        CoverageRow) ∈ (project (ownersOf py nodes) scope).coverage := mem_coverage_iff.2 ⟨hid, rfl⟩
    have hstored := (hagree _ hrow node hnode).1 (hnames _ hrow node hnode item hmem rfl)
    obtain ⟨-, other, hother, hotherId⟩ := (h.mem_scopeOf_iff py hnode).1 hstored
    exact ⟨other, (h.mem node hnode other hother).1, hotherId, h.same node hnode item hmem other hother⟩
  · intro hplaced row hrow child hchild item hitem hid
    obtain ⟨hrowId, -⟩ := mem_coverage_iff.1 hrow
    obtain ⟨other, hother, hotherId, hsame⟩ := hplaced item (h.mem child hchild item hitem).1 (hid ▸ hrowId)
    have hmem := (h.mem child hchild item hitem).2 other hother hsame
    refine (hagree row hrow child hchild).2 ((h.mem_scopeOf_iff py hchild).2 ⟨hrowId, other, hmem, ?_⟩)
    rw [hotherId, hid]

theorem Slices.consistent_iff (h : Slices py items (scope.map ScopeItem.id) nodes)
    (hall : ∀ item ∈ items, ∃ node ∈ nodes, item ∈ itemsOf node) (hscope : (scope.map ScopeItem.id).Nodup) :
    Consistent py scope nodes (project (ownersOf py nodes) scope) ↔ Placed py items (scope.map ScopeItem.id) ∧
      ((∀ node ∈ nodes, node.get "child_key" ≠ .str "root") ∨
        ∀ id ∈ scope.map ScopeItem.id, id ∈ items.map (itemId py)) := by
  rw [← h.agree_iff py hall]
  constructor
  · intro hconsistent
    exact ⟨(h.names_iff py hall hconsistent.agree).1 hconsistent.names, hconsistent.agree⟩
  · rintro ⟨hplaced, hagree⟩
    exact {
      rows_nodup := (rows_perm _ scope).nodup_iff.2 hscope
      rows := fun id => (rows_perm _ scope).mem_iff
      names := (h.names_iff py hall hagree).2 hplaced
      retained := fun id => by
        simp only [project, mem_sorted, mem_filter, decide_eq_true_eq, h.ownerOf_eq_none_iff py]
      stored := fun child hchild id hid => ((h.mem_scopeOf_iff py hchild).1 hid).1
      agree := hagree }

theorem consistent_nil (hscope : (scope.map ScopeItem.id).Nodup) :
    Consistent py scope [] (project [] scope) where
  rows_nodup := (rows_perm _ scope).nodup_iff.2 hscope
  rows id := (rows_perm _ scope).mem_iff
  names row _ child hchild := absurd hchild not_mem_nil
  retained id := by simp [project, mem_sorted, ownerOf]
  stored child hchild := absurd hchild not_mem_nil
  agree row _ child hchild := absurd hchild not_mem_nil

theorem slices_of_components (valid : ValidPlan py items) {keys : List String}
    (hmap : nodes.map itemsOf = weakComponents py items) (hkeys : nodes.map (·.get "child_key") = keys.map .str)
    (hnodup : keys.Nodup) (hne : "" ∉ keys)
    (hscope : ∀ node ∈ nodes, node.get "scope_item_ids" =
      .arr ((((itemsOf node).map (itemId py)).filter (· ∈ scopeIds)).map .str)) :
    Slices py items scopeIds nodes ∧ ∀ item ∈ items, ∃ node ∈ nodes, item ∈ itemsOf node := by
  have spec := weakComponents_spec py valid
  have hmem : ∀ node ∈ nodes, itemsOf node ∈ weakComponents py items := fun node hnode =>
    hmap ▸ mem_map_of_mem hnode
  refine ⟨⟨fun node hnode item hitem => weakComponents_mem py valid (hmem node hnode) hitem,
    fun node hnode x hx y hy => ?_, ?_, fun node hnode => ?_, ?_, hscope⟩, fun item hitem => ?_⟩
  · obtain ⟨s, -, -, hclass⟩ := spec.class_of _ (hmem node hnode)
    exact (sameComponent_symm py ((hclass x).1 hx).2).trans ((hclass y).1 hy).2
  · have hapart := spec.apart
    rw [← hmap, pairwise_map] at hapart
    intro c hc d hd x hx y hy hxy
    by_contra hcd
    have : Std.Symm fun c d : Fields => ∀ x ∈ itemsOf c, ∀ y ∈ itemsOf d,
        ¬ SameComponent py items (itemId py x) (itemId py y) :=
      ⟨fun c d h x hx y hy hs => h y hy x hx (sameComponent_symm py hs)⟩
    exact hapart.forall hc hd hcd x hx y hy hxy
  · have hkey : node.get "child_key" ∈ keys.map Json.str := hkeys ▸ mem_map.2 ⟨node, hnode, rfl⟩
    obtain ⟨key, hmemKey, heq⟩ := mem_map.1 hkey
    exact ⟨key, fun hempty => hne (hempty ▸ hmemKey), heq.symm⟩
  · have hnodup' : (nodes.map (·.get "child_key")).Nodup := by
      rw [hkeys]
      exact hnodup.map fun a b h => Json.str.inj h
    exact fun c hc d hd hcd => inj_on_of_nodup_map hnodup' hc hd hcd
  · obtain ⟨component, hcomponent, hitemMem⟩ := spec.cover item hitem (mem_map_of_mem hitem) not_mem_nil
    rw [← hmap] at hcomponent
    obtain ⟨node, hnode, rfl⟩ := mem_map.1 hcomponent
    exact ⟨node, hnode, hitemMem⟩

theorem suffixedKey_ne_root (base : String) (suffix : ℕ) : suffixedKey base suffix ≠ "root" := by
  intro h
  have hmem : '_' ∈ "root".toList := by
    rw [← h, suffixedKey, String.toList_append, String.toList_append]
    simp
  exact absurd hmem (by decide)

theorem freshKey_eq_root_iff {base : String} {used : List String} :
    freshKey base used = "root" ↔ base = "root" ∧ "root" ∉ used := by
  rw [freshKey]
  split_ifs with hused
  · obtain ⟨n, hn⟩ := (suffixLoop_spec base used used.length 2).1
    rw [hn]
    refine iff_of_false (suffixedKey_ne_root base n) ?_
    rintro ⟨rfl, hroot⟩
    exact hroot hused
  · constructor
    · rintro rfl
      exact ⟨rfl, hused⟩
    · exact fun h => h.1

theorem baseKey_eq_root_iff {index : ℕ} {text : String} : baseKey py index text = "root" ↔ RootKeyed py text := by
  rw [baseKey, RootKeyed]
  split_ifs with hempty
  · refine iff_of_false (fun h => ?_) (by rw [hempty]; decide)
    have hmem : '_' ∈ "root".toList := by
      rw [← h, String.toList_append]
      exact mem_append_left _ (by decide)
    exact absurd hmem (by decide)
  · rw [← String.toList_inj, String.toList_ofList]

theorem exists_root_iff {patchPlan : Fields} {index : ℕ} {used : List String} {components : List (List Fields)}
    {children : List Fields} (h : componentChildren py patchPlan index used components = .ok children) :
    (∃ child ∈ children, child.get "child_key" = .str "root") ↔ "root" ∉ used ∧
      ∃ component ∈ components, RootKeyed py (py.str ((component.headD []).get "id")) := by
  induction components generalizing index used children with
  | nil =>
    cases h
    simp
  | cons component components ih =>
    simp only [componentChildren, bind, Except.bind, pure, Except.pure] at h
    set key := freshKey (baseKey py index (py.str ((component.headD []).get "id"))) used with hk
    cases hc : componentChild py patchPlan key component with
    | error e =>
      rw [hc] at h
      cases h
    | ok child =>
      rw [hc] at h
      cases hr : componentChildren py patchPlan (index + 1) (key :: used) components with
      | error e =>
        rw [hr] at h
        cases h
      | ok rest =>
        rw [hr] at h
        cases h
        obtain ⟨-, hkey⟩ := componentChild_ok py (validKey_freshKey (validKey_baseKey py index _) used) hc
        have hroot : key = "root" ↔ RootKeyed py (py.str ((component.headD []).get "id")) ∧ "root" ∉ used := by
          rw [hk, freshKey_eq_root_iff, baseKey_eq_root_iff]
        rw [exists_mem_cons_iff, exists_mem_cons_iff, ih hr, hkey, Json.str.injEq, mem_cons, not_or,
          @eq_comm _ "root" key, hroot]
        tauto

theorem exists_nodes (valid : ValidPlan py items) {patchPlan : Fields} {mode rationale : Json} {children : List Fields}
    (hchildren : componentChildren py patchPlan 1 [] (weakComponents py items) = .ok children)
    {rootId parentBranch : String} {horizon : ℤ} {normalized : Fields}
    (h : normalizeSplit py rootId parentBranch
      [("split_mode", mode), ("rationale", rationale), ("children", .arr (children.map .obj))]
      (scope.map ScopeItem.fields) horizon = .ok normalized) :
    ∃ nodes, normalized.get "children" = .arr (nodes.map .obj) ∧ Slices py items (scope.map ScopeItem.id) nodes ∧
      (∀ item ∈ items, ∃ node ∈ nodes, item ∈ itemsOf node) ∧
        ((∀ node ∈ nodes, node.get "child_key" ≠ .str "root") ↔
          ∀ component ∈ weakComponents py items, ¬ RootKeyed py (py.str ((component.headD []).get "id"))) := by
  have hids : (scope.map ScopeItem.fields).map (itemId py) = scope.map ScopeItem.id := by
    rw [map_map]
    exact map_congr_left fun item _ => itemId_fields py item
  obtain ⟨nodes, hnodes, hfrom⟩ := normalizeSplit_inv py h
  rw [hids] at hfrom
  obtain ⟨hof, keys, hkeys, hnodup, -⟩ := componentChildren_ok py hchildren
  obtain ⟨hmap, hchildrenOf⟩ := childrenOf_of_components py valid hof
  have hvalid := componentChildren_keys_valid hof hkeys
  have hkeyOf : ∀ child ∈ children, ∃ key, ValidKey key ∧ child.get "child_key" = .str key := by
    intro child hchild
    have hkey : child.get "child_key" ∈ keys.map Json.str := hkeys ▸ mem_map.2 ⟨child, hchild, rfl⟩
    obtain ⟨key, hmem, heq⟩ := mem_map.1 hkey
    exact ⟨key, hvalid key hmem, heq.symm⟩
  have hitems : nodes.map itemsOf = weakComponents py items := by
    rw [← hmap]
    refine (map_eq_of_forall₂ (fun child node hnode => ?_) hfrom).symm
    rw [itemsOf, itemsOf, hnode.items]
  have hnodeKeys := keys_of_nodeFrom py hfrom hkeyOf
  have hscope : ∀ node ∈ nodes, node.get "scope_item_ids" =
      .arr ((((itemsOf node).map (itemId py)).filter (· ∈ scope.map ScopeItem.id)).map .str) := by
    intro node hnode
    obtain ⟨child, hchild, hnodeFrom⟩ := Traverse.exists_of_mem_right hfrom hnode
    have hitemsOf : itemsOf node = itemsOf child := by rw [itemsOf, itemsOf, hnodeFrom.items]
    have hids : childScopeIds py child = (itemsOf child).map (itemId py) := by
      rw [childScopeIds, (hchildrenOf.child child hchild).items]
      refine filter_eq_self.2 fun id hid => ?_
      obtain ⟨item, hitem, rfl⟩ := mem_map.1 hid
      simpa using valid.ids_ne item (hchildrenOf.mem child hchild item hitem).1
    rw [hnodeFrom.scope, hids, hitemsOf]
  obtain ⟨hslices, hall⟩ := slices_of_components py valid hitems (hnodeKeys.trans hkeys) hnodup
    (fun hempty => (hvalid _ hempty).1 rfl) hscope
  refine ⟨nodes, hnodes, hslices, hall, ?_⟩
  have hroot := exists_root_iff py hchildren
  have hany : (∃ node ∈ nodes, node.get "child_key" = .str "root") ↔
      ∃ child ∈ children, child.get "child_key" = .str "root" := by
    rw [← mem_map (f := fun node : Fields => node.get "child_key"), hnodeKeys, mem_map]
  rw [← hany] at hroot
  simpa using not_congr hroot

/-- The coverage of a split is consistent where its plan is one component, or every plan item is placed and no child is
taken for the root. -/
theorem coverage_consistent_iff {approach : Json} {split normalized : Fields} (patchSeries : Fields)
    (rootId parentBranch : String) (horizon : ℤ) (hitems : planGraph py approach = .ok items)
    (hsplit : partitionPlanGraph py approach = .ok split)
    (hnormal : normalizeSplit py rootId parentBranch split
      ((scopeItems py patchSeries approach).map ScopeItem.fields) horizon = .ok normalized) :
    ∃ children projection, normalized.get "children" = .arr (children.map .obj) ∧
      splitCoverageProjection py normalized (scopeItems py patchSeries approach) = .ok projection ∧
        (Consistent py (scopeItems py patchSeries approach) children projection ↔ Connected py items ∨
          Placed py items ((scopeItems py patchSeries approach).map ScopeItem.id) ∧
            ((∀ component ∈ weakComponents py items, ¬ RootKeyed py (py.str ((component.headD []).get "id"))) ∨
              ∀ id ∈ (scopeItems py patchSeries approach).map ScopeItem.id, id ∈ items.map (itemId py))) := by
  have valid := planGraph_ok py hitems
  have hscope := ids_firstOfId (allScopeItems py patchSeries approach)
  simp only [partitionPlanGraph, hitems, bind, Except.bind, pure, Except.pure] at hsplit
  split_ifs at hsplit with hone
  · cases hsplit
    obtain ⟨nodes, hnodes, hfrom⟩ := @normalizeSplit_inv py _ _ _ _ [] _ _ _ hnormal
    cases hfrom
    have howners : ownerById py normalized = .ok [] := by
      have hempty : Slices py [] [] [] := ⟨by simp, by simp, by simp, by simp, by simp, by simp⟩
      exact hempty.ownerById_eq py hnodes
    refine ⟨[], project [] (scopeItems py patchSeries approach), hnodes, ?_, iff_of_true (consistent_nil py hscope)
      (.inl ((weakComponents_length py valid).1 hone))⟩
    rw [splitCoverageProjection, howners]
    rfl
  · cases hchildren : componentChildren py ((findFirstMapping "patch_plan" approach).getD []) 1 []
        (weakComponents py items) with
    | error e =>
      rw [hchildren] at hsplit
      cases hsplit
    | ok children =>
      rw [hchildren] at hsplit
      cases hsplit
      obtain ⟨nodes, hnodes, hslices, hall, hroot⟩ := exists_nodes py valid hchildren hnormal
      refine ⟨nodes, project (ownersOf py nodes) (scopeItems py patchSeries approach), hnodes, ?_, ?_⟩
      · rw [splitCoverageProjection, hslices.ownerById_eq py hnodes]
        rfl
      · have hconnected : ¬ Connected py items := fun h => hone ((weakComponents_length py valid).2 h)
        rw [hslices.consistent_iff py hall hscope, hroot, or_iff_right hconnected]

end Owners

section Examples

def itemText : Json → String
  | .obj item => String.ofList ("\x7b\"depends_on\": [], \"id\": ".toList ++
      dumpsString (asciiLib.str (Fields.get item "id")) ++ ['\x7d'])
  | _ => ""

def graphLib : PyLib := { asciiLib with dumps := itemText }

def plainPlan : List Fields := [workItem "api" [], workItem "docs" []]

/-- The id of the second item has white space in front of it. -/
def spacedPlan : List Fields := [workItem "api" [], workItem " docs" []]

def scopeOfPlan (items : List Fields) : List ScopeItem := scopeItems graphLib [] (approachOf items)

def splitOf (items : List Fields) : Fields :=
  match partitionPlanGraph graphLib (approachOf items) with
  | .ok split => split
  | .error _ => []

def normalizedOf (items : List Fields) : Fields :=
  match normalizeSplit graphLib "0001" "main" (splitOf items) ((scopeOfPlan items).map ScopeItem.fields) 1 with
  | .ok normalized => normalized
  | .error _ => []

theorem sample_splits : ∀ items ∈ [plainPlan, spacedPlan], planGraph graphLib (approachOf items) = .ok items ∧
    partitionPlanGraph graphLib (approachOf items) = .ok (splitOf items) ∧
      normalizeSplit graphLib "0001" "main" (splitOf items) ((scopeOfPlan items).map ScopeItem.fields) 1 =
        .ok (normalizedOf items) := by
  decide +kernel

theorem coverage_consistent_iff_sample :
    ∃ children projection, (normalizedOf plainPlan).get "children" = .arr (children.map .obj) ∧
      splitCoverageProjection graphLib (normalizedOf plainPlan) (scopeOfPlan plainPlan) = .ok projection ∧
        (Consistent graphLib (scopeOfPlan plainPlan) children projection ↔ Connected graphLib plainPlan ∨
          Placed graphLib plainPlan ((scopeOfPlan plainPlan).map ScopeItem.id) ∧
            ((∀ component ∈ weakComponents graphLib plainPlan,
                ¬ RootKeyed graphLib (graphLib.str ((component.headD []).get "id"))) ∨
              ∀ id ∈ (scopeOfPlan plainPlan).map ScopeItem.id, id ∈ plainPlan.map (itemId graphLib))) := by
  obtain ⟨hitems, hsplit, hnormal⟩ := sample_splits plainPlan (by simp)
  exact coverage_consistent_iff graphLib [] "0001" "main" 1 hitems hsplit hnormal

/-- The row of an item whose id is not stripped is left to the root, though a child has the item. -/
theorem spaced_left_to_root :
    splitCoverageProjection graphLib (normalizedOf spacedPlan) (scopeOfPlan spacedPlan) =
        .ok ⟨[⟨"api", "api"⟩, ⟨"docs", "root"⟩], ["docs"]⟩ ∧
      (listOfMappings ((normalizedOf spacedPlan).get "children")).map (fun child =>
        (child.get "child_key", (childPlanItems child).getD [], scopeOf child)) =
          [(.str "api", [workItem "api" []], ["api"]), (.str "docs", [workItem " docs" []], [])] ∧
      pyStrip (itemId graphLib (workItem " docs" [])) = "docs" := by
  decide +kernel

end Examples

end Coverage

end AiOrg
