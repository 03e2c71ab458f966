import AiOrg.Proofs.Expansion

/-!
# Metrics

The capped metrics that the walks gather from child to child are those of the expanded schema, as far
as the cap.
-/

namespace AiOrg

open List

namespace SchemaGuard

open StrictJson (Node)

def cap (n : ℕ) : ℕ := min n (maxTotalProperties + 1)

theorem cappedAdd_eq (a b : ℕ) : cappedAdd a b = cap (a + b) := by
  unfold cappedAdd cap maxTotalProperties
  split_ifs <;> omega

theorem cap_add {a a' b b' : ℕ} (ha : cap a = cap a') (hb : cap b = cap b') :
    cap (a + b) = cap (a' + b') := by
  unfold cap at *
  omega

theorem cap_cap (a : ℕ) : cap (cap a) = cap a := by
  unfold cap
  omega

theorem le_limit_of_cap {a b : ℕ} (h : cap a = cap b) :
    a ≤ maxTotalProperties ↔ b ≤ maxTotalProperties := by
  unfold cap at h
  omega

@[simp] theorem Metrics.merge_properties (edge : ℕ) (result child : Metrics) :
    (result.merge edge child).properties = cappedAdd result.properties child.properties := by
  unfold Metrics.merge mergeMetricHeight
  dsimp only
  split_ifs <;> rfl

@[simp] theorem mergeMetricHeight_properties (result child : Metrics) (edge : ℕ) :
    (mergeMetricHeight result child edge).properties = result.properties := by
  unfold mergeMetricHeight
  dsimp only
  split_ifs <;> rfl

@[simp] theorem mergeMetricHeight_height (result child : Metrics) (edge : ℕ) :
    (mergeMetricHeight result child edge).height = max result.height (edge + child.height) := by
  unfold mergeMetricHeight
  dsimp only
  split_ifs with h
  · show edge + child.height = _
    omega
  · omega

@[simp] theorem Metrics.merge_height (edge : ℕ) (result child : Metrics) :
    (result.merge edge child).height = max result.height (edge + child.height) :=
  mergeMetricHeight_height _ child edge

namespace Schema

theorem one_le_depth (schema : Schema) : 1 ≤ schema.depth := by
  cases schema <;> simp [depth]

theorem membersProperties_eq (members : List (String × Schema)) :
    membersProperties members = (members.map fun member => member.2.properties).sum := by
  induction members with
  | nil => rfl
  | cons member members ih => rw [membersProperties, ih, map_cons, sum_cons]

theorem branchesProperties_eq (branches : List Schema) :
    branchesProperties branches = (branches.map properties).sum := by
  induction branches with
  | nil => rfl
  | cons branch branches ih => rw [branchesProperties, ih, map_cons, sum_cons]

theorem foldl_max_branchesDepth (branches : List Schema) (n : ℕ) :
    (branches.map fun branch => 0 + branch.depth).foldl max n = max n (branchesDepth branches) := by
  induction branches generalizing n with
  | nil => simp [branchesDepth]
  | cons branch branches ih =>
    rw [map_cons, foldl_cons, ih, branchesDepth]
    omega

theorem foldl_max_membersDepth (members : List (String × Schema)) (n : ℕ) :
    (members.map fun member => 1 + member.2.depth).foldl max (1 + n) =
      1 + max n (membersDepth members) := by
  induction members generalizing n with
  | nil => simp [membersDepth]
  | cons member members ih =>
    have hmax : max (1 + n) (1 + member.2.depth) = 1 + max n member.2.depth := by omega
    rw [map_cons, foldl_cons, hmax, ih, membersDepth]
    omega

end Schema

structure Measures (schema : Schema) (m : Metrics) : Prop where
  properties : cap m.properties = cap schema.properties
  height : m.height = schema.depth

structure Gathers (edge : ℕ) (init : Metrics) (schemas : List Schema) (result : Metrics) :
    Prop where
  properties : cap result.properties =
    cap (init.properties + (schemas.map Schema.properties).sum)
  height : result.height = (schemas.map fun schema => edge + schema.depth).foldl max init.height

namespace Gathers

variable {edge : ℕ} {init result : Metrics} {schemas : List Schema}

theorem nil : Gathers edge init [] init := ⟨by simp, rfl⟩

theorem snoc (h : Gathers edge init schemas result) {schema : Schema} {m : Metrics}
    (hm : Measures schema m) : Gathers edge init (schemas ++ [schema]) (result.merge edge m) where
  properties := by
    rw [Metrics.merge_properties, cappedAdd_eq, cap_cap, map_append, sum_append,
      ← Nat.add_assoc]
    exact cap_add h.properties (by simpa using hm.properties)
  height := by
    rw [Metrics.merge_height, map_append, foldl_append, ← h.height, hm.height]
    rfl

theorem perm {schemas' : List Schema} (hperm : schemas.Perm schemas')
    (h : Gathers edge init schemas result) : Gathers edge init schemas' result where
  properties := by rw [h.properties, (hperm.map _).sum_eq]
  height := by
    rw [h.height]
    exact (hperm.map _).foldl_eq _

theorem union {pointer : String} (h : Gathers 0 ⟨0, 1, pointer⟩ schemas result) :
    Measures (.anyOf schemas) result where
  properties := by
    rw [h.properties, Schema.properties, Schema.branchesProperties_eq, Nat.zero_add]
  height := by rw [h.height, Schema.depth, Schema.foldl_max_branchesDepth]

theorem object {pointer : String} {members : List (String × Schema)}
    (h : Gathers 1 ⟨members.length, 1, pointer⟩ (members.map (·.2)) result) :
    Measures (.object members) result where
  properties := by
    rw [h.properties, Schema.properties, Schema.membersProperties_eq, map_map]
    rfl
  height := by
    have hfold := Schema.foldl_max_membersDepth members 0
    rw [h.height, Schema.depth, map_map]
    rw [Nat.zero_max] at hfold
    exact hfold

end Gathers

end SchemaGuard

end AiOrg

/-!
## The walk over the graph of references

A walk that remembers what it has found and shares it between references comes to the same end as
one that expands each reference: it meets a cycle just where there is no expansion, and else its
metrics are those of the expanded schema.
-/

namespace AiOrg

open List

namespace SchemaGuard

open StrictJson (Node joinPointer)

/-! ### What is left to follow -/

section Remaining

variable {defs : List (String × Node)}

def remaining (defs : List (String × Node)) (refStack : List String) : ℕ :=
  defs.countP fun definition => decide (definition.1 ∉ refStack)

theorem remaining_cons_lt {refStack : List String} {name : String} {target : Node}
    (htarget : defs.lookup name = some target) (hname : name ∉ refStack) :
    remaining defs (name :: refStack) < remaining defs refStack := by
  obtain ⟨before, after, rfl, -⟩ := lookup_eq_some_iff.1 htarget
  have hle : ∀ l : List (String × Node), remaining l (name :: refStack) ≤ remaining l refStack :=
    fun l => countP_mono_left fun definition _ h => by
      simp only [mem_cons, not_or, decide_eq_true_eq] at h ⊢
      exact h.2
  have hbefore := hle before
  have hafter := hle after
  have hout : decide (name ∉ name :: refStack) = false := by simp
  have hin : decide (name ∉ refStack) = true := by simpa using hname
  simp only [remaining, countP_append, countP_cons, hout, hin, Bool.false_eq_true, if_false,
    if_true] at hbefore hafter ⊢
  omega

def walkBound (defs : List (String × Node)) (bound : ℕ) (refStack : List String) (node : Node) :
    ℕ :=
  remaining defs refStack * (bound + 1) + node.depth

theorem walkBound_child (defs : List (String × Node)) (bound : ℕ) (refStack : List String)
    {node child : Node} (h : IsChild node child) :
    walkBound defs bound refStack child < walkBound defs bound refStack node := by
  have := depth_lt_of_child h
  unfold walkBound
  omega

theorem walkBound_target {bound : ℕ} {refStack : List String} (node : Node) {target : Node}
    {name : String}
    (htarget : defs.lookup name = some target) (hbound : target.depth ≤ bound)
    (hname : name ∉ refStack) :
    walkBound defs bound (name :: refStack) target < walkBound defs bound refStack node := by
  have hlt := remaining_cons_lt htarget hname
  have hmul := Nat.mul_le_mul_right (bound + 1) (Nat.succ_le_of_lt hlt)
  have hpos := node.one_le_depth
  unfold walkBound
  rw [Nat.succ_mul] at hmul
  omega

theorem walkBound_root (root : Node) :
    walkBound defs root.depth [] root ≤ walkDepth defs root := by
  have hremaining : remaining defs [] = defs.length := by simp [remaining]
  unfold walkBound walkDepth
  rw [hremaining, Nat.succ_mul]
  omega

/-- The definitions that are being walked lead to a node. -/
def LeadTo (defs : List (String × Node)) (refStack : List String) (node : Node) : Prop :=
  ∀ name ∈ refStack, ∃ definition, defs.lookup name = some definition ∧
    Relation.ReflTransGen (ExpandStep defs) definition node

theorem LeadTo.step {refStack : List String} {node next : Node} (h : LeadTo defs refStack node)
    (hstep : ExpandStep defs node next) : LeadTo defs refStack next := fun name hname => by
  obtain ⟨definition, hlookup, hsteps⟩ := h name hname
  exact ⟨definition, hlookup, hsteps.tail hstep⟩

theorem LeadTo.enter {refStack : List String} {node target : Node} {name : String}
    (h : LeadTo defs refStack node) (hview : view node = some (.ref name))
    (htarget : defs.lookup name = some target) : LeadTo defs (name :: refStack) target := by
  intro other hother
  rcases mem_cons.1 hother with rfl | hother
  · exact ⟨target, htarget, .refl⟩
  · exact h.step (.inr ⟨name, hview, htarget⟩) other hother

theorem LeadTo.not_expands {refStack : List String} {node : Node} {name : String} {isRoot : Bool}
    {schema : Schema} (h : LeadTo defs refStack node) (hview : view node = some (.ref name))
    (hname : name ∈ refStack) : ¬ Expands defs isRoot node schema := by
  intro hexpands
  obtain ⟨definition, hlookup, hsteps⟩ := h name hname
  obtain ⟨target, htarget, hpart⟩ := (hexpands.inv hview).2
  cases hlookup.symm.trans htarget
  exact hpart.no_cycle (Relation.TransGen.tail' hsteps (.inr ⟨name, hview, htarget⟩))

end Remaining

namespace GraphWalker

variable {defs : List (String × Node)}

/-- What is remembered is right, and all that it reaches is marked. -/
def Inv (defs : List (String × Node)) (w : GraphWalker) : Prop :=
  ∀ entry ∈ w.memo, (∃ isRoot schema, Expands defs isRoot entry.1.2 schema ∧
    Measures schema entry.2) ∧ ∀ name, Reaches defs entry.1.2 name → name ∈ w.reached

/-- What a part of the walk does: which names it marks, whether it meets a cycle, and what metrics it
ends with where it does not. -/
structure Walked (defs : List (String × Node)) (reaches : String → Prop) (expands : Prop)
    (stands : Metrics → Prop) (w : GraphWalker) (out : (Metrics × Bool) × GraphWalker) : Prop where
  inv : Inv defs out.2
  grows : w.reached ⊆ out.2.reached
  marks : ∀ name ∈ out.2.reached, name ∈ w.reached ∨ reaches name
  acyclic : out.1.2 = true → expands ∧ stands out.1.1 ∧
    (∀ name, reaches name → name ∈ out.2.reached) ∧ out.2.diagnostics = w.diagnostics
  cyclic : out.1.2 = false → ¬ expands ∧ out.2.diagnostics ≠ []
  keeps : w.diagnostics ≠ [] → out.2.diagnostics ≠ []

theorem Walked.congr {reaches reaches' : String → Prop} {expands expands' : Prop}
    {stands stands' : Metrics → Prop} {w : GraphWalker} {out : (Metrics × Bool) × GraphWalker}
    (h : Walked defs reaches expands stands w out) (hreaches : ∀ name, reaches' name ↔ reaches name)
    (hexpands : expands' ↔ expands) (hstands : expands → stands out.1.1 → stands' out.1.1) :
    Walked defs reaches' expands' stands' w out where
  inv := h.inv
  grows := h.grows
  marks := fun name hname => (h.marks name hname).imp id (hreaches name).2
  acyclic := fun hok => by
    obtain ⟨hex, hm, hmarks, hdiagnostics⟩ := h.acyclic hok
    exact ⟨hexpands.2 hex, hstands hex hm, fun name hname => hmarks name ((hreaches name).1 hname),
      hdiagnostics⟩
  cyclic := fun hcycle => by
    obtain ⟨hnot, hdiagnostics⟩ := h.cyclic hcycle
    exact ⟨hnot ∘ hexpands.1, hdiagnostics⟩
  keeps := h.keeps

abbrev WalkedNode (defs : List (String × Node)) (isRoot : Bool) (node : Node) :=
  Walked defs (Reaches defs node) (∃ schema, Expands defs isRoot node schema)
    (fun m => ∀ schema, Expands defs isRoot node schema → Measures schema m)

abbrev WalkedChildren (defs : List (String × Node)) (edge : ℕ) (init : Metrics)
    (children : List Node) :=
  Walked defs (fun name => ∃ child ∈ children, Reaches defs child name)
    (∀ child ∈ children, ∃ schema, Expands defs false child schema)
    (Gathers edge init (children.map (expansion defs)))

theorem WalkedNode.remember {isRoot : Bool} {place : Place} {w : GraphWalker}
    {out : (Metrics × Bool) × GraphWalker} (h : WalkedNode defs isRoot place.2 w out) :
    WalkedNode defs isRoot place.2 w (remember place out) := by
  unfold GraphWalker.remember
  split_ifs with hok
  · obtain ⟨⟨schema, hexpands⟩, hmeasures, hmarks, hdiagnostics⟩ := h.acyclic hok
    refine ⟨fun entry hentry => ?_, h.grows, h.marks, fun _ =>
      ⟨⟨schema, hexpands⟩, hmeasures, hmarks, hdiagnostics⟩, fun hcycle => ?_, h.keeps⟩
    · rcases mem_cons.1 hentry with rfl | hentry
      · exact ⟨⟨isRoot, schema, hexpands, hmeasures schema hexpands⟩, hmarks⟩
      · exact h.inv entry hentry
    · rw [hok] at hcycle
      cases hcycle
  · exact h

theorem WalkedChildren.nil {edge : ℕ} {init : Metrics} {w : GraphWalker} (hinv : Inv defs w) :
    WalkedChildren defs edge init [] w ((init, true), w) where
  inv := hinv
  grows := fun _ h => h
  marks := fun _ h => .inl h
  acyclic := fun _ => ⟨by simp, Gathers.nil, by simp, rfl⟩
  cyclic := fun h => by cases h
  keeps := id

theorem WalkedChildren.snoc {edge : ℕ} {init : Metrics} {children : List Node} {w : GraphWalker}
    {out : (Metrics × Bool) × GraphWalker} (h : WalkedChildren defs edge init children w out)
    {walk : Place → GraphWalker → (Metrics × Bool) × GraphWalker} {child : Place}
    (hchild : WalkedNode defs false child.2 out.2 (walk child out.2)) :
    WalkedChildren defs edge init (children ++ [child.2]) w (visitChild walk edge out child) where
  inv := hchild.inv
  grows := fun _ hname => hchild.grows (h.grows hname)
  marks := fun name hname => by
    rcases hchild.marks name hname with hname | hname
    · rcases h.marks name hname with hname | ⟨other, hother, hname⟩
      · exact .inl hname
      · exact .inr ⟨other, mem_append_left _ hother, hname⟩
    · exact .inr ⟨child.2, by simp, hname⟩
  acyclic := fun hok => by
    obtain ⟨hbefore, hnow⟩ := (Bool.and_eq_true _ _).mp hok
    obtain ⟨hall, hgathers, hmarks, hsame⟩ := h.acyclic hbefore
    obtain ⟨⟨schema, hschema⟩, hmeasures, hmarks', hsame'⟩ := hchild.acyclic hnow
    refine ⟨fun other hother => ?_, ?_, fun name hname => ?_, hsame'.trans hsame⟩
    · rcases mem_append.1 hother with hother | hother
      · exact hall other hother
      · rw [mem_singleton.1 hother]
        exact ⟨schema, hschema⟩
    · rw [map_append, map_cons, map_nil, hschema.expansion_eq]
      exact hgathers.snoc (hmeasures schema hschema)
    · obtain ⟨other, hother, hname⟩ := hname
      rcases mem_append.1 hother with hother | hother
      · exact hchild.grows (hmarks name ⟨other, hother, hname⟩)
      · rw [mem_singleton.1 hother] at hname
        exact hmarks' name hname
  cyclic := fun hcycle => by
    rcases hbefore : out.1.2 with _ | _
    · obtain ⟨hnot, hdiagnostics⟩ := h.cyclic hbefore
      exact ⟨fun hall => hnot fun other hother => hall other (mem_append_left _ hother),
        hchild.keeps hdiagnostics⟩
    · have hnow : (walk child out.2).1.2 = false := by
        simpa [visitChild, hbefore] using hcycle
      obtain ⟨hnot, hdiagnostics⟩ := hchild.cyclic hnow
      exact ⟨fun hall => hnot (hall child.2 (by simp)), hdiagnostics⟩
  keeps := fun hdiagnostics => hchild.keeps (h.keeps hdiagnostics)

theorem visitChildren_walked {edge : ℕ} {init : Metrics} {children : List Place}
    {walk : Place → GraphWalker → (Metrics × Bool) × GraphWalker} {w : GraphWalker}
    (hobjects : ∀ child ∈ children, child.2.isObject) (hinv : Inv defs w)
    (hwalk : ∀ child ∈ children, ∀ w, Inv defs w → WalkedNode defs false child.2 w (walk child w)) :
    WalkedChildren defs edge init (children.map (·.2)) w
      (visitChildren walk edge children init w) := by
  rw [visitChildren, filter_eq_self.2 hobjects]
  clear hobjects
  induction children using reverseRecOn with
  | nil => exact WalkedChildren.nil hinv
  | append_singleton children child ih =>
    have hrest := ih fun other hother => hwalk other (mem_append_left _ hother)
    rw [foldl_append, map_append]
    exact hrest.snoc (hwalk child (by simp) _ hrest.inv)

section Nodes

variable {isRoot : Bool} {place : Place} {w : GraphWalker} {out : (Metrics × Bool) × GraphWalker}

theorem WalkedNode.cached {form : Form} (h : HasForm isRoot place.2 form) (hinv : Inv defs w)
    {cached : Metrics} (hcached : w.memo.lookup place = some cached) :
    WalkedNode defs isRoot place.2 w ((cached, true), w) where
  inv := hinv
  grows := fun _ h => h
  marks := fun _ h => .inl h
  acyclic := fun _ => by
    obtain ⟨before, after, hmemo, -⟩ := lookup_eq_some_iff.1 hcached
    obtain ⟨⟨_, schema, hexpands, hmeasures⟩, hmarks⟩ := hinv (place, cached) (by simp [hmemo])
    refine ⟨⟨schema, h.expands (hexpands.inv h.view).2⟩, fun schema' hexpands' => ?_, hmarks, rfl⟩
    rwa [hexpands'.unique hexpands]
  cyclic := fun h => by cases h
  keeps := id

theorem WalkedNode.leaf {form : Form} (h : HasForm isRoot place.2 form)
    (href : ∀ name, form ≠ .ref name) (hchildren : form.children = []) {schema : Schema}
    (hexpands : form.ExpandsTo defs schema) {m : Metrics} (hmeasures : Measures schema m)
    (hinv : Inv defs w) : WalkedNode defs isRoot place.2 w ((m, true), w) where
  inv := hinv
  grows := fun _ h => h
  marks := fun _ h => .inl h
  acyclic := fun _ => by
    refine ⟨⟨schema, h.expands hexpands⟩, fun schema' hexpands' => ?_, fun name hname => ?_, rfl⟩
    · rwa [hexpands'.unique (h.expands hexpands)]
    · obtain ⟨child, hchild, -⟩ := (reaches_children h.view href name).1 hname
      rw [hchildren] at hchild
      cases hchild
  cyclic := fun h => by cases h
  keeps := id

theorem WalkedChildren.union {branches : List Node} {pointer : String}
    (hwalked : WalkedChildren defs 0 ⟨0, 1, pointer⟩ branches w out)
    (h : HasForm isRoot place.2 (.union branches)) :
    WalkedNode defs isRoot place.2 w out := by
  refine hwalked.congr (reaches_children h.view (by simp)) (h.expands_iff (by simp))
    fun _ hgathers schema hexpands => ?_
  obtain ⟨expand, rfl, hbranches⟩ := (hexpands.inv h.view).2
  rw [map_congr_left fun branch hbranch => (hbranches branch hbranch).expansion_eq] at hgathers
  exact hgathers.union

theorem WalkedChildren.object {properties : List (String × Node)} {pointer : String}
    (hwalked : WalkedChildren defs 1 ⟨properties.length, 1, pointer⟩
      ((Node.object properties).sortedMembers.map (·.2)) w out)
    (h : HasForm isRoot place.2 (.object properties)) :
    WalkedNode defs isRoot place.2 w out := by
  have hperm : ((Node.object properties).sortedMembers.map (·.2)).Perm (properties.map (·.2)) :=
    (Node.sortedMembers_perm (.object properties)).map _
  refine hwalked.congr (fun name => ?_) ?_ fun _ hgathers schema hexpands => ?_
  · rw [reaches_children h.view (by simp)]
    exact exists_congr fun child => and_congr_left' hperm.mem_iff.symm
  · rw [h.expands_iff (by simp)]
    exact forall_congr' fun child => imp_congr_left hperm.mem_iff.symm
  · obtain ⟨expand, rfl, hproperties⟩ := (hexpands.inv h.view).2
    have hparts : (properties.map (·.2)).map (expansion defs) =
        (properties.map fun property => (property.1, expand property.2)).map (·.2) := by
      rw [map_map, map_map]
      exact map_congr_left fun property hproperty =>
        (hproperties property hproperty).expansion_eq
    have hgathered := hgathers.perm (hperm.map _)
    rw [hparts] at hgathered
    exact Gathers.object (by simpa using hgathered)

theorem WalkedNode.items {items : Node} {pointer : String} (h : HasForm isRoot place.2 (.array items))
    (hwalked : WalkedNode defs false items w out) :
    WalkedNode defs isRoot place.2 w
      ((mergeMetricHeight ⟨out.1.1.properties, 1, pointer⟩ out.1.1 1, out.1.2), out.2) where
  inv := hwalked.inv
  grows := hwalked.grows
  marks := fun name hname => (hwalked.marks name hname).imp id fun hreaches =>
    (reaches_children h.view (by simp) name).2 ⟨items, by simp [Form.children], hreaches⟩
  acyclic := fun hok => by
    obtain ⟨⟨part, hpart⟩, hmeasures, hmarks, hdiagnostics⟩ := hwalked.acyclic hok
    refine ⟨⟨_, .array h hpart⟩, fun schema hschema => ?_, fun name hname => ?_, hdiagnostics⟩
    · obtain rfl := hschema.unique (.array h hpart)
      have hm := hmeasures part hpart
      have hpos := part.one_le_depth
      refine ⟨?_, ?_⟩
      · rw [mergeMetricHeight_properties]
        exact hm.properties
      · rw [mergeMetricHeight_height, hm.height, Schema.depth]
        show max 1 (1 + part.depth) = 1 + part.depth
        omega
    · obtain ⟨child, hchild, hname⟩ := (reaches_children h.view (by simp) name).1 hname
      rw [mem_singleton.1 hchild] at hname
      exact hmarks name hname
  cyclic := fun hcycle => by
    obtain ⟨hnot, hdiagnostics⟩ := hwalked.cyclic hcycle
    refine ⟨fun hexpands => hnot ?_, hdiagnostics⟩
    exact (h.expands_iff (by simp)).1 hexpands items (by simp [Form.children])
  keeps := hwalked.keeps

theorem Inv.mark (hinv : Inv defs w) (name : String) :
    Inv defs { w with reached := name :: w.reached } := fun entry hentry =>
  ⟨(hinv entry hentry).1, fun other hother =>
    mem_cons_of_mem _ ((hinv entry hentry).2 other hother)⟩

theorem WalkedNode.reference {name : String} {target : Node}
    (h : HasForm isRoot place.2 (.ref name)) (htarget : defs.lookup name = some target)
    (hwalked : WalkedNode defs false target { w with reached := name :: w.reached } out) :
    WalkedNode defs isRoot place.2 w out where
  inv := hwalked.inv
  grows := fun _ hother => hwalked.grows (mem_cons_of_mem _ hother)
  marks := fun other hother => by
    rw [reaches_ref h.view]
    rcases hwalked.marks other hother with hother | hother
    · rcases mem_cons.1 hother with rfl | hother
      · exact .inr (.inl rfl)
      · exact .inl hother
    · exact .inr (.inr ⟨target, htarget, hother⟩)
  acyclic := fun hok => by
    obtain ⟨⟨part, hpart⟩, hmeasures, hmarks, hdiagnostics⟩ := hwalked.acyclic hok
    refine ⟨⟨part, .ref h htarget hpart⟩, fun schema hschema => ?_, fun other hother => ?_,
      hdiagnostics⟩
    · rw [hschema.unique (.ref h htarget hpart)]
      exact hmeasures part hpart
    · rcases (reaches_ref h.view other).1 hother with rfl | ⟨target', htarget', hother⟩
      · exact hwalked.grows mem_cons_self
      · cases htarget.symm.trans htarget'
        exact hmarks other hother
  cyclic := fun hcycle => by
    obtain ⟨hnot, hdiagnostics⟩ := hwalked.cyclic hcycle
    refine ⟨fun ⟨schema, hschema⟩ => hnot ?_, hdiagnostics⟩
    obtain ⟨target', htarget', hpart⟩ := (hschema.inv h.view).2
    cases htarget.symm.trans htarget'
    exact ⟨schema, hpart⟩
  keeps := hwalked.keeps

theorem WalkedNode.cycle {name : String} {refStack : List String} {e : Error} {m : Metrics}
    (h : HasForm isRoot place.2 (.ref name)) (hlead : LeadTo defs refStack place.2)
    (hname : name ∈ refStack) (hinv : Inv defs w) :
    WalkedNode defs isRoot place.2 w
      ((m, false), ⟨name :: w.reached, w.memo, w.diagnostics ++ [e]⟩) where
  inv := hinv.mark name
  grows := fun _ hother => mem_cons_of_mem _ hother
  marks := fun other hother => by
    rcases mem_cons.1 hother with rfl | hother
    · exact .inr ((reaches_ref h.view other).2 (.inl rfl))
    · exact .inl hother
  acyclic := fun hok => by cases hok
  cyclic := fun _ => ⟨fun ⟨_, hschema⟩ => hlead.not_expands h.view hname hschema, by simp⟩
  keeps := fun _ => by simp

end Nodes

section Walk

variable (hdefs : ∀ name target, defs.lookup name = some target → WellFormed defs false target)
  {bound : ℕ} (hbound : ∀ name target, defs.lookup name = some target → target.depth ≤ bound)

include hdefs hbound in
/-- A walk from a well-formed node. -/
theorem walk_walked (depth : ℕ) : ∀ (place : Place) (refStack : List String) (w : GraphWalker)
    (isRoot : Bool), WellFormed defs isRoot place.2 → LeadTo defs refStack place.2 →
    walkBound defs bound refStack place.2 ≤ depth → Inv defs w →
    WalkedNode defs isRoot place.2 w (walk defs depth place refStack w) := by
  induction depth with
  | zero =>
    intro place refStack w isRoot hwell hlead hdepth hinv
    have hpos := place.2.one_le_depth
    unfold walkBound at hdepth
    omega
  | succ depth ih =>
    intro place refStack w isRoot hwell hlead hdepth hinv
    obtain ⟨form, hform, hresolves, hchildren⟩ := hwell.inv
    have hobject : place.2.isObject := isObject_of_view hform.view
    have hwalk : ∀ child, child.2 ∈ form.children → ∀ w, Inv defs w →
        WalkedNode defs false child.2 w (walk defs depth child refStack w) := by
      intro child hchild w hinv
      have hbelow : IsChild place.2 child.2 := ⟨form, hform.view, hchild⟩
      have hlt := walkBound_child defs bound refStack hbelow
      exact ih child refStack w false (hchildren child.2 hchild) (hlead.step (.inl hbelow))
        (by omega) hinv
    rw [walk, hobject]
    rcases hmemo : w.memo.lookup place with _ | cached
    swap
    · exact WalkedNode.cached hform hinv hmemo
    simp only [Bool.not_true, Bool.false_eq_true, if_false]
    rcases form with name | branches | properties | items | ⟨type, enum⟩ | _
    · obtain ⟨ref, href, hname⟩ := view_ref hform.view
      obtain ⟨target, htarget⟩ := Option.isSome_iff_exists.1 (hresolves name rfl)
      rw [href]
      simp only [visitReference, hname, htarget, hform.valid.2, Bool.not_true, Bool.false_eq_true,
        if_false]
      split_ifs with hcycle
      · exact WalkedNode.cycle hform hlead hcycle hinv
      · have hlt := walkBound_target place.2 htarget (hbound name target htarget) hcycle
        have hle : walkBound defs bound (name :: refStack) target ≤ depth := by omega
        exact (WalkedNode.reference hform htarget (ih (joinPointer "/$defs" name, target) _ _ false
          (hdefs name target htarget) (hlead.enter hform.view htarget) hle
          (hinv.mark name))).remember
    · obtain ⟨href, hany⟩ := view_union hform.view
      rw [href, hany]
      have hplaces : (elementPlaces (joinPointer place.1 "anyOf") branches).map (·.2) = branches :=
        elementPlaces_nodes _ _
      have hwalked : WalkedChildren defs 0 ⟨0, 1, place.1⟩
          ((elementPlaces (joinPointer place.1 "anyOf") branches).map (·.2)) w
          (visitChildren (fun child w => walk defs depth child refStack w) 0
            (elementPlaces (joinPointer place.1 "anyOf") branches) ⟨0, 1, place.1⟩ w) :=
        visitChildren_walked
          (fun child hchild => hform.valid.2.2 child.2 (hplaces ▸ mem_map_of_mem hchild)) hinv
          fun child hchild => hwalk child (hplaces ▸ mem_map_of_mem hchild)
      rw [hplaces] at hwalked
      exact (hwalked.union hform).remember
    · obtain ⟨href, hany, htyped⟩ := view_typed hform.view (by simp) (by simp)
      obtain ⟨htype, hproperties⟩ := typedView_object htyped
      have hobject' : propertiesObject place.2 = some (.object properties) := by
        simp [propertiesObject, hproperties]
      have hplaces : (memberPlaces (joinPointer place.1 "properties") (.object properties)).map
          (·.2) = (Node.object properties).sortedMembers.map (·.2) := memberPlaces_nodes _ _
      have hmem : ∀ child ∈ memberPlaces (joinPointer place.1 "properties") (.object properties),
          ∃ property ∈ properties, property.2 = child.2 := fun child hchild => by
        have hin := mem_map_of_mem (f := fun place : Place => place.2) hchild
        rw [hplaces] at hin
        obtain ⟨property, hproperty, heq⟩ := mem_map.1 hin
        exact ⟨property, Node.mem_sortedMembers.1 hproperty, heq⟩
      simp only [href, hany, visitTyped, htype, hobject']
      have hwalked : WalkedChildren defs 1 ⟨properties.length, 1, place.1⟩
          ((memberPlaces (joinPointer place.1 "properties") (.object properties)).map (·.2)) w
          (visitChildren (fun child w => walk defs depth child refStack w) 1
            (memberPlaces (joinPointer place.1 "properties") (.object properties))
            ⟨properties.length, 1, place.1⟩ w) :=
        visitChildren_walked (fun child hchild => by
            obtain ⟨property, hproperty, heq⟩ := hmem child hchild
            exact heq ▸ hform.valid.1 property hproperty) hinv
          fun child hchild => hwalk child (by
            obtain ⟨property, hproperty, heq⟩ := hmem child hchild
            exact mem_map.2 ⟨property, hproperty, heq⟩)
      rw [hplaces] at hwalked
      exact (hwalked.object hform).remember
    · obtain ⟨href, hany, htyped⟩ := view_typed hform.view (by simp) (by simp)
      obtain ⟨htype, hitems⟩ := typedView_array htyped
      obtain ⟨members, rfl⟩ := Node.isObject_iff.1 hform.valid
      simp only [href, hany, visitTyped, htype, hitems]
      exact (WalkedNode.items hform (hwalk (joinPointer place.1 "items", .object members)
        (by simp [Form.children]) w hinv)).remember
    · obtain ⟨href, hany, htyped⟩ := view_typed hform.view (by simp) (by simp)
      simp only [href, hany, visitTyped, (typedView_scalar htyped).1]
      exact (WalkedNode.leaf hform (by simp) rfl rfl ⟨rfl, rfl⟩ hinv).remember
    · obtain ⟨href, hany, htyped⟩ := view_typed hform.view (by simp) (by simp)
      simp only [href, hany, visitTyped, typedView_null htyped]
      exact (WalkedNode.leaf hform (by simp) rfl rfl ⟨rfl, rfl⟩ hinv).remember

end Walk

end GraphWalker

end SchemaGuard

end AiOrg
