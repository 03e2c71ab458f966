import AiOrg.SchemaGuard.Profile

/-!
# Expanding references

What the form of a node says about its keywords, and that a node stands for at most one schema, and
for one at all only where following references ends.
-/

namespace AiOrg

open List

namespace SchemaGuard

open StrictJson (Node)

/-! ### Forms -/

section View

variable {node : Node}

theorem view_ref {name : String} (h : view node = some (.ref name)) :
    ∃ ref, node.lookup "$ref" = some ref ∧ referencedName ref = some name := by
  unfold view at h
  split at h
  · next ref hlookup =>
    obtain ⟨name', hname, heq⟩ := Option.map_eq_some_iff.1 h
    cases heq
    exact ⟨ref, hlookup, hname⟩
  · repeat' split at h
    all_goals first
      | cases h
      | (obtain ⟨_, _, heq⟩ := Option.map_eq_some_iff.1 h; cases heq)

theorem view_no_ref {form : Form} (h : view node = some form) (hform : ∀ name, form ≠ .ref name) :
    node.lookup "$ref" = none := by
  unfold view at h
  split at h
  · obtain ⟨name, -, rfl⟩ := Option.map_eq_some_iff.1 h
    exact absurd rfl (hform name)
  · assumption

theorem view_union {branches : List Node} (h : view node = some (.union branches)) :
    node.lookup "$ref" = none ∧ node.lookup "anyOf" = some (.array branches) := by
  have href := view_no_ref h (by simp)
  refine ⟨href, ?_⟩
  unfold view at h
  rw [href] at h
  dsimp only at h
  split at h
  · next hany =>
    cases h
    exact hany
  · cases h
  · repeat' split at h
    all_goals first
      | cases h
      | (obtain ⟨_, _, heq⟩ := Option.map_eq_some_iff.1 h; cases heq)

def typedView (node : Node) : Option Form :=
  match (typeText node).bind admittedType with
  | some .object =>
    match node.lookup "properties" with
    | some (.object properties) => some (.object properties)
    | _ => none
  | some .array => (node.lookup "items").map .array
  | some (.scalar type) =>
    match node.lookup "enum" with
    | none => some (.scalar type none)
    | some (.array candidates) => some (.scalar type (some candidates))
    | some _ => none
  | some .null => some .null
  | none => none

theorem view_typed {form : Form} (h : view node = some form) (href : ∀ name, form ≠ .ref name)
    (hunion : ∀ branches, form ≠ .union branches) :
    node.lookup "$ref" = none ∧ node.lookup "anyOf" = none ∧ typedView node = some form := by
  have hnone := view_no_ref h href
  refine ⟨hnone, ?_⟩
  unfold view at h
  rw [hnone] at h
  dsimp only at h
  split at h
  · cases h
    exact absurd rfl (hunion _)
  · cases h
  · next hany => exact ⟨hany, h⟩

theorem typedView_ne_ref (name : String) : typedView node ≠ some (.ref name) := by
  unfold typedView
  repeat' split
  all_goals simp

theorem typedView_ne_union (branches : List Node) : typedView node ≠ some (.union branches) := by
  unfold typedView
  repeat' split
  all_goals simp

theorem typedView_of_object {form : Form} (h : typedView node = some form)
    (htype : typeText node = some "object") : ∃ properties, form = .object properties := by
  unfold typedView at h
  rw [htype] at h
  simp only [Option.bind_some, admittedType, if_true] at h
  split at h
  · exact ⟨_, (Option.some.inj h).symm⟩
  · cases h

theorem admittedType_eq_object {text : String} :
    admittedType text = some .object ↔ text = "object" := by
  unfold admittedType
  split_ifs with h <;> simp [h]

theorem admittedType_eq_null {text : String} : admittedType text = some .null ↔ text = "null" := by
  unfold admittedType
  split_ifs <;> simp_all

theorem typeText_of_object (h : (typeText node).bind admittedType = some .object) :
    typeText node = some "object" := by
  obtain ⟨text, htext, htype⟩ := Option.bind_eq_some_iff.1 h
  rw [htext, admittedType_eq_object.1 htype]

theorem lookup_type_of_typedView {form : Form} (h : typedView node = some form) :
    ∃ type, node.lookup "type" = some type := by
  rcases htype : node.lookup "type" with _ | type
  · simp [typedView, typeText, htype] at h
  · exact ⟨type, rfl⟩

theorem typedView_object {properties : List (String × Node)}
    (h : typedView node = some (.object properties)) :
    (typeText node).bind admittedType = some .object ∧
      node.lookup "properties" = some (.object properties) := by
  unfold typedView at h
  split at h
  · next htype =>
    split at h
    · next hproperties =>
      cases h
      exact ⟨htype, hproperties⟩
    · cases h
  · obtain ⟨_, _, heq⟩ := Option.map_eq_some_iff.1 h
    cases heq
  · split at h <;> cases h
  · cases h
  · cases h

theorem typedView_array {items : Node} (h : typedView node = some (.array items)) :
    (typeText node).bind admittedType = some .array ∧ node.lookup "items" = some items := by
  unfold typedView at h
  split at h
  · split at h <;> cases h
  · next htype =>
    obtain ⟨_, hitems, heq⟩ := Option.map_eq_some_iff.1 h
    cases heq
    exact ⟨htype, hitems⟩
  · split at h <;> cases h
  · cases h
  · cases h

theorem typedView_scalar {type : ScalarType} {enum : Option (List Node)}
    (h : typedView node = some (.scalar type enum)) :
    (typeText node).bind admittedType = some (.scalar type) ∧
      node.lookup "enum" = enum.map .array := by
  unfold typedView at h
  split at h
  · split at h <;> cases h
  · obtain ⟨_, _, heq⟩ := Option.map_eq_some_iff.1 h
    cases heq
  · next htype =>
    split at h
    · next henum =>
      cases h
      exact ⟨htype, henum⟩
    · next henum =>
      cases h
      exact ⟨htype, henum⟩
    · cases h
  · cases h
  · cases h

theorem typedView_null (h : typedView node = some .null) :
    (typeText node).bind admittedType = some .null := by
  unfold typedView at h
  split at h
  · split at h <;> cases h
  · obtain ⟨_, _, heq⟩ := Option.map_eq_some_iff.1 h
    cases heq
  · split at h <;> cases h
  · assumption
  · cases h

theorem isObject_of_view {form : Form} (h : view node = some form) : node.isObject := by
  by_contra hnot
  have hlookup : ∀ name, node.lookup name = none := fun name => by
    cases node <;> first | rfl | exact absurd rfl hnot
  simp [view, hlookup, typeText] at h

theorem depth_lt_of_child {child : Node} (h : IsChild node child) : child.depth < node.depth := by
  obtain ⟨form, hview, hchild⟩ := h
  have hdirect : ∀ {name : String} {value : Node}, node.lookup name = some value →
      value.depth < node.depth := fun h => Node.depth_lt_of_mem (Node.mem_of_lookup h)
  rcases form with _ | branches | properties | items | _ | _
  · cases hchild
  · exact (Node.depth_lt_of_mem_array hchild).trans (hdirect (view_union hview).2)
  · obtain ⟨-, -, htyped⟩ := view_typed hview (by simp) (by simp)
    obtain ⟨property, hproperty, rfl⟩ := mem_map.1 hchild
    have hvalue : property.2.depth < (Node.object properties).depth := Node.depth_lt_of_mem hproperty
    exact hvalue.trans (hdirect (typedView_object htyped).2)
  · obtain ⟨-, -, htyped⟩ := view_typed hview (by simp) (by simp)
    rw [mem_singleton.1 hchild]
    exact hdirect (typedView_array htyped).2
  · cases hchild
  · cases hchild

end View

section References

variable {defs : List (String × Node)} {node : Node}

theorem mentions_iff {form : Form} (hview : view node = some form) (name : String) :
    Mentions node name ↔ form = .ref name ∨ ∃ child ∈ form.children, Mentions child name := by
  constructor
  · rintro ⟨below, hbelow, href⟩
    rcases hbelow.cases_head with rfl | ⟨child, ⟨form', hview', hchild⟩, hrest⟩
    · exact .inl (Option.eq_some_unique hview href)
    · cases hview.symm.trans hview'
      exact .inr ⟨child, hchild, below, hrest, href⟩
  · rintro (rfl | ⟨child, hchild, below, hbelow, href⟩)
    · exact ⟨node, .refl, hview⟩
    · exact ⟨below, .head ⟨form, hview, hchild⟩ hbelow, href⟩

theorem reaches_ref {name : String} (hview : view node = some (.ref name)) (other : String) :
    Reaches defs node other ↔
      other = name ∨ ∃ target, defs.lookup name = some target ∧ Reaches defs target other := by
  have hmentions : ∀ first, Mentions node first ↔ first = name := fun first => by
    rw [mentions_iff hview]
    simp [Form.children, eq_comm]
  constructor
  · rintro ⟨first, hfirst, hrefers⟩
    obtain rfl := (hmentions first).1 hfirst
    rcases hrefers.cases_head with rfl | ⟨second, ⟨target, htarget, hsecond⟩, hrest⟩
    · exact .inl rfl
    · exact .inr ⟨target, htarget, second, hsecond, hrest⟩
  · rintro (rfl | ⟨target, htarget, second, hsecond, hrest⟩)
    · exact ⟨other, (hmentions other).2 rfl, .refl⟩
    · exact ⟨name, (hmentions name).2 rfl, .head ⟨target, htarget, hsecond⟩ hrest⟩

theorem reaches_children {form : Form} (hview : view node = some form)
    (hform : ∀ name, form ≠ .ref name) (other : String) :
    Reaches defs node other ↔ ∃ child ∈ form.children, Reaches defs child other := by
  constructor
  · rintro ⟨first, hfirst, hrefers⟩
    rcases (mentions_iff hview first).1 hfirst with heq | ⟨child, hchild, hfirst⟩
    · exact absurd heq (hform first)
    · exact ⟨child, hchild, first, hfirst, hrefers⟩
  · rintro ⟨child, hchild, first, hfirst, hrefers⟩
    exact ⟨first, (mentions_iff hview first).2 (.inr ⟨child, hchild, hfirst⟩), hrefers⟩

/-- A step of the expansion: to a child or to the target of a reference. -/
def ExpandStep (defs : List (String × Node)) (node next : Node) : Prop :=
  IsChild node next ∨ ∃ name, view node = some (.ref name) ∧ defs.lookup name = some next

theorem Mentions.expandSteps {name : String} {target : Node} (h : Mentions node name)
    (htarget : defs.lookup name = some target) :
    Relation.TransGen (ExpandStep defs) node target := by
  obtain ⟨below, hbelow, hview⟩ := h
  have hsteps : Relation.ReflTransGen (ExpandStep defs) node below :=
    Relation.ReflTransGen.lift id (fun _ _ h => .inl h) _ _ hbelow
  exact Relation.TransGen.tail' hsteps (.inr ⟨name, hview, htarget⟩)

theorem refers_expandSteps {name other : String} {target : Node}
    (h : Relation.TransGen (Refers defs) name other) (htarget : defs.lookup other = some target) :
    ∃ definition, defs.lookup name = some definition ∧
      Relation.TransGen (ExpandStep defs) definition target := by
  induction h using Relation.TransGen.head_induction_on with
  | single h =>
    obtain ⟨definition, hlookup, hmentions⟩ := h
    exact ⟨definition, hlookup, hmentions.expandSteps htarget⟩
  | head h _ ih =>
    obtain ⟨definition, hlookup, hmentions⟩ := h
    obtain ⟨next, hnext, hrest⟩ := ih
    exact ⟨definition, hlookup, (hmentions.expandSteps hnext).trans hrest⟩

end References

/-! ### Expansions -/

section Expansion

variable {defs : List (String × Node)}

def Form.ExpandsTo (defs : List (String × Node)) : Form → Schema → Prop
  | ref name, schema =>
    ∃ target, defs.lookup name = some target ∧ Expands defs false target schema
  | union branches, schema => ∃ expand : Node → Schema, schema = .anyOf (branches.map expand) ∧
      ∀ branch ∈ branches, Expands defs false branch (expand branch)
  | object properties, schema => ∃ expand : Node → Schema,
      schema = .object (properties.map fun property => (property.1, expand property.2)) ∧
        ∀ property ∈ properties, Expands defs false property.2 (expand property.2)
  | array items, schema => ∃ part, schema = .array part ∧ Expands defs false items part
  | scalar type enum, schema => schema = .scalar type enum
  | null, schema => schema = .null

theorem Expands.hasForm {isRoot : Bool} {node : Node} {schema : Schema}
    (h : Expands defs isRoot node schema) :
    ∃ form, HasForm isRoot node form ∧ form.ExpandsTo defs schema := by
  cases h with
  | ref h htarget hexpands => exact ⟨_, h, _, htarget, hexpands⟩
  | union expand h hbranches => exact ⟨_, h, expand, rfl, hbranches⟩
  | object expand h hproperties => exact ⟨_, h, expand, rfl, hproperties⟩
  | array h hitems => exact ⟨_, h, _, rfl, hitems⟩
  | scalar h => exact ⟨_, h, rfl⟩
  | null h => exact ⟨_, h, rfl⟩

theorem Expands.inv {isRoot : Bool} {node : Node} {schema : Schema} {form : Form}
    (h : Expands defs isRoot node schema) (hview : view node = some form) :
    HasForm isRoot node form ∧ form.ExpandsTo defs schema := by
  obtain ⟨form', hform, hexpands⟩ := h.hasForm
  cases hview.symm.trans hform.view
  exact ⟨hform, hexpands⟩

theorem HasForm.expands {isRoot : Bool} {node : Node} {schema : Schema} {form : Form}
    (h : HasForm isRoot node form) (hexpands : form.ExpandsTo defs schema) :
    Expands defs isRoot node schema := by
  rcases form with name | branches | properties | items | ⟨type, enum⟩ | _
  · obtain ⟨target, htarget, hexpands⟩ := hexpands
    exact .ref h htarget hexpands
  · obtain ⟨expand, rfl, hbranches⟩ := hexpands
    exact .union expand h hbranches
  · obtain ⟨expand, rfl, hproperties⟩ := hexpands
    exact .object expand h hproperties
  · obtain ⟨part, rfl, hitems⟩ := hexpands
    exact .array h hitems
  · obtain rfl := hexpands
    exact .scalar h
  · obtain rfl := hexpands
    exact .null h

theorem Expands.of_child {isRoot : Bool} {node child : Node} {schema : Schema}
    (h : Expands defs isRoot node schema) (hchild : IsChild node child) :
    ∃ part, Expands defs false child part := by
  obtain ⟨form, hview, hchild⟩ := hchild
  obtain ⟨-, hexpands⟩ := h.inv hview
  rcases form with name | branches | properties | items | ⟨type, enum⟩ | _
  · cases hchild
  · obtain ⟨expand, -, hbranches⟩ := hexpands
    exact ⟨_, hbranches child hchild⟩
  · obtain ⟨expand, -, hproperties⟩ := hexpands
    obtain ⟨property, hproperty, rfl⟩ := mem_map.1 hchild
    exact ⟨_, hproperties property hproperty⟩
  · obtain ⟨part, -, hitems⟩ := hexpands
    rw [mem_singleton.1 hchild]
    exact ⟨_, hitems⟩
  · cases hchild
  · cases hchild

theorem Expands.unique {isRoot isRoot' : Bool} {node : Node} {schema schema' : Schema}
    (h : Expands defs isRoot node schema) (h' : Expands defs isRoot' node schema') :
    schema = schema' := by
  induction h generalizing isRoot' schema' with
  | ref h htarget _ ih =>
    obtain ⟨target, htarget', hexpands⟩ := (h'.inv h.view).2
    cases htarget.symm.trans htarget'
    exact ih hexpands
  | union expand h _ ih =>
    obtain ⟨expand', rfl, hbranches⟩ := (h'.inv h.view).2
    rw [map_congr_left fun branch hbranch => ih branch hbranch (hbranches branch hbranch)]
  | object expand h _ ih =>
    obtain ⟨expand', rfl, hproperties⟩ := (h'.inv h.view).2
    rw [map_congr_left fun property hproperty => by
      rw [ih property hproperty (hproperties property hproperty)]]
  | array h _ ih =>
    obtain ⟨part, rfl, hitems⟩ := (h'.inv h.view).2
    rw [ih hitems]
  | scalar h => exact ((h'.inv h.view).2).symm
  | null h => exact ((h'.inv h.view).2).symm

noncomputable def expansion (defs : List (String × Node)) (node : Node) : Schema :=
  open scoped Classical in
  if h : ∃ schema isRoot, Expands defs isRoot node schema then h.choose else .null

theorem Expands.expansion_eq {isRoot : Bool} {node : Node} {schema : Schema}
    (h : Expands defs isRoot node schema) : expansion defs node = schema := by
  have hex : ∃ schema isRoot, Expands defs isRoot node schema := ⟨schema, isRoot, h⟩
  rw [expansion, dif_pos hex]
  exact hex.choose_spec.choose_spec.unique h

theorem acc_of_form {node : Node} {form : Form} (hview : view node = some form)
    (hchildren : ∀ child ∈ form.children, Acc (fun next node => ExpandStep defs node next) child)
    (htarget : ∀ name target, form = .ref name → defs.lookup name = some target →
      Acc (fun next node => ExpandStep defs node next) target) :
    Acc (fun next node => ExpandStep defs node next) node := by
  refine ⟨_, fun next hnext => ?_⟩
  rcases hnext with ⟨form', hview', hchild⟩ | ⟨name, hview', hnext⟩
  · cases hview.symm.trans hview'
    exact hchildren next hchild
  · cases hview.symm.trans hview'
    exact htarget name next rfl hnext

theorem Expands.acc {isRoot : Bool} {node : Node} {schema : Schema}
    (h : Expands defs isRoot node schema) : Acc (fun next node => ExpandStep defs node next) node := by
  induction h with
  | ref h htarget _ ih =>
    refine acc_of_form h.view (fun _ hchild => by cases hchild) fun name target heq hnext => ?_
    cases heq
    cases htarget.symm.trans hnext
    exact ih
  | union _ h _ ih => exact acc_of_form h.view ih fun _ _ heq => by cases heq
  | object _ h _ ih =>
    refine acc_of_form h.view (fun child hchild => ?_) fun _ _ heq => by cases heq
    obtain ⟨property, hproperty, rfl⟩ := mem_map.1 hchild
    exact ih property hproperty
  | array h _ ih =>
    refine acc_of_form h.view (fun child hchild => ?_) fun _ _ heq => by cases heq
    rw [mem_singleton.1 hchild]
    exact ih
  | scalar h => exact acc_of_form h.view (fun _ hchild => by cases hchild) fun _ _ heq => by cases heq
  | null h => exact acc_of_form h.view (fun _ hchild => by cases hchild) fun _ _ heq => by cases heq

theorem not_transGen_of_acc {α : Type*} {r : α → α → Prop} {a : α}
    (h : Acc (fun b a => r a b) a) : ¬ Relation.TransGen r a a := by
  intro hcycle
  have hacc : Acc (Relation.TransGen fun b a => r a b) a := h.transGen
  clear h
  induction hacc with
  | intro b _ ih => exact ih b (Relation.transGen_swap.1 hcycle) hcycle

theorem Expands.of_expansion {isRoot : Bool} {node : Node} {schema : Schema}
    (h : Expands defs isRoot node schema) : Expands defs isRoot node (expansion defs node) := by
  rwa [h.expansion_eq]

theorem HasForm.expands_iff {isRoot : Bool} {node : Node} {form : Form}
    (h : HasForm isRoot node form) (href : ∀ name, form ≠ .ref name) :
    (∃ schema, Expands defs isRoot node schema) ↔
      ∀ child ∈ form.children, ∃ schema, Expands defs false child schema := by
  constructor
  · rintro ⟨schema, hschema⟩ child hchild
    exact hschema.of_child ⟨form, h.view, hchild⟩
  · intro hchildren
    have hexpand : ∀ child ∈ form.children, Expands defs false child (expansion defs child) :=
      fun child hchild => (hchildren child hchild).choose_spec.of_expansion
    rcases form with name | branches | properties | items | ⟨type, enum⟩ | _
    · exact absurd rfl (href name)
    · exact ⟨_, .union _ h hexpand⟩
    · exact ⟨_, .object _ h fun property hproperty =>
        hexpand property.2 (mem_map.2 ⟨property, hproperty, rfl⟩)⟩
    · exact ⟨_, .array h (hexpand items (by simp [Form.children]))⟩
    · exact ⟨_, .scalar h⟩
    · exact ⟨_, .null h⟩

theorem WellFormed.inv {isRoot : Bool} {node : Node} (h : WellFormed defs isRoot node) :
    ∃ form, HasForm isRoot node form ∧ (∀ name, form = .ref name → (defs.lookup name).isSome) ∧
      ∀ child ∈ form.children, WellFormed defs false child := by
  cases h with
  | mk h hresolves hchildren => exact ⟨_, h, hresolves, hchildren⟩

theorem Expands.no_cycle {isRoot : Bool} {node : Node} {schema : Schema}
    (h : Expands defs isRoot node schema) : ¬ Relation.TransGen (ExpandStep defs) node node :=
  not_transGen_of_acc h.acc

theorem Expands.of_below {isRoot : Bool} {node below : Node} {schema : Schema}
    (h : Expands defs isRoot node schema) (hbelow : Relation.ReflTransGen IsChild node below) :
    ∃ isRoot part, Expands defs isRoot below part := by
  induction hbelow with
  | refl => exact ⟨_, _, h⟩
  | tail _ hchild ih =>
    obtain ⟨_, _, hmid⟩ := ih
    obtain ⟨part, hpart⟩ := hmid.of_child hchild
    exact ⟨_, _, hpart⟩

theorem Expands.of_mentions {isRoot : Bool} {node : Node} {schema : Schema} {name : String}
    (h : Expands defs isRoot node schema) (hmentions : Mentions node name) :
    ∃ target part, defs.lookup name = some target ∧ Expands defs false target part := by
  obtain ⟨below, hbelow, hview⟩ := hmentions
  obtain ⟨_, part, hpart⟩ := h.of_below hbelow
  obtain ⟨target, htarget, hexpands⟩ := (hpart.inv hview).2
  exact ⟨target, part, htarget, hexpands⟩

theorem Expands.of_reaches {isRoot : Bool} {node : Node} {schema : Schema} {name : String}
    (h : Expands defs isRoot node schema) (hreaches : Reaches defs node name) :
    ∃ target part, defs.lookup name = some target ∧ Expands defs false target part := by
  obtain ⟨first, hfirst, hrefers⟩ := hreaches
  induction hrefers with
  | refl => exact h.of_mentions hfirst
  | tail _ hstep ih =>
    obtain ⟨mid, part, hmid, hexpands⟩ := ih
    obtain ⟨definition, hdefinition, hmentions⟩ := hstep
    cases hmid.symm.trans hdefinition
    exact hexpands.of_mentions hmentions

end Expansion

end SchemaGuard

end AiOrg
