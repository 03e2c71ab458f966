import AiOrg.Proofs.GraphWalk
import AiOrg.Proofs.Surface

/-!
# Where null and unions stand

The search over schema positions reports nothing just where `null` and unions stand as they may in
the expanded schema.
-/

namespace AiOrg

open List

namespace SchemaGuard

open StrictJson (Node joinPointer)

/-! ### Places -/

section Places

theorem mem_places_self (pointer : String) (node : Node) : (pointer, node) ∈ places pointer node := by
  cases node <;> simp [places]

theorem mem_membersPlaces {pointer name : String} {value : Node} :
    ∀ {members : List (String × Node)}, (name, value) ∈ members →
      (joinPointer pointer name, value) ∈ membersPlaces pointer members
  | (other, node) :: members, h => by
    rw [membersPlaces, mem_append]
    rcases mem_cons.1 h with heq | h
    · cases heq
      exact .inl (mem_places_self _ _)
    · exact .inr (mem_membersPlaces h)

theorem mem_elementsPlaces {pointer : String} {value : Node} {j : ℕ} :
    ∀ {i : ℕ} {elements : List Node}, (value, j) ∈ elements.zipIdx i →
      (joinPointer pointer (toString j), value) ∈ elementsPlaces pointer i elements
  | i, element :: elements, h => by
    rw [elementsPlaces, mem_append]
    rw [zipIdx_cons] at h
    rcases mem_cons.1 h with heq | h
    · cases heq
      exact .inl (mem_places_self _ _)
    · exact .inr (mem_elementsPlaces h)

theorem leaf_trans {pointer : String} {node : Node} {inner outer : Place}
    (houter : outer ∈ [(pointer, node)]) (hinner : inner ∈ places outer.1 outer.2) :
    inner ∈ places pointer node := by
  rwa [mem_singleton.1 houter] at hinner

mutual

theorem places_trans {pointer : String} {inner outer : Place} :
    ∀ {node : Node}, outer ∈ places pointer node → inner ∈ places outer.1 outer.2 →
      inner ∈ places pointer node
  | .array elements, houter, hinner => by
    rw [places] at houter ⊢
    rcases mem_cons.1 houter with rfl | houter
    · rwa [← places]
    · exact mem_cons_of_mem _ (elementsPlaces_trans houter hinner)
  | .object members, houter, hinner => by
    rw [places] at houter ⊢
    rcases mem_cons.1 houter with rfl | houter
    · rwa [← places]
    · exact mem_cons_of_mem _ (membersPlaces_trans houter hinner)
  | .null, houter, hinner => leaf_trans houter hinner
  | .bool _, houter, hinner => leaf_trans houter hinner
  | .number _, houter, hinner => leaf_trans houter hinner
  | .string _, houter, hinner => leaf_trans houter hinner

theorem elementsPlaces_trans {pointer : String} {inner outer : Place} :
    ∀ {i : ℕ} {elements : List Node}, outer ∈ elementsPlaces pointer i elements →
      inner ∈ places outer.1 outer.2 → inner ∈ elementsPlaces pointer i elements
  | _, [], houter, _ => by
    rw [elementsPlaces] at houter
    cases houter
  | i, element :: elements, houter, hinner => by
    rw [elementsPlaces, mem_append] at houter ⊢
    exact houter.imp (fun h => places_trans h hinner) fun h => elementsPlaces_trans h hinner

theorem membersPlaces_trans {pointer : String} {inner outer : Place} :
    ∀ {members : List (String × Node)}, outer ∈ membersPlaces pointer members →
      inner ∈ places outer.1 outer.2 → inner ∈ membersPlaces pointer members
  | [], houter, _ => by
    rw [membersPlaces] at houter
    cases houter
  | (name, value) :: members, houter, hinner => by
    rw [membersPlaces, mem_append] at houter ⊢
    exact houter.imp (fun h => places_trans h hinner) fun h => membersPlaces_trans h hinner

end

variable {root : Node}

theorem mem_places_member {pointer name : String} {node value : Node}
    (h : (pointer, node) ∈ places "" root) (hmember : (name, value) ∈ node.members) :
    (joinPointer pointer name, value) ∈ places "" root := by
  refine places_trans h ?_
  cases node with
  | object members =>
    rw [places]
    exact mem_cons_of_mem _ (mem_membersPlaces hmember)
  | _ => cases hmember

theorem mem_places_element {pointer : String} {elements : List Node} {place : Place}
    (h : (pointer, Node.array elements) ∈ places "" root)
    (hplace : place ∈ elementPlaces pointer elements) : place ∈ places "" root := by
  obtain ⟨⟨value, j⟩, hmem, rfl⟩ := mem_map.1 hplace
  refine places_trans h ?_
  rw [places]
  exact mem_cons_of_mem _ (mem_elementsPlaces hmem)

theorem mem_places_memberPlaces {pointer : String} {node : Node} {place : Place}
    (h : (pointer, node) ∈ places "" root) (hplace : place ∈ memberPlaces pointer node) :
    place ∈ places "" root := by
  obtain ⟨⟨name, value⟩, hmem, rfl⟩ := mem_map.1 hplace
  exact mem_places_member h (Node.mem_sortedMembers.1 hmem)

theorem mem_definitions {name : String} {target : Node} (h : (name, target) ∈ definitions root) :
    ∃ defs, root.lookup "$defs" = some defs ∧ (name, target) ∈ defs.members ∧
      validDefinitionName name ∧ target.isObject := by
  unfold definitions at h
  split at h
  · next defs hlookup =>
    obtain ⟨hmem, hvalid⟩ := mem_filter.1 h
    rw [Bool.and_eq_true] at hvalid
    exact ⟨defs, hlookup, Node.mem_sortedMembers.1 hmem, hvalid⟩
  · cases h

theorem mem_places_definition {name : String} {target : Node}
    (h : (name, target) ∈ definitions root) :
    (joinPointer "/$defs" name, target) ∈ places "" root := by
  obtain ⟨defs, hlookup, hmem, -⟩ := mem_definitions h
  have hdefs : (joinPointer "" "$defs", defs) ∈ places "" root :=
    mem_places_member (mem_places_self "" root) (Node.mem_of_lookup hlookup)
  exact mem_places_member hdefs hmem

theorem inr_mem_addIf {ε κ : Type*} {l : List ε} {k : κ} : (Sum.inr k : ε ⊕ κ) ∉ l.map .inl := by
  simp

theorem inr_mem_branchSteps {defs : List (String × Node)} {n : ℕ} {branches : List Place}
    {key : ContextKey} (h : .inr key ∈ branchSteps defs n branches) :
    key.1 ∈ branches ∧ key.2 = true := by
  induction branches generalizing n with
  | nil => cases h
  | cons branch branches ih =>
    have hrest : ∀ {n}, .inr key ∈ branchSteps defs n branches →
        key.1 ∈ branch :: branches ∧ key.2 = true := fun h =>
      ⟨mem_cons_of_mem _ (ih h).1, (ih h).2⟩
    have hhere : ∀ {l : List (Error ⊕ ContextKey)}, .inr key ∈ .inr (branch, true) :: l →
        (.inr key ∈ l → key.1 ∈ branch :: branches ∧ key.2 = true) →
        key.1 ∈ branch :: branches ∧ key.2 = true := fun h hl => by
      rcases mem_cons.1 h with heq | h
      · cases heq
        exact ⟨mem_cons_self, rfl⟩
      · exact hl h
    rw [branchSteps] at h
    split_ifs at h
    · exact hrest h
    · split at h
      · exact hhere h hrest
      · dsimp only at h
        rcases mem_append.1 h with h | h
        · rcases mem_append.1 h with h | h <;> exact absurd h inr_mem_addIf
        · exact hhere h hrest

theorem mem_places_of_next {key next : ContextKey} (h : key.1 ∈ places "" root)
    (hnext : Search.Next (contextSteps (definitions root)) key next) :
    next.1 ∈ places "" root := by
  obtain ⟨⟨pointer, node⟩, allowNull⟩ := key
  have hchildren : ∀ {children : List Place}, (∀ child ∈ children, child ∈ places "" root) →
      .inr next ∈ childSteps children → next.1 ∈ places "" root := fun hall hmem => by
    obtain ⟨child, hchild, heq⟩ := mem_map.1 hmem
    cases heq
    exact hall child (mem_filter.1 hchild).1
  unfold Search.Next contextSteps at hnext
  dsimp only at hnext
  split at hnext
  · split_ifs at hnext
    · cases hnext
    · split at hnext
      · cases hnext
      · split_ifs at hnext
        · cases hnext
        · split at hnext
          · cases hnext
          · next htarget =>
            rw [mem_singleton] at hnext
            cases hnext
            exact mem_places_definition (AiOrg.mem_of_lookup htarget)
  · split at hnext
    · next hany =>
      exact mem_places_element (mem_places_member h (Node.mem_of_lookup hany))
        (inr_mem_branchSteps hnext).1
    · cases hnext
    · split at hnext
      · exact absurd hnext inr_mem_addIf
      · split at hnext
        · next hproperties =>
          obtain hnone | ⟨_, hlookup, hsome⟩ := propertiesObject_eq node
          · rw [hnone] at hproperties
            cases hproperties
          · cases hsome.symm.trans hproperties
            exact hchildren (fun child hchild => mem_places_memberPlaces
              (mem_places_member h (Node.mem_of_lookup hlookup)) hchild) hnext
        · cases hnext
      · split at hnext
        · next hitems =>
          refine hchildren (fun child hchild => ?_) hnext
          rw [mem_singleton.1 hchild]
          exact mem_places_member h (Node.mem_of_lookup hitems)
        · cases hnext
      · cases hnext

theorem collectContextDiagnostics_eq_quiet (hobject : root.isObject) :
    collectContextDiagnostics root = [] ↔
      Search.Quiet (contextSteps (definitions root)) (("", root), false) := by
  rw [collectContextDiagnostics, if_neg (by simp [hobject])]
  refine Search.reports_visit_eq_nil
    (U := (places "" root).toFinset ×ˢ Finset.univ) (fun key hkey next hnext => ?_) ?_ ?_
  · rw [Finset.mem_product, mem_toFinset] at hkey ⊢
    exact ⟨mem_places_of_next hkey.1 hnext, Finset.mem_univ _⟩
  · rw [Finset.mem_product, mem_toFinset]
    exact ⟨mem_places_self _ _, Finset.mem_univ _⟩
  · rw [Finset.card_product, Finset.card_univ, Fintype.card_bool, Nat.mul_comm]
    exact Nat.mul_le_mul_left 2 (toFinset_card_le _)

end Places

/-! ### Contexts -/

section Contexts

variable {defs : List (String × Node)} {isRoot : Bool} {node : Node} {schema : Schema}

theorem resolveChain_expands {length : ℕ} : ∀ {seen : List String} {current : Node} {isRoot : Bool},
    Expands defs isRoot current schema → LeadTo defs seen current → remaining defs seen < length →
    ∃ resolved isRoot, resolveChain defs length seen current = some resolved ∧
      Expands defs isRoot resolved schema ∧ resolved.lookup "$ref" = none := by
  induction length with
  | zero =>
    intro seen current isRoot _ _ hlength
    exact absurd hlength (Nat.not_lt_zero _)
  | succ length ih =>
    intro seen current isRoot hexpands hlead hlength
    obtain ⟨form, hform, hstep⟩ := hexpands.hasForm
    by_cases href : ∃ name, form = .ref name
    · obtain ⟨name, rfl⟩ := href
      obtain ⟨ref, href, hname⟩ := view_ref hform.view
      obtain ⟨target, htarget, htargetExpands⟩ := hstep
      have hfresh : name ∉ seen := fun hseen => hlead.not_expands hform.view hseen hexpands
      have hlt := remaining_cons_lt htarget hfresh
      rw [resolveChain, href]
      dsimp only
      rw [if_neg (not_not.2 hform.valid.1), hname]
      dsimp only
      rw [hform.valid.2, if_neg (by simpa using hfresh), htarget]
      exact ih htargetExpands (hlead.enter hform.view htarget) (by omega)
    · have hnone := view_no_ref hform.view fun name heq => href ⟨name, heq⟩
      exact ⟨current, isRoot, by rw [resolveChain, hnone], hexpands, hnone⟩

theorem resolveBranch_expands (h : Expands defs isRoot node schema) :
    ∃ resolved isRoot, resolveBranch defs node = some resolved ∧
      Expands defs isRoot resolved schema ∧ resolved.lookup "$ref" = none := by
  refine resolveChain_expands h (fun _ hname => by cases hname) ?_
  have hremaining : remaining defs [] = defs.length := by simp [remaining]
  omega

theorem typeText_eq_null : typeText node = some "null" ↔
    (typeText node).bind admittedType = some .null := by
  constructor
  · intro h
    rw [h, Option.bind_some, admittedType_eq_null.2 rfl]
  · intro h
    obtain ⟨text, htext, htype⟩ := Option.bind_eq_some_iff.1 h
    rw [htext, admittedType_eq_null.1 htype]

theorem Expands.shows (h : Expands defs isRoot node schema) (href : node.lookup "$ref" = none) :
    (node.lookup "anyOf").isSome = schema.isAnyOf ∧
      decide (typeText node = some "null") = schema.isNull := by
  obtain ⟨form, hform, hstep⟩ := h.hasForm
  have htyped : ∀ {type : SchemaType}, (typeText node).bind admittedType = some type →
      decide (typeText node = some "null") = decide (type = .null) := fun htype => by
    rw [decide_eq_decide, typeText_eq_null, htype, Option.some.injEq]
  rcases form with name | branches | properties | items | ⟨type, enum⟩ | _
  · obtain ⟨ref, href', -⟩ := view_ref hform.view
    rw [href] at href'
    cases href'
  · obtain ⟨expand, rfl, -⟩ := hstep
    rw [(view_union hform.view).2, typeText, hform.valid.1]
    exact ⟨rfl, rfl⟩
  · obtain ⟨expand, rfl, -⟩ := hstep
    obtain ⟨-, hany, hview⟩ := view_typed hform.view (by simp) (by simp)
    exact ⟨by rw [hany]; rfl, htyped (typedView_object hview).1⟩
  · obtain ⟨part, rfl, -⟩ := hstep
    obtain ⟨-, hany, hview⟩ := view_typed hform.view (by simp) (by simp)
    exact ⟨by rw [hany]; rfl, htyped (typedView_array hview).1⟩
  · obtain rfl := hstep
    obtain ⟨-, hany, hview⟩ := view_typed hform.view (by simp) (by simp)
    exact ⟨by rw [hany]; rfl, htyped (typedView_scalar hview).1⟩
  · obtain rfl := hstep
    obtain ⟨-, hany, hview⟩ := view_typed hform.view (by simp) (by simp)
    exact ⟨by rw [hany]; rfl, htyped (typedView_null hview)⟩

theorem resolveBranch_shows (h : Expands defs isRoot node schema) :
    ∃ resolved, resolveBranch defs node = some resolved ∧
      (resolved.lookup "anyOf").isSome = schema.isAnyOf ∧
      decide (typeText resolved = some "null") = schema.isNull := by
  obtain ⟨resolved, _, hresolved, hexpands, hnone⟩ := resolveBranch_expands h
  exact ⟨resolved, hresolved, hexpands.shows hnone⟩

theorem branchSteps_reports {branches : List Place} {n : ℕ}
    (hobjects : ∀ branch ∈ branches, branch.2.isObject)
    (hexpands : ∀ branch ∈ branches, ∃ schema, Expands defs false branch.2 schema) :
    (∀ e, .inl e ∉ branchSteps defs n branches) ↔
      (∀ branch ∈ branches, ¬ (expansion defs branch.2).isAnyOf) ∧
        (0 < branches.countP (fun branch => (expansion defs branch.2).isNull) →
          n + branches.countP (fun branch => (expansion defs branch.2).isNull) ≤ 1) := by
  induction branches generalizing n with
  | nil => simp [branchSteps]
  | cons branch branches ih =>
    obtain ⟨schema, hschema⟩ := hexpands branch mem_cons_self
    obtain ⟨resolved, hresolved, hany, hnull⟩ := resolveBranch_shows hschema
    have hrest := @ih (if schema.isNull then n + 1 else n)
      (fun other hother => hobjects other (mem_cons_of_mem _ hother))
      (fun other hother => hexpands other (mem_cons_of_mem _ hother))
    have hinl : ∀ {p : Prop} [Decidable p] {e : Error}, (∀ d, (Sum.inl d : Error ⊕ ContextKey) ∉
        (addIf p e).map .inl) ↔ ¬ p := fun {p} _ {e} => by
      rw [← addIf_eq_nil (e := e), eq_nil_iff_forall_not_mem]
      simp
    rw [branchSteps, if_neg (by simp [hobjects branch mem_cons_self]), hresolved]
    simp only [mem_append, mem_cons, not_or, forall_and, hinl, reduceCtorEq,
      not_false_eq_true, true_and, hany, hnull, hrest, forall_eq_or_imp,
      hschema.expansion_eq, countP_cons]
    rcases schema.isNull with _ | _
    · simp only [Bool.false_eq_true, false_and, not_false_eq_true, and_true, if_false, Nat.add_zero,
        and_assoc]
    · simp only [true_and, if_true, Nat.pos_iff_ne_zero, not_not]
      constructor
      · rintro ⟨⟨hflat, rfl⟩, hflats, hcount⟩
        refine ⟨⟨hflat, hflats⟩, fun _ => ?_⟩
        by_contra hnot
        have := hcount (by omega)
        omega
      · rintro ⟨⟨hflat, hflats⟩, hcount⟩
        have := hcount (by omega)
        exact ⟨⟨hflat, by omega⟩, hflats, by omega⟩

theorem inr_mem_branchSteps_iff {branches : List Place} {n : ℕ} {key : ContextKey}
    (hobjects : ∀ branch ∈ branches, branch.2.isObject) :
    .inr key ∈ branchSteps defs n branches ↔ key.1 ∈ branches ∧ key.2 = true := by
  refine ⟨inr_mem_branchSteps, ?_⟩
  obtain ⟨place, allowNull⟩ := key
  rintro ⟨hplace, rfl⟩
  induction branches generalizing n with
  | nil => cases hplace
  | cons branch branches ih =>
    have hrest : ∀ {m}, place ∈ branches → .inr (place, true) ∈ branchSteps defs m branches :=
      fun h => ih (fun other hother => hobjects other (mem_cons_of_mem _ hother)) h
    rw [branchSteps, if_neg (by simp [hobjects branch mem_cons_self])]
    split
    · rcases mem_cons.1 hplace with rfl | hplace
      · exact mem_cons_self
      · exact mem_cons_of_mem _ (hrest hplace)
    · refine mem_append_right _ ?_
      rcases mem_cons.1 hplace with rfl | hplace
      · exact mem_cons_self
      · exact mem_cons_of_mem _ (hrest hplace)

theorem quiet_children {children : List Place} {key : ContextKey}
    (hsteps : contextSteps defs key = childSteps children)
    (hobjects : ∀ child ∈ children, child.2.isObject) :
    Search.Quiet (contextSteps defs) key ↔
      ∀ child ∈ children, Search.Quiet (contextSteps defs) (child, false) := by
  have hmem : ∀ next, .inr next ∈ childSteps children ↔ next.1 ∈ children ∧ next.2 = false := by
    rintro ⟨place, allowNull⟩
    rw [childSteps, filter_eq_self.2 hobjects, mem_map]
    constructor
    · rintro ⟨child, hchild, heq⟩
      cases heq
      exact ⟨hchild, rfl⟩
    · rintro ⟨hchild, rfl⟩
      exact ⟨place, hchild, rfl⟩
  rw [Search.quiet_iff, hsteps]
  unfold Search.Next
  rw [hsteps]
  simp only [hmem]
  constructor
  · rintro ⟨-, h⟩ child hchild
    exact h (child, false) ⟨hchild, rfl⟩
  · intro h
    refine ⟨fun e he => ?_, ?_⟩
    · obtain ⟨child, -, heq⟩ := mem_map.1 he
      cases heq
    · rintro ⟨child, allowNull⟩ ⟨hchild, rfl⟩
      exact h child hchild

/-- The search is quiet from a node just where `null` and unions stand as they may in the schema. -/
theorem quiet_iff_nullSafe (h : Expands defs isRoot node schema) : ∀ (pointer : String)
    (allowNull : Bool), Search.Quiet (contextSteps defs) ((pointer, node), allowNull) ↔
      schema.NullSafe allowNull := by
  induction h with
  | @ref _ node target name _ hform htarget _ ih =>
    intro pointer allowNull
    obtain ⟨ref, href, hname⟩ := view_ref hform.view
    have hsteps : contextSteps defs ((pointer, node), allowNull) =
        [.inr ((joinPointer "/$defs" name, target), allowNull)] := by
      rw [contextSteps, href]
      dsimp only
      rw [if_neg (not_not.2 hform.valid.1), hname]
      dsimp only
      rw [hform.valid.2, if_neg (by simp), htarget]
    rw [Search.quiet_iff, hsteps]
    unfold Search.Next
    rw [hsteps]
    simpa using ih _ allowNull
  | @union _ node branches expand hform hbranches ih =>
    intro pointer allowNull
    obtain ⟨href, hany⟩ := view_union hform.view
    have hsteps : contextSteps defs ((pointer, node), allowNull) =
        branchSteps defs 0 (elementPlaces (joinPointer pointer "anyOf") branches) := by
      rw [contextSteps, href, hany]
    have hplaces := elementPlaces_nodes (joinPointer pointer "anyOf") branches
    have hmem : ∀ {place}, place ∈ elementPlaces (joinPointer pointer "anyOf") branches →
        place.2 ∈ branches := fun hplace => hplaces ▸ mem_map_of_mem hplace
    have hobjects : ∀ place ∈ elementPlaces (joinPointer pointer "anyOf") branches,
        place.2.isObject := fun place hplace => hform.valid.2.2 place.2 (hmem hplace)
    have hcount : (elementPlaces (joinPointer pointer "anyOf") branches).countP
        (fun place => (expansion defs place.2).isNull) =
          (branches.map expand).countP Schema.isNull := by
      conv_rhs => rw [← hplaces]
      rw [countP_map, countP_map]
      refine countP_congr fun place hplace => ?_
      rw [Function.comp_apply, Function.comp_apply,
        (hbranches place.2 (hmem hplace)).expansion_eq]
    rw [Search.quiet_iff, hsteps, branchSteps_reports hobjects fun place hplace =>
      ⟨_, hbranches place.2 (hmem hplace)⟩, hcount]
    unfold Search.Next
    rw [hsteps]
    simp only [inr_mem_branchSteps_iff hobjects]
    constructor
    · rintro ⟨⟨hflat, hsingle⟩, hnext⟩
      refine .anyOf (fun part hpart => ?_) (by omega) fun part hpart => ?_
      · obtain ⟨branch, hbranch, rfl⟩ := mem_map.1 hpart
        rw [← hplaces] at hbranch
        obtain ⟨place, hplace, rfl⟩ := mem_map.1 hbranch
        have := hflat place hplace
        rwa [(hbranches place.2 (hmem hplace)).expansion_eq] at this
      · obtain ⟨branch, hbranch, rfl⟩ := mem_map.1 hpart
        rw [← hplaces] at hbranch
        obtain ⟨place, hplace, rfl⟩ := mem_map.1 hbranch
        exact (ih place.2 (hmem hplace) place.1 true).1 (hnext (place, true) ⟨hplace, rfl⟩)
    · intro hsafe
      cases hsafe with
      | anyOf hflat hsingle hall =>
        refine ⟨⟨fun place hplace => ?_, by omega⟩, ?_⟩
        · rw [(hbranches place.2 (hmem hplace)).expansion_eq]
          exact hflat _ (mem_map_of_mem (hmem hplace))
        · rintro ⟨place, allowNull⟩ ⟨hplace, rfl⟩
          exact (ih place.2 (hmem hplace) place.1 true).2
            (hall _ (mem_map_of_mem (hmem hplace)))
  | @object _ node properties expand hform hproperties ih =>
    intro pointer allowNull
    obtain ⟨href, hany, hview⟩ := view_typed hform.view (by simp) (by simp)
    obtain ⟨htype, hlookup⟩ := typedView_object hview
    have hsteps : contextSteps defs ((pointer, node), allowNull) =
        childSteps (memberPlaces (joinPointer pointer "properties") (.object properties)) := by
      simp only [contextSteps, href, hany, htype, propertiesObject_of_lookup hlookup]
    have hmem : ∀ {place},
        place ∈ memberPlaces (joinPointer pointer "properties") (.object properties) →
          ∃ property ∈ properties, property.2 = place.2 := fun hplace => by
      obtain ⟨property, hproperty, rfl⟩ := mem_map.1 hplace
      exact ⟨property, Node.mem_sortedMembers.1 hproperty, rfl⟩
    rw [quiet_children hsteps fun place hplace => by
      obtain ⟨property, hproperty, heq⟩ := hmem hplace
      exact heq ▸ hform.valid.1 property hproperty]
    constructor
    · intro hquiet
      refine .object fun member hmember => ?_
      obtain ⟨property, hproperty, rfl⟩ := mem_map.1 hmember
      exact (ih property hproperty _ false).1 (hquiet _ (mem_map.2
        ⟨property, Node.mem_sortedMembers.2 hproperty, rfl⟩))
    · intro hsafe place hplace
      cases hsafe with
      | object hall =>
        obtain ⟨property, hproperty, heq⟩ := hmem hplace
        have hquiet := (ih property hproperty place.1 false).2
          (hall _ (mem_map_of_mem hproperty))
        rwa [heq] at hquiet
  | @array _ node items part hform _ ih =>
    intro pointer allowNull
    obtain ⟨href, hany, hview⟩ := view_typed hform.view (by simp) (by simp)
    obtain ⟨htype, hlookup⟩ := typedView_array hview
    have hsteps : contextSteps defs ((pointer, node), allowNull) =
        childSteps [(joinPointer pointer "items", items)] := by
      simp only [contextSteps, href, hany, htype, hlookup]
    have hobject : items.isObject := hform.valid
    rw [quiet_children hsteps (by simpa using hobject)]
    simp only [mem_singleton, forall_eq, ih]
    constructor
    · exact .array
    · rintro ⟨⟩
      assumption
  | @scalar _ node type enum hform =>
    intro pointer allowNull
    obtain ⟨href, hany, hview⟩ := view_typed hform.view (by simp) (by simp)
    have hsteps : contextSteps defs ((pointer, node), allowNull) = [] := by
      simp only [contextSteps, href, hany, (typedView_scalar hview).1]
    rw [Search.quiet_iff, hsteps]
    unfold Search.Next
    rw [hsteps]
    exact iff_of_true ⟨by simp, by simp⟩ .scalar
  | @null _ node hform =>
    intro pointer allowNull
    obtain ⟨href, hany, hview⟩ := view_typed hform.view (by simp) (by simp)
    have hsteps : contextSteps defs ((pointer, node), allowNull) = (addIf (!allowNull)
        (reject .nullPosition pointer
          "null is allowed only in an anyOf branch or its $ref chain")).map .inl := by
      simp only [contextSteps, href, hany, typedView_null hview]
    rw [Search.quiet_iff, hsteps]
    unfold Search.Next
    rw [hsteps]
    cases allowNull
    · refine iff_of_false (fun h => ?_) fun h => (by cases h)
      exact h.1 _ (mem_map_of_mem mem_cons_self)
    · exact iff_of_true ⟨by simp [addIf], by simp [addIf]⟩ .null

end Contexts

end SchemaGuard

end AiOrg
