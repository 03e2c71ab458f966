import AiOrg.Proofs.Checker

/-!
# The guard admits the profile

The collectors report nothing just where the document is in the profile, and then the checker
accepts it. The checker alone leaves open whether all definitions are reached and the limits kept.
-/

namespace AiOrg

open List

namespace SchemaGuard

open StrictJson (Node joinPointer)

section Definitions

variable {root : Node}

theorem lookup_definitions (hdistinct : root.Distinct) {name : String} {target : Node}
    (h : (name, target) ∈ definitions root) : (definitions root).lookup name = some target := by
  refine AiOrg.lookup_of_mem ?_ h
  unfold definitions
  split
  · next defs hlookup =>
    have hnodup : (defs.sortedMembers.map (·.1)).Nodup :=
      ((Node.sortedMembers_perm defs).map _).nodup_iff.2 (hdistinct.of_lookup hlookup).nodup
    exact hnodup.sublist (filter_sublist.map _)
  · exact nodup_nil

theorem depth_le_of_definition {name : String} {target : Node}
    (h : (definitions root).lookup name = some target) : target.depth ≤ root.depth := by
  obtain ⟨defs, hlookup, hmem, -⟩ := mem_definitions (AiOrg.mem_of_lookup h)
  have hdefs := Node.depth_lt_of_mem (Node.mem_of_lookup hlookup)
  have htarget := Node.depth_lt_of_mem hmem
  omega

/-- The members of `$defs` are definitions. -/
structure DefinitionsAllowed (root : Node) : Prop where
  defsObject : ∀ defs ∈ root.lookup "$defs", defs.isObject
  named : ∀ definition ∈ namedDefinitions root,
    validDefinitionName definition.1 ∧ definition.2.isObject

theorem definitions_eq (h : DefinitionsAllowed root) {defs : Node}
    (hlookup : root.lookup "$defs" = some defs) : definitions root = defs.sortedMembers := by
  rw [definitions, hlookup]
  refine filter_eq_self.2 fun definition hmem => ?_
  have hnamed := h.named definition (by
    rw [namedDefinitions, hlookup]
    exact Node.mem_sortedMembers.1 hmem)
  rw [hnamed.1, hnamed.2]
  rfl

theorem definitionErrors_eq_nil : definitionErrors root = [] ↔ DefinitionsAllowed root := by
  unfold definitionErrors
  rcases hlookup : root.lookup "$defs" with _ | defs
  · refine iff_of_true rfl ⟨by simp [hlookup], fun definition hmem => ?_⟩
    rw [namedDefinitions, hlookup] at hmem
    cases hmem
  · have hnamed : namedDefinitions root = defs.members := by rw [namedDefinitions, hlookup]
    rcases hobject : defs.isObject with _ | _
    · refine iff_of_false (by simp [hobject]) fun h => ?_
      have := h.defsObject defs hlookup
      rw [hobject] at this
      cases this
    · dsimp only
      rw [hobject, if_neg (by simp), flatMap_eq_nil_iff]
      constructor
      · intro h
        refine ⟨fun other hother => ?_, fun definition hmem => ?_⟩
        · cases hlookup.symm.trans hother
          exact hobject
        · rw [hnamed] at hmem
          simpa using h definition (Node.mem_sortedMembers.2 hmem)
      · intro h definition hmem
        have := h.named definition (hnamed ▸ Node.mem_sortedMembers.1 hmem)
        simpa using this

end Definitions

section Collectors

variable {quote : String → String} {root : Node}

/-- What the surface collector leaves unreported. -/
structure SurfaceClean (root : Node) : Prop where
  dialect : root.lookup "$schema" = some (.string draft202012URI)
  allowed : DefinitionsAllowed root
  rootPlaced : Placed (definitions root) true false root
  placed : ∀ definition ∈ definitions root, Placed (definitions root) false true definition.2

theorem collectSurfaceDiagnostics_eq_nil (hdistinct : root.Distinct) :
    collectSurfaceDiagnostics quote root = [] ↔ SurfaceClean root := by
  have hroot : ∀ {pointer : String}, surfaceWalk quote (definitions root) root.depth root pointer
      true false = [] ↔ Placed (definitions root) true false root :=
    surfaceWalk_eq_nil hdistinct le_rfl
  have hdefs : ∀ {defs : Node} {name pointer : String} {value : Node},
      root.lookup "$defs" = some defs → (name, value) ∈ defs.members →
      (surfaceWalk quote (definitions root) root.depth value pointer false true = [] ↔
        Placed (definitions root) false true value) := fun {defs _ _ value} hlookup hmem => by
    have hdefs := Node.depth_lt_of_mem (Node.mem_of_lookup hlookup)
    have hvalue := Node.depth_lt_of_mem hmem
    exact surfaceWalk_eq_nil ((hdistinct.of_lookup hlookup).of_mem hmem) (by omega)
  unfold collectSurfaceDiagnostics
  constructor
  · intro h
    rcases hobject : root.isObject with _ | _
    · rw [hobject] at h
      exact absurd h (by simp)
    rw [hobject, if_neg (by simp), append_eq_nil_iff, append_eq_nil_iff,
      append_eq_nil_iff, dialectErrors, addIf_eq_nil, not_not, definitionErrors_eq_nil,
      hroot] at h
    obtain ⟨⟨⟨hdialect, hallowed⟩, hplaced⟩, hrest⟩ := h
    refine ⟨hdialect, hallowed, hplaced, fun definition hmem => ?_⟩
    obtain ⟨defs, hlookup, hmem', -, hvalue⟩ := mem_definitions hmem
    rw [hlookup] at hrest
    dsimp only at hrest
    have hwalk := flatMap_eq_nil_iff.1 hrest definition (Node.mem_sortedMembers.2 hmem')
    rw [if_pos hvalue] at hwalk
    exact (hdefs hlookup hmem').1 hwalk
  · rintro ⟨hdialect, hallowed, hplaced, hall⟩
    obtain ⟨form, hform, -⟩ := hplaced.wellFormed.inv
    rw [isObject_of_view hform.view, if_neg (by simp), append_eq_nil_iff,
      append_eq_nil_iff, append_eq_nil_iff, dialectErrors, addIf_eq_nil, not_not,
      definitionErrors_eq_nil, hroot]
    refine ⟨⟨⟨hdialect, hallowed⟩, hplaced⟩, ?_⟩
    rcases hlookup : root.lookup "$defs" with _ | defs
    · rfl
    · refine flatMap_eq_nil_iff.2 fun definition hmem => ?_
      have hmem' := Node.mem_sortedMembers.1 hmem
      split_ifs
      · exact (hdefs hlookup hmem').2 (hall definition (definitions_eq hallowed hlookup ▸ hmem))
      · rfl

theorem graphWalk_walked (hroot : WellFormed (definitions root) true root)
    (hdefs : ∀ definition ∈ definitions root, WellFormed (definitions root) false definition.2) :
    GraphWalker.WalkedNode (definitions root) true root ⟨[], [], []⟩ (graphWalk root) :=
  GraphWalker.walk_walked (fun name target htarget => hdefs _ (AiOrg.mem_of_lookup htarget))
    (fun _ _ htarget => depth_le_of_definition htarget) _ ("", root) [] _ true hroot
    (fun _ hname => by cases hname) (walkBound_root root) fun _ hentry => by cases hentry

theorem collectGraphDiagnostics_eq_nil (hroot : WellFormed (definitions root) true root)
    (hdefs : ∀ definition ∈ definitions root, WellFormed (definitions root) false definition.2) :
    collectGraphDiagnostics root = [] ↔
      (∃ schema, Expands (definitions root) true root schema ∧
        schema.properties ≤ maxTotalProperties ∧ schema.depth ≤ maxDepth) ∧
      ∀ definition ∈ definitions root, Reaches (definitions root) root definition.1 := by
  obtain ⟨form, hform, -⟩ := hroot.inv
  have hwalked := graphWalk_walked hroot hdefs
  have hunreachable : ∀ reached, unreachableErrors (definitions root) reached = [] ↔
      ∀ definition ∈ definitions root, definition.1 ∈ reached := fun reached => by
    rw [unreachableErrors, flatMap_eq_nil_iff]
    simp
  rw [collectGraphDiagnostics, isObject_of_view hform.view, if_neg (by simp),
    append_eq_nil_iff, append_eq_nil_iff, hunreachable]
  rcases hok : (graphWalk root).1.2 with _ | _
  · obtain ⟨hnot, hdiagnostics⟩ := hwalked.cyclic hok
    exact iff_of_false (fun h => hdiagnostics h.1.1) fun h =>
      hnot ⟨h.1.choose, h.1.choose_spec.1⟩
  · obtain ⟨⟨schema, hschema⟩, hmeasures, hcovers, hdiagnostics⟩ := hwalked.acyclic hok
    have hm := hmeasures schema hschema
    rw [if_pos rfl, hdiagnostics, limitErrors, append_eq_nil_iff, addIf_eq_nil, addIf_eq_nil,
      not_lt, not_lt, le_limit_of_cap hm.properties, hm.height]
    constructor
    · rintro ⟨⟨-, hproperties, hdepth⟩, hreached⟩
      refine ⟨⟨schema, hschema, hproperties, hdepth⟩, fun definition hmem => ?_⟩
      rcases hwalked.marks _ (hreached definition hmem) with h | h
      · cases h
      · exact h
    · rintro ⟨⟨schema', hschema', hproperties, hdepth⟩, hreaches⟩
      obtain rfl := hschema.unique hschema'
      exact ⟨⟨rfl, hproperties, hdepth⟩, fun definition hmem =>
        hcovers _ (hreaches definition hmem)⟩

theorem collectContextDiagnostics_eq_nil {schema : Schema}
    (h : Expands (definitions root) true root schema) :
    collectContextDiagnostics root = [] ↔ schema.NullSafe false := by
  obtain ⟨form, hform, -⟩ := h.hasForm
  rw [collectContextDiagnostics_eq_quiet (isObject_of_view hform.view)]
  exact quiet_iff_nullSafe h "" false

end Collectors

section Acyclic

variable {defs : List (String × Node)} {isRoot : Bool} {node : Node}

theorem expands_of_mentions (h : WellFormed defs isRoot node)
    (htargets : ∀ name target, Mentions node name → defs.lookup name = some target →
      ∃ schema, Expands defs false target schema) : ∃ schema, Expands defs isRoot node schema := by
  induction h with
  | @mk _ node form hform hresolves _ ih =>
    by_cases href : ∃ name, form = .ref name
    · obtain ⟨name, rfl⟩ := href
      obtain ⟨target, htarget⟩ := Option.isSome_iff_exists.1 (hresolves name rfl)
      obtain ⟨schema, hschema⟩ := htargets name target ((mentions_iff hform.view name).2 (.inl rfl))
        htarget
      exact ⟨schema, .ref hform htarget hschema⟩
    · refine (hform.expands_iff fun name heq => href ⟨name, heq⟩).2 fun child hchild =>
        ih child hchild fun name target hmentions htarget => ?_
      exact htargets name target
        ((mentions_iff hform.view name).2 (.inr ⟨child, hchild, hmentions⟩)) htarget

theorem expands_of_acyclic (hdefs : ∀ definition ∈ defs, WellFormed defs false definition.2)
    (hacyclic : ∀ name, ¬ Relation.TransGen (Refers defs) name name)
    (h : WellFormed defs isRoot node) : ∃ schema, Expands defs isRoot node schema := by
  let Name := { name // name ∈ defs.map (·.1) }
  let before : Name → Name → Prop := fun a b => Relation.TransGen (Refers defs) b.1 a.1
  have hfinite : Finite Name := (finite_toSet (defs.map (·.1))).to_subtype
  have htrans : IsTrans Name before := ⟨fun _ _ _ hab hbc => hbc.trans hab⟩
  have hirrefl : Std.Irrefl before := ⟨fun a => hacyclic a.1⟩
  have hwell : WellFounded before := Finite.wellFounded_of_trans_of_irrefl before
  have hmem : ∀ {name target}, defs.lookup name = some target → name ∈ defs.map (·.1) :=
    fun htarget => mem_map_of_mem (AiOrg.mem_of_lookup htarget)
  have hnames : ∀ name : Name, ∀ target, defs.lookup name.1 = some target →
      ∃ schema, Expands defs false target schema := fun name => by
    induction name using hwell.induction with
    | _ name ih =>
      intro target htarget
      refine expands_of_mentions (hdefs _ (AiOrg.mem_of_lookup htarget))
        fun other next hmentions hnext => ?_
      exact ih ⟨other, hmem hnext⟩ (.single ⟨target, htarget, hmentions⟩) next hnext
  exact expands_of_mentions h fun name target _ htarget => hnames ⟨name, hmem htarget⟩ target htarget

theorem acyclic_of_expands (hexpands : ∀ name target, defs.lookup name = some target →
    ∃ schema, Expands defs false target schema) (name : String) :
    ¬ Relation.TransGen (Refers defs) name name := by
  intro hcycle
  obtain ⟨other, ⟨target, htarget, -⟩, -⟩ := Relation.TransGen.head'_iff.1 hcycle
  obtain ⟨schema, hschema⟩ := hexpands name target htarget
  obtain ⟨target', htarget', hsteps⟩ := refers_expandSteps hcycle htarget
  cases htarget.symm.trans htarget'
  exact hschema.no_cycle hsteps

end Acyclic

section Placement

variable {defs : List (String × Node)} {isRoot : Bool} {node : Node}

theorem Schema.NullSafe.mono {allowNull : Bool} {schema : Schema} (h : schema.NullSafe allowNull) :
    schema.NullSafe true := by
  cases h with
  | null => exact .null
  | scalar => exact .scalar
  | array h => exact .array h
  | object h => exact .object h
  | anyOf hflat hsingle h => exact .anyOf hflat hsingle h

theorem nullSafe_of_child {schema part : Schema} {child : Node} {allowNull : Bool}
    (h : Expands defs isRoot node schema) (hsafe : schema.NullSafe allowNull)
    (hchild : IsChild node child) (hpart : Expands defs false child part) : part.NullSafe true := by
  obtain ⟨form, hview, hchild⟩ := hchild
  obtain ⟨-, hstep⟩ := h.inv hview
  rcases form with name | branches | properties | items | ⟨type, enum⟩ | _
  · cases hchild
  · obtain ⟨expand, rfl, hbranches⟩ := hstep
    cases hsafe with
    | anyOf _ _ hall =>
      rw [hpart.unique (hbranches child hchild)]
      exact hall _ (mem_map_of_mem hchild)
  · obtain ⟨expand, rfl, hproperties⟩ := hstep
    obtain ⟨property, hproperty, rfl⟩ := mem_map.1 hchild
    cases hsafe with
    | object hall =>
      rw [hpart.unique (hproperties property hproperty)]
      exact (hall _ (mem_map_of_mem hproperty)).mono
  · obtain ⟨part', rfl, hitems⟩ := hstep
    cases hsafe with
    | array hsafe =>
      rw [mem_singleton.1 hchild] at hpart
      rw [hpart.unique hitems]
      exact hsafe.mono
  · cases hchild
  · cases hchild

theorem nullSafe_of_mentions {schema : Schema} {allowNull : Bool} {name : String}
    (h : Expands defs isRoot node schema) (hsafe : schema.NullSafe allowNull)
    (hmentions : Mentions node name) : ∃ target part, defs.lookup name = some target ∧
      Expands defs false target part ∧ part.NullSafe true := by
  obtain ⟨below, hbelow, hview⟩ := hmentions
  induction hbelow using Relation.ReflTransGen.head_induction_on generalizing isRoot schema
    allowNull with
  | refl =>
    obtain ⟨target, htarget, hpart⟩ := (h.inv hview).2
    exact ⟨target, schema, htarget, hpart, hsafe.mono⟩
  | head hchild _ ih =>
    obtain ⟨part, hpart⟩ := h.of_child hchild
    exact ih hpart (nullSafe_of_child h hsafe hchild hpart)

theorem nullSafe_of_reaches {schema : Schema} {allowNull : Bool} {name : String}
    (h : Expands defs isRoot node schema) (hsafe : schema.NullSafe allowNull)
    (hreaches : Reaches defs node name) : ∃ target part, defs.lookup name = some target ∧
      Expands defs false target part ∧ part.NullSafe true := by
  obtain ⟨first, hfirst, hrefers⟩ := hreaches
  induction hrefers with
  | refl => exact nullSafe_of_mentions h hsafe hfirst
  | tail _ hstep ih =>
    obtain ⟨target, part, htarget, hpart, hpartSafe⟩ := ih
    obtain ⟨definition, hdefinition, hmentions⟩ := hstep
    cases htarget.symm.trans hdefinition
    exact nullSafe_of_mentions hpart hpartSafe hmentions

theorem Expands.lookup_anyOf {schema : Schema} (h : Expands defs isRoot node schema)
    (hflat : ¬ schema.isAnyOf) : node.lookup "anyOf" = none := by
  obtain ⟨form, hform, hstep⟩ := h.hasForm
  by_cases href : ∃ name, form = .ref name
  · obtain ⟨name, rfl⟩ := href
    rw [Option.eq_none_iff_forall_ne_some]
    intro value hvalue
    have := hform.keywords _ (Node.mem_of_lookup hvalue)
    simp [Form.keywords] at this
  · have hnone := view_no_ref hform.view fun name heq => href ⟨name, heq⟩
    have hshows := (h.shows hnone).1
    rcases hany : node.lookup "anyOf" with _ | value
    · rfl
    · rw [hany] at hshows
      exact absurd hshows.symm hflat

theorem placed_of_nullSafe (hwell : WellFormed defs isRoot node) : ∀ {schema : Schema}
    {allowNull : Bool}, Expands defs isRoot node schema → schema.NullSafe allowNull →
    Placed defs isRoot allowNull node := by
  induction hwell with
  | @mk isRoot node form hform hresolves _ ih =>
    intro schema allowNull h hsafe
    have hstep := (h.inv hform.view).2
    rcases form with name | branches | properties | items | ⟨type, enum⟩ | _
    · exact .mk hform hresolves (by simp) (by simp [Form.isUnion]) (by simp [Form.children])
    · obtain ⟨expand, rfl, hbranches⟩ := hstep
      cases hsafe with
      | anyOf hflat _ hall =>
        exact .mk hform hresolves (by simp) (fun _ branch hbranch =>
          (hbranches branch hbranch).lookup_anyOf (hflat _ (mem_map_of_mem hbranch)))
          fun branch hbranch => ih branch hbranch (hbranches branch hbranch)
            (hall _ (mem_map_of_mem hbranch))
    · obtain ⟨expand, rfl, hproperties⟩ := hstep
      cases hsafe with
      | object hall =>
        refine .mk hform hresolves (by simp) (by simp [Form.isUnion]) fun child hchild => ?_
        obtain ⟨property, hproperty, rfl⟩ := mem_map.1 hchild
        exact ih property.2 hchild (hproperties property hproperty)
          (hall _ (mem_map_of_mem hproperty))
    · obtain ⟨part, rfl, hitems⟩ := hstep
      cases hsafe with
      | array hsafe =>
        refine .mk hform hresolves (by simp) (by simp [Form.isUnion]) fun child hchild => ?_
        rw [mem_singleton.1 hchild]
        exact ih items (by simp [Form.children]) hitems hsafe
    · exact .mk hform hresolves (by simp) (by simp [Form.isUnion]) (by simp [Form.children])
    · obtain rfl := hstep
      cases hsafe
      exact .mk hform hresolves (fun _ => rfl) (by simp [Form.isUnion]) (by simp [Form.children])

end Placement

section Admission

variable {quote : String → String} {root : Node}

theorem Profile.expands (h : Profile root) :
    ∃ schema, Expands (definitions root) true root schema :=
  expands_of_acyclic h.wellFormed h.acyclic h.rootWellFormed

theorem profile_iff : Profile root ↔
    root.lookup "$schema" = some (.string draft202012URI) ∧ DefinitionsAllowed root ∧
      (∀ definition ∈ definitions root, WellFormed (definitions root) false definition.2 ∧
        Reaches (definitions root) root definition.1) ∧
      ∃ schema, WellFormed (definitions root) true root ∧
        Expands (definitions root) true root schema ∧ schema.NullSafe false ∧
          schema.properties ≤ maxTotalProperties ∧ schema.depth ≤ maxDepth := by
  constructor
  · intro h
    obtain ⟨schema, hschema⟩ := h.expands
    exact ⟨h.dialect, ⟨h.defsObject, h.named⟩,
      fun definition hmem => ⟨h.wellFormed definition hmem, h.reachable definition hmem⟩, schema,
      h.rootWellFormed, hschema, h.nullSafe schema hschema, h.properties schema hschema,
      h.depth schema hschema⟩
  · rintro ⟨hdialect, hallowed, hdefs, schema, hroot, hschema, hsafe, hproperties, hdepth⟩
    refine ⟨hdialect, hallowed.defsObject, hallowed.named, hroot,
      fun definition hmem => (hdefs definition hmem).1, acyclic_of_expands fun name target htarget => ?_,
      fun definition hmem => (hdefs definition hmem).2, fun other hother => ?_,
      fun other hother => ?_, fun other hother => ?_⟩
    · obtain ⟨target', part, htarget', hpart⟩ :=
        hschema.of_reaches (hdefs _ (AiOrg.mem_of_lookup htarget)).2
      cases htarget.symm.trans htarget'
      exact ⟨part, hpart⟩
    · rwa [hother.unique hschema]
    · rwa [hother.unique hschema]
    · rwa [hother.unique hschema]

theorem collectDiagnostics_eq_nil (hdistinct : root.Distinct) :
    collectDiagnostics quote root = [] ↔ Profile root := by
  rw [collectDiagnostics, append_eq_nil_iff, append_eq_nil_iff,
    collectSurfaceDiagnostics_eq_nil hdistinct, profile_iff]
  constructor
  · rintro ⟨⟨hclean, hgraph⟩, hcontext⟩
    have hroot := hclean.rootPlaced.wellFormed
    have hdefs := fun definition hmem => (hclean.placed definition hmem).wellFormed
    obtain ⟨⟨schema, hschema, hproperties, hdepth⟩, hreaches⟩ :=
      (collectGraphDiagnostics_eq_nil hroot hdefs).1 hgraph
    exact ⟨hclean.dialect, hclean.allowed,
      fun definition hmem => ⟨hdefs definition hmem, hreaches definition hmem⟩, schema, hroot, hschema,
      (collectContextDiagnostics_eq_nil hschema).1 hcontext, hproperties, hdepth⟩
  · rintro ⟨hdialect, hallowed, hdefs, schema, hroot, hschema, hsafe, hproperties, hdepth⟩
    refine ⟨⟨⟨hdialect, hallowed, placed_of_nullSafe hroot hschema hsafe, fun definition hmem => ?_⟩,
      (collectGraphDiagnostics_eq_nil hroot fun definition hmem => (hdefs definition hmem).1).2
        ⟨⟨schema, hschema, hproperties, hdepth⟩, fun definition hmem => (hdefs definition hmem).2⟩⟩,
      (collectContextDiagnostics_eq_nil hschema).2 hsafe⟩
    obtain ⟨target, part, htarget, hpart, hpartSafe⟩ :=
      nullSafe_of_reaches hschema hsafe (hdefs definition hmem).2
    cases (lookup_definitions hdistinct hmem).symm.trans htarget
    exact placed_of_nullSafe (hdefs definition hmem).1 hpart hpartSafe

theorem checkDefinitions_eq_ok {members : List (String × Node)} :
    Checker.checkDefinitions members = .ok () ↔
      ∀ definition ∈ members, validDefinitionName definition.1 ∧ definition.2.isObject := by
  induction members with
  | nil => simp [Checker.checkDefinitions]
  | cons member members ih =>
    rw [Checker.checkDefinitions, Checker.check_bind_eq_ok, Checker.check_bind_eq_ok, ih,
      forall_mem_cons, and_assoc]

theorem prepare_eq_ok {defs : List (String × Node)} : Checker.prepare root = .ok defs ↔
    root.isObject ∧ root.lookup "$schema" = some (.string draft202012URI) ∧
      DefinitionsAllowed root ∧ defs = definitions root := by
  unfold Checker.prepare
  rw [Checker.check_bind_eq_ok, Checker.check_bind_eq_ok]
  refine and_congr_right fun _ => and_congr_right fun _ => ?_
  rcases hlookup : root.lookup "$defs" with _ | value
  · have hnone : definitions root = [] := by rw [definitions, hlookup]
    have hallowed : DefinitionsAllowed root := by
      refine ⟨by simp [hlookup], fun definition hmem => ?_⟩
      rw [namedDefinitions, hlookup] at hmem
      cases hmem
    rw [hnone]
    exact ⟨fun h => ⟨hallowed, (Except.ok.inj h).symm⟩, fun h => by rw [h.2]⟩
  · have hnamed : namedDefinitions root = value.members := by rw [namedDefinitions, hlookup]
    dsimp only
    rw [Checker.check_bind_eq_ok, Checker.unit_bind_eq_ok, checkDefinitions_eq_ok]
    constructor
    · rintro ⟨hobject, hnames, heq⟩
      have hallowed : DefinitionsAllowed root := by
        refine ⟨fun other hother => ?_, fun definition hmem => ?_⟩
        · cases hlookup.symm.trans hother
          exact hobject
        · exact hnames definition (Node.mem_sortedMembers.2 (hnamed ▸ hmem))
      exact ⟨hallowed, by rw [definitions_eq hallowed hlookup, Except.ok.inj heq]⟩
    · rintro ⟨hallowed, rfl⟩
      refine ⟨hallowed.defsObject value hlookup, fun definition hmem => ?_, ?_⟩
      · exact hallowed.named definition (hnamed ▸ Node.mem_sortedMembers.1 hmem)
      · rw [definitions_eq hallowed hlookup]

theorem Expands.wellFormed {defs : List (String × Node)} {isRoot : Bool} {node : Node}
    {schema : Schema} (h : Expands defs isRoot node schema) : WellFormed defs isRoot node := by
  induction h with
  | ref hform htarget _ _ =>
    refine .mk hform (fun name heq => ?_) (by simp [Form.children])
    cases heq
    rw [htarget]
    rfl
  | union _ hform _ ih => exact .mk hform (by simp) ih
  | object _ hform _ ih =>
    refine .mk hform (by simp) fun child hchild => ?_
    obtain ⟨property, hproperty, rfl⟩ := mem_map.1 hchild
    exact ih property hproperty
  | array hform _ ih =>
    refine .mk hform (by simp) fun child hchild => ?_
    rwa [mem_singleton.1 hchild]
  | scalar hform => exact .mk hform (by simp) (by simp [Form.children])
  | null hform => exact .mk hform (by simp) (by simp [Form.children])

theorem run_eq_ok {m : Metrics} {c : Checker} (h : Checker.run quote root = .ok (m, c)) :
    root.lookup "$schema" = some (.string draft202012URI) ∧ DefinitionsAllowed root ∧
      (∀ name, name ∈ c.reached ↔ Reaches (definitions root) root name) ∧
        ∃ schema, Expands (definitions root) true root schema ∧ schema.NullSafe false ∧
          Measures schema m := by
  obtain ⟨defs, hprepare, hrun⟩ := Checker.bind_eq_ok_iff.1 h
  obtain ⟨-, hdialect, hallowed, rfl⟩ := prepare_eq_ok.1 hprepare
  have haccepted := Checker.validateNode_accepted _ _ _ _ _ _ _
    (fun _ hentry => by cases hentry) hrun
  refine ⟨hdialect, hallowed, fun name => ⟨fun hname => ?_, haccepted.covers name⟩,
    haccepted.stands⟩
  rcases haccepted.marks name hname with hname | hname
  · cases hname
  · exact hname

theorem run_complete {schema : Schema} (hdialect : root.lookup "$schema" =
      some (.string draft202012URI)) (hallowed : DefinitionsAllowed root)
    (hschema : Expands (definitions root) true root schema) (hsafe : schema.NullSafe false) :
    ∃ m c, Checker.run quote root = .ok (m, c) := by
  obtain ⟨form, hform, -⟩ := hschema.hasForm
  have hout : ∃ out, Checker.validateNode quote (definitions root) (walkDepth (definitions root) root)
      ("", root) true false [] ⟨[], []⟩ = .ok out :=
    Checker.validateNode_complete (fun _ _ htarget => depth_le_of_definition htarget) _
      ("", root) true false [] ⟨[], []⟩ schema hschema hsafe (fun _ hname => by cases hname)
      (walkBound_root root) fun _ hentry => by cases hentry
  obtain ⟨⟨m, c⟩, hout⟩ := hout
  exact ⟨m, c, Checker.bind_eq_ok_iff.2 ⟨definitions root,
    prepare_eq_ok.2 ⟨isObject_of_view hform.view, hdialect, hallowed, rfl⟩, hout⟩⟩

theorem profile_iff_run (hdistinct : root.Distinct) : Profile root ↔
    ∃ m c, Checker.run quote root = .ok (m, c) ∧ m.properties ≤ maxTotalProperties ∧
      m.height ≤ maxDepth ∧ ∀ definition ∈ definitions root, definition.1 ∈ c.reached := by
  rw [profile_iff]
  constructor
  · rintro ⟨hdialect, hallowed, hdefs, schema, hroot, hschema, hsafe, hproperties, hdepth⟩
    have hcomplete : ∃ m c, Checker.run quote root = .ok (m, c) :=
      run_complete hdialect hallowed hschema hsafe
    obtain ⟨m, c, hrun⟩ := hcomplete
    obtain ⟨-, -, hreached, schema', hschema', -, hmeasures⟩ := run_eq_ok hrun
    obtain rfl := hschema.unique hschema'
    exact ⟨m, c, hrun, (le_limit_of_cap hmeasures.properties).2 hproperties,
      hmeasures.height ▸ hdepth, fun definition hmem => (hreached _).2 (hdefs definition hmem).2⟩
  · rintro ⟨m, c, hrun, hproperties, hdepth, hall⟩
    obtain ⟨hdialect, hallowed, hreached, schema, hschema, hsafe, hmeasures⟩ := run_eq_ok hrun
    refine ⟨hdialect, hallowed, fun definition hmem => ?_, schema, hschema.wellFormed, hschema, hsafe,
      (le_limit_of_cap hmeasures.properties).1 hproperties, hmeasures.height ▸ hdepth⟩
    have hreaches := (hreached _).1 (hall definition hmem)
    obtain ⟨target, part, htarget, hpart⟩ := hschema.of_reaches hreaches
    cases (lookup_definitions hdistinct hmem).symm.trans htarget
    exact ⟨hpart.wellFormed, hreaches⟩

end Admission

end SchemaGuard

end AiOrg
