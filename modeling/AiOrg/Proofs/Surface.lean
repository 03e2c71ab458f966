import AiOrg.Proofs.Expansion

/-!
# Local grammar

What the checks of a single node say, for the collector that reports all violations and for the
checker that stops at the first: of both it is the form of the node.
-/

namespace AiOrg

open List

namespace SchemaGuard

open StrictJson (Node joinPointer Equal)

section Keywords

variable {node : Node} {isRoot : Bool}

/-- The keywords of a node are admitted where it stands. -/
structure KeywordsAllowed (isRoot : Bool) (node : Node) : Prop where
  allowed : ∀ member ∈ node.members, allowedKeyword member.1
  rootOnly : isRoot ∨ ∀ member ∈ node.members, member.1 ≠ "$schema" ∧ member.1 ≠ "$defs"

theorem keywordErrors_eq_nil {pointer : String} (hdistinct : (node.members.map (·.1)).Nodup) :
    keywordErrors node pointer isRoot = [] ↔
      KeywordsAllowed isRoot node ∧ ∀ text ∈ node.lookup "description", text.isString := by
  rw [keywordErrors, flatMap_eq_nil_iff]
  constructor
  · intro h
    have hall : ∀ member ∈ node.members, allowedKeyword member.1 ∧
        (isRoot ∨ member.1 ≠ "$schema" ∧ member.1 ≠ "$defs") ∧
        (member.1 = "description" → member.2.isString) := fun member hmember => by
      have herrors := h member (Node.mem_sortedMembers.2 hmember)
      dsimp only at herrors
      rcases hallowed : allowedKeyword member.1 with _ | _
      · rw [hallowed] at herrors
        exact absurd herrors (by simp)
      · rw [hallowed, if_neg (by simp), append_eq_nil_iff, addIf_eq_nil, addIf_eq_nil]
          at herrors
        cases isRoot <;> simp_all
    refine ⟨⟨fun member hmember => (hall member hmember).1, ?_⟩, fun text htext => ?_⟩
    · rcases hroot : isRoot with _ | _
      · refine .inr fun member hmember => ?_
        rcases (hall member hmember).2.1 with h | h
        · rw [hroot] at h
          cases h
        · exact h
      · exact .inl rfl
    · exact (hall _ (Node.mem_of_lookup htext)).2.2 rfl
  · rintro ⟨⟨hallowed, hroot⟩, hdescription⟩ member hmember
    have hmem := Node.mem_sortedMembers.1 hmember
    dsimp only
    rw [if_neg (by simp [hallowed member hmem]), append_eq_nil_iff, addIf_eq_nil, addIf_eq_nil]
    refine ⟨fun h => ?_, fun h => ?_⟩
    · rcases hroot with hroot | hroot
      · rw [hroot] at h
        exact absurd h.1 (by simp)
      · exact h.2.elim (hroot member hmem).1 (hroot member hmem).2
    · obtain ⟨hname, hnot⟩ := h
      have hlookup : node.lookup "description" = some member.2 :=
        AiOrg.lookup_of_mem hdistinct (hname ▸ hmem)
      rw [hdescription member.2 hlookup] at hnot
      exact absurd hnot (by simp)

def Form.base : Form → List String
  | ref _ => ["$ref"]
  | union _ => ["anyOf"]
  | object _ => ["type", "properties", "required", "additionalProperties"]
  | array _ => ["type", "items"]
  | scalar _ _ => ["type", "enum"]
  | null => ["type"]

theorem hasForeignFormKeyword_eq_false {allowed : List String} :
    hasForeignFormKeyword node allowed = false ↔ ∀ member ∈ node.members,
      allowedKeyword member.1 → member.1 ∈ ["description", "$schema", "$defs"] ∨
        member.1 ∈ allowed := by
  rw [hasForeignFormKeyword, any_eq_false]
  refine forall_congr' fun member => imp_congr_right fun _ => ?_
  by_cases hallowed : allowedKeyword member.1 = true
  · by_cases hmem : member.1 ∈ allowed
    · simp [hmem]
    · simp only [hmem, hallowed, Bool.not_true, Bool.or_false, contains_eq_mem, decide_false,
        Bool.not_false, Bool.and_true, Bool.not_eq_true', Bool.not_eq_false, Bool.or_eq_true,
        beq_iff_eq, mem_cons, not_mem_nil, or_false, true_implies, or_assoc]
  · simp [hallowed]

theorem keywords_iff {form : Form} (href : ∀ name, form ≠ .ref name)
    (hroot : isRoot → ∃ properties, form = .object properties) :
    (∀ member ∈ node.members, member.1 ∈ form.keywords isRoot) ↔
      KeywordsAllowed isRoot node ∧ hasForeignFormKeyword node form.base = false := by
  have hallowed : ∀ name ∈ form.keywords isRoot, allowedKeyword name := by
    cases form <;> cases isRoot <;> simp only [Form.keywords] <;> decide
  have hmetadata : ∀ name ∈ form.keywords isRoot,
      name ∈ ["description", "$schema", "$defs"] ∨ name ∈ form.base := by
    cases form <;> cases isRoot <;> simp only [Form.keywords, Form.base] <;> decide
  have hrootOnly : isRoot = true ∨ ∀ name ∈ form.keywords isRoot,
      name ≠ "$schema" ∧ name ≠ "$defs" := by
    cases form <;> cases isRoot <;> simp only [Form.keywords] <;> decide
  have hbase : ∀ name ∈ form.base, name ∈ form.keywords isRoot := by
    cases form <;> cases isRoot <;> simp only [Form.keywords, Form.base] <;> decide
  have hdescription : "description" ∈ form.keywords isRoot := by
    cases form with
    | ref name => exact absurd rfl (href name)
    | _ => cases isRoot <;> simp [Form.keywords]
  have hschema : isRoot → "$schema" ∈ form.keywords isRoot ∧ "$defs" ∈ form.keywords isRoot := by
    intro h
    obtain ⟨properties, rfl⟩ := hroot h
    simp [Form.keywords, h]
  rw [hasForeignFormKeyword_eq_false]
  constructor
  · intro h
    exact ⟨⟨fun member hmember => hallowed _ (h member hmember),
      hrootOnly.imp id fun hnot member hmember => hnot _ (h member hmember)⟩,
      fun member hmember _ => hmetadata _ (h member hmember)⟩
  · rintro ⟨⟨hadmitted, hplaced⟩, hforeign⟩ member hmember
    rcases hforeign member hmember (hadmitted member hmember) with hname | hname
    · simp only [mem_cons, not_mem_nil, or_false] at hname
      rcases hname with hname | hname
      · exact hname ▸ hdescription
      · rcases hplaced with hplaced | hplaced
        · rcases hname with hname | hname
          · exact hname ▸ (hschema hplaced).1
          · exact hname ▸ (hschema hplaced).2
        · exact absurd hname (not_or.2 (hplaced member hmember))
    · exact hbase _ hname

theorem keywords_ref_iff {ref : Node} (href : node.lookup "$ref" = some ref)
    (hlength : node.members.length = 1) : ∀ member ∈ node.members, member.1 = "$ref" := by
  obtain ⟨member, hmembers⟩ := length_eq_one_iff.1 hlength
  have hmem := Node.mem_of_lookup href
  rw [hmembers, mem_singleton] at hmem
  intro other hother
  rw [hmembers, mem_singleton] at hother
  rw [hother, ← hmem]

theorem rootErrors_eq_nil {pointer : String} : rootErrors node pointer isRoot = [] ↔
    (isRoot → node.lookup "$ref" = none ∧ node.lookup "anyOf" = none ∧
      typeText node = some "object") := by
  rw [rootErrors, addIf_eq_nil]
  cases isRoot <;> simp

end Keywords

section Required

variable {pointer : String}

theorem requiredErrors_eq_nil {elements : List Node} {i : ℕ} {seen : List String} :
    requiredErrors pointer i seen elements = [] ↔ (∀ entry ∈ elements, entry.isString) ∧
      (requiredNames elements).Nodup ∧ ∀ name ∈ requiredNames elements, name ∉ seen := by
  induction elements generalizing i seen with
  | nil => simp [requiredErrors, requiredNames]
  | cons element elements ih =>
    cases element with
    | string text =>
      have hnames : requiredNames (.string text :: elements) = text :: requiredNames elements := rfl
      rw [requiredErrors, append_eq_nil_iff, addIf_eq_nil, ih, hnames, nodup_cons]
      simp only [mem_cons, forall_eq_or_imp, Node.isString, true_and, not_or]
      constructor
      · rintro ⟨hseen, hstrings, hnodup, hfresh⟩
        exact ⟨hstrings, ⟨fun hmem => (hfresh text hmem).1 rfl, hnodup⟩, hseen,
          fun name hname => (hfresh name hname).2⟩
      · rintro ⟨hstrings, ⟨hnot, hnodup⟩, hseen, hfresh⟩
        exact ⟨hseen, hstrings, hnodup, fun name hname =>
          ⟨fun heq => hnot (heq ▸ hname), hfresh name hname⟩⟩
    | _ => simp [requiredErrors, Node.isString]

theorem mem_names_iff {properties : List (String × Node)} {name : String} :
    name ∈ properties.map (·.1) ↔ (Node.object properties).lookup name ≠ none := by
  rw [Node.lookup, ← Option.isSome_iff_ne_none, Node.members, AiOrg.lookup_isSome_iff]

theorem candidateErrors_eq_nil {type : ScalarType} {candidates : List Node} {i : ℕ}
    {before : List Node} : candidateErrors pointer type i before candidates = [] ↔
      (∀ candidate ∈ candidates, matchesScalarType candidate type) ∧
        candidates.Pairwise (fun a b => ¬ Equal b a) ∧
          ∀ candidate ∈ candidates, ∀ other ∈ before, ¬ Equal candidate other := by
  induction candidates generalizing i before with
  | nil => simp [candidateErrors]
  | cons candidate candidates ih =>
    rw [candidateErrors, append_eq_nil_iff, append_eq_nil_iff, addIf_eq_nil, addIf_eq_nil,
      ih, pairwise_cons]
    simp only [Bool.not_eq_true', Bool.not_eq_false, any_eq_true, not_exists, not_and,
      mem_append, mem_cons, not_mem_nil, or_false, forall_eq_or_imp]
    constructor
    · rintro ⟨⟨htype, hfirst⟩, htypes, hpairs, hrest⟩
      exact ⟨⟨htype, htypes⟩, ⟨fun other hother => hrest other hother candidate (.inr rfl), hpairs⟩,
        hfirst, fun other hother b hb => hrest other hother b (.inl hb)⟩
    · rintro ⟨⟨htype, htypes⟩, ⟨hlater, hpairs⟩, hfirst, hrest⟩
      refine ⟨⟨htype, hfirst⟩, htypes, hpairs, fun other hother b hb => ?_⟩
      rcases hb with hb | rfl
      · exact hrest other hother b hb
      · exact hlater other hother

theorem isEnum_iff {type : ScalarType} {candidate : Node} {candidates : List Node} {i : ℕ} :
    candidateErrors pointer type i [] (candidate :: candidates) = [] ↔
      IsEnum type (candidate :: candidates) := by
  rw [candidateErrors_eq_nil]
  exact ⟨fun ⟨htypes, hpairs, _⟩ => ⟨by simp, htypes, hpairs⟩,
    fun h => ⟨h.typed, h.unique, by simp⟩⟩

theorem collectEnum_eq_nil {node : Node} {type : ScalarType} :
    collectEnum node pointer type = [] ↔ ∃ enum : Option (List Node),
      node.lookup "enum" = enum.map .array ∧ ∀ candidates ∈ enum, IsEnum type candidates := by
  rw [collectEnum]
  constructor
  · intro h
    split at h
    · next hnone => exact ⟨none, hnone, by simp⟩
    · next candidate candidates hsome =>
      refine ⟨some (candidate :: candidates), hsome, fun other hother => ?_⟩
      cases hother
      exact isEnum_iff.1 h
    · cases h
  · rintro ⟨enum, henum, hvalid⟩
    rcases enum with _ | candidates
    · rw [henum]
      rfl
    · have hcandidates := hvalid candidates rfl
      rcases candidates with _ | ⟨candidate, candidates⟩
      · exact absurd rfl hcandidates.nonempty
      · rw [henum]
        exact isEnum_iff.2 hcandidates

theorem propertiesObject_eq (node : Node) : propertiesObject node = none ∨
    ∃ properties, node.lookup "properties" = some (.object properties) ∧
      propertiesObject node = some (.object properties) := by
  unfold propertiesObject
  split
  · next properties h => exact .inr ⟨properties, h, rfl⟩
  · exact .inl rfl

theorem requiredElements_eq (node : Node) : requiredElements node = none ∨
    ∃ required, node.lookup "required" = some (.array required) ∧
      requiredElements node = some required := by
  unfold requiredElements
  split
  · next required h => exact .inr ⟨required, h, rfl⟩
  · exact .inl rfl

theorem propertiesObject_of_lookup {node : Node} {properties : List (String × Node)}
    (h : node.lookup "properties" = some (.object properties)) :
    propertiesObject node = some (.object properties) := by
  rw [propertiesObject, h]

theorem requiredElements_of_lookup {node : Node} {required : List Node}
    (h : node.lookup "required" = some (.array required)) :
    requiredElements node = some required := by
  rw [requiredElements, h]

theorem collectObject_eq_nil {quote : String → String} {node : Node}
    {walk : Node → String → Bool → Bool → List Error} :
    collectObject quote walk node pointer = [] ↔ ∃ properties,
      node.lookup "properties" = some (.object properties) ∧
        (Form.object properties).Valid node ∧ ∀ property ∈ properties,
          walk property.2 (joinPointer (joinPointer pointer "properties") property.1) false false =
            [] := by
  rw [collectObject]
  constructor
  · intro h
    simp only [append_eq_nil_iff, addIf_eq_nil] at h
    obtain ⟨⟨⟨⟨hproperties, hrequired⟩, hadditional⟩, hentries⟩, hrest⟩ := h
    obtain hnone | ⟨properties, hlookup, hproperties'⟩ := propertiesObject_eq node
    · exact absurd hnone hproperties
    obtain hnone | ⟨required, hlookup', hrequired'⟩ := requiredElements_eq node
    · exact absurd hnone hrequired
    rw [hrequired'] at hentries hrest
    rw [hproperties'] at hrest
    simp only [append_eq_nil_iff, flatMap_eq_nil_iff, addIf_eq_nil, not_not] at hrest
    obtain ⟨hstrings, hnodup, -⟩ := requiredErrors_eq_nil.1 hentries
    have hproperty : ∀ property ∈ properties, property.1 ∈ requiredNames required ∧
        property.2.isObject ∧ walk property.2
          (joinPointer (joinPointer pointer "properties") property.1) false false = [] := by
      intro property hmem
      obtain ⟨hname, hwalk⟩ := hrest.1 property (Node.mem_sortedMembers.2 hmem)
      rcases hobject : property.2.isObject with _ | _
      · rw [hobject] at hwalk
        exact absurd hwalk (by simp)
      · rw [hobject, if_neg (by simp)] at hwalk
        exact ⟨hname, rfl, hwalk⟩
    refine ⟨properties, hlookup, ⟨fun property hmem => (hproperty property hmem).2.1,
      not_not.1 hadditional, required, hlookup', hstrings, hnodup, fun name => ⟨fun hname => ?_,
        fun hname => ?_⟩⟩, fun property hmem => (hproperty property hmem).2.2⟩
    · exact mem_names_iff.2 (hrest.2 name (mem_dedup.2 hname))
    · obtain ⟨property, hmem, rfl⟩ := mem_map.1 hname
      exact (hproperty property hmem).1
  · rintro ⟨properties, hlookup, ⟨hobjects, hadditional, required, hlookup', hrequired⟩, hwalk⟩
    rw [propertiesObject_of_lookup hlookup, requiredElements_of_lookup hlookup']
    simp only [append_eq_nil_iff, addIf_eq_nil, flatMap_eq_nil_iff, not_not]
    refine ⟨⟨⟨⟨by simp, by simp⟩, hadditional⟩, requiredErrors_eq_nil.2
      ⟨hrequired.strings, hrequired.unique, by simp⟩⟩, fun property hmem => ?_, fun name hname => ?_⟩
    · have hmem' := Node.mem_sortedMembers.1 hmem
      refine ⟨(hrequired.names property.1).2 (mem_map_of_mem hmem'), ?_⟩
      rw [if_neg (by simp [hobjects property hmem'])]
      exact hwalk property hmem'
    · exact mem_names_iff.1 ((hrequired.names name).1 (mem_dedup.1 hname))

end Required

/-! ### The collector -/

section Collector

variable {defs : List (String × Node)} {isRoot allowNull : Bool} {node : Node} {pointer : String}

def Form.isUnion : Form → Bool
  | union _ => true
  | _ => false

/-- A schema node and those below it are well formed, and `null` and unions stand where they may as
far as that shows without following references. -/
inductive Placed (defs : List (String × Node)) : Bool → Bool → Node → Prop
  | mk {isRoot allowNull : Bool} {node : Node} {form : Form} : HasForm isRoot node form →
      (∀ name, form = .ref name → (defs.lookup name).isSome) →
      (form = .null → allowNull = true) →
      (form.isUnion → ∀ branch ∈ form.children, branch.lookup "anyOf" = none) →
      (∀ child ∈ form.children, Placed defs false form.isUnion child) →
      Placed defs isRoot allowNull node

theorem Placed.wellFormed (h : Placed defs isRoot allowNull node) : WellFormed defs isRoot node := by
  induction h with
  | mk hform hresolves _ _ _ ih => exact .mk hform hresolves ih

theorem child_distinct {child : Node} (h : node.Distinct) (hchild : IsChild node child) :
    child.Distinct := by
  obtain ⟨form, hview, hchild⟩ := hchild
  rcases form with name | branches | properties | items | ⟨type, enum⟩ | _
  · cases hchild
  · exact (h.of_lookup (view_union hview).2).of_mem_array hchild
  · obtain ⟨-, -, htyped⟩ := view_typed hview (by simp) (by simp)
    obtain ⟨property, hproperty, rfl⟩ := mem_map.1 hchild
    exact (h.of_lookup (typedView_object htyped).2).of_mem hproperty
  · obtain ⟨-, -, htyped⟩ := view_typed hview (by simp) (by simp)
    rw [mem_singleton.1 hchild]
    exact h.of_lookup (typedView_array htyped).2
  · cases hchild
  · cases hchild

theorem referenceErrors_eq_nil {ref : Node} : referenceErrors defs node ref pointer = [] ↔
    node.members.length = 1 ∧ ∃ name, referencedName ref = some name ∧
      validDefinitionName name ∧ (defs.lookup name).isSome := by
  rw [referenceErrors, append_eq_nil_iff, addIf_eq_nil, not_not]
  refine and_congr_right fun _ => ?_
  rcases referencedName ref with _ | name
  · simp
  · rcases hvalid : validDefinitionName name with _ | _
    · simp [hvalid]
    · simp [hvalid, Option.isSome_iff_ne_none]

theorem collectBranches_eq_nil {walk : Node → String → Bool → Bool → List Error}
    {branches : List Node} {P : Node → Prop}
    (hwalk : ∀ branch ∈ branches, ∀ pointer, walk branch pointer false true = [] ↔ P branch) :
    collectBranches walk pointer branches = [] ↔ (∀ branch ∈ branches, branch.isObject) ∧
      (∀ branch ∈ branches, branch.lookup "anyOf" = none) ∧ ∀ branch ∈ branches, P branch := by
  have hplaces : ∀ branch, branch ∈ branches ↔
      ∃ path, (path, branch) ∈ elementPlaces (joinPointer pointer "anyOf") branches := fun branch => by
    conv_lhs => rw [← elementPlaces_nodes (joinPointer pointer "anyOf") branches]
    rw [mem_map]
    exact ⟨fun ⟨place, hplace, heq⟩ => ⟨place.1, heq ▸ hplace⟩, fun ⟨path, hplace⟩ =>
      ⟨_, hplace, rfl⟩⟩
  rw [collectBranches, flatMap_eq_nil_iff]
  constructor
  · intro h
    have hall : ∀ branch ∈ branches, branch.isObject ∧ branch.lookup "anyOf" = none ∧ P branch := by
      intro branch hbranch
      obtain ⟨path, hpath⟩ := (hplaces branch).1 hbranch
      have herrors := h _ hpath
      dsimp only at herrors
      rcases hobject : branch.isObject with _ | _
      · rw [hobject] at herrors
        exact absurd herrors (by simp)
      · rw [hobject, if_neg (by simp), append_eq_nil_iff, addIf_eq_nil,
          hwalk branch hbranch] at herrors
        exact ⟨rfl, by simpa using herrors.1, herrors.2⟩
    exact ⟨fun branch hbranch => (hall branch hbranch).1,
      fun branch hbranch => (hall branch hbranch).2.1,
      fun branch hbranch => (hall branch hbranch).2.2⟩
  · rintro ⟨hobjects, hflat, hall⟩ ⟨path, branch⟩ hpath
    have hbranch := (hplaces branch).2 ⟨path, hpath⟩
    dsimp only
    rw [if_neg (by simp [hobjects branch hbranch]), append_eq_nil_iff, addIf_eq_nil,
      hwalk branch hbranch]
    exact ⟨by simp [hflat branch hbranch], hall branch hbranch⟩

theorem collectUnion_eq_nil {walk : Node → String → Bool → Bool → List Error} {anyOf : Node} :
    collectUnion walk node anyOf pointer = [] ↔ node.lookup "type" = none ∧
      hasForeignFormKeyword node ["anyOf"] = false ∧ ∃ branches, anyOf = .array branches ∧
        2 ≤ branches.length ∧ collectBranches walk pointer branches = [] := by
  unfold collectUnion
  rw [append_eq_nil_iff, addIf_eq_nil, not_or, and_assoc]
  refine and_congr (by simp) (and_congr (by simp) ?_)
  constructor
  · intro h
    split at h
    · next branches =>
      by_cases hlength : branches.length < 2
      · rw [if_pos hlength] at h
        cases h
      · rw [if_neg hlength] at h
        exact ⟨branches, rfl, by omega, h⟩
    · cases h
  · rintro ⟨branches, rfl, hlength, h⟩
    dsimp only
    rwa [if_neg (by omega)]

theorem hasForeignFormKeyword_metadata {allowed : List String} : hasForeignFormKeyword node
    (allowed ++ if isRoot then ["$schema", "$defs"] else []) =
      hasForeignFormKeyword node allowed := by
  rw [Bool.eq_iff_iff, ← not_iff_not, Bool.not_eq_true, Bool.not_eq_true,
    hasForeignFormKeyword_eq_false, hasForeignFormKeyword_eq_false]
  refine forall_congr' fun member => imp_congr_right fun _ => imp_congr_right fun _ => ?_
  cases isRoot
  · simp
  · simp only [if_true, mem_append, mem_cons, not_mem_nil, or_false]
    tauto

theorem collectTyped_eq_nil {quote : String → String}
    {walk : Node → String → Bool → Bool → List Error} {P : Node → Prop}
    (hwalk : ∀ form, typedView node = some form → ∀ child ∈ form.children, ∀ pointer,
      walk child pointer false false = [] ↔ P child) :
    collectTyped quote walk node pointer isRoot allowNull = [] ↔ ∃ form,
      typedView node = some form ∧ form.Valid node ∧ hasForeignFormKeyword node form.base = false ∧
        (form = .null → allowNull = true) ∧ ∀ child ∈ form.children, P child := by
  rw [collectTyped]
  constructor
  · intro h
    split at h
    · cases h
    · next htype =>
      rw [append_eq_nil_iff, addIf_eq_nil, collectObject_eq_nil,
        hasForeignFormKeyword_metadata, Bool.not_eq_true] at h
      obtain ⟨hforeign, properties, hproperties, hvalid, hall⟩ := h
      have hview : typedView node = some (.object properties) := by
        simp [typedView, htype, hproperties]
      refine ⟨_, hview, hvalid, hforeign, fun h => (by cases h), fun child hchild => ?_⟩
      obtain ⟨property, hproperty, rfl⟩ := mem_map.1 hchild
      exact (hwalk _ hview _ hchild _).1 (hall property hproperty)
    · next htype =>
      rw [append_eq_nil_iff, addIf_eq_nil, Bool.not_eq_true] at h
      obtain ⟨hforeign, hitems⟩ := h
      split at hitems
      · next members hlookup =>
        have hview : typedView node = some (.array (.object members)) := by
          simp [typedView, htype, hlookup]
        refine ⟨_, hview, rfl, hforeign, fun h => (by cases h), fun child hchild => ?_⟩
        rw [mem_singleton.1 hchild]
        exact (hwalk _ hview _ (by simp [Form.children]) _).1 hitems
      · cases hitems
    · next type htype =>
      rw [append_eq_nil_iff, addIf_eq_nil, Bool.not_eq_true, collectEnum_eq_nil] at h
      obtain ⟨hforeign, enum, henum, hvalid⟩ := h
      have hview : typedView node = some (.scalar type enum) := by
        cases enum <;> simp_all [typedView]
      exact ⟨_, hview, hvalid, hforeign, fun h => (by cases h), fun child hchild => by cases hchild⟩
    · next htype =>
      rw [append_eq_nil_iff, addIf_eq_nil, addIf_eq_nil] at h
      exact ⟨.null, by simp [typedView, htype], trivial, Bool.eq_false_iff.2 h.2,
        fun _ => by simpa using h.1, fun child hchild => by cases hchild⟩
  · rintro ⟨form, hview, hvalid, hforeign, hnull, hall⟩
    rcases form with name | branches | properties | items | ⟨type, enum⟩ | _
    · exact absurd hview (typedView_ne_ref name)
    · exact absurd hview (typedView_ne_union branches)
    · obtain ⟨htype, hproperties⟩ := typedView_object hview
      rw [htype]
      dsimp only
      rw [append_eq_nil_iff, addIf_eq_nil, hasForeignFormKeyword_metadata,
        collectObject_eq_nil, Bool.not_eq_true]
      refine ⟨hforeign, properties, hproperties, hvalid, fun property hproperty => ?_⟩
      have hchild : property.2 ∈ (Form.object properties).children := mem_map_of_mem hproperty
      exact (hwalk _ hview _ hchild _).2 (hall _ hchild)
    · obtain ⟨htype, hitems⟩ := typedView_array hview
      obtain ⟨members, rfl⟩ := Node.isObject_iff.1 hvalid
      rw [htype, hitems]
      dsimp only
      rw [append_eq_nil_iff, addIf_eq_nil, Bool.not_eq_true]
      have hchild : Node.object members ∈ (Form.array (.object members)).children := by
        simp [Form.children]
      exact ⟨hforeign, (hwalk _ hview _ hchild _).2 (hall _ hchild)⟩
    · obtain ⟨htype, henum⟩ := typedView_scalar hview
      rw [htype]
      dsimp only
      rw [append_eq_nil_iff, addIf_eq_nil, Bool.not_eq_true, collectEnum_eq_nil]
      exact ⟨hforeign, enum, henum, hvalid⟩
    · rw [typedView_null hview]
      dsimp only
      rw [append_eq_nil_iff, addIf_eq_nil, addIf_eq_nil]
      exact ⟨by simp [hnull rfl], Bool.eq_false_iff.1 hforeign⟩

/-- The collector reports nothing of a node and what is below it just where they are well formed and
placed where they may stand. -/
theorem surfaceWalk_eq_nil {quote : String → String} {depth : ℕ} : ∀ {node : Node}
    {pointer : String} {isRoot allowNull : Bool}, node.Distinct → node.depth ≤ depth →
    (surfaceWalk quote defs depth node pointer isRoot allowNull = [] ↔
      Placed defs isRoot allowNull node) := by
  induction depth with
  | zero =>
    intro node pointer isRoot allowNull _ hdepth
    have hpos := node.one_le_depth
    omega
  | succ depth ih =>
    intro node pointer isRoot allowNull hdistinct hdepth
    have hchild : ∀ child, IsChild node child → ∀ pointer allowNull,
        surfaceWalk quote defs depth child pointer false allowNull = [] ↔
          Placed defs false allowNull child := fun child hchild pointer allowNull =>
      ih (child_distinct hdistinct hchild) (by
        have := depth_lt_of_child hchild
        omega)
    have htyped : node.lookup "$ref" = none → node.lookup "anyOf" = none → ∀ form,
        typedView node = some form → view node = some form := fun href hany form hform => by
      rw [view, href, hany]
      exact hform
    have hwalk : node.lookup "$ref" = none → node.lookup "anyOf" = none → ∀ form,
        typedView node = some form → ∀ child ∈ form.children, ∀ pointer,
          surfaceWalk quote defs depth child pointer false false = [] ↔
            Placed defs false false child := fun href hany form hform child hmem pointer =>
      hchild child ⟨form, htyped href hany form hform, hmem⟩ pointer false
    rw [surfaceWalk]
    constructor
    · intro h
      rcases hobject : node.isObject with _ | _
      · rw [hobject] at h
        exact absurd h (by simp)
      rw [hobject, if_neg (by simp), append_eq_nil_iff, append_eq_nil_iff,
        keywordErrors_eq_nil hdistinct.nodup, rootErrors_eq_nil] at h
      obtain ⟨⟨⟨hkeywords, hdescription⟩, hroot⟩, hform⟩ := h
      rcases href : node.lookup "$ref" with _ | ref
      · rw [href] at hform hroot
        dsimp only at hform
        rcases hany : node.lookup "anyOf" with _ | anyOf
        · rw [hany] at hform hroot
          dsimp only at hform
          split at hform
          · next hnone =>
            rw [addIf_eq_nil, Bool.not_eq_true', Bool.not_eq_false] at hform
            obtain ⟨member, hmember, hnot⟩ := any_eq_true.1 hform
            rw [hkeywords.allowed member hmember] at hnot
            exact absurd hnot (by simp)
          · rw [collectTyped_eq_nil (hwalk href hany)] at hform
            obtain ⟨form, hview, hvalid, hforeign, hnull, hall⟩ := hform
            have hnotRef : ∀ name, form ≠ .ref name := fun name heq =>
              typedView_ne_ref name (heq ▸ hview)
            have hnotUnion : form.isUnion = false := by
              cases form <;> first | rfl | exact absurd hview (typedView_ne_union _)
            have hrootForm : isRoot → ∃ properties, form = .object properties := fun h =>
              typedView_of_object hview (hroot h).2.2
            exact .mk ⟨htyped href hany form hview, (keywords_iff hnotRef hrootForm).2
              ⟨hkeywords, hforeign⟩, hdescription, hvalid, hrootForm⟩
              (fun name heq => absurd heq (hnotRef name)) hnull
              (fun h => by rw [hnotUnion] at h; cases h) (by rwa [hnotUnion])
        · rw [hany] at hform hroot
          dsimp only at hform
          obtain ⟨htype, hforeign, branches, rfl, hlength, hbranches⟩ :=
            collectUnion_eq_nil.1 hform
          have hview : view node = some (.union branches) := by simp [view, href, hany]
          obtain ⟨hobjects, hflat, hall⟩ := (collectBranches_eq_nil
            fun branch hbranch pointer => hchild branch ⟨_, hview, hbranch⟩ pointer true).1 hbranches
          have hnotRoot : isRoot → ∃ properties, Form.union branches = .object properties :=
            fun h => absurd (hroot h).2.1 (by simp)
          exact .mk ⟨hview, (keywords_iff (by simp) hnotRoot).2 ⟨hkeywords, hforeign⟩, hdescription,
            ⟨htype, hlength, hobjects⟩, hnotRoot⟩ (by simp) (by simp) (fun _ => hflat) hall
      · rw [href] at hform hroot
        dsimp only at hform
        obtain ⟨hlength, name, hname, hvalid, htarget⟩ := referenceErrors_eq_nil.1 hform
        have hview : view node = some (.ref name) := by simp [view, href, hname]
        refine .mk ⟨hview, fun member hmember => ?_, hdescription, ⟨hlength, hvalid⟩,
          fun h => absurd (hroot h).1 (by simp)⟩ (fun other heq => ?_) (by simp)
          (by simp [Form.isUnion]) (by simp [Form.children])
        · rw [Form.keywords, mem_singleton]
          exact keywords_ref_iff href hlength member hmember
        · cases heq
          exact htarget
    · rintro ⟨hform, hresolves, hnull, hflat, hall⟩
      rename_i form
      rw [isObject_of_view hform.view, if_neg (by simp), append_eq_nil_iff,
        append_eq_nil_iff, keywordErrors_eq_nil hdistinct.nodup, rootErrors_eq_nil]
      by_cases href : ∃ name, form = .ref name
      · obtain ⟨name, rfl⟩ := href
        obtain ⟨ref, href, hname⟩ := view_ref hform.view
        have hnotRoot : isRoot = false := by
          rw [← Bool.not_eq_true]
          intro h
          obtain ⟨_, heq⟩ := hform.root h
          cases heq
        have hmembers := keywords_ref_iff href hform.valid.1
        rw [href]
        dsimp only
        refine ⟨⟨⟨⟨fun member hmember => ?_, .inr fun member hmember => ?_⟩, hform.description⟩,
          fun h => ?_⟩, referenceErrors_eq_nil.2 ⟨hform.valid.1, name, hname, hform.valid.2,
            hresolves name rfl⟩⟩
        · rw [hmembers member hmember]
          decide
        · rw [hmembers member hmember]
          decide
        · rw [hnotRoot] at h
          cases h
      · have hnotRef : ∀ name, form ≠ .ref name := fun name heq => href ⟨name, heq⟩
        obtain ⟨hkeywords, hforeign⟩ := (keywords_iff hnotRef hform.root).1 hform.keywords
        have hnone := view_no_ref hform.view hnotRef
        by_cases hunion : ∃ branches, form = .union branches
        · obtain ⟨branches, rfl⟩ := hunion
          obtain ⟨-, hany⟩ := view_union hform.view
          rw [hnone, hany]
          dsimp only
          refine ⟨⟨⟨hkeywords, hform.description⟩, fun h => ?_⟩, collectUnion_eq_nil.2
            ⟨hform.valid.1, hforeign, branches, rfl, hform.valid.2.1, ?_⟩⟩
          · obtain ⟨_, heq⟩ := hform.root h
            cases heq
          · exact (collectBranches_eq_nil fun branch hbranch pointer =>
              hchild branch ⟨_, hform.view, hbranch⟩ pointer true).2
                ⟨hform.valid.2.2, hflat rfl, hall⟩
        · obtain ⟨-, hany, hview⟩ := view_typed hform.view hnotRef fun branches heq =>
            hunion ⟨branches, heq⟩
          have hnotUnion : form.isUnion = false := by
            cases form <;> first | rfl | exact absurd hview (typedView_ne_union _)
          rw [hnotUnion] at hall
          refine ⟨⟨⟨hkeywords, hform.description⟩, fun h => ?_⟩, ?_⟩
          · obtain ⟨_, rfl⟩ := hform.root h
            exact ⟨hnone, hany, typeText_of_object (typedView_object hview).1⟩
          · rw [hnone, hany]
            obtain ⟨typeNode, htype⟩ := lookup_type_of_typedView hview
            rw [htype]
            dsimp only
            exact (collectTyped_eq_nil (hwalk hnone hany)).2
              ⟨form, hview, hform.valid, hforeign, hnull, hall⟩

end Collector

end SchemaGuard

end AiOrg
