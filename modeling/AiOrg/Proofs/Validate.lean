import AiOrg.JsonSchemaValidate.Validate
import AiOrg.Proofs.Admission
import AiOrg.Proofs.Decimal

/-!
# The validator is exact

On an admitted schema every run of the validator comes to a verdict, and there is no error just where
the schema accepts the instance.
-/

namespace AiOrg

open List

namespace JsonSchemaValidate

open StrictJson (Node joinPointer SameValue Parse Source)
open SchemaGuard (Schema Form HasForm Expands definitions elementPlaces Admission Guard view typedView)
open Filter (atTop Eventually)

/-- A run comes to a verdict, and there is no error just where a condition holds. -/
def Settles (outcome : Outcome) (p : Prop) : Prop :=
  ∃ verdict, outcome = .ok verdict ∧ (verdict = none ↔ p)

section Settles

variable {α : Type} {check : α → Outcome} {p q : Prop} {outcome : Outcome}

theorem Settles.congr (h : Settles outcome p) (hpq : q ↔ p) : Settles outcome q := by
  obtain ⟨verdict, houtcome, hverdict⟩ := h
  exact ⟨verdict, houtcome, hverdict.trans hpq.symm⟩

theorem Settles.pass (h : p) : Settles (.ok none) p := ⟨none, rfl, iff_of_true rfl h⟩

theorem Settles.reject {code : ErrorCode} {instancePath schemaPath detail : String} (h : ¬ p) :
    Settles (validationError code instancePath schemaPath detail) p :=
  ⟨_, rfl, iff_of_false (by simp) h⟩

theorem firstError_settles {l : List α} {P : α → Prop} (h : ∀ a ∈ l, Settles (check a) (P a)) :
    Settles (firstError check l) (∀ a ∈ l, P a) := by
  induction l with
  | nil => exact .pass (by simp)
  | cons a l ih =>
    obtain ⟨verdict, hcheck, hverdict⟩ := h a mem_cons_self
    rw [firstError, hcheck]
    rcases verdict with _ | e
    · refine (ih fun b hb => h b (mem_cons_of_mem _ hb)).congr ?_
      rw [forall_mem_cons, and_iff_right (hverdict.1 rfl)]
    · refine ⟨some e, rfl, iff_of_false (by simp) fun hall => ?_⟩
      have := hverdict.2 (hall a mem_cons_self)
      cases this

theorem countMatches_eq_ok {l : List α} {P : α → Prop} (h : ∀ a ∈ l, Settles (check a) (P a)) :
    ∃ n, countMatches check l = .ok n ∧ (1 ≤ n ↔ ∃ a ∈ l, P a) := by
  induction l with
  | nil => exact ⟨0, rfl, by simp⟩
  | cons a l ih =>
    obtain ⟨verdict, hcheck, hverdict⟩ := h a mem_cons_self
    obtain ⟨n, hcount, hn⟩ := ih fun b hb => h b (mem_cons_of_mem _ hb)
    rw [countMatches, hcheck, hcount]
    refine ⟨_, rfl, ?_⟩
    rw [exists_mem_cons_iff, ← hverdict]
    split_ifs with hnone
    · exact iff_of_true (by omega) (.inl hnone)
    · rw [hn, or_iff_right hnone]

end Settles

section Scalars

variable {node value : Node} {text : String}

theorem matchesScalarType_iff {type : SchemaGuard.ScalarType} :
    SchemaGuard.matchesScalarType value type ↔ HasType type value := by
  constructor
  · intro h
    cases type <;> cases value <;> try cases h
    · exact .string
    · exact .number
    · obtain ⟨z, hz⟩ := StrictJson.NumberIsInteger_iff.1 h
      exact .integer hz
    · exact .boolean
  · intro h
    cases h with
    | integer hz => exact StrictJson.NumberIsInteger_iff.2 ⟨_, hz⟩
    | _ => rfl

theorem equal_number {a : String} :
    StrictJson.Equal (.number a) value ↔ SameValue (.number a) value := by
  cases value with
  | number b =>
    show StrictJson.numberEqual a b ↔ _
    rw [StrictJson.numberEqual_iff]
    constructor
    · rintro ⟨q, ha, hb⟩
      exact .number ha hb
    · intro h
      cases h with
      | number ha hb => exact ⟨_, ha, hb⟩
  | _ => exact iff_of_false Bool.false_ne_true fun h => by cases h

theorem equal_iff_sameValue {type : SchemaGuard.ScalarType} {candidate : Node}
    (h : HasType type candidate) : StrictJson.Equal candidate value ↔ SameValue candidate value := by
  cases h with
  | number => exact equal_number
  | integer => exact equal_number
  | string =>
    cases value with
    | string text =>
      show (_ == _) = true ↔ _
      rw [beq_iff_eq]
      exact ⟨fun h => h ▸ .string, fun h => by cases h; rfl⟩
    | _ => exact iff_of_false Bool.false_ne_true fun h => by cases h
  | boolean =>
    cases value with
    | bool value =>
      show (_ == _) = true ↔ _
      rw [beq_iff_eq]
      exact ⟨fun h => h ▸ .bool, fun h => by cases h; rfl⟩
    | _ => exact iff_of_false Bool.false_ne_true fun h => by cases h

theorem admittedType_eq_array : SchemaGuard.admittedType text = some .array ↔ text = "array" := by
  unfold SchemaGuard.admittedType
  split_ifs <;> simp_all

def typeName : SchemaGuard.ScalarType → String
  | .string => "string"
  | .number => "number"
  | .integer => "integer"
  | .boolean => "boolean"

theorem admittedType_eq_scalar {type : SchemaGuard.ScalarType} :
    SchemaGuard.admittedType text = some (.scalar type) ↔ text = typeName type := by
  unfold SchemaGuard.admittedType
  split_ifs <;> cases type <;> simp_all [typeName]

theorem validateEnum_settles {schemaPath instancePath : String} {type : SchemaGuard.ScalarType}
    {enum : Option (List Node)} (henum : node.lookup "enum" = enum.map .array)
    (hvalid : ∀ candidates ∈ enum, SchemaGuard.IsEnum type candidates) :
    Settles (validateEnum (some node) (some value) schemaPath instancePath)
      (∀ candidates ∈ enum, ∃ candidate ∈ candidates, SameValue candidate value) := by
  have hlookup : lookup (some node) "enum" = enum.map .array := henum
  unfold validateEnum
  rw [hlookup]
  rcases enum with _ | candidates
  · exact .pass (by simp)
  · have hany : ((elements (.array candidates)).any fun candidate =>
        (some value).any fun value => StrictJson.Equal candidate value) = true ↔
          ∃ candidate ∈ candidates, SameValue candidate value := by
      rw [any_eq_true]
      refine exists_congr fun candidate => and_congr_right fun hcandidate => ?_
      exact equal_iff_sameValue (matchesScalarType_iff.1
        ((hvalid candidates rfl).typed candidate hcandidate))
    dsimp only [Option.map_some]
    split_ifs with h
    · exact .pass fun other hother => by
        cases hother
        exact hany.1 h
    · exact .reject fun hall => h (hany.2 (hall candidates rfl))

end Scalars

/-! ### Nodes -/

section Nodes

variable {node value : Node} {schemaPath instancePath : String}
  {check : Option Node → Option Node → String → String → Outcome}

theorem text_of_type {type : SchemaGuard.SchemaType}
    (h : (SchemaGuard.typeText node).bind SchemaGuard.admittedType = some type) :
    ∃ typeNode, lookup (some node) "type" = some typeNode ∧
      SchemaGuard.admittedType (text typeNode) = some type := by
  obtain ⟨name, hname, htype⟩ := Option.bind_eq_some_iff.1 h
  unfold SchemaGuard.typeText at hname
  split at hname
  · rename_i hlookup
    cases hname
    exact ⟨_, hlookup, htype⟩
  · cases hname

theorem validateTyped_scalar {typeNode : Node} {type : SchemaGuard.ScalarType}
    (h : SchemaGuard.admittedType (text typeNode) = some (.scalar type)) :
    validateTyped check (some node) typeNode value schemaPath instancePath =
      if SchemaGuard.matchesScalarType value type then
        validateEnum (some node) (some value) schemaPath instancePath
      else typeError instancePath schemaPath (typeName type) := by
  unfold validateTyped
  rw [admittedType_eq_scalar.1 h]
  cases type <;> cases value <;> rfl

theorem typeError_settles {want : String} {p : Prop} (h : ¬ p) :
    Settles (typeError instancePath schemaPath want) p := .reject h

theorem scalar_settles {type : SchemaGuard.ScalarType} {enum : Option (List Node)} {typeNode : Node}
    (htype : SchemaGuard.admittedType (text typeNode) = some (.scalar type))
    (henum : node.lookup "enum" = enum.map .array)
    (hvalid : ∀ candidates ∈ enum, SchemaGuard.IsEnum type candidates) :
    Settles (validateTyped check (some node) typeNode value schemaPath instancePath)
      (Accepts (.scalar type enum) value) := by
  rw [validateTyped_scalar htype]
  split_ifs with h
  · refine (validateEnum_settles henum hvalid).congr ⟨fun haccepts => ?_, fun hall => ?_⟩
    · cases haccepts with
      | scalar _ hall => exact hall
    · exact .scalar (matchesScalarType_iff.1 h) hall
  · refine typeError_settles fun haccepts => h ?_
    cases haccepts with
    | scalar htype _ => exact matchesScalarType_iff.2 htype

theorem null_settles {typeNode : Node}
    (htype : SchemaGuard.admittedType (text typeNode) = some .null)
    (henum : node.lookup "enum" = none) :
    Settles (validateTyped check (some node) typeNode value schemaPath instancePath)
      (Accepts .null value) := by
  have hlookup : lookup (some node) "enum" = none := henum
  unfold validateTyped
  rw [SchemaGuard.admittedType_eq_null.1 htype]
  cases value with
  | null =>
    refine .congr (p := True) ?_ (iff_true_intro .null)
    show Settles (validateEnum (some node) (some .null) schemaPath instancePath) True
    unfold validateEnum
    rw [hlookup]
    exact .pass trivial
  | _ => exact typeError_settles fun h => by cases h

theorem array_settles {typeNode items : Node} {schema : Schema}
    (htype : SchemaGuard.admittedType (text typeNode) = some .array)
    (hitems : node.lookup "items" = some items)
    (hcheck : ∀ elements, value = .array elements → ∀ element ∈ elements,
      ∀ schemaPath instancePath, Settles
        (check (some items) (some element) schemaPath instancePath) (Accepts schema element)) :
    Settles (validateTyped check (some node) typeNode value schemaPath instancePath)
      (Accepts (.array schema) value) := by
  unfold validateTyped
  rw [admittedType_eq_array.1 htype]
  cases value with
  | array items' =>
    show Settles (validateItems check (some node) (.array items') schemaPath instancePath) _
    have hlookup : lookup (some node) "items" = some items := hitems
    unfold validateItems
    rw [hlookup]
    refine (firstError_settles (P := fun item => Accepts schema item.2) fun item hitem =>
      hcheck items' rfl item.2 ?_ _ _).congr ?_
    · rw [← SchemaGuard.elementPlaces_nodes instancePath items']
      exact mem_map_of_mem hitem
    · rw [← forall_mem_map (f := fun item : SchemaGuard.Place => item.2) (P := Accepts schema)]
      show _ ↔ ∀ element ∈ (elementPlaces instancePath items').map (·.2), Accepts schema element
      rw [SchemaGuard.elementPlaces_nodes]
      exact ⟨fun h => by cases h; assumption, .array⟩
  | _ => exact typeError_settles fun h => by cases h

theorem anyOf_settles {branches : List Node} {schemas : List Schema} {expand : Node → Schema}
    (hschemas : schemas = branches.map expand)
    (hcheck : ∀ branch ∈ branches, ∀ schemaPath instancePath, Settles
      (check (some branch) (some value) schemaPath instancePath) (Accepts (expand branch) value)) :
    Settles (validateAnyOf check (.array branches) (some value) schemaPath instancePath)
      (Accepts (.anyOf schemas) value) := by
  have haccepts : Accepts (.anyOf schemas) value ↔
      ∃ branch ∈ branches, Accepts (expand branch) value := by
    subst hschemas
    constructor
    · intro h
      cases h with
      | anyOf hbranch haccepts =>
        obtain ⟨branch', hbranch', rfl⟩ := mem_map.1 hbranch
        exact ⟨branch', hbranch', haccepts⟩
    · rintro ⟨branch, hbranch, haccepts⟩
      exact .anyOf (mem_map_of_mem hbranch) haccepts
  have hplaces := SchemaGuard.elementPlaces_nodes (joinPointer schemaPath "anyOf") branches
  obtain ⟨n, hcount, hn⟩ := countMatches_eq_ok
    (l := elementPlaces (joinPointer schemaPath "anyOf") branches)
    (P := fun branch => Accepts (expand branch.2) value) fun branch hbranch =>
      hcheck branch.2 (hplaces ▸ mem_map_of_mem hbranch) branch.1 instancePath
  have hsome : (∃ branch ∈ branches, Accepts (expand branch) value) ↔ 1 ≤ n := by
    rw [hn]
    conv_lhs => rw [← hplaces]
    simp only [mem_map, exists_exists_and_eq_and]
  unfold validateAnyOf
  rw [elements, hcount, haccepts, hsome]
  dsimp only
  split_ifs with h
  · exact .pass h
  · exact .reject h

theorem object_settles {properties : List (String × Node)} {members : List (String × Node)}
    {expand : Node → Schema} (hproperties : node.lookup "properties" = some (.object properties))
    (hdistinct : (Node.object members).Distinct)
    (hcheck : ∀ property ∈ properties, ∀ value, (property.1, value) ∈ members →
      ∀ schemaPath instancePath, Settles
        (check (some property.2) (some value) schemaPath instancePath)
        (Accepts (expand property.2) value)) :
    Settles (validateObject check (some node) (some (.object members)) schemaPath instancePath)
      (Accepts (.object (properties.map fun property => (property.1, expand property.2)))
        (.object members)) := by
  have hlookup : lookup (some node) "properties" = some (.object properties) := hproperties
  have hsorted : ∀ property, property ∈ (Node.object properties).sortedMembers ↔
      property ∈ properties := fun property => Node.mem_sortedMembers
  have hnames : (properties.map fun property => (property.1, expand property.2)).map (·.1) =
      properties.map (·.1) := by
    rw [map_map]
    rfl
  unfold validateObject
  rw [hlookup]
  dsimp only
  rw [show sortedMembers (some (.object properties)) =
    (Node.object properties).sortedMembers from rfl]
  split
  · rename_i property hfind
    refine .reject fun h => ?_
    have hmem := (hsorted property).1 (mem_of_find?_eq_some hfind)
    have habsent := find?_some hfind
    cases h with
    | object hall _ _ =>
      have hname := hall (property.1, expand property.2) (mem_map_of_mem
        (f := fun property : String × Node => (property.1, expand property.2)) hmem)
      have hsome := AiOrg.lookup_isSome_iff.2 hname
      rw [show lookup (some (Node.object members)) property.1 = members.lookup property.1 from rfl,
        Option.isNone_iff_eq_none] at habsent
      rw [habsent] at hsome
      cases hsome
  · rename_i hfind
    have hpresent : ∀ property ∈ properties, property.1 ∈ members.map (·.1) :=
      fun property hproperty => by
        have := find?_eq_none.1 hfind property ((hsorted property).2 hproperty)
        rw [Option.isNone_iff_eq_none, ← ne_eq, Option.ne_none_iff_isSome] at this
        exact AiOrg.lookup_isSome_iff.1 this
    have hunknown : ∀ name, name ∈ unknownNames (some (.object properties))
        (some (.object members)) ↔ name ∈ members.map (·.1) ∧ name ∉ properties.map (·.1) := by
      intro name
      rw [unknownNames, mem_insertionSort, mem_filter, Option.isNone_iff_eq_none,
        ← Option.not_isSome_iff_eq_none]
      exact and_congr_right fun _ => not_congr AiOrg.lookup_isSome_iff
    split
    · rename_i name names heq
      have hname := (hunknown name).1 (heq ▸ mem_cons_self)
      refine .reject fun h => hname.2 ?_
      obtain ⟨member, hmember, rfl⟩ := mem_map.1 hname.1
      cases h with
      | object _ hall _ => exact hnames ▸ hall member hmember
    · rename_i hnone
      refine (firstError_settles (P := fun property => ∀ value, (property.1, value) ∈ members →
        Accepts (expand property.2) value) fun property hproperty => ?_).congr ?_
      · have hmem := (hsorted property).1 hproperty
        obtain ⟨value, hvalue⟩ := Option.isSome_iff_exists.1
          (AiOrg.lookup_isSome_iff.2 (hpresent property hmem))
        rw [show lookup (some (Node.object members)) property.1 = some value from hvalue]
        have hvalueMem := AiOrg.mem_of_lookup hvalue
        refine (hcheck property hmem value hvalueMem _ _).congr ?_
        refine ⟨fun h => h value hvalueMem, fun h other hother => ?_⟩
        cases hvalue.symm.trans (AiOrg.lookup_of_mem hdistinct.nodup hother)
        exact h
      · constructor
        · intro h property hproperty value hvalue
          cases h with
          | object _ _ hall =>
            exact hall (property.1, expand property.2) (mem_map_of_mem
              (f := fun property : String × Node => (property.1, expand property.2))
              ((hsorted property).1 hproperty)) value hvalue
        · intro h
          refine .object (fun property hproperty => ?_) (fun member hmember => ?_)
            fun property hproperty value hvalue => ?_
          · obtain ⟨property', hproperty', rfl⟩ := mem_map.1 hproperty
            exact hpresent property' hproperty'
          · rw [hnames]
            by_contra hnot
            have hmem := (hunknown member.1).2 ⟨mem_map_of_mem hmember, hnot⟩
            rw [hnone] at hmem
            cases hmem
          · obtain ⟨property', hproperty', rfl⟩ := mem_map.1 hproperty
            exact h property' ((hsorted property').2 hproperty') value hvalue

end Nodes

/-! ### Runs -/

section Runs

variable {defs admitted : List (String × Node)} {isRoot : Bool} {node : Node} {schema : Schema}

theorem sliceFrom_prefix (rest : List Char) : sliceFrom SchemaGuard.definitionPrefix.length
    (SchemaGuard.definitionPrefix.toList ++ rest) = some rest := by
  have hstarts : SchemaGuard.definitionPrefix.toList = ['#', '/', '$', 'd', 'e', 'f', 's', '/'] := by
    decide
  have hlength : SchemaGuard.definitionPrefix.length = 8 := by decide
  rw [hstarts, hlength]
  simp [sliceFrom, Char.utf8Size]

theorem sliceFrom_of_referencedName {ref : Node} {name : String}
    (h : SchemaGuard.referencedName ref = some name) :
    ∃ rest, sliceFrom SchemaGuard.definitionPrefix.length (text ref).toList = some rest ∧
      String.ofList rest = name := by
  unfold SchemaGuard.referencedName at h
  split at h
  · rename_i text
    split_ifs at h with hstarts
    obtain ⟨rest, hrest⟩ := isPrefixOf_iff_prefix.1 hstarts
    refine ⟨rest, ?_, ?_⟩
    · show sliceFrom SchemaGuard.definitionPrefix.length text.toList = some rest
      rw [← hrest, sliceFrom_prefix]
    · rw [← Option.some.inj h, ← hrest, ← String.length_toList, drop_left]
  · cases h

section Step

variable {fuel : ℕ} {value target : Node} {schemaPath instancePath : String}

theorem validate_ref {ref : Node} {name : String} (href : node.lookup "$ref" = some ref)
    (hname : SchemaGuard.referencedName ref = some name)
    (htarget : admitted.lookup name = some target) :
    validate admitted (fuel + 1) (some node) (some value) schemaPath instancePath =
      validate admitted fuel (some target) (some value) (joinPointer "/$defs" name)
        instancePath := by
  obtain ⟨rest, hslice, rfl⟩ := sliceFrom_of_referencedName hname
  have href' : lookup (some node) "$ref" = some ref := href
  rw [validate.eq_def]
  simp only [href', hslice, htarget]

theorem validate_union {anyOf : Node} (href : node.lookup "$ref" = none)
    (hanyOf : node.lookup "anyOf" = some anyOf) :
    validate admitted (fuel + 1) (some node) (some value) schemaPath instancePath =
      validateAnyOf (validate admitted fuel) anyOf (some value) schemaPath instancePath := by
  have href' : lookup (some node) "$ref" = none := href
  have hanyOf' : lookup (some node) "anyOf" = some anyOf := hanyOf
  rw [validate.eq_def]
  simp only [href', hanyOf']

theorem validate_typed {typeNode : Node} (href : node.lookup "$ref" = none)
    (hanyOf : node.lookup "anyOf" = none) (htype : lookup (some node) "type" = some typeNode) :
    validate admitted (fuel + 1) (some node) (some value) schemaPath instancePath =
      validateTyped (validate admitted fuel) (some node) typeNode value schemaPath
        instancePath := by
  have href' : lookup (some node) "$ref" = none := href
  have hanyOf' : lookup (some node) "anyOf" = none := hanyOf
  rw [validate.eq_def]
  simp only [href', hanyOf', htype]

end Step

/-- A run that settles what it should on all values. -/
def SettlesAt (admitted : List (String × Node)) (node : Node) (schema : Schema) (fuel : ℕ) : Prop :=
  ∀ value : Node, value.Distinct → ∀ schemaPath instancePath, Settles
    (validate admitted fuel (some node) (some value) schemaPath instancePath) (Accepts schema value)

theorem eventually_succ {P Q : ℕ → Prop} (h : ∀ᶠ n in atTop, P n) (hstep : ∀ n, P n → Q (n + 1)) :
    ∀ᶠ n in atTop, Q n := by
  obtain ⟨bound, hbound⟩ := Filter.eventually_atTop.1 h
  refine Filter.eventually_atTop.2 ⟨bound + 1, fun n hn => ?_⟩
  obtain ⟨m, rfl⟩ : ∃ m, n = m + 1 := ⟨n - 1, by omega⟩
  exact hstep m (hbound m (by omega))

theorem validate_settles (hdefs : ∀ name target, defs.lookup name = some target →
    admitted.lookup name = some target) (h : Expands defs isRoot node schema) :
    ∀ᶠ fuel in atTop, SettlesAt admitted node schema fuel := by
  induction h with
  | @ref isRoot node target name schema hform htarget _ ih =>
    obtain ⟨ref, href, hname⟩ := SchemaGuard.view_ref hform.view
    refine eventually_succ ih fun fuel hfuel value hdistinct schemaPath instancePath => ?_
    rw [validate_ref href hname (hdefs _ _ htarget)]
    exact hfuel value hdistinct _ _
  | @union isRoot node branches expand hform _ ih =>
    obtain ⟨href, hanyOf⟩ := SchemaGuard.view_union hform.view
    have hall := (Filter.eventually_all_finite (finite_toSet branches)).2 ih
    refine eventually_succ hall fun fuel hfuel value hdistinct schemaPath instancePath => ?_
    rw [validate_union href hanyOf]
    exact anyOf_settles rfl fun branch hbranch => hfuel branch hbranch value hdistinct
  | @object isRoot node properties expand hform _ ih =>
    obtain ⟨href, hanyOf, htyped⟩ := SchemaGuard.view_typed hform.view (by simp) (by simp)
    obtain ⟨htype, hproperties⟩ := SchemaGuard.typedView_object htyped
    obtain ⟨typeNode, hlookup, hadmitted⟩ := text_of_type htype
    have hall := (Filter.eventually_all_finite (finite_toSet properties)).2 ih
    refine eventually_succ hall fun fuel hfuel value hdistinct schemaPath instancePath => ?_
    rw [validate_typed href hanyOf hlookup]
    unfold validateTyped
    rw [SchemaGuard.admittedType_eq_object.1 hadmitted]
    cases value with
    | object members =>
      exact object_settles hproperties hdistinct fun property hproperty value hvalue =>
        hfuel property hproperty value (hdistinct.of_mem hvalue)
    | _ => exact typeError_settles fun h => by cases h
  | @array isRoot node items schema hform _ ih =>
    obtain ⟨href, hanyOf, htyped⟩ := SchemaGuard.view_typed hform.view (by simp) (by simp)
    obtain ⟨htype, hitems⟩ := SchemaGuard.typedView_array htyped
    obtain ⟨typeNode, hlookup, hadmitted⟩ := text_of_type htype
    refine eventually_succ ih fun fuel hfuel value hdistinct schemaPath instancePath => ?_
    rw [validate_typed href hanyOf hlookup]
    refine array_settles hadmitted hitems ?_
    rintro elements rfl element helement
    exact hfuel element (hdistinct.of_mem_array helement)
  | @scalar isRoot node type enum hform =>
    obtain ⟨href, hanyOf, htyped⟩ := SchemaGuard.view_typed hform.view (by simp) (by simp)
    obtain ⟨htype, henum⟩ := SchemaGuard.typedView_scalar htyped
    obtain ⟨typeNode, hlookup, hadmitted⟩ := text_of_type htype
    refine eventually_succ (.of_forall fun _ => trivial) fun fuel _ value _ schemaPath instancePath =>
      ?_
    rw [validate_typed href hanyOf hlookup]
    exact scalar_settles hadmitted henum hform.valid
  | @null isRoot node hform =>
    obtain ⟨href, hanyOf, htyped⟩ := SchemaGuard.view_typed hform.view (by simp) (by simp)
    obtain ⟨typeNode, hlookup, hadmitted⟩ := text_of_type (SchemaGuard.typedView_null htyped)
    have henum : node.lookup "enum" = none := by
      rw [Option.eq_none_iff_forall_ne_some]
      intro value hvalue
      have := hform.keywords _ (Node.mem_of_lookup hvalue)
      simp [Form.keywords] at this
    refine eventually_succ (.of_forall fun _ => trivial) fun fuel _ value _ schemaPath instancePath =>
      ?_
    rw [validate_typed href hanyOf hlookup]
    exact null_settles hadmitted henum

theorem lookup_admittedDefinitions {root : Node} (hdistinct : root.Distinct) {name : String}
    {target : Node} (h : (definitions root).lookup name = some target) :
    (admittedDefinitions root).lookup name = some target := by
  obtain ⟨defs, hlookup, hmem, -⟩ := SchemaGuard.mem_definitions (AiOrg.mem_of_lookup h)
  have hmembers : admittedDefinitions root = defs.members.reverse := by
    rw [admittedDefinitions, hlookup]
    rfl
  rw [hmembers]
  refine AiOrg.lookup_of_mem ?_ (mem_reverse.2 hmem)
  rw [map_reverse, nodup_reverse]
  exact (hdistinct.of_lookup hlookup).nodup

/-- On a schema that the guard admitted the validator always comes to a verdict, with a bound on how
deep it goes that does not depend on the instance. It accepts just the documents whose value satisfies
the schema with its references replaced by what they refer to. -/
theorem validateAdmitted_exact {Digest : Type} [DecidableEq Digest] (source : Source)
    (quote : String → String) (sum256 : List UInt8 → Digest) (bytes : List UInt8)
    (admission : Admission Digest) (hadmitted : Guard source quote sum256 bytes = .ok admission) :
    ∃ root schema, Parse source bytes = .ok root ∧ Expands (definitions root) true root schema ∧
      ∃ bound, ∀ fuel ≥ bound, ∀ inst, ∃ verdict,
        ValidateAdmitted source sum256 fuel admission inst = .ok verdict ∧
          (verdict = none ↔ ∃ value, Parse source inst = .ok value ∧ Accepts schema value) := by
  obtain ⟨rfl, root, hparse, hprofile⟩ := SchemaGuard.guard_eq_ok.1 hadmitted
  obtain ⟨schema, hschema⟩ := hprofile.expands
  have hdistinct := StrictJson.parse_distinct hparse
  obtain ⟨bound, hbound⟩ := Filter.eventually_atTop.1 (validate_settles
    (fun _ _ => lookup_admittedDefinitions hdistinct) hschema)
  refine ⟨root, schema, hparse, hschema, bound, fun fuel hfuel inst => ?_⟩
  unfold ValidateAdmitted
  rw [if_neg (by simp), hparse]
  dsimp only
  rcases hinst : Parse source inst with e | value
  · exact ⟨_, rfl, by simp⟩
  · obtain ⟨verdict, hverdict, hiff⟩ :=
      hbound fuel hfuel value (StrictJson.parse_distinct hinst) "" ""
    refine ⟨verdict, hverdict, hiff.trans ⟨fun h => ⟨value, rfl, h⟩, ?_⟩⟩
    rintro ⟨other, hother, h⟩
    cases hother
    exact h

def kindDocument : Node :=
  .object [("$schema", .string SchemaGuard.draft202012URI), ("type", .string "object"),
    ("properties", .object [("kind", .object [("$ref", .string "#/$defs/Kind")])]),
    ("required", .array [.string "kind"]), ("additionalProperties", .bool false),
    ("$defs", .object [("Kind", .object [("type", .string "string"),
      ("enum", .array [.string "a", .string "b"])])])]

def kindBytes : List UInt8 :=
  asciiBytes ("\x7b\"$schema\":\"https://json-schema.org/draft/2020-12/schema\",\"type\":\"object\"," ++
    "\"properties\":\x7b\"kind\":\x7b\"$ref\":\"#/$defs/Kind\"\x7d\x7d,\"required\":[\"kind\"]," ++
    "\"additionalProperties\":false,\"$defs\":\x7b\"Kind\":\x7b\"type\":\"string\",\"enum\":[\"a\",\"b\"]\x7d\x7d\x7d")

/-- The lexemes of `kindBytes`. -/
def kindSource : Source where
  utf8Valid _ := true
  lexemes src := if src = kindBytes then
    [(.token (.delim .openObject), 1), (.token (.string "$schema"), 10), (.colon, 11),
      (.token (.string "https://json-schema.org/draft/2020-12/schema"), 57), (.comma, 58),
      (.token (.string "type"), 64), (.colon, 65), (.token (.string "object"), 73), (.comma, 74),
      (.token (.string "properties"), 86), (.colon, 87), (.token (.delim .openObject), 88),
      (.token (.string "kind"), 94), (.colon, 95), (.token (.delim .openObject), 96),
      (.token (.string "$ref"), 102), (.colon, 103), (.token (.string "#/$defs/Kind"), 117),
      (.token (.delim .closeObject), 118), (.token (.delim .closeObject), 119), (.comma, 120),
      (.token (.string "required"), 130), (.colon, 131), (.token (.delim .openArray), 132),
      (.token (.string "kind"), 138), (.token (.delim .closeArray), 139), (.comma, 140),
      (.token (.string "additionalProperties"), 162), (.colon, 163), (.token (.bool false), 168),
      (.comma, 169), (.token (.string "$defs"), 176), (.colon, 177),
      (.token (.delim .openObject), 178), (.token (.string "Kind"), 184), (.colon, 185),
      (.token (.delim .openObject), 186), (.token (.string "type"), 192), (.colon, 193),
      (.token (.string "string"), 201), (.comma, 202), (.token (.string "enum"), 208),
      (.colon, 209), (.token (.delim .openArray), 210), (.token (.string "a"), 213),
      (.comma, 214), (.token (.string "b"), 217), (.token (.delim .closeArray), 218),
      (.token (.delim .closeObject), 219), (.token (.delim .closeObject), 220),
      (.token (.delim .closeObject), 221)]
    else []

/-- The digest of `kindBytes`. -/
def kindSum256 (src : List UInt8) : String :=
  if src = kindBytes then "a2274a74a6cf43b64ba74b2a5ddc088e482b9393a636be53c75e338ff3d96030"
  else ""

theorem guard_kind : Guard kindSource SchemaGuard.quoteName kindSum256 kindBytes =
    .ok ⟨kindBytes, kindSum256 kindBytes⟩ := by
  have hparse : Parse kindSource kindBytes = .ok kindDocument := by decide +kernel
  have hnone : SchemaGuard.collectDiagnostics SchemaGuard.quoteName kindDocument = [] := by
    decide +kernel
  exact SchemaGuard.guard_eq_ok.2 ⟨rfl, kindDocument, hparse,
    (SchemaGuard.collectDiagnostics_eq_nil (StrictJson.parse_distinct hparse)).1 hnone⟩

theorem validateAdmitted_exact_kind :
    ∃ root schema, Parse kindSource kindBytes = .ok root ∧
      Expands (definitions root) true root schema ∧ ∃ bound, ∀ fuel ≥ bound, ∀ inst, ∃ verdict,
        ValidateAdmitted kindSource kindSum256 fuel ⟨kindBytes, kindSum256 kindBytes⟩ inst =
          .ok verdict ∧
          (verdict = none ↔ ∃ value, Parse kindSource inst = .ok value ∧ Accepts schema value) :=
  validateAdmitted_exact kindSource SchemaGuard.quoteName kindSum256 kindBytes
    ⟨kindBytes, kindSum256 kindBytes⟩ guard_kind

end Runs

end JsonSchemaValidate

end AiOrg
