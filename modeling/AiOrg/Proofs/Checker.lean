import AiOrg.Proofs.Context

/-!
# The recursive checker

The checker accepts a node just where it has an expansion in which `null` and unions stand as they
may. It then returns the metrics of that expansion and has marked the definitions it reaches.
-/

namespace AiOrg

open List

namespace SchemaGuard

open StrictJson (Node joinPointer Equal)

namespace Checker

variable {node : Node} {path : String} {isRoot : Bool} {quote : String → String}

section Checks

theorem check_bind_eq_ok {α : Type} {p : Prop} [Decidable p] {e : Error} {f : Unit → Except Error α}
    {a : α} : (check p e >>= f) = .ok a ↔ p ∧ f () = .ok a := by
  unfold check
  split_ifs with h
  · simp [h, bind, Except.bind]
  · simp [h, bind, Except.bind]

theorem bind_eq_ok_iff {α β : Type} {x : Except Error α} {f : α → Except Error β} {b : β} :
    (x >>= f) = .ok b ↔ ∃ a, x = .ok a ∧ f a = .ok b := by
  cases x <;> simp [bind, Except.bind]

theorem unit_bind_eq_ok {α : Type} {x : Except Error Unit} {f : Unit → Except Error α} {a : α} :
    (x >>= f) = .ok a ↔ x = .ok () ∧ f () = .ok a := by
  rw [bind_eq_ok_iff]
  exact ⟨fun ⟨_, hx, ha⟩ => ⟨hx, ha⟩, fun ⟨hx, ha⟩ => ⟨(), hx, ha⟩⟩

theorem checkKeywords_eq_ok {members : List (String × Node)} :
    checkKeywords path isRoot members = .ok () ↔ ∀ member ∈ members, allowedKeyword member.1 ∧
      (isRoot ∨ ¬ (member.1 = "$schema" ∨ member.1 = "$defs")) := by
  induction members with
  | nil => simp [checkKeywords]
  | cons member members ih =>
    rw [checkKeywords, check_bind_eq_ok, check_bind_eq_ok, ih, forall_mem_cons, and_assoc]

theorem local_eq_ok : checkKeywords path isRoot node.sortedMembers = .ok () ∧
    checkDescription node path = .ok () ∧ checkRoot node path isRoot = .ok () ↔
      KeywordsAllowed isRoot node ∧ (∀ text ∈ node.lookup "description", text.isString) ∧
        (isRoot → node.lookup "$ref" = none ∧ node.lookup "anyOf" = none ∧
          typeText node = some "object") := by
  have hkeywords : checkKeywords path isRoot node.sortedMembers = .ok () ↔
      KeywordsAllowed isRoot node := by
    rw [checkKeywords_eq_ok]
    constructor
    · intro h
      have hmembers := fun member hmember => h member (Node.mem_sortedMembers.2 hmember)
      refine ⟨fun member hmember => (hmembers member hmember).1, ?_⟩
      cases isRoot
      · refine .inr fun member hmember => ?_
        simpa using (hmembers member hmember).2
      · exact .inl rfl
    · rintro ⟨hallowed, hroot⟩ member hmember
      have hmem := Node.mem_sortedMembers.1 hmember
      exact ⟨hallowed member hmem, hroot.imp id fun h => not_or.2 (h member hmem)⟩
  have hdescription : checkDescription node path = .ok () ↔
      ∀ text ∈ node.lookup "description", text.isString := by
    rw [checkDescription, check_eq_ok, Option.all_eq_true]
    rfl
  have hroot : checkRoot node path isRoot = .ok () ↔
      (isRoot → node.lookup "$ref" = none ∧ node.lookup "anyOf" = none ∧
        typeText node = some "object") := by
    rw [checkRoot, check_eq_ok]
    simp
  rw [hkeywords, hdescription, hroot]

theorem onlyKeywords_iff {allowed : List String} : onlyKeywords node allowed ↔
    ∀ member ∈ node.members, member.1 ∈ allowed := by
  simp [onlyKeywords]

theorem checkRequired_eq_ok {elements : List Node} {i : ℕ} {seen : List String} :
    checkRequired path i seen elements = .ok () ↔ (∀ entry ∈ elements, entry.isString) ∧
      (requiredNames elements).Nodup ∧ ∀ name ∈ requiredNames elements, name ∉ seen := by
  rw [← @requiredErrors_eq_nil path elements i seen]
  induction elements generalizing i seen with
  | nil => simp [checkRequired, requiredErrors]
  | cons element elements ih =>
    cases element with
    | string text =>
      rw [checkRequired, requiredErrors, check_bind_eq_ok, ih, append_eq_nil_iff, addIf_eq_nil]
    | _ => simp [checkRequired, requiredErrors]

theorem checkCandidates_eq_ok {type : ScalarType} {candidates : List Node} {i : ℕ}
    {before : List Node} : checkCandidates path type i before candidates = .ok () ↔
      candidateErrors path type i before candidates = [] := by
  induction candidates generalizing i before with
  | nil => simp [checkCandidates, candidateErrors]
  | cons candidate candidates ih =>
    rw [checkCandidates, candidateErrors, check_bind_eq_ok, check_bind_eq_ok, ih,
      append_eq_nil_iff, append_eq_nil_iff, addIf_eq_nil, addIf_eq_nil, and_assoc]
    simp

theorem validateEnum_eq_ok {type : ScalarType} : validateEnum node path type = .ok () ↔
    ∃ enum : Option (List Node), node.lookup "enum" = enum.map .array ∧
      ∀ candidates ∈ enum, IsEnum type candidates := by
  rw [← @collectEnum_eq_nil path node type]
  unfold validateEnum collectEnum
  rcases node.lookup "enum" with _ | (_ | _ | _ | _ | (_ | ⟨candidate, rest⟩) | _)
  case some.array.cons => exact checkCandidates_eq_ok
  all_goals simp

theorem checkProperties_eq_ok {required : List String} {members : List (String × Node)} :
    checkProperties quote path required members = .ok () ↔
      ∀ member ∈ members, member.1 ∈ required := by
  induction members with
  | nil => simp [checkProperties]
  | cons member members ih =>
    rw [checkProperties, check_bind_eq_ok, ih, forall_mem_cons]

theorem checkExtra_eq_ok {properties : List (String × Node)} {required : List String} :
    checkExtra quote path (.object properties) required = .ok () ↔
      ∀ name ∈ required, name ∈ properties.map (·.1) := by
  have hsort : ∀ l : List String, l.insertionSort (· ≤ ·) = [] ↔ l = [] := fun l => by
    rw [← length_eq_zero_iff, length_insertionSort, length_eq_zero_iff]
  unfold checkExtra
  constructor
  · intro h name hname
    split at h
    · next hnil =>
      rw [hsort, filter_eq_nil_iff] at hnil
      rw [mem_names_iff]
      simpa using hnil name (mem_dedup.2 hname)
    · cases h
  · intro h
    have hnil : (required.dedup.filter fun name =>
        ((Node.object properties).lookup name).isNone).insertionSort (· ≤ ·) = [] := by
      rw [hsort, filter_eq_nil_iff]
      intro name hname
      simpa using mem_names_iff.1 (h name (mem_dedup.1 hname))
    rw [hnil]

end Checks

/-! ### Forms -/

section Forms

variable {validate : Place → Bool → List String → Checker → Result} {defs : List (String × Node)}
  {place : Place} {allowNull : Bool} {refStack : List String} {c : Checker} {out : Metrics × Checker}

def Runs (validate : Place → Bool → List String → Checker → Result)
    (defs : List (String × Node)) (place : Place) (allowNull : Bool) (refStack : List String)
    (c : Checker) (out : Metrics × Checker) : Form → Prop
  | .ref name => ∃ target, defs.lookup name = some target ∧ name ∉ refStack ∧
      validate (joinPointer "/$defs" name, target) allowNull (name :: refStack)
        { c with reached := name :: c.reached } = .ok out
  | .union branches => validateBranches (fun branch => validate branch true refStack) defs 0
      (elementPlaces (joinPointer place.1 "anyOf") branches) ⟨0, 1, place.1⟩ c = .ok out
  | .object properties => validateProperties (fun child => validate child false refStack)
      (memberPlaces (joinPointer place.1 "properties") (.object properties))
      ⟨properties.length, 1, place.1⟩ c = .ok out
  | .array items => ∃ m c', validate (joinPointer place.1 "items", items) false refStack c =
      .ok (m, c') ∧ out = (⟨m.properties, 1 + m.height, m.deepestPath⟩, c')
  | .scalar _ _ => out = (⟨0, 1, place.1⟩, c)
  | .null => allowNull = true ∧ out = (⟨0, 1, place.1⟩, c)

theorem isObject_of_validateBranches {validate : Place → Checker → Result} {n : ℕ}
    {branches : List Place} {result : Metrics} {c : Checker} {out : Metrics × Checker}
    (h : validateBranches validate defs n branches result c = .ok out) :
    ∀ branch ∈ branches, branch.2.isObject := by
  induction branches generalizing n result c with
  | nil => simp
  | cons branch branches ih =>
    rw [validateBranches, check_bind_eq_ok, check_bind_eq_ok, bind_eq_ok_iff] at h
    obtain ⟨hobject, -, ⟨m, c'⟩, -, h⟩ := h
    exact forall_mem_cons.2 ⟨hobject, ih (check_bind_eq_ok.1 h).2⟩

theorem isObject_of_validateProperties {validate : Place → Checker → Result}
    {properties : List Place} {result : Metrics} {c : Checker} {out : Metrics × Checker}
    (h : validateProperties validate properties result c = .ok out) :
    ∀ property ∈ properties, property.2.isObject := by
  induction properties generalizing result c with
  | nil => simp
  | cons property properties ih =>
    rw [validateProperties, check_bind_eq_ok, bind_eq_ok_iff] at h
    obtain ⟨hobject, ⟨m, c'⟩, -, h⟩ := h
    exact forall_mem_cons.2 ⟨hobject, ih h⟩

theorem validateObject_eq_ok {validate : Place → Checker → Result} :
    validateObject quote validate node path c = .ok out ↔ ∃ properties,
      node.lookup "properties" = some (.object properties) ∧ (Form.object properties).Valid node ∧
        validateProperties validate
          (memberPlaces (joinPointer path "properties") (.object properties))
          ⟨properties.length, 1, path⟩ c = .ok out := by
  have hlength : ∀ properties : List (String × Node),
      (Node.object properties).sortedMembers.length = properties.length := fun properties =>
    (Node.sortedMembers_perm (.object properties)).length_eq
  unfold validateObject
  obtain hnone | ⟨properties, hlookup, hproperties⟩ := propertiesObject_eq node
  · rw [hnone]
    refine iff_of_false (by simp) ?_
    rintro ⟨properties, hlookup, -⟩
    rw [propertiesObject_of_lookup hlookup] at hnone
    cases hnone
  rw [hproperties]
  obtain hnone | ⟨required, hlookup', hrequired⟩ := requiredElements_eq node
  · rw [hnone]
    refine iff_of_false (by simp) ?_
    rintro ⟨properties, -, ⟨-, -, required, hlookup', -⟩, -⟩
    rw [requiredElements_of_lookup hlookup'] at hnone
    cases hnone
  rw [hrequired]
  dsimp only
  rw [check_bind_eq_ok, unit_bind_eq_ok, unit_bind_eq_ok, unit_bind_eq_ok, checkRequired_eq_ok,
    checkProperties_eq_ok, checkExtra_eq_ok, hlength]
  constructor
  · rintro ⟨hadditional, ⟨hstrings, hnodup, -⟩, hnames, hextra, hrun⟩
    have hobjects : ∀ property ∈ properties, property.2.isObject := fun property hproperty =>
      isObject_of_validateProperties hrun (joinPointer (joinPointer path "properties") property.1,
        property.2) (mem_map.2 ⟨property, Node.mem_sortedMembers.2 hproperty, rfl⟩)
    refine ⟨properties, hlookup, ⟨hobjects, hadditional, required, hlookup', hstrings, hnodup,
      fun name => ⟨hextra name, fun hname => ?_⟩⟩, hrun⟩
    obtain ⟨property, hproperty, rfl⟩ := mem_map.1 hname
    exact hnames property (Node.mem_sortedMembers.2 hproperty)
  · rintro ⟨properties', hlookup₂, ⟨-, hadditional, required', hlookup₃, hvalid⟩, hrun⟩
    cases hlookup.symm.trans hlookup₂
    cases hlookup'.symm.trans hlookup₃
    exact ⟨hadditional, ⟨hvalid.strings, hvalid.unique, by simp⟩, fun property hproperty =>
      (hvalid.names property.1).2 (mem_map_of_mem (Node.mem_sortedMembers.1 hproperty)),
      fun name => (hvalid.names name).1, hrun⟩

theorem validateTyped_eq_ok (defs : List (String × Node)) (hroot : isRoot → typeText node = some "object")
    (hplace : place = (path, node)) :
    validateTyped quote (fun child => validate child false refStack) node path isRoot allowNull c =
        .ok out ↔ ∃ form, typedView node = some form ∧
      (∀ member ∈ node.members, member.1 ∈ form.keywords isRoot) ∧ form.Valid node ∧
        Runs validate defs place allowNull refStack c out form := by
  have hnotRoot : ∀ {type : SchemaType}, (typeText node).bind admittedType = some type →
      type ≠ .object → isRoot = false := fun htype hne => by
    rw [← Bool.not_eq_true]
    intro h
    rw [hroot h, Option.bind_some, admittedType_eq_object.2 rfl] at htype
    exact hne (Option.some.inj htype).symm
  subst hplace
  unfold validateTyped
  rcases htext : typeText node with _ | text
  · refine iff_of_false (by simp) ?_
    rintro ⟨form, hview, -⟩
    simp [typedView, htext] at hview
  rcases htype : admittedType text with _ | type
  · refine iff_of_false (by simp [htype]) ?_
    rintro ⟨form, hview, -⟩
    simp [typedView, htext, htype] at hview
  have hbind : (typeText node).bind admittedType = some type := by
    rw [htext, Option.bind_some, htype]
  dsimp only
  rw [htype]
  rcases type with _ | _ | type | _
  · dsimp only
    rw [check_bind_eq_ok, validateObject_eq_ok, onlyKeywords_iff]
    constructor
    · rintro ⟨hkeywords, properties, hlookup, hvalid, hrun⟩
      exact ⟨.object properties, by simp [typedView, hbind, hlookup], hkeywords, hvalid, hrun⟩
    · rintro ⟨form, hview, hkeywords, hvalid, hrun⟩
      obtain ⟨properties, rfl⟩ := typedView_of_object hview (typeText_of_object hbind)
      exact ⟨hkeywords, properties, (typedView_object hview).2, hvalid, hrun⟩
  · have hroot' := hnotRoot hbind (by simp)
    dsimp only
    rw [check_bind_eq_ok, onlyKeywords_iff, hroot', validateArray]
    constructor
    · rintro ⟨⟨-, hkeywords⟩, hrun⟩
      split at hrun
      · next members hlookup =>
        obtain ⟨⟨m, c'⟩, hitems, heq⟩ := bind_eq_ok_iff.1 hrun
        exact ⟨.array (.object members), by simp [typedView, hbind, hlookup], hkeywords, rfl, m, c',
          hitems, (Except.ok.inj heq).symm⟩
      · cases hrun
    · rintro ⟨form, hview, hkeywords, hvalid, hrun⟩
      rw [typedView, hbind] at hview
      obtain ⟨items, hlookup, rfl⟩ := Option.map_eq_some_iff.1 hview
      obtain ⟨members, rfl⟩ := Node.isObject_iff.1 hvalid
      obtain ⟨m, c', hrun, rfl⟩ := hrun
      rw [hlookup]
      exact ⟨⟨rfl, hkeywords⟩, bind_eq_ok_iff.2 ⟨_, hrun, rfl⟩⟩
  · have hroot' := hnotRoot hbind (by simp)
    dsimp only
    rw [check_bind_eq_ok, onlyKeywords_iff, hroot', unit_bind_eq_ok, validateEnum_eq_ok]
    constructor
    · rintro ⟨⟨-, hkeywords⟩, ⟨enum, henum, hvalid⟩, heq⟩
      refine ⟨.scalar type enum, ?_, hkeywords, hvalid, (Except.ok.inj heq).symm⟩
      cases enum <;> simp_all [typedView]
    · rintro ⟨form, hview, hkeywords, hvalid, hrun⟩
      have hform : ∃ enum, form = .scalar type enum := by
        rw [typedView, hbind] at hview
        dsimp only at hview
        split at hview
        · exact ⟨_, (Option.some.inj hview).symm⟩
        · exact ⟨_, (Option.some.inj hview).symm⟩
        · cases hview
      obtain ⟨enum, rfl⟩ := hform
      exact ⟨⟨rfl, hkeywords⟩, ⟨enum, (typedView_scalar hview).2, hvalid⟩, by rw [hrun]⟩
  · have hroot' := hnotRoot hbind (by simp)
    dsimp only
    rw [check_bind_eq_ok, check_bind_eq_ok, onlyKeywords_iff, hroot']
    constructor
    · rintro ⟨⟨-, hnull⟩, hkeywords, heq⟩
      exact ⟨.null, by simp [typedView, hbind], hkeywords, trivial, hnull,
        (Except.ok.inj heq).symm⟩
    · rintro ⟨form, hview, hkeywords, -, hrun⟩
      rw [typedView, hbind] at hview
      cases hview
      obtain ⟨hnull, rfl⟩ := hrun
      exact ⟨⟨rfl, hnull⟩, hkeywords, rfl⟩

/-- The choice of a form comes to an end just where the node has one and what is left to do does. -/
theorem validateForm_eq_ok (hdescription : ∀ text ∈ place.2.lookup "description", text.isString)
    (hroot : isRoot → place.2.lookup "$ref" = none ∧ place.2.lookup "anyOf" = none ∧
      typeText place.2 = some "object") :
    validateForm quote validate defs place isRoot allowNull refStack c = .ok out ↔
      ∃ form, HasForm isRoot place.2 form ∧
        Runs validate defs place allowNull refStack c out form := by
  unfold validateForm
  rcases href : place.2.lookup "$ref" with _ | ref
  swap
  · have hnotRoot : ∀ form, isRoot → ∃ properties, form = Form.object properties := fun form h => by
      rw [(hroot h).1] at href
      cases href
    dsimp only
    rw [check_bind_eq_ok, validateReference]
    constructor
    · rintro ⟨hlength, hrun⟩
      split at hrun
      · cases hrun
      · next name hname =>
        obtain ⟨hvalid, hrun⟩ := check_bind_eq_ok.1 hrun
        split at hrun
        · cases hrun
        · next target htarget =>
          obtain ⟨hfresh, hrun⟩ := check_bind_eq_ok.1 hrun
          refine ⟨.ref name, ⟨by simp [view, href, hname], fun member hmember => ?_, hdescription,
            ⟨hlength, hvalid⟩, hnotRoot _⟩, target, htarget, hfresh, hrun⟩
          rw [Form.keywords, mem_singleton]
          exact keywords_ref_iff href hlength member hmember
    · rintro ⟨form, hform, hrun⟩
      have hview := hform.view
      rw [view, href] at hview
      obtain ⟨name, hname, rfl⟩ := Option.map_eq_some_iff.1 hview
      obtain ⟨target, htarget, hfresh, hrun⟩ := hrun
      rw [hname]
      dsimp only
      rw [check_bind_eq_ok, htarget]
      exact ⟨hform.valid.1, hform.valid.2, check_bind_eq_ok.2 ⟨hfresh, hrun⟩⟩
  rcases hany : place.2.lookup "anyOf" with _ | anyOf
  swap
  · have hnotRoot : isRoot = false := by
      rw [← Bool.not_eq_true]
      intro h
      rw [(hroot h).2.1] at hany
      cases hany
    dsimp only
    rw [check_bind_eq_ok, check_bind_eq_ok, onlyKeywords_iff, hnotRoot]
    constructor
    · rintro ⟨⟨htype, hkeywords⟩, -, hrun⟩
      unfold validateAnyOf at hrun
      split at hrun
      · next branches =>
        obtain ⟨hlength, hrun⟩ := check_bind_eq_ok.1 hrun
        have hobjects : ∀ branch ∈ branches, branch.isObject := fun branch hbranch => by
          rw [← elementPlaces_nodes (joinPointer place.1 "anyOf") branches] at hbranch
          obtain ⟨there, hthere, rfl⟩ := mem_map.1 hbranch
          exact isObject_of_validateBranches hrun there hthere
        exact ⟨.union branches, ⟨by simp [view, href, hany], hkeywords, hdescription,
          ⟨by simpa using htype, hlength, hobjects⟩, fun h => by cases h⟩, hrun⟩
      · cases hrun
    · rintro ⟨form, hform, hrun⟩
      have hview := hform.view
      rw [view, href, hany] at hview
      dsimp only at hview
      split at hview
      · next heq =>
        cases hview
        cases heq
        exact ⟨⟨by simp [hform.valid.1], hform.keywords⟩, rfl,
          check_bind_eq_ok.2 ⟨hform.valid.2.1, hrun⟩⟩
      · cases hview
      · next heq => cases heq
  dsimp only
  rw [check_bind_eq_ok, validateTyped_eq_ok defs (fun h => (hroot h).2.2) rfl]
  constructor
  · rintro ⟨-, form, hview, hkeywords, hvalid, hrun⟩
    have hform : view place.2 = some form := by
      rw [view, href, hany]
      exact hview
    exact ⟨form, ⟨hform, hkeywords, hdescription, hvalid, fun h =>
      typedView_of_object hview (hroot h).2.2⟩, hrun⟩
  · rintro ⟨form, hform, hrun⟩
    have hview : typedView place.2 = some form := by
      have := hform.view
      rwa [view, href, hany] at this
    obtain ⟨type, htype⟩ := lookup_type_of_typedView hview
    exact ⟨by simp [htype], form, hview, hform.keywords, hform.valid, hrun⟩

end Forms

/-! ### Runs -/

section Runs

variable {defs : List (String × Node)}

/-- What is remembered is right, and all that it reaches is marked. -/
def Inv (defs : List (String × Node)) (c : Checker) : Prop :=
  ∀ entry ∈ c.memo, (∃ schema, Expands defs entry.1.2.1 entry.1.1.2 schema ∧
    schema.NullSafe entry.1.2.2 ∧ Measures schema entry.2) ∧
      ∀ name, Reaches defs entry.1.1.2 name → name ∈ c.reached

theorem Inv.mark {c : Checker} (hinv : Inv defs c) (name : String) :
    Inv defs { c with reached := name :: c.reached } := fun entry hentry =>
  ⟨(hinv entry hentry).1, fun other hother =>
    mem_cons_of_mem _ ((hinv entry hentry).2 other hother)⟩

/-- What a part of the run leaves behind that has accepted all it met. -/
structure Accepted (defs : List (String × Node)) (reaches : String → Prop) (stands : Metrics → Prop)
    (c : Checker) (out : Metrics × Checker) : Prop where
  inv : Inv defs out.2
  grows : c.reached ⊆ out.2.reached
  marks : ∀ name ∈ out.2.reached, name ∈ c.reached ∨ reaches name
  covers : ∀ name, reaches name → name ∈ out.2.reached
  stands : stands out.1

abbrev AcceptedNode (defs : List (String × Node)) (isRoot allowNull : Bool) (node : Node) :=
  Accepted defs (Reaches defs node) fun m => ∃ schema, Expands defs isRoot node schema ∧
    schema.NullSafe allowNull ∧ Measures schema m

abbrev AcceptedChildren (defs : List (String × Node)) (allowNull : Bool) (edge : ℕ)
    (init : Metrics) (children : List Node) :=
  Accepted defs (fun name => ∃ child ∈ children, Reaches defs child name) fun m =>
    (∀ child ∈ children, ∃ schema, Expands defs false child schema ∧ schema.NullSafe allowNull) ∧
      Gathers edge init (children.map (expansion defs)) m

theorem Accepted.congr {reaches reaches' : String → Prop} {stands stands' : Metrics → Prop}
    {c : Checker} {out : Metrics × Checker} (h : Accepted defs reaches stands c out) {m : Metrics}
    (hreaches : ∀ name, reaches' name ↔ reaches name) (hstands : stands out.1 → stands' m) :
    Accepted defs reaches' stands' c (m, out.2) where
  inv := h.inv
  grows := h.grows
  marks := fun name hname => (h.marks name hname).imp id (hreaches name).2
  covers := fun name hname => h.covers name ((hreaches name).1 hname)
  stands := hstands h.stands

theorem AcceptedChildren.nil {allowNull : Bool} {edge : ℕ} {init : Metrics} {c : Checker}
    (hinv : Inv defs c) : AcceptedChildren defs allowNull edge init [] c (init, c) where
  inv := hinv
  grows := fun _ h => h
  marks := fun _ h => .inl h
  covers := by simp
  stands := ⟨by simp, Gathers.nil⟩

theorem AcceptedChildren.snoc {allowNull : Bool} {edge : ℕ} {init result m : Metrics}
    {children : List Node} {child : Node} {c₀ c c' : Checker}
    (h : AcceptedChildren defs allowNull edge init children c₀ (result, c))
    (hchild : AcceptedNode defs false allowNull child c (m, c')) :
    AcceptedChildren defs allowNull edge init (children ++ [child]) c₀
      (result.merge edge m, c') where
  inv := hchild.inv
  grows := fun _ hname => hchild.grows (h.grows hname)
  marks := fun name hname => by
    rcases hchild.marks name hname with hname | hname
    · rcases h.marks name hname with hname | ⟨other, hother, hname⟩
      · exact .inl hname
      · exact .inr ⟨other, mem_append_left _ hother, hname⟩
    · exact .inr ⟨child, by simp, hname⟩
  covers := fun name hname => by
    obtain ⟨other, hother, hname⟩ := hname
    rcases mem_append.1 hother with hother | hother
    · exact hchild.grows (h.covers name ⟨other, hother, hname⟩)
    · rw [mem_singleton.1 hother] at hname
      exact hchild.covers name hname
  stands := by
    obtain ⟨hall, hgathers⟩ := h.stands
    obtain ⟨schema, hschema, hsafe, hmeasures⟩ := hchild.stands
    refine ⟨fun other hother => ?_, ?_⟩
    · rcases mem_append.1 hother with hother | hother
      · exact hall other hother
      · rw [mem_singleton.1 hother]
        exact ⟨schema, hschema, hsafe⟩
    · rw [map_append, map_cons, map_nil, hschema.expansion_eq]
      exact hgathers.snoc hmeasures

theorem AcceptedNode.remember {place : Place} {isRoot allowNull : Bool} {c : Checker}
    {out : Metrics × Checker} (h : AcceptedNode defs isRoot allowNull place.2 c out) :
    AcceptedNode defs isRoot allowNull place.2 c (remember (place, isRoot, allowNull) out) where
  inv := fun entry hentry => by
    rcases mem_cons.1 hentry with rfl | hentry
    · exact ⟨h.stands, h.covers⟩
    · exact h.inv entry hentry
  grows := h.grows
  marks := h.marks
  covers := h.covers
  stands := h.stands

theorem isNullBranch_eq {branch : Node} {isRoot : Bool} {schema : Schema}
    (h : Expands defs isRoot branch schema) : isNullBranch defs branch = schema.isNull := by
  obtain ⟨resolved, hresolved, -, hnull⟩ := resolveBranch_shows h
  rw [isNullBranch, hresolved]
  exact hnull

theorem validateBranches_accepted {validate : Place → Checker → Result} {branches : List Place}
    (hvalidate : ∀ branch ∈ branches, ∀ c out, Inv defs c → validate branch c = .ok out →
      AcceptedNode defs false true branch.2 c out) {init : Metrics} {c₀ : Checker} :
    ∀ {n : ℕ} {before : List Node} {result : Metrics} {c : Checker} {out : Metrics × Checker},
      AcceptedChildren defs true 0 init before c₀ (result, c) →
      validateBranches validate defs n branches result c = .ok out →
      AcceptedChildren defs true 0 init (before ++ branches.map (·.2)) c₀ out ∧
        (∀ branch ∈ branches, ¬ (expansion defs branch.2).isAnyOf) ∧
          (0 < branches.countP (fun branch => (expansion defs branch.2).isNull) →
            n + branches.countP (fun branch => (expansion defs branch.2).isNull) ≤ 1) := by
  induction branches with
  | nil =>
    intro n before result c out hbefore h
    cases h
    exact ⟨by simpa using hbefore, by simp, by simp⟩
  | cons branch branches ih =>
    intro n before result c out hbefore h
    rw [validateBranches, check_bind_eq_ok, check_bind_eq_ok, bind_eq_ok_iff] at h
    obtain ⟨-, hflat, ⟨m, c'⟩, hrun, h⟩ := h
    obtain ⟨hsingle, h⟩ := check_bind_eq_ok.1 h
    have hbranch := hvalidate branch mem_cons_self c _ hbefore.inv hrun
    obtain ⟨schema, hschema, -, -⟩ := hbranch.stands
    obtain ⟨resolved, hresolved, hany, -⟩ := resolveBranch_shows hschema
    obtain ⟨hrest, hflats, hcount⟩ := ih (fun other hother =>
      hvalidate other (mem_cons_of_mem _ hother)) (hbefore.snoc hbranch) h
    rw [isNullBranch_eq hschema] at hsingle hcount
    refine ⟨by simpa using hrest, forall_mem_cons.2 ⟨?_, hflats⟩, ?_⟩
    · rw [hschema.expansion_eq, ← hany]
      rw [hresolved, Option.all_some] at hflat
      simpa using hflat
    · rw [countP_cons, hschema.expansion_eq]
      intro hpos
      rcases hnull : schema.isNull with _ | _
      · rw [hnull] at hpos hcount
        simpa using hcount (by simpa using hpos)
      · rw [hnull] at hcount hsingle
        have hn := hsingle rfl
        simp only [if_true] at hcount ⊢
        by_contra hnot
        have := hcount (by omega)
        omega

theorem validateProperties_accepted {validate : Place → Checker → Result} {properties : List Place}
    (hvalidate : ∀ property ∈ properties, ∀ c out, Inv defs c → validate property c = .ok out →
      AcceptedNode defs false false property.2 c out) {init : Metrics} {c₀ : Checker} :
    ∀ {before : List Node} {result : Metrics} {c : Checker} {out : Metrics × Checker},
      AcceptedChildren defs false 1 init before c₀ (result, c) →
      validateProperties validate properties result c = .ok out →
      AcceptedChildren defs false 1 init (before ++ properties.map (·.2)) c₀ out := by
  induction properties with
  | nil =>
    intro before result c out hbefore h
    cases h
    simpa using hbefore
  | cons property properties ih =>
    intro before result c out hbefore h
    rw [validateProperties, check_bind_eq_ok, bind_eq_ok_iff] at h
    obtain ⟨-, ⟨m, c'⟩, hrun, h⟩ := h
    have hproperty := hvalidate property mem_cons_self c _ hbefore.inv hrun
    have hrest := ih (fun other hother => hvalidate other (mem_cons_of_mem _ hother))
      (hbefore.snoc hproperty) h
    simpa using hrest

/-- The run at a node of a form, where what it does at other nodes accepts them. -/
theorem Runs.accepted {validate : Place → Bool → List String → Checker → Result} {place : Place}
    {isRoot allowNull : Bool} {refStack : List String} {c : Checker} {out : Metrics × Checker}
    {form : Form} (hvalidate : ∀ place allowNull refStack c out, Inv defs c →
      validate place allowNull refStack c = .ok out →
        AcceptedNode defs false allowNull place.2 c out)
    (hform : HasForm isRoot place.2 form) (hinv : Inv defs c)
    (h : Runs validate defs place allowNull refStack c out form) :
    AcceptedNode defs isRoot allowNull place.2 c out := by
  have hleaf : ∀ {m : Metrics} {schema : Schema}, (∀ name, form ≠ .ref name) →
      form.children = [] → Expands defs isRoot place.2 schema → schema.NullSafe allowNull →
      Measures schema m → AcceptedNode defs isRoot allowNull place.2 c (m, c) :=
    fun href hchildren hexpands hsafe hmeasures => by
      have hnone : ∀ name, ¬ Reaches defs place.2 name := fun name hname => by
        obtain ⟨child, hchild, -⟩ := (reaches_children hform.view href name).1 hname
        rw [hchildren] at hchild
        cases hchild
      exact ⟨hinv, fun _ h => h, fun _ h => .inl h, fun name hname => absurd hname (hnone name),
        _, hexpands, hsafe, hmeasures⟩
  rcases form with name | branches | properties | items | ⟨type, enum⟩ | _
  · obtain ⟨target, htarget, -, hrun⟩ := h
    have htargetAccepted := hvalidate _ _ _ { c with reached := name :: c.reached } _
      (hinv.mark name) hrun
    refine ⟨htargetAccepted.inv, fun _ h => htargetAccepted.grows (mem_cons_of_mem _ h),
      fun other hother => ?_, fun other hother => ?_, ?_⟩
    · rw [reaches_ref hform.view]
      rcases htargetAccepted.marks other hother with hother | hother
      · rcases mem_cons.1 hother with rfl | hother
        · exact .inr (.inl rfl)
        · exact .inl hother
      · exact .inr (.inr ⟨target, htarget, hother⟩)
    · rcases (reaches_ref hform.view other).1 hother with rfl | ⟨target', htarget', hother⟩
      · exact htargetAccepted.grows mem_cons_self
      · cases htarget.symm.trans htarget'
        exact htargetAccepted.covers other hother
    · obtain ⟨schema, hschema, hsafe, hmeasures⟩ := htargetAccepted.stands
      exact ⟨schema, .ref hform htarget hschema, hsafe, hmeasures⟩
  · have hplaces := elementPlaces_nodes (joinPointer place.1 "anyOf") branches
    obtain ⟨haccepted, hflat, hsingle⟩ := validateBranches_accepted
      (fun branch _ c out hinv h => hvalidate branch true refStack c out hinv h)
      (AcceptedChildren.nil hinv) h
    rw [nil_append, hplaces] at haccepted
    refine haccepted.congr (m := out.1) (reaches_children hform.view (by simp)) ?_
    rintro ⟨hall, hgathers⟩
    have hexpands : ∀ branch ∈ branches, Expands defs false branch (expansion defs branch) :=
      fun branch hbranch => by
        obtain ⟨schema, hschema, -⟩ := hall branch hbranch
        exact hschema.of_expansion
    refine ⟨_, .union (expansion defs) hform hexpands, .anyOf (fun part hpart => ?_) ?_
      fun part hpart => ?_, hgathers.union⟩
    · obtain ⟨branch, hbranch, rfl⟩ := mem_map.1 hpart
      rw [← hplaces] at hbranch
      obtain ⟨there, hthere, rfl⟩ := mem_map.1 hbranch
      exact hflat there hthere
    · have hcount : (branches.map (expansion defs)).countP Schema.isNull =
          (elementPlaces (joinPointer place.1 "anyOf") branches).countP
            (fun branch => (expansion defs branch.2).isNull) := by
        conv_lhs => rw [← hplaces]
        rw [countP_map, countP_map]
        rfl
      rw [hcount]
      omega
    · obtain ⟨branch, hbranch, rfl⟩ := mem_map.1 hpart
      obtain ⟨schema, hschema, hsafe⟩ := hall branch hbranch
      rwa [hschema.expansion_eq]
  · have hperm : ((Node.object properties).sortedMembers.map (·.2)).Perm (properties.map (·.2)) :=
      (Node.sortedMembers_perm (.object properties)).map _
    have haccepted := validateProperties_accepted
      (fun property _ c out hinv h => hvalidate property false refStack c out hinv h)
      (AcceptedChildren.nil hinv) h
    rw [nil_append, memberPlaces_nodes] at haccepted
    refine haccepted.congr (m := out.1) (fun name => ?_) ?_
    · rw [reaches_children hform.view (by simp)]
      exact exists_congr fun child => and_congr_left' hperm.mem_iff.symm
    rintro ⟨hall, hgathers⟩
    have hsafe : ∀ property ∈ properties, ∃ schema, Expands defs false property.2 schema ∧
        schema.NullSafe false := fun property hproperty =>
      hall property.2 (hperm.mem_iff.2 (mem_map_of_mem hproperty))
    have hgathered : Gathers 1 ⟨(properties.map fun property =>
        (property.1, expansion defs property.2)).length, 1, place.1⟩
        ((properties.map fun property => (property.1, expansion defs property.2)).map (·.2))
        out.1 := by
      have hsorted := hgathers.perm (hperm.map _)
      rw [map_map] at hsorted ⊢
      rw [length_map]
      exact hsorted
    refine ⟨_, .object (expansion defs) hform fun property hproperty => ?_, .object fun member
      hmember => ?_, hgathered.object⟩
    · obtain ⟨schema, hschema, -⟩ := hsafe property hproperty
      exact hschema.of_expansion
    · obtain ⟨property, hproperty, rfl⟩ := mem_map.1 hmember
      obtain ⟨schema, hschema, hsafe⟩ := hsafe property hproperty
      rwa [hschema.expansion_eq]
  · obtain ⟨m, c', hrun, rfl⟩ := h
    have hitems := hvalidate _ _ _ _ _ hinv hrun
    refine hitems.congr (fun name => ?_) ?_
    · rw [reaches_children hform.view (by simp)]
      simp [Form.children]
    · rintro ⟨schema, hschema, hsafe, hmeasures⟩
      refine ⟨_, .array hform hschema, .array hsafe, hmeasures.properties, ?_⟩
      show 1 + m.height = _
      rw [hmeasures.height, Schema.depth]
  · obtain rfl := h
    exact hleaf (by simp) rfl (.scalar hform) .scalar ⟨rfl, rfl⟩
  · obtain ⟨rfl, rfl⟩ := h
    exact hleaf (by simp) rfl (.null hform) .null ⟨rfl, rfl⟩

theorem validateNode_eq_ok {depth : ℕ} {place : Place} {isRoot allowNull : Bool}
    {refStack : List String} {c : Checker} {out : Metrics × Checker} :
    validateNode quote defs (depth + 1) place isRoot allowNull refStack c = .ok out ↔
      place.2.isObject ∧ ((∃ m, c.memo.lookup (place, isRoot, allowNull) = some m ∧ out = (m, c)) ∨
        c.memo.lookup (place, isRoot, allowNull) = none ∧ KeywordsAllowed isRoot place.2 ∧
          ∃ form result, HasForm isRoot place.2 form ∧
            Runs (fun child allowNull refStack c =>
              validateNode quote defs depth child false allowNull refStack c)
              defs place allowNull refStack c result form ∧
            out = remember (place, isRoot, allowNull) result) := by
  rw [validateNode, check_bind_eq_ok]
  refine and_congr_right fun _ => ?_
  rcases c.memo.lookup (place, isRoot, allowNull) with _ | m
  · dsimp only
    rw [unit_bind_eq_ok, unit_bind_eq_ok, unit_bind_eq_ok, ← and_assoc, ← and_assoc,
      and_assoc (a := checkKeywords place.1 isRoot place.2.sortedMembers = .ok ()), local_eq_ok,
      bind_eq_ok_iff]
    constructor
    · rintro ⟨⟨hkeywords, hdescription, hroot⟩, result, hform, heq⟩
      obtain ⟨form, hform, hruns⟩ := (validateForm_eq_ok hdescription hroot).1 hform
      exact .inr ⟨rfl, hkeywords, form, result, hform, hruns, (Except.ok.inj heq).symm⟩
    · rintro (⟨m, hm, -⟩ | ⟨-, hkeywords, form, result, hform, hruns, rfl⟩)
      · cases hm
      · have hroot : isRoot → place.2.lookup "$ref" = none ∧ place.2.lookup "anyOf" = none ∧
            typeText place.2 = some "object" := fun h => by
          obtain ⟨properties, rfl⟩ := hform.root h
          obtain ⟨href, hany, hview⟩ := view_typed hform.view (by simp) (by simp)
          exact ⟨href, hany, typeText_of_object (typedView_object hview).1⟩
        exact ⟨⟨hkeywords, hform.description, hroot⟩, result,
          (validateForm_eq_ok hform.description hroot).2 ⟨form, hform, hruns⟩, rfl⟩
  · simp [eq_comm]

theorem validateNode_accepted (depth : ℕ) : ∀ (place : Place) (isRoot allowNull : Bool)
    (refStack : List String) (c : Checker) (out : Metrics × Checker), Inv defs c →
    validateNode quote defs depth place isRoot allowNull refStack c = .ok out →
    AcceptedNode defs isRoot allowNull place.2 c out := by
  induction depth with
  | zero =>
    intro place isRoot allowNull refStack c out _ h
    cases h
  | succ depth ih =>
    intro place isRoot allowNull refStack c out hinv h
    obtain ⟨-, ⟨m, hmemo, rfl⟩ | ⟨-, -, form, result, hform, hruns, rfl⟩⟩ :=
      validateNode_eq_ok.1 h
    · obtain ⟨before, after, hmemo, -⟩ := lookup_eq_some_iff.1 hmemo
      obtain ⟨hstands, hcovers⟩ := hinv ((place, isRoot, allowNull), m) (by simp [hmemo])
      exact ⟨hinv, fun _ h => h, fun _ h => .inl h, hcovers, hstands⟩
    · exact (Runs.accepted (fun place allowNull refStack c out => ih place false allowNull refStack c
        out) hform hinv hruns).remember

theorem validateBranches_complete {validate : Place → Checker → Result} {branches : List Place}
    (hobjects : ∀ branch ∈ branches, branch.2.isObject)
    (hexpands : ∀ branch ∈ branches, ∃ schema, Expands defs false branch.2 schema ∧
      ¬ schema.isAnyOf)
    (hvalidate : ∀ branch ∈ branches, ∀ c, Inv defs c →
      ∃ out, validate branch c = .ok out ∧ Inv defs out.2) :
    ∀ {n : ℕ} {result : Metrics} {c : Checker}, Inv defs c →
      (0 < branches.countP (fun branch => (expansion defs branch.2).isNull) →
        n + branches.countP (fun branch => (expansion defs branch.2).isNull) ≤ 1) →
      ∃ out, validateBranches validate defs n branches result c = .ok out := by
  induction branches with
  | nil => exact fun _ _ => ⟨_, rfl⟩
  | cons branch branches ih =>
    intro n result c hinv hcount
    obtain ⟨schema, hschema, hflat⟩ := hexpands branch mem_cons_self
    obtain ⟨resolved, hresolved, hany, -⟩ := resolveBranch_shows hschema
    obtain ⟨⟨m, c'⟩, hrun, hinv'⟩ := hvalidate branch mem_cons_self c hinv
    rw [countP_cons, hschema.expansion_eq] at hcount
    obtain ⟨out, hout⟩ := @ih (fun other hother => hobjects other (mem_cons_of_mem _ hother))
      (fun other hother => hexpands other (mem_cons_of_mem _ hother))
      (fun other hother => hvalidate other (mem_cons_of_mem _ hother))
      (if schema.isNull then n + 1 else n) (result.merge 0 m) c' hinv' (by
        rcases hnull : schema.isNull with _ | _
        · rw [hnull] at hcount
          simpa using hcount
        · rw [hnull] at hcount
          simp only [if_true] at hcount ⊢
          omega)
    refine ⟨out, ?_⟩
    rw [validateBranches, check_bind_eq_ok, check_bind_eq_ok, bind_eq_ok_iff]
    refine ⟨hobjects branch mem_cons_self, ?_, (m, c'), hrun, ?_⟩
    · rw [hresolved, Option.all_some, ← Option.not_isSome, hany]
      simpa using hflat
    · dsimp only
      rw [check_bind_eq_ok, isNullBranch_eq hschema]
      refine ⟨fun hnull => ?_, hout⟩
      rw [hnull] at hcount
      simp only [if_true] at hcount
      omega

theorem validateProperties_complete {validate : Place → Checker → Result} {properties : List Place}
    (hobjects : ∀ property ∈ properties, property.2.isObject)
    (hvalidate : ∀ property ∈ properties, ∀ c, Inv defs c →
      ∃ out, validate property c = .ok out ∧ Inv defs out.2) :
    ∀ {result : Metrics} {c : Checker}, Inv defs c →
      ∃ out, validateProperties validate properties result c = .ok out := by
  induction properties with
  | nil => exact fun _ => ⟨_, rfl⟩
  | cons property properties ih =>
    intro result c hinv
    obtain ⟨⟨m, c'⟩, hrun, hinv'⟩ := hvalidate property mem_cons_self c hinv
    obtain ⟨out, hout⟩ := @ih (fun other hother => hobjects other (mem_cons_of_mem _ hother))
      (fun other hother => hvalidate other (mem_cons_of_mem _ hother)) (result.merge 1 m) c' hinv'
    refine ⟨out, ?_⟩
    rw [validateProperties, check_bind_eq_ok, bind_eq_ok_iff]
    exact ⟨hobjects property mem_cons_self, (m, c'), hrun, hout⟩

theorem keywordsAllowed_of_form {form : Form} (h : HasForm isRoot node form) :
    KeywordsAllowed isRoot node := by
  by_cases href : ∃ name, form = .ref name
  · obtain ⟨name, rfl⟩ := href
    have hmembers : ∀ member ∈ node.members, member.1 = "$ref" := fun member hmember =>
      mem_singleton.1 (h.keywords member hmember)
    refine ⟨fun member hmember => ?_, .inr fun member hmember => ?_⟩
    · rw [hmembers member hmember]
      decide
    · rw [hmembers member hmember]
      decide
  · exact ((keywords_iff (fun name heq => href ⟨name, heq⟩) h.root).1 h.keywords).1

/-- The checker accepts what has an expansion in which `null` and unions stand as they may. -/
theorem validateNode_complete {bound : ℕ}
    (hbound : ∀ name target, defs.lookup name = some target → target.depth ≤ bound) (depth : ℕ) :
    ∀ (place : Place) (isRoot allowNull : Bool) (refStack : List String) (c : Checker)
      (schema : Schema), Expands defs isRoot place.2 schema → schema.NullSafe allowNull →
      LeadTo defs refStack place.2 → walkBound defs bound refStack place.2 ≤ depth → Inv defs c →
      ∃ out, validateNode quote defs depth place isRoot allowNull refStack c = .ok out := by
  induction depth with
  | zero =>
    intro place isRoot allowNull refStack c schema _ _ _ hdepth _
    have hpos := place.2.one_le_depth
    unfold walkBound at hdepth
    omega
  | succ depth ih =>
    intro place isRoot allowNull refStack c schema hexpands hsafe hlead hdepth hinv
    obtain ⟨form, hform, hstep⟩ := hexpands.hasForm
    have hobject : place.2.isObject := isObject_of_view hform.view
    have hchild : ∀ (child : Place) (allowNull : Bool) (part : Schema), child.2 ∈ form.children →
        Expands defs false child.2 part → part.NullSafe allowNull → ∀ c, Inv defs c →
        ∃ out, validateNode quote defs depth child false allowNull refStack c = .ok out ∧
          Inv defs out.2 := by
      intro child allowNull part hmem hpart hpartSafe c hinv
      have hbelow : IsChild place.2 child.2 := ⟨form, hform.view, hmem⟩
      have hlt := walkBound_child defs bound refStack hbelow
      obtain ⟨out, hout⟩ := ih child false allowNull refStack c part hpart hpartSafe
        (hlead.step (.inl hbelow)) (by omega) hinv
      exact ⟨out, hout, (validateNode_accepted _ _ _ _ _ _ _ hinv hout).inv⟩
    rcases hmemo : c.memo.lookup (place, isRoot, allowNull) with _ | m
    swap
    · exact ⟨(m, c), validateNode_eq_ok.2 ⟨hobject, .inl ⟨m, hmemo, rfl⟩⟩⟩
    have hruns : ∃ result, Runs (fun child allowNull refStack c =>
        validateNode quote defs depth child false allowNull refStack c)
        defs place allowNull refStack c result form := by
      rcases form with name | branches | properties | items | ⟨type, enum⟩ | _
      · obtain ⟨target, htarget, hpart⟩ := hstep
        have hfresh : name ∉ refStack := fun hname => hlead.not_expands hform.view hname hexpands
        have hlt := walkBound_target place.2 htarget (hbound name target htarget) hfresh
        have hle : walkBound defs bound (name :: refStack) target ≤ depth := by omega
        obtain ⟨out, hout⟩ := ih (joinPointer "/$defs" name, target) false allowNull
          (name :: refStack) { c with reached := name :: c.reached } schema hpart hsafe
          (hlead.enter hform.view htarget) hle (hinv.mark name)
        exact ⟨out, target, htarget, hfresh, hout⟩
      · obtain ⟨expand, rfl, hbranches⟩ := hstep
        have hplaces := elementPlaces_nodes (joinPointer place.1 "anyOf") branches
        have hmem : ∀ {there}, there ∈ elementPlaces (joinPointer place.1 "anyOf") branches →
            there.2 ∈ branches := fun hthere => hplaces ▸ mem_map_of_mem hthere
        cases hsafe with
        | anyOf hflat hsingle hall =>
          refine validateBranches_complete (fun there hthere => hform.valid.2.2 _ (hmem hthere))
            (fun there hthere => ⟨_, hbranches _ (hmem hthere),
              hflat _ (mem_map_of_mem (hmem hthere))⟩)
            (fun there hthere => hchild there true _ (hmem hthere) (hbranches _ (hmem hthere))
              (hall _ (mem_map_of_mem (hmem hthere)))) hinv fun _ => ?_
          have hcount : (branches.map expand).countP Schema.isNull =
              (elementPlaces (joinPointer place.1 "anyOf") branches).countP
                (fun branch => (expansion defs branch.2).isNull) := by
            conv_lhs => rw [← hplaces]
            rw [countP_map, countP_map]
            refine countP_congr fun there hthere => ?_
            rw [Function.comp_apply, Function.comp_apply,
              (hbranches there.2 (hmem hthere)).expansion_eq]
          rw [← hcount]
          omega
      · obtain ⟨expand, rfl, hproperties⟩ := hstep
        have hmem : ∀ {there},
            there ∈ memberPlaces (joinPointer place.1 "properties") (.object properties) →
              ∃ property ∈ properties, property.2 = there.2 := fun hthere => by
          obtain ⟨property, hproperty, rfl⟩ := mem_map.1 hthere
          exact ⟨property, Node.mem_sortedMembers.1 hproperty, rfl⟩
        cases hsafe with
        | object hall =>
          refine validateProperties_complete (fun there hthere => ?_) (fun there hthere => ?_) hinv
          · obtain ⟨property, hproperty, heq⟩ := hmem hthere
            exact heq ▸ hform.valid.1 property hproperty
          · obtain ⟨property, hproperty, heq⟩ := hmem hthere
            refine hchild there false (expand property.2) ?_ ?_
              (hall _ (mem_map_of_mem hproperty))
            · exact mem_map.2 ⟨property, hproperty, heq⟩
            · exact heq ▸ hproperties property hproperty
      · obtain ⟨part, rfl, hitems⟩ := hstep
        cases hsafe with
        | array hsafe =>
          obtain ⟨⟨m, c'⟩, hout, -⟩ := hchild (joinPointer place.1 "items", items) false part
            (by simp [Form.children]) hitems hsafe c hinv
          exact ⟨_, m, c', hout, rfl⟩
      · exact ⟨_, rfl⟩
      · obtain rfl := hstep
        cases hsafe
        exact ⟨_, rfl, rfl⟩
    obtain ⟨result, hruns⟩ := hruns
    exact ⟨_, validateNode_eq_ok.2 ⟨hobject, .inr ⟨hmemo, keywordsAllowed_of_form hform, form, result,
      hform, hruns, rfl⟩⟩⟩

end Runs

end Checker

end SchemaGuard

end AiOrg
