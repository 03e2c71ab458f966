import AiOrg.Graph.Search
import AiOrg.SchemaGuard.Grammar

/-!
# The collectors

Three walks over a schema document that report all they find: the local grammar of every schema
position, the graph of references with the limits on what it expands to, and where `null` and unions
stand.
-/

namespace AiOrg

namespace SchemaGuard

open StrictJson (Node joinPointer Equal)

/-! ### Surface -/

section Surface

-- `strconv.Quote`
variable (quote : String → String)

def keywordErrors (node : Node) (pointer : String) (isRoot : Bool) : List Error :=
  node.sortedMembers.flatMap fun member =>
    let memberPointer := joinPointer pointer member.1
    if !allowedKeyword member.1 then
      [reject .unsupportedKeyword memberPointer "keyword is not admitted by structured-output-v1"]
    else
      addIf (!isRoot ∧ (member.1 = "$schema" ∨ member.1 = "$defs"))
          (reject .rootOnlyKeyword memberPointer "keyword is allowed only at the root") ++
        addIf (member.1 = "description" ∧ !member.2.isString)
          (reject .description memberPointer "description must be a string")

/-- The form of the root. -/
def rootErrors (node : Node) (pointer : String) (isRoot : Bool) : List Error :=
  addIf (isRoot ∧ ((node.lookup "$ref").isSome ∨ (node.lookup "anyOf").isSome ∨
      typeText node ≠ some "object"))
    (reject .rootObject pointer "root must use the typed object form")

def referenceErrors (defs : List (String × Node)) (node ref : Node) (pointer : String) :
    List Error :=
  addIf (node.members.length ≠ 1)
      (reject .schemaForm pointer "$ref admits no sibling keywords") ++
    match referencedName ref with
    | none => [reject .reference (joinPointer pointer "$ref") "$ref must be exactly #/$defs/<name>"]
    | some name =>
      if !validDefinitionName name then
        [reject .reference (joinPointer pointer "$ref")
          "$ref must contain one unescaped admitted definition name"]
      else
        addIf (defs.lookup name = none)
          (reject .referenceTarget (joinPointer pointer "$ref") "referenced definition does not exist")

/-- The entries of `required` from an index on, with the names before it. -/
def requiredErrors (pointer : String) : ℕ → List String → List Node → List Error
  | _, _, [] => []
  | i, seen, .string text :: rest =>
    addIf (text ∈ seen) (reject .required (joinPointer (joinPointer pointer "required") (toString i))
        "required entries must be unique") ++
      requiredErrors pointer (i + 1) (text :: seen) rest
  | i, seen, _ :: rest =>
    reject .required (joinPointer (joinPointer pointer "required") (toString i))
        "required entries must be strings" ::
      requiredErrors pointer (i + 1) seen rest

def requiredNames (elements : List Node) : List String :=
  elements.filterMap fun element => match element with
    | .string text => some text
    | _ => none

/-- The candidates of an enum from an index on, with the ones before it. -/
def candidateErrors (pointer : String) (type : ScalarType) :
    ℕ → List Node → List Node → List Error
  | _, _, [] => []
  | i, before, candidate :: rest =>
    addIf (!matchesScalarType candidate type)
        (reject .enum (joinPointer (joinPointer pointer "enum") (toString i))
          "enum value does not have the declared scalar type") ++
      addIf (before.any fun other => Equal candidate other)
        (reject .enum (joinPointer (joinPointer pointer "enum") (toString i))
          "enum values must be unique") ++
      candidateErrors pointer type (i + 1) (before ++ [candidate]) rest

def collectEnum (node : Node) (pointer : String) (type : ScalarType) : List Error :=
  match node.lookup "enum" with
  | none => []
  | some (.array (candidate :: rest)) => candidateErrors pointer type 0 [] (candidate :: rest)
  | some _ => [reject .enum (joinPointer pointer "enum") "enum must be a nonempty array"]

def requiredElements (node : Node) : Option (List Node) :=
  match node.lookup "required" with
  | some (.array elements) => some elements
  | _ => none

def propertiesObject (node : Node) : Option Node :=
  match node.lookup "properties" with
  | some (.object members) => some (.object members)
  | _ => none

/-- `collectObject`; the names in `required` that are no properties come in no certain order. -/
def collectObject (walk : Node → String → Bool → Bool → List Error) (node : Node)
    (pointer : String) : List Error :=
  addIf (propertiesObject node = none)
      (reject .properties (joinPointer pointer "properties") "object properties must be an object") ++
    addIf (requiredElements node = none)
      (reject .required (joinPointer pointer "required") "required must be an array") ++
    addIf (node.lookup "additionalProperties" ≠ some (.bool false))
      (reject .additionalProperties (joinPointer pointer "additionalProperties")
        "additionalProperties must be literal false") ++
    (match requiredElements node with
      | none => []
      | some elements => requiredErrors pointer 0 [] elements) ++
    match propertiesObject node with
    | none => []
    | some properties =>
      (properties.sortedMembers.flatMap fun property =>
        (match requiredElements node with
          | none => []
          | some elements => addIf (property.1 ∉ requiredNames elements)
              (reject .required (joinPointer pointer "required")
                ("property " ++ quote property.1 ++ " is not required"))) ++
          let propertyPointer := joinPointer (joinPointer pointer "properties") property.1
          if !property.2.isObject then
            [reject .properties propertyPointer "property schema must be an object"]
          else walk property.2 propertyPointer false false) ++
        match requiredElements node with
        | none => []
        | some elements => (requiredNames elements).dedup.flatMap fun name =>
            addIf (properties.lookup name = none)
              (reject .required (joinPointer pointer "required")
                ("required name " ++ quote name ++ " is not a property"))

/-- The branches of a union. -/
def collectBranches (walk : Node → String → Bool → Bool → List Error) (pointer : String)
    (branches : List Node) : List Error :=
  (elementPlaces (joinPointer pointer "anyOf") branches).flatMap fun (branchPath, branch) =>
    if !branch.isObject then [reject .anyOf branchPath "anyOf branch must be a schema object"]
    else
      addIf (branch.lookup "anyOf").isSome
          (reject .anyOf branchPath "anyOf branch cannot itself be a union") ++
        walk branch branchPath false true

def collectUnion (walk : Node → String → Bool → Bool → List Error) (node anyOf : Node)
    (pointer : String) : List Error :=
  addIf ((node.lookup "type").isSome ∨ hasForeignFormKeyword node ["anyOf"])
      (reject .schemaForm pointer "anyOf is mutually exclusive with other schema forms") ++
    match anyOf with
    | .array branches =>
      if branches.length < 2 then
        [reject .anyOf (joinPointer pointer "anyOf") "anyOf must contain at least two schema objects"]
      else collectBranches walk pointer branches
    | _ =>
      [reject .anyOf (joinPointer pointer "anyOf") "anyOf must contain at least two schema objects"]

def collectTyped (walk : Node → String → Bool → Bool → List Error) (node : Node) (pointer : String)
    (isRoot allowNull : Bool) : List Error :=
  match (typeText node).bind admittedType with
  | none => [reject .type (joinPointer pointer "type") "type must be one admitted string"]
  | some .object =>
    addIf (hasForeignFormKeyword node (["type", "properties", "required", "additionalProperties"] ++
        if isRoot then ["$schema", "$defs"] else []))
        (reject .schemaForm pointer "object schema has keywords from another form") ++
      collectObject quote walk node pointer
  | some .array =>
    addIf (hasForeignFormKeyword node ["type", "items"])
        (reject .schemaForm pointer "array schema has keywords from another form") ++
      match node.lookup "items" with
      | some (.object members) => walk (.object members) (joinPointer pointer "items") false false
      | _ => [reject .items (joinPointer pointer "items") "items must be a schema object"]
  | some (.scalar type) =>
    addIf (hasForeignFormKeyword node ["type", "enum"])
        (reject .schemaForm pointer "scalar schema has keywords from another form") ++
      collectEnum node pointer type
  | some .null =>
    addIf (!allowNull)
        (reject .nullPosition pointer "null is allowed only in an anyOf branch or its $ref chain") ++
      addIf (hasForeignFormKeyword node ["type"])
        (reject .schemaForm pointer "null schema does not admit these siblings")

def surfaceWalk (defs : List (String × Node)) : ℕ → Node → String → Bool → Bool → List Error
  | 0, _, _, _, _ => []
  | depth + 1, node, pointer, isRoot, allowNull =>
    if !node.isObject then
      [reject .schemaForm pointer "every schema node must be an object"]
    else
      keywordErrors node pointer isRoot ++ rootErrors node pointer isRoot ++
        match node.lookup "$ref" with
        | some ref => referenceErrors defs node ref pointer
        | none =>
          match node.lookup "anyOf" with
          | some anyOf => collectUnion (surfaceWalk defs depth) node anyOf pointer
          | none =>
            match node.lookup "type" with
            | none =>
              addIf (!hasUnsupportedKeyword node)
                (reject .schemaForm pointer "schema must use exactly one of type, anyOf, or $ref")
            | some _ => collectTyped quote (surfaceWalk defs depth) node pointer isRoot allowNull

/-- The names and shapes of the definitions. -/
def definitionErrors (root : Node) : List Error :=
  match root.lookup "$defs" with
  | none => []
  | some defs =>
    if !defs.isObject then [reject .definitionShape "/$defs" "$defs must be an object"]
    else defs.sortedMembers.flatMap fun definition =>
      addIf (!validDefinitionName definition.1)
          (reject .definitionName (joinPointer "/$defs" definition.1)
            "definition name does not match [A-Za-z_][A-Za-z0-9_.-]*") ++
        addIf (!definition.2.isObject)
          (reject .definitionShape (joinPointer "/$defs" definition.1)
            "definition must be a schema object")

def dialectErrors (root : Node) : List Error :=
  addIf (root.lookup "$schema" ≠ some (.string draft202012URI))
    (reject .dialect "/$schema" "root must declare the exact Draft 2020-12 URI")

def collectSurfaceDiagnostics (root : Node) : List Error :=
  if !root.isObject then [reject .rootObject "" "root schema must be an object"]
  else
    dialectErrors root ++ definitionErrors root ++
      surfaceWalk quote (definitions root) root.depth root "" true false ++
      match root.lookup "$defs" with
      | none => []
      | some defs => defs.sortedMembers.flatMap fun definition =>
        if definition.2.isObject then
          surfaceWalk quote (definitions root) root.depth definition.2
            (joinPointer "/$defs" definition.1) false true
        else []

end Surface

structure GraphWalker where
  reached : List String
  memo : List (Place × Metrics)
  diagnostics : List Error

namespace GraphWalker

/-- The result is remembered where no cycle was met. -/
def remember (place : Place) (out : (Metrics × Bool) × GraphWalker) :
    (Metrics × Bool) × GraphWalker :=
  if out.1.2 then (out.1, { out.2 with memo := (place, out.1.1) :: out.2.memo }) else out

/-- A turn of the loops over branches and over properties. -/
def visitChild (walk : Place → GraphWalker → (Metrics × Bool) × GraphWalker) (edge : ℕ)
    (out : (Metrics × Bool) × GraphWalker) (child : Place) : (Metrics × Bool) × GraphWalker :=
  let result := walk child out.2
  ((out.1.1.merge edge result.1.1, out.1.2 && result.1.2), result.2)

/-- The loops over branches and over properties. -/
def visitChildren (walk : Place → GraphWalker → (Metrics × Bool) × GraphWalker) (edge : ℕ)
    (children : List Place) (result : Metrics) (w : GraphWalker) :
    (Metrics × Bool) × GraphWalker :=
  (children.filter fun child => child.2.isObject).foldl (visitChild walk edge) ((result, true), w)

/-- An array: its items with one level more. -/
def visitItems (walk : Place → GraphWalker → (Metrics × Bool) × GraphWalker) (items : Place)
    (result : Metrics) (w : GraphWalker) : (Metrics × Bool) × GraphWalker :=
  let out := walk items w
  ((mergeMetricHeight { result with properties := out.1.1.properties } out.1.1 1, out.1.2), out.2)

/-- A reference; one to a definition that is being walked closes a cycle. -/
def visitReference (walk : Place → List String → GraphWalker → (Metrics × Bool) × GraphWalker)
    (defs : List (String × Node)) (place : Place) (ref : Node) (refStack : List String)
    (w : GraphWalker) : (Metrics × Bool) × GraphWalker :=
  let result : Metrics := ⟨0, 1, place.1⟩
  match referencedName ref with
  | none => ((result, true), w)
  | some name =>
    match defs.lookup name with
    | none => ((result, true), w)
    | some target =>
      if !validDefinitionName name then ((result, true), w)
      else
        let w := { w with reached := name :: w.reached }
        if name ∈ refStack then
          ((result, false), { w with diagnostics := w.diagnostics ++
            [reject .referenceCycle (joinPointer place.1 "$ref") "reference cycle is not admitted"] })
        else remember place (walk (joinPointer "/$defs" name, target) (name :: refStack) w)

/-- A node with neither a reference nor branches. -/
def visitTyped (walk : Place → GraphWalker → (Metrics × Bool) × GraphWalker) (place : Place)
    (w : GraphWalker) : (Metrics × Bool) × GraphWalker :=
  let result : Metrics := ⟨0, 1, place.1⟩
  match (typeText place.2).bind admittedType with
  | some .object =>
    match propertiesObject place.2 with
    | some properties =>
      visitChildren walk 1 (memberPlaces (joinPointer place.1 "properties") properties)
        { result with properties := properties.members.length } w
    | none => ((result, true), w)
  | some .array =>
    match place.2.lookup "items" with
    | some (.object members) =>
      visitItems walk (joinPointer place.1 "items", .object members) result w
    | _ => ((result, true), w)
  | _ => ((result, true), w)

def walk (defs : List (String × Node)) :
    ℕ → Place → List String → GraphWalker → (Metrics × Bool) × GraphWalker
  | 0, place, _, w => ((⟨0, 1, place.1⟩, true), w)
  | depth + 1, place, refStack, w =>
    if !place.2.isObject then ((⟨0, 1, place.1⟩, true), w)
    else
      match w.memo.lookup place with
      | some cached => ((cached, true), w)
      | none =>
        match place.2.lookup "$ref" with
        | some ref => visitReference (walk defs depth) defs place ref refStack w
        | none =>
          let walkChild := fun child w => walk defs depth child refStack w
          remember place <|
            match place.2.lookup "anyOf" with
            | some (.array branches) =>
              visitChildren walkChild 0 (elementPlaces (joinPointer place.1 "anyOf") branches)
                ⟨0, 1, place.1⟩ w
            | _ => visitTyped walkChild place w

end GraphWalker

/-- How deep walks go that follow each reference at most once on the way. -/
def walkDepth (defs : List (String × Node)) (root : Node) : ℕ :=
  (defs.length + 1) * (root.depth + 1)

/-- The limits on the expanded schema. -/
def limitErrors (m : Metrics) : List Error :=
  addIf (maxTotalProperties < m.properties)
      (reject .propertyLimit "" ("expanded property count " ++ toString m.properties ++
        " exceeds " ++ toString maxTotalProperties)) ++
    addIf (maxDepth < m.height)
      (reject .depthLimit m.deepestPath ("expanded depth " ++ toString m.height ++ " exceeds " ++
        toString maxDepth))

/-- The definitions that were not reached. -/
def unreachableErrors (defs : List (String × Node)) (reached : List String) : List Error :=
  defs.flatMap fun definition =>
    addIf (definition.1 ∉ reached)
      (reject .unreachableDef (joinPointer "/$defs" definition.1)
        "definition is not reachable from the root schema")

def graphWalk (root : Node) : (Metrics × Bool) × GraphWalker :=
  GraphWalker.walk (definitions root) (walkDepth (definitions root) root) ("", root) [] ⟨[], [], []⟩

def collectGraphDiagnostics (root : Node) : List Error :=
  if !root.isObject then []
  else
    let out := graphWalk root
    out.2.diagnostics ++ (if out.1.2 then limitErrors out.1.1 else []) ++
      unreachableErrors (definitions root) out.2.reached

def resolveChain (defs : List (String × Node)) : ℕ → List String → Node → Option Node
  | 0, _, _ => none
  | length + 1, seen, current =>
    match current.lookup "$ref" with
    | none => some current
    | some ref =>
      if current.members.length ≠ 1 then none
      else
        match referencedName ref with
        | none => none
        | some name =>
          if !validDefinitionName name || decide (name ∈ seen) then none
          else
            match defs.lookup name with
            | none => none
            | some target => resolveChain defs length (name :: seen) target

/-- `resolveBranch`; no definition comes twice in a chain. -/
def resolveBranch (defs : List (String × Node)) (branch : Node) : Option Node :=
  resolveChain defs (defs.length + 1) [] branch

abbrev ContextKey := Place × Bool

/-- The loop over the branches of a union, with the null branches before. -/
def branchSteps (defs : List (String × Node)) : ℕ → List Place → List (Error ⊕ ContextKey)
  | _, [] => []
  | nullBranches, (pointer, branch) :: rest =>
    if !branch.isObject then branchSteps defs nullBranches rest
    else
      match resolveBranch defs branch with
      | none => .inr ((pointer, branch), true) :: branchSteps defs nullBranches rest
      | some resolved =>
        let isNull := decide (typeText resolved = some "null")
        (addIf (resolved.lookup "anyOf").isSome
            (reject .anyOf pointer "anyOf branch cannot itself resolve to a union")).map .inl ++
          (addIf (isNull ∧ 0 < nullBranches)
            (reject .anyOf pointer "anyOf may contain at most one null-resolving branch")).map .inl ++
          .inr ((pointer, branch), true) ::
            branchSteps defs (if isNull then nullBranches + 1 else nullBranches) rest

/-- The children of a node that may not be null. -/
def childSteps (children : List Place) : List (Error ⊕ ContextKey) :=
  (children.filter fun child => child.2.isObject).map fun child => .inr (child, false)

/-- What `contextWalker.walk` does at a node: what it reports, and which nodes it goes on to. -/
def contextSteps (defs : List (String × Node)) : ContextKey → List (Error ⊕ ContextKey)
  | ((pointer, node), allowNull) =>
    match node.lookup "$ref" with
    | some ref =>
      if node.members.length ≠ 1 then []
      else
        match referencedName ref with
        | none => []
        | some name =>
          if !validDefinitionName name then []
          else
            match defs.lookup name with
            | none => []
            | some target => [.inr ((joinPointer "/$defs" name, target), allowNull)]
    | none =>
      match node.lookup "anyOf" with
      | some (.array branches) =>
        branchSteps defs 0 (elementPlaces (joinPointer pointer "anyOf") branches)
      | some _ => []
      | none =>
        match (typeText node).bind admittedType with
        | some .null =>
          (addIf (!allowNull) (reject .nullPosition pointer
            "null is allowed only in an anyOf branch or its $ref chain")).map .inl
        | some .object =>
          match propertiesObject node with
          | some properties =>
            childSteps (memberPlaces (joinPointer pointer "properties") properties)
          | none => []
        | some .array =>
          match node.lookup "items" with
          | some items => childSteps [(joinPointer pointer "items", items)]
          | none => []
        | _ => []

mutual

/-- The places of a value and of the values in it. -/
def places (pointer : String) : Node → List Place
  | .array elements => (pointer, .array elements) :: elementsPlaces pointer 0 elements
  | .object members => (pointer, .object members) :: membersPlaces pointer members
  | node => [(pointer, node)]

def elementsPlaces (pointer : String) : ℕ → List Node → List Place
  | _, [] => []
  | i, element :: elements =>
    places (joinPointer pointer (toString i)) element ++ elementsPlaces pointer (i + 1) elements

def membersPlaces (pointer : String) : List (String × Node) → List Place
  | [] => []
  | (name, value) :: members =>
    places (joinPointer pointer name) value ++ membersPlaces pointer members

end

/-- `collectContextDiagnostics`; each place is visited at most twice. -/
def collectContextDiagnostics (root : Node) : List Error :=
  if !root.isObject then []
  else
    (Search.visit (contextSteps (definitions root)) (2 * (places "" root).length)
      (("", root), false) ⟨[], []⟩).reports

end SchemaGuard

end AiOrg
