import AiOrg.SchemaGuard.Collectors
import AiOrg.StrictJson.Parse

/-!
# The recursive checker and the guard

The checker stops at the first violation it meets. `Guard` runs the collectors and the checker and
chooses one of all their errors.
-/

namespace AiOrg

namespace SchemaGuard

open StrictJson (Node joinPointer Equal)

structure Checker where
  reached : List String
  memo : List ((Place × Bool × Bool) × Metrics)

namespace Checker

abbrev Result := Except Error (Metrics × Checker)

def check (p : Prop) [Decidable p] (e : Error) : Except Error Unit :=
  if p then .ok () else .error e

@[simp] theorem check_eq_ok {p : Prop} [Decidable p] {e : Error} {u : Unit} :
    check p e = .ok u ↔ p := by
  unfold check
  split_ifs with h <;> simp [h]

/-- The result is remembered. -/
def remember (key : Place × Bool × Bool) (out : Metrics × Checker) : Metrics × Checker :=
  (out.1, { out.2 with memo := (key, out.1) :: out.2.memo })

section Forms

-- `strconv.Quote`
variable (quote : String → String)

def checkKeywords (path : String) (isRoot : Bool) : List (String × Node) → Except Error Unit
  | [] => .ok ()
  | member :: rest => do
    check (allowedKeyword member.1) (reject .unsupportedKeyword (joinPointer path member.1)
      "keyword is not admitted by structured-output-v1")
    check (isRoot ∨ ¬ (member.1 = "$schema" ∨ member.1 = "$defs"))
      (reject .rootOnlyKeyword (joinPointer path member.1) "keyword is allowed only at the root")
    checkKeywords path isRoot rest

def checkDescription (node : Node) (path : String) : Except Error Unit :=
  check ((node.lookup "description").all Node.isString)
    (reject .description (joinPointer path "description") "description must be a string")

def checkRoot (node : Node) (path : String) (isRoot : Bool) : Except Error Unit :=
  check (isRoot → (node.lookup "$ref").isNone ∧ (node.lookup "anyOf").isNone ∧
      typeText node = some "object")
    (reject .rootObject path "root must use the typed object form")

def validateReference (validate : Place → List String → Checker → Result)
    (defs : List (String × Node)) (ref : Node) (path : String) (refStack : List String)
    (c : Checker) : Result :=
  match referencedName ref with
  | none =>
    .error (reject .reference (joinPointer path "$ref") "$ref must be exactly #/$defs/<name>")
  | some name => do
    check (validDefinitionName name) (reject .reference (joinPointer path "$ref")
      "$ref must contain one unescaped admitted definition name")
    match defs.lookup name with
    | none =>
      .error (reject .referenceTarget (joinPointer path "$ref") "referenced definition does not exist")
    | some target => do
      check (name ∉ refStack)
        (reject .referenceCycle (joinPointer path "$ref") "reference cycle is not admitted")
      validate (joinPointer "/$defs" name, target) (name :: refStack)
        { c with reached := name :: c.reached }

/-- `isNullBranch`. -/
def isNullBranch (defs : List (String × Node)) (branch : Node) : Bool :=
  match resolveBranch defs branch with
  | none => false
  | some resolved => decide (typeText resolved = some "null")

def validateBranches (validate : Place → Checker → Result) (defs : List (String × Node)) :
    ℕ → List Place → Metrics → Checker → Result
  | _, [], result, c => .ok (result, c)
  | nullBranches, branch :: rest, result, c => do
    check branch.2.isObject (reject .anyOf branch.1 "anyOf branch must be a schema object")
    check ((resolveBranch defs branch.2).all fun resolved => (resolved.lookup "anyOf").isNone)
      (reject .anyOf branch.1 "anyOf branch cannot itself resolve to a union")
    let (m, c) ← validate branch c
    check (isNullBranch defs branch.2 → nullBranches = 0)
      (reject .anyOf branch.1 "anyOf may contain at most one null-resolving branch")
    validateBranches validate defs
      (if isNullBranch defs branch.2 then nullBranches + 1 else nullBranches) rest
      (result.merge 0 m) c

def validateAnyOf (validate : Place → Checker → Result) (defs : List (String × Node)) (anyOf : Node)
    (path : String) (c : Checker) : Result :=
  match anyOf with
  | .array branches => do
    check (2 ≤ branches.length)
      (reject .anyOf (joinPointer path "anyOf") "anyOf must contain at least two schema objects")
    validateBranches validate defs 0 (elementPlaces (joinPointer path "anyOf") branches)
      ⟨0, 1, path⟩ c
  | _ => .error
      (reject .anyOf (joinPointer path "anyOf") "anyOf must contain at least two schema objects")

/-- The entries of `required` from an index on, with the names before it. -/
def checkRequired (path : String) : ℕ → List String → List Node → Except Error Unit
  | _, _, [] => .ok ()
  | i, seen, .string text :: rest => do
    check (text ∉ seen) (reject .required (joinPointer (joinPointer path "required") (toString i))
      "required entries must be unique")
    checkRequired path (i + 1) (text :: seen) rest
  | i, _, _ :: _ => .error (reject .required (joinPointer (joinPointer path "required") (toString i))
      "required entries must be strings")

def checkProperties (path : String) (required : List String) :
    List (String × Node) → Except Error Unit
  | [] => .ok ()
  | property :: rest => do
    check (property.1 ∈ required) (reject .required (joinPointer path "required")
      ("property " ++ quote property.1 ++ " is not required"))
    checkProperties path required rest

/-- Every required name is a property; the first one in order that is not is reported. -/
def checkExtra (path : String) (properties : Node) (required : List String) : Except Error Unit :=
  match (required.dedup.filter fun name => (properties.lookup name).isNone).insertionSort
    (· ≤ ·) with
  | [] => .ok ()
  | name :: _ => .error (reject .required (joinPointer path "required")
      ("required name " ++ quote name ++ " is not a property"))

/-- The loop of `validateObject` over the properties. -/
def validateProperties (validate : Place → Checker → Result) :
    List Place → Metrics → Checker → Result
  | [], result, c => .ok (result, c)
  | property :: rest, result, c => do
    check property.2.isObject
      (reject .properties property.1 "property schema must be an object")
    let (m, c) ← validate property c
    validateProperties validate rest (result.merge 1 m) c

def validateObject (validate : Place → Checker → Result) (node : Node) (path : String)
    (c : Checker) : Result :=
  match propertiesObject node with
  | none => .error
      (reject .properties (joinPointer path "properties") "object properties must be an object")
  | some properties =>
    match requiredElements node with
    | none => .error (reject .required (joinPointer path "required") "required must be an array")
    | some required => do
      check (node.lookup "additionalProperties" = some (.bool false))
        (reject .additionalProperties (joinPointer path "additionalProperties")
          "additionalProperties must be literal false")
      checkRequired path 0 [] required
      checkProperties quote path (requiredNames required) properties.sortedMembers
      checkExtra quote path properties (requiredNames required)
      validateProperties validate (memberPlaces (joinPointer path "properties") properties)
        ⟨properties.sortedMembers.length, 1, path⟩ c

def validateArray (validate : Place → Checker → Result) (node : Node) (path : String) (c : Checker) :
    Result :=
  match node.lookup "items" with
  | some (.object members) => do
    let (m, c) ← validate (joinPointer path "items", .object members) c
    .ok (⟨m.properties, 1 + m.height, m.deepestPath⟩, c)
  | _ => .error (reject .items (joinPointer path "items") "items must be a schema object")

/-- The loop of `validateEnum` from an index on, with the candidates before it. -/
def checkCandidates (path : String) (type : ScalarType) :
    ℕ → List Node → List Node → Except Error Unit
  | _, _, [] => .ok ()
  | i, before, candidate :: rest => do
    check (matchesScalarType candidate type)
      (reject .enum (joinPointer (joinPointer path "enum") (toString i))
        "enum value does not have the declared scalar type")
    check (¬ before.any fun other => Equal candidate other)
      (reject .enum (joinPointer (joinPointer path "enum") (toString i))
        "enum values must be unique")
    checkCandidates path type (i + 1) (before ++ [candidate]) rest

def validateEnum (node : Node) (path : String) (type : ScalarType) : Except Error Unit :=
  match node.lookup "enum" with
  | none => .ok ()
  | some (.array (candidate :: rest)) => checkCandidates path type 0 [] (candidate :: rest)
  | some _ => .error (reject .enum (joinPointer path "enum") "enum must be a nonempty array")

def validateTyped (validate : Place → Checker → Result) (node : Node) (path : String)
    (isRoot allowNull : Bool) (c : Checker) : Result :=
  match typeText node with
  | none => .error (reject .type (joinPointer path "type") "type must be one admitted string")
  | some text =>
    match admittedType text with
    | none =>
      .error (reject .type (joinPointer path "type") "type is not admitted by structured-output-v1")
    | some .object => do
      check (onlyKeywords node (["type", "properties", "required", "additionalProperties",
          "description"] ++ if isRoot then ["$schema", "$defs"] else []))
        (reject .schemaForm path "object schema has keywords from another form")
      validateObject quote validate node path c
    | some .array => do
      check (!isRoot ∧ onlyKeywords node ["type", "items", "description"])
        (reject .schemaForm path "array schema has keywords from another form")
      validateArray validate node path c
    | some (.scalar type) => do
      check (!isRoot ∧ onlyKeywords node ["type", "enum", "description"])
        (reject .schemaForm path "scalar schema has keywords from another form")
      validateEnum node path type
      .ok (⟨0, 1, path⟩, c)
    | some .null => do
      check (!isRoot ∧ allowNull) (reject .nullPosition path
        "null is allowed only in an anyOf branch or its direct $ref")
      check (onlyKeywords node ["type", "description"])
        (reject .schemaForm path "null schema does not admit these siblings")
      .ok (⟨0, 1, path⟩, c)

/-- The choice of a form. -/
def validateForm (validate : Place → Bool → List String → Checker → Result)
    (defs : List (String × Node)) (place : Place) (isRoot allowNull : Bool) (refStack : List String)
    (c : Checker) : Result :=
  match place.2.lookup "$ref" with
  | some ref => do
    check (place.2.members.length = 1)
      (reject .schemaForm place.1 "$ref admits no sibling keywords")
    validateReference (fun target => validate target allowNull) defs ref place.1 refStack c
  | none =>
    match place.2.lookup "anyOf" with
    | some anyOf => do
      check ((place.2.lookup "type").isNone ∧ onlyKeywords place.2 ["anyOf", "description"])
        (reject .schemaForm place.1 "anyOf is mutually exclusive with other schema forms")
      check (!isRoot) (reject .anyOf place.1 "anyOf is not allowed at the root")
      validateAnyOf (fun branch => validate branch true refStack) defs anyOf place.1 c
    | none => do
      check (place.2.lookup "type").isSome
        (reject .schemaForm place.1 "schema must use exactly one of type, anyOf, or $ref")
      validateTyped quote (fun child => validate child false refStack) place.2 place.1 isRoot
        allowNull c

def validateNode (defs : List (String × Node)) :
    ℕ → Place → Bool → Bool → List String → Checker → Result
  | 0, place, _, _, _, _ =>
    .error (reject .schemaForm place.1 "every schema node must be an object")
  | depth + 1, place, isRoot, allowNull, refStack, c => do
    check place.2.isObject
      (reject .schemaForm place.1 "every schema node must be an object")
    match c.memo.lookup (place, isRoot, allowNull) with
    | some result => .ok (result, c)
    | none => do
      checkKeywords place.1 isRoot place.2.sortedMembers
      checkDescription place.2 place.1
      checkRoot place.2 place.1 isRoot
      let out ← validateForm quote
        (fun child allowNull refStack c => validateNode defs depth child false allowNull refStack c)
        defs place isRoot allowNull refStack c
      .ok (remember (place, isRoot, allowNull) out)

end Forms

/-- The loop of `prepare` over the definitions. -/
def checkDefinitions : List (String × Node) → Except Error Unit
  | [] => .ok ()
  | definition :: rest => do
    check (validDefinitionName definition.1)
      (reject .definitionName (joinPointer "/$defs" definition.1)
        "definition name does not match [A-Za-z_][A-Za-z0-9_.-]*")
    check definition.2.isObject
      (reject .definitionShape (joinPointer "/$defs" definition.1)
        "definition must be a schema object")
    checkDefinitions rest

/-- `prepare`: the definitions. -/
def prepare (root : Node) : Except Error (List (String × Node)) := do
  check root.isObject (reject .rootObject "" "root schema must be an object")
  check (root.lookup "$schema" = some (.string draft202012URI))
    (reject .dialect "/$schema" "root must declare the exact Draft 2020-12 URI")
  match root.lookup "$defs" with
  | none => .ok []
  | some defs => do
    check defs.isObject (reject .definitionShape "/$defs" "$defs must be an object")
    checkDefinitions defs.sortedMembers
    .ok defs.sortedMembers

/-- What `Guard` has the checker do. -/
def run (quote : String → String) (root : Node) : Result := do
  let defs ← prepare root
  validateNode quote defs (walkDepth defs root) ("", root) true false [] ⟨[], []⟩

end Checker

/-- What the collectors report. -/
def collectDiagnostics (quote : String → String) (root : Node) : List Error :=
  collectSurfaceDiagnostics quote root ++ collectGraphDiagnostics root ++
    collectContextDiagnostics root

def checkerErrors (quote : String → String) (root : Node) : List Error :=
  match Checker.run quote root with
  | .error e => [e]
  | .ok _ => []

structure Admission (Digest : Type) where
  bytes : List UInt8
  digest : Digest
  deriving DecidableEq, Repr

section Guard

variable {Digest : Type} (source : StrictJson.Source) (quote : String → String)
  (sum256 : List UInt8 → Digest)

def parseErrorText : StrictJson.ErrorCode → String
  | .invalidUTF8 => "invalid_utf8"
  | .invalidJSON => "invalid_json"
  | .duplicateKey => "duplicate_key"
  | .trailingData => "trailing_data"
  | .depthLimit => "depth_limit"

def Guard (schema : List UInt8) : Except Error (Admission Digest) :=
  match StrictJson.Parse source schema with
  | .error e =>
    .error (reject (if e.code = .duplicateKey then .duplicateKey else .invalidJSON) e.path
      (parseErrorText e.code))
  | .ok root =>
    match selectGuardError (collectDiagnostics quote root ++ checkerErrors quote root) with
    | some e => .error e
    | none => .ok ⟨schema, sum256 schema⟩

end Guard

end SchemaGuard

end AiOrg
