import AiOrg.SchemaGuard.Profile

/-!
# The instance validator

`ValidateAdmitted` walks an instance along the schema that was admitted. A node that is looked up may
be missing: what would go on with a missing node, or slice a text beyond its end, ends in a panic.
-/

namespace AiOrg

namespace JsonSchemaValidate

open StrictJson (Node joinPointer Equal Parse Source)
open SchemaGuard (Admission elementPlaces)

inductive ErrorCode
  | schema | invalidJSON | duplicateKey | type | required | additional | enum | anyOf
  deriving DecidableEq, Repr

/-- The location in the instance and the schema production that rejected it. -/
structure Error where
  code : ErrorCode
  instancePointer : String
  schemaPointer : String
  detail : String
  deriving DecidableEq, Repr

/-- How a run ends without a verdict. -/
inductive Fault
  | panic | outOfFuel
  deriving DecidableEq, Repr

/-- A verdict is an error or none. -/
abbrev Outcome := Except Fault (Option Error)

def validationError (code : ErrorCode) (instancePath schemaPath detail : String) : Outcome :=
  .ok (some ⟨code, instancePath, schemaPath, detail⟩)

/-- `typeError`. -/
def typeError (instancePath schemaPath want : String) : Outcome :=
  validationError .type instancePath (joinPointer schemaPath "type") ("expected " ++ want)

def lookup (node : Option Node) (name : String) : Option Node := node.bind fun n => n.lookup name

def members (node : Option Node) : List (String × Node) := (node.map Node.members).getD []

def sortedMembers (node : Option Node) : List (String × Node) :=
  (node.map Node.sortedMembers).getD []

def text : Node → String
  | .string text => text
  | _ => ""

def elements : Node → List Node
  | .array elements => elements
  | _ => []

/-- `text[n:]`. A slice from within a character names no definition. -/
def sliceFrom : ℕ → List Char → Option (List Char)
  | 0, chars => some chars
  | _ + 1, [] => none
  | n + 1, c :: chars => if c.utf8Size ≤ n + 1 then sliceFrom (n + 1 - c.utf8Size) chars else none

def firstError {α : Type} (check : α → Outcome) : List α → Outcome
  | [] => .ok none
  | a :: rest =>
    match check a with
    | .ok none => firstError check rest
    | outcome => outcome

/-- A loop that counts what has no error. -/
def countMatches {α : Type} (check : α → Outcome) : List α → Except Fault ℕ
  | [] => .ok 0
  | a :: rest => do
    let err ← check a
    let found ← countMatches check rest
    .ok (if err = none then found + 1 else found)

section Validation

variable (validate : Option Node → Option Node → String → String → Outcome)

def unknownNames (properties : Option Node) (inst : Option Node) : List String :=
  (((members inst).map (·.1)).filter fun name =>
    (lookup properties name).isNone).insertionSort (· ≤ ·)

def validateObject (schema inst : Option Node) (schemaPath instancePath : String) : Outcome :=
  let properties := lookup schema "properties"
  match (sortedMembers properties).find? fun property => (lookup inst property.1).isNone with
  | some property =>
    validationError .required (joinPointer instancePath property.1)
      (joinPointer schemaPath "required") "required property is absent"
  | none =>
    match unknownNames properties inst with
    | name :: _ =>
      validationError .additional (joinPointer instancePath name)
        (joinPointer schemaPath "additionalProperties")
        "property is not declared by the closed object schema"
    | [] =>
      firstError (fun property => validate (some property.2) (lookup inst property.1)
        (joinPointer (joinPointer schemaPath "properties") property.1)
        (joinPointer instancePath property.1)) (sortedMembers properties)

/-- The loop over the items of an array. -/
def validateItems (schema : Option Node) (inst : Node) (schemaPath instancePath : String) :
    Outcome :=
  firstError (fun item => validate (lookup schema "items") (some item.2)
    (joinPointer schemaPath "items") item.1) (elementPlaces instancePath (elements inst))

/-- A union. -/
def validateAnyOf (anyOf : Node) (inst : Option Node) (schemaPath instancePath : String) :
    Outcome :=
  match countMatches (fun branch => validate (some branch.2) inst branch.1 instancePath)
      (elementPlaces (joinPointer schemaPath "anyOf") (elements anyOf)) with
  | .error fault => .error fault
  | .ok matched =>
    if 1 ≤ matched then .ok none
    else validationError .anyOf instancePath (joinPointer schemaPath "anyOf")
      "value does not match any anyOf branch"

/-- The values of an enum. -/
def validateEnum (schema inst : Option Node) (schemaPath instancePath : String) : Outcome :=
  match lookup schema "enum" with
  | none => .ok none
  | some enum =>
    if (elements enum).any fun candidate => inst.any fun value => Equal candidate value then .ok none
    else validationError .enum instancePath (joinPointer schemaPath "enum")
      "value is not a member of enum"

/-- A node with neither a reference nor branches. -/
def validateTyped (schema : Option Node) (typeNode inst : Node)
    (schemaPath instancePath : String) : Outcome :=
  let typed (fits : Bool) (want : String) : Outcome :=
    if fits then validateEnum schema (some inst) schemaPath instancePath
    else typeError instancePath schemaPath want
  if text typeNode = "object" then
    if inst.isObject then
      validateObject validate schema (some inst) schemaPath instancePath
    else typeError instancePath schemaPath "object"
  else if text typeNode = "array" then
    match inst with
    | .array _ => validateItems validate schema inst schemaPath instancePath
    | _ => typeError instancePath schemaPath "array"
  else if text typeNode = "string" then typed inst.isString "string"
  else if text typeNode = "number" then
    typed (match inst with | .number _ => true | _ => false) "number"
  else if text typeNode = "integer" then
    typed (match inst with | .number n => StrictJson.NumberIsInteger n | _ => false) "integer"
  else if text typeNode = "boolean" then
    typed (match inst with | .bool _ => true | _ => false) "boolean"
  else if text typeNode = "null" then
    typed (match inst with | .null => true | _ => false) "null"
  else validateEnum schema (some inst) schemaPath instancePath

end Validation

/-- `validate`, to a depth. -/
def validate (defs : List (String × Node)) :
    ℕ → Option Node → Option Node → String → String → Outcome
  | 0, _, _, _, _ => .error .outOfFuel
  | fuel + 1, schema, inst, schemaPath, instancePath =>
    match lookup schema "$ref" with
    | some ref =>
      match sliceFrom SchemaGuard.definitionPrefix.length (text ref).toList with
      | none => .error .panic
      | some name =>
        validate defs fuel (defs.lookup (String.ofList name)) inst
          (joinPointer "/$defs" (String.ofList name)) instancePath
    | none =>
      match lookup schema "anyOf" with
      | some anyOf => validateAnyOf (validate defs fuel) anyOf inst schemaPath instancePath
      | none =>
        match lookup schema "type", inst with
        | some typeNode, some value =>
          validateTyped (validate defs fuel) schema typeNode value schemaPath instancePath
        | some typeNode, none =>
          if (SchemaGuard.admittedType (text typeNode)).isSome then .error .panic
          else validateEnum schema none schemaPath instancePath
        | none, _ => .error .panic

section Admitted

variable {Digest : Type} [DecidableEq Digest] (source : Source) (sum256 : List UInt8 → Digest)

/-- The definitions of the validator, where a later member replaces an earlier one. -/
def admittedDefinitions (schema : Node) : List (String × Node) :=
  (members (schema.lookup "$defs")).reverse

def ValidateAdmitted (fuel : ℕ) (admitted : Admission Digest) (inst : List UInt8) : Outcome :=
  if sum256 admitted.bytes ≠ admitted.digest then
    .ok (some ⟨.schema, "", "", "guarded schema digest mismatch"⟩)
  else
    match Parse source admitted.bytes with
    | .error _ => .ok (some ⟨.schema, "", "", "guarded schema is not strict JSON"⟩)
    | .ok schema =>
      match Parse source inst with
      | .error e =>
        .ok (some ⟨if e.code = .duplicateKey then .duplicateKey else .invalidJSON, e.path, "",
          "instance must be strict JSON"⟩)
      | .ok value =>
        validate (admittedDefinitions schema) fuel (some schema) (some value) "" ""

end Admitted

end JsonSchemaValidate

end AiOrg

/-!
## What schemas mean

The values that a schema accepts, on schemas in which references are replaced by what they refer to.
-/

namespace AiOrg

namespace JsonSchemaValidate

open StrictJson (Node Denotes SameValue)
open SchemaGuard (ScalarType Schema)

/-- A value of a scalar type; integers are the numbers without a fraction, however they are written. -/
inductive HasType : ScalarType → Node → Prop
  | string {text : String} : HasType .string (.string text)
  | number {text : String} : HasType .number (.number text)
  | integer {text : String} {z : ℤ} : Denotes text z → HasType .integer (.number text)
  | boolean {value : Bool} : HasType .boolean (.bool value)

/-- A value satisfies a schema. The properties of an object are those of its schema, all of them; an
enum has a member that is the same value, and a union a branch that accepts it. -/
inductive Accepts : Schema → Node → Prop
  | null : Accepts .null .null
  | scalar {type : ScalarType} {enum : Option (List Node)} {value : Node} : HasType type value →
      (∀ candidates ∈ enum, ∃ candidate ∈ candidates, SameValue candidate value) →
      Accepts (.scalar type enum) value
  | array {items : Schema} {elements : List Node} : (∀ element ∈ elements, Accepts items element) →
      Accepts (.array items) (.array elements)
  | object {properties : List (String × Schema)} {members : List (String × Node)} :
      (∀ property ∈ properties, property.1 ∈ members.map (·.1)) →
      (∀ member ∈ members, member.1 ∈ properties.map (·.1)) →
      (∀ property ∈ properties, ∀ value, (property.1, value) ∈ members → Accepts property.2 value) →
      Accepts (.object properties) (.object members)
  | anyOf {branches : List Schema} {branch : Schema} {value : Node} : branch ∈ branches →
      Accepts branch value → Accepts (.anyOf branches) value

end JsonSchemaValidate

end AiOrg
