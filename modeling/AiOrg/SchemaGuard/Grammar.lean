import AiOrg.StrictJson.Number

/-!
# The grammar of admitted schemas

The errors of the guard, the one that is chosen of several, and what it reads of a single schema
node: keywords, types, references, required names and enums.
-/

namespace AiOrg

namespace SchemaGuard

open StrictJson (Node joinPointer)

def draft202012URI : String := "https://json-schema.org/draft/2020-12/schema"

/-- `MaxTotalProperties`. -/
def maxTotalProperties : ℕ := 100

/-- `MaxDepth`. -/
def maxDepth : ℕ := 5

inductive ErrorCode
  | invalidJSON | duplicateKey | rootObject | dialect | definitionName | definitionShape
  | unsupportedKeyword | rootOnlyKeyword | description | schemaForm | type | properties | required
  | additionalProperties | items | enum | anyOf | nullPosition | reference | referenceTarget
  | referenceCycle | unreachableDef | propertyLimit | depthLimit
  deriving DecidableEq, Repr

structure Error where
  code : ErrorCode
  jsonPointer : String
  detail : String
  deriving DecidableEq, Repr

def reject (code : ErrorCode) (pointer detail : String) : Error := ⟨code, pointer, detail⟩

/-- The errors that `add` leaves where it is called under a condition. -/
def addIf (p : Prop) [Decidable p] (e : Error) : List Error := if p then [e] else []

@[simp] theorem addIf_eq_nil {p : Prop} [Decidable p] {e : Error} : addIf p e = [] ↔ ¬ p := by
  unfold addIf
  split_ifs with h <;> simp [h]

def ruleOrder : List ErrorCode :=
  [.invalidJSON, .duplicateKey, .rootObject, .dialect, .definitionName, .definitionShape,
    .unsupportedKeyword, .rootOnlyKeyword, .description, .schemaForm, .type, .properties, .required,
    .additionalProperties, .items, .enum, .anyOf, .nullPosition, .reference, .referenceTarget,
    .referenceCycle, .unreachableDef, .propertyLimit, .depthLimit]

def guardRuleRank (code : ErrorCode) : ℕ := ruleOrder.idxOf code + 1

def selectGuardError (candidates : List Error) : Option Error :=
  candidates.foldl (fun selected candidate => match selected with
    | none => some candidate
    | some best =>
      if candidate.jsonPointer < best.jsonPointer ∨
          candidate.jsonPointer = best.jsonPointer ∧
            guardRuleRank candidate.code < guardRuleRank best.code ∨
          candidate.jsonPointer = best.jsonPointer ∧
            guardRuleRank candidate.code = guardRuleRank best.code ∧
              candidate.detail < best.detail then some candidate
      else some best) none

def keywords : List String :=
  ["$schema", "$defs", "$ref", "type", "properties", "required", "additionalProperties", "items",
    "enum", "anyOf", "description"]

def allowedKeyword (name : String) : Bool := keywords.contains name

/-- `onlyKeywords`. -/
def onlyKeywords (node : Node) (allowed : List String) : Bool :=
  node.members.all fun member => allowed.contains member.1

/-- `hasForeignFormKeyword`. -/
def hasForeignFormKeyword (node : Node) (allowed : List String) : Bool :=
  node.members.any fun member =>
    !(member.1 == "description" || member.1 == "$schema" || member.1 == "$defs" ||
      !allowedKeyword member.1) && !allowed.contains member.1

/-- `hasUnsupportedKeyword`. -/
def hasUnsupportedKeyword (node : Node) : Bool :=
  node.members.any fun member => !allowedKeyword member.1

inductive ScalarType
  | string | number | integer | boolean
  deriving DecidableEq, Repr

inductive SchemaType
  | object | array | scalar (type : ScalarType) | null
  deriving DecidableEq, Repr

def admittedType (name : String) : Option SchemaType :=
  if name = "object" then some .object
  else if name = "array" then some .array
  else if name = "string" then some (.scalar .string)
  else if name = "number" then some (.scalar .number)
  else if name = "integer" then some (.scalar .integer)
  else if name = "boolean" then some (.scalar .boolean)
  else if name = "null" then some .null
  else none

def typeText (node : Node) : Option String :=
  match node.lookup "type" with
  | some (.string text) => some text
  | _ => none

def matchesScalarType (node : Node) (type : ScalarType) : Bool :=
  match type, node with
  | .string, .string _ => true
  | .boolean, .bool _ => true
  | .number, .number _ => true
  | .integer, .number text => StrictJson.NumberIsInteger text
  | _, _ => false

/-- `isASCIILetter`. -/
def isASCIILetter (c : Char) : Bool :=
  decide ('A' ≤ c) && decide (c ≤ 'Z') || decide ('a' ≤ c) && decide (c ≤ 'z')

def validDefinitionName (name : String) : Bool :=
  match name.toList with
  | [] => false
  | first :: rest =>
    (isASCIILetter first || first == '_') &&
      rest.all fun c => isASCIILetter c || decide ('0' ≤ c) && decide (c ≤ '9') || c == '_' ||
        c == '.' || c == '-'

def definitionPrefix : String := "#/$defs/"

def referencedName (ref : Node) : Option String :=
  match ref with
  | .string text =>
    if definitionPrefix.toList.isPrefixOf text.toList then
      some (String.ofList (text.toList.drop definitionPrefix.length))
    else none
  | _ => none

/-- The definitions that have a name and the shape of a schema. -/
def definitions (root : Node) : List (String × Node) :=
  match root.lookup "$defs" with
  | some defs =>
    defs.sortedMembers.filter fun definition =>
      validDefinitionName definition.1 && definition.2.isObject
  | none => []

/-- A Go pointer to a node: where the node is in the document, and the node. -/
abbrev Place := String × Node

def elementPlaces (pointer : String) (elements : List Node) : List Place :=
  elements.zipIdx.map fun element => (joinPointer pointer (toString element.2), element.1)

/-- The members of an object in their order, with their places. -/
def memberPlaces (pointer : String) (node : Node) : List Place :=
  node.sortedMembers.map fun member => (joinPointer pointer member.1, member.2)

theorem elementPlaces_nodes (pointer : String) (elements : List Node) :
    (elementPlaces pointer elements).map (·.2) = elements := by
  rw [elementPlaces, List.map_map]
  exact List.zipIdx_map_fst 0 elements

theorem memberPlaces_nodes (pointer : String) (node : Node) :
    (memberPlaces pointer node).map (·.2) = node.sortedMembers.map (·.2) := by
  rw [memberPlaces, List.map_map]
  rfl

/-- `metrics`: the properties and the height of a node with references expanded. -/
structure Metrics where
  properties : ℕ
  height : ℕ
  deepestPath : String
  deriving DecidableEq, Repr

def cappedAdd (a b : ℕ) : ℕ :=
  if maxTotalProperties < a ∨ maxTotalProperties < b ∨ maxTotalProperties - b < a then
    maxTotalProperties + 1
  else a + b

def mergeMetricHeight (result child : Metrics) (edge : ℕ) : Metrics :=
  let height := edge + child.height
  if result.height < height ∨ height = result.height ∧ child.deepestPath < result.deepestPath then
    { result with height := height, deepestPath := child.deepestPath }
  else result

/-- What a node takes over of a child. -/
def Metrics.merge (edge : ℕ) (result child : Metrics) : Metrics :=
  mergeMetricHeight { result with properties := cappedAdd result.properties child.properties }
    child edge

end SchemaGuard

end AiOrg
