import AiOrg.SchemaGuard.Checker

/-!
# The profile

What the guard is for: which forms a schema node may have, what a schema is once its references are
replaced by what they refer to, and which documents the structured-output profile admits.
-/

namespace AiOrg

namespace SchemaGuard

open StrictJson (Node)

inductive Form
  | ref (name : String)
  | union (branches : List Node)
  | object (properties : List (String × Node))
  | array (items : Node)
  | scalar (type : ScalarType) (enum : Option (List Node))
  | null

/-- The schema nodes directly below one of a form. -/
def Form.children : Form → List Node
  | ref _ => []
  | union branches => branches
  | object properties => properties.map (·.2)
  | array items => [items]
  | scalar _ _ => []
  | null => []

def Form.keywords (isRoot : Bool) : Form → List String
  | ref _ => ["$ref"]
  | union _ => ["anyOf", "description"]
  | object _ => ["type", "properties", "required", "additionalProperties", "description"] ++
      if isRoot then ["$schema", "$defs"] else []
  | array _ => ["type", "items", "description"]
  | scalar _ _ => ["type", "enum", "description"]
  | null => ["type", "description"]

structure IsEnum (type : ScalarType) (candidates : List Node) : Prop where
  nonempty : candidates ≠ []
  typed : ∀ candidate ∈ candidates, matchesScalarType candidate type
  unique : candidates.Pairwise fun a b => ¬ StrictJson.Equal b a

/-- The names an object demands: those of its properties, each once. -/
structure IsRequired (required : List Node) (properties : List (String × Node)) : Prop where
  strings : ∀ entry ∈ required, entry.isString
  unique : (requiredNames required).Nodup
  names : ∀ name, name ∈ requiredNames required ↔ name ∈ properties.map (·.1)

def view (node : Node) : Option Form :=
  match node.lookup "$ref" with
  | some ref => (referencedName ref).map .ref
  | none =>
    match node.lookup "anyOf" with
    | some (.array branches) => some (.union branches)
    | some _ => none
    | none =>
      match (typeText node).bind admittedType with
      | some .object =>
        match node.lookup "properties" with
        | some (.object properties) => some (.object properties)
        | _ => none
      | some .array => (node.lookup "items").map .array
      | some (.scalar type) =>
        match node.lookup "enum" with
        | none => some (.scalar type none)
        | some (.array candidates) => some (.scalar type (some candidates))
        | some _ => none
      | some .null => some .null
      | none => none

def Form.Valid (node : Node) : Form → Prop
  | ref name => node.members.length = 1 ∧ validDefinitionName name
  | union branches => node.lookup "type" = none ∧ 2 ≤ branches.length ∧
      ∀ branch ∈ branches, branch.isObject
  | object properties => (∀ property ∈ properties, property.2.isObject) ∧
      node.lookup "additionalProperties" = some (.bool false) ∧
      ∃ required, node.lookup "required" = some (.array required) ∧ IsRequired required properties
  | array items => items.isObject
  | scalar type enum => ∀ candidates ∈ enum, IsEnum type candidates
  | null => True

structure HasForm (isRoot : Bool) (node : Node) (form : Form) : Prop where
  view : view node = some form
  keywords : ∀ member ∈ node.members, member.1 ∈ form.keywords isRoot
  description : ∀ text ∈ node.lookup "description", text.isString
  valid : form.Valid node
  root : isRoot → ∃ properties, form = .object properties

inductive WellFormed (defs : List (String × Node)) : Bool → Node → Prop
  | mk {isRoot : Bool} {node : Node} {form : Form} : HasForm isRoot node form →
      (∀ name, form = .ref name → (defs.lookup name).isSome) →
      (∀ child ∈ form.children, WellFormed defs false child) → WellFormed defs isRoot node

/-- A schema without references. -/
inductive Schema
  | null
  | scalar (type : ScalarType) (enum : Option (List Node))
  | array (items : Schema)
  | object (properties : List (String × Schema))
  | anyOf (branches : List Schema)

namespace Schema

mutual

def properties : Schema → ℕ
  | array items => properties items
  | object members => members.length + membersProperties members
  | anyOf branches => branchesProperties branches
  | _ => 0

def membersProperties : List (String × Schema) → ℕ
  | [] => 0
  | (_, schema) :: members => properties schema + membersProperties members

def branchesProperties : List Schema → ℕ
  | [] => 0
  | schema :: branches => properties schema + branchesProperties branches

end

mutual

def depth : Schema → ℕ
  | array items => 1 + depth items
  | object members => 1 + membersDepth members
  | anyOf branches => max 1 (branchesDepth branches)
  | _ => 1

def membersDepth : List (String × Schema) → ℕ
  | [] => 0
  | (_, schema) :: members => max (depth schema) (membersDepth members)

def branchesDepth : List Schema → ℕ
  | [] => 0
  | schema :: branches => max (depth schema) (branchesDepth branches)

end

def isNull : Schema → Bool
  | null => true
  | _ => false

def isAnyOf : Schema → Bool
  | anyOf _ => true
  | _ => false

/-- `null` stands only as a branch of a union, once in each, and no branch is a union; at the top it
stands where `allowNull` says so. -/
inductive NullSafe : Bool → Schema → Prop
  | null : NullSafe true null
  | scalar {allowNull : Bool} {type : ScalarType} {enum : Option (List Node)} :
      NullSafe allowNull (scalar type enum)
  | array {allowNull : Bool} {items : Schema} : NullSafe false items →
      NullSafe allowNull (array items)
  | object {allowNull : Bool} {members : List (String × Schema)} :
      (∀ member ∈ members, NullSafe false member.2) → NullSafe allowNull (object members)
  | anyOf {allowNull : Bool} {branches : List Schema} :
      (∀ branch ∈ branches, ¬ branch.isAnyOf) → branches.countP isNull ≤ 1 →
      (∀ branch ∈ branches, NullSafe true branch) → NullSafe allowNull (anyOf branches)

end Schema

/-- The schema that a node stands for, by substitution of its references. -/
inductive Expands (defs : List (String × Node)) : Bool → Node → Schema → Prop
  | ref {isRoot : Bool} {node target : Node} {name : String} {schema : Schema} :
      HasForm isRoot node (.ref name) → defs.lookup name = some target →
      Expands defs false target schema → Expands defs isRoot node schema
  | union {isRoot : Bool} {node : Node} {branches : List Node} (expand : Node → Schema) :
      HasForm isRoot node (.union branches) →
      (∀ branch ∈ branches, Expands defs false branch (expand branch)) →
      Expands defs isRoot node (.anyOf (branches.map expand))
  | object {isRoot : Bool} {node : Node} {properties : List (String × Node)}
      (expand : Node → Schema) : HasForm isRoot node (.object properties) →
      (∀ property ∈ properties, Expands defs false property.2 (expand property.2)) →
      Expands defs isRoot node (.object (properties.map fun property =>
        (property.1, expand property.2)))
  | array {isRoot : Bool} {node items : Node} {schema : Schema} :
      HasForm isRoot node (.array items) → Expands defs false items schema →
      Expands defs isRoot node (.array schema)
  | scalar {isRoot : Bool} {node : Node} {type : ScalarType} {enum : Option (List Node)} :
      HasForm isRoot node (.scalar type enum) → Expands defs isRoot node (.scalar type enum)
  | null {isRoot : Bool} {node : Node} : HasForm isRoot node .null → Expands defs isRoot node .null

/-- A schema node is directly below another. -/
def IsChild (node child : Node) : Prop := ∃ form, view node = some form ∧ child ∈ form.children

/-- A reference to a name stands at a node or below it. -/
def Mentions (node : Node) (name : String) : Prop :=
  ∃ below, Relation.ReflTransGen IsChild node below ∧ view below = some (.ref name)

/-- A definition refers to another. -/
def Refers (defs : List (String × Node)) (name other : String) : Prop :=
  ∃ definition, defs.lookup name = some definition ∧ Mentions definition other

/-- A definition can be reached from a node along references. -/
def Reaches (defs : List (String × Node)) (node : Node) (name : String) : Prop :=
  ∃ first, Mentions node first ∧ Relation.ReflTransGen (Refers defs) first name

/-- The members of `$defs`. -/
def namedDefinitions (root : Node) : List (String × Node) :=
  match root.lookup "$defs" with
  | some defs => defs.members
  | none => []

/-- The structured-output profile. -/
structure Profile (root : Node) : Prop where
  dialect : root.lookup "$schema" = some (.string draft202012URI)
  defsObject : ∀ defs ∈ root.lookup "$defs", defs.isObject
  named : ∀ definition ∈ namedDefinitions root,
    validDefinitionName definition.1 ∧ definition.2.isObject
  rootWellFormed : WellFormed (definitions root) true root
  wellFormed : ∀ definition ∈ definitions root, WellFormed (definitions root) false definition.2
  acyclic : ∀ name, ¬ Relation.TransGen (Refers (definitions root)) name name
  reachable : ∀ definition ∈ definitions root, Reaches (definitions root) root definition.1
  nullSafe : ∀ schema, Expands (definitions root) true root schema → schema.NullSafe false
  properties : ∀ schema, Expands (definitions root) true root schema →
    schema.properties ≤ maxTotalProperties
  depth : ∀ schema, Expands (definitions root) true root schema → schema.depth ≤ maxDepth

end SchemaGuard

end AiOrg
