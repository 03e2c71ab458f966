import AiOrg.Python.Walk

/-!
# Locating a target in a body

A path of keys and indices leads to a value of a committed body, and the deepest mapping on it with an `id` is the
versioned node. A later lookup of the node goes through the body depth-first for its `id`.
-/

namespace AiOrg

namespace Judge

/-- One part of a path. -/
inductive Seg
  | key (k : String)
  | index (i : ℕ)
  deriving DecidableEq

abbrev Path := List Seg

/-- `node[seg]`, with nothing where it raises. -/
def item : Json → Seg → Option Json
  | .obj fields, .key k => fields.lookup k
  | .arr items, .index i => items[i]?
  | .str s, .index i => s.toList[i]?.map fun c => .str (String.ofList [c])
  | _, _ => none

/-- `navigate`, with nothing where it raises. -/
def navigate : Json → Path → Option Json
  | node, [] => some node
  | node, seg :: path => (item node seg).bind fun child => navigate child path

def hasId (node_id : String) : Json → Bool
  | .obj fields => fields.lookup "id" = some (.str node_id)
  | _ => false

/-- The `id` of a mapping that has a nonempty one. -/
def nodeId : Json → Option String
  | .obj fields =>
    match fields.lookup "id" with
    | some (.str s) => if s = "" then none else some s
    | _ => none
  | _ => none

/-- The `id` and the path of the node around what a path leads to; `cut` goes down from the length of the path. -/
def enclosingFrom (data : Json) (path : Path) : ℕ → Option (String × Path)
  | 0 => (nodeId data).map fun node_id => (node_id, [])
  | cut + 1 =>
    match (navigate data (path.take (cut + 1))).bind nodeId with
    | some node_id => some (node_id, path.take (cut + 1))
    | none => enclosingFrom data path cut

def enclosing_id_node (data : Json) (scalar_path : Path) : Option (String × Path) :=
  enclosingFrom data scalar_path scalar_path.length

/-- What is put on the stack for a node. -/
def children : Json → List Json
  | .arr items => items
  | .obj fields => fields.map Prod.snd
  | _ => []

theorem preorder_eq (node : Json) : node.preorder = node :: (children node).flatMap Json.preorder := by
  cases node with
  | arr items => rw [Json.preorder, Json.preorderItems_eq, children]
  | obj fields => rw [Json.preorder, Json.preorderFields_eq, children, List.flatMap_map]
  | _ => rfl

def findFrom (node_id : String) : List Json → Option Json
  | [] => none
  | node :: stack => if hasId node_id node = true then some node else findFrom node_id (children node ++ stack)
termination_by stack => (stack.flatMap Json.preorder).length
decreasing_by
  rw [List.flatMap_cons, List.flatMap_append, preorder_eq node]
  simp

def find_node_by_id (data : Json) (node_id : String) : Option Json := findFrom node_id [data]

mutual

/-- What `json.dumps` with sorted keys writes, which is only compared: the value with the members of each mapping in
the order of their names. -/
def canonical : Json → Json
  | .arr items => .arr (canonicalItems items)
  | .obj fields => .obj ((canonicalFields fields).mergeSort fun a b => a.1 ≤ b.1)
  | value => value

def canonicalItems : List Json → List Json
  | [] => []
  | item :: items => canonical item :: canonicalItems items

def canonicalFields : List (String × Json) → List (String × Json)
  | [] => []
  | (key, value) :: fields => (key, canonical value) :: canonicalFields fields

end

end Judge

end AiOrg
