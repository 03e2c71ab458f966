import AiOrg.Order.First
import AiOrg.Python.Dict
import AiOrg.Python.Text
import AiOrg.Python.Walk

/-!
# The continuity of a revision

The nodes of an approach tree, the replacements that a revised tree declares or implies, the ids that it
refers to, and the gate that every such id goes through.
-/

namespace AiOrg

namespace Reform

def derivedSingletonIdPrefixes : List String := ["decision:", "implementation:", "patch_plan:"]

def reindexedFamilyIdPrefixes : List String := ["constraint:", "goal:", "domain_specification"]

def syntheticCrossLinkPrefixes : List String := ["argument:"]

def idTypedReferenceFields : List String :=
  ["candidate_id", "about_candidate_id", "selected_candidate_id", "target_id"]

/-- `id.startswith(prefixes)`. -/
def startsWith (id : String) (prefixes : List String) : Bool :=
  prefixes.any fun front => front.toList.isPrefixOf id.toList

/-- The text of a member, if it has any. -/
def textAt (fields : Fields) (key : String) : Option String :=
  match fields.get key with
  | .str text => if text = "" then none else some text
  | _ => none

def nodeId : Json → Option String
  | .obj fields => textAt fields "id"
  | _ => none

/-- `set(_tree_node_contents(tree))`. -/
def nodeIds (tree : Json) : List String :=
  Selection.firsts id [] (tree.preorder.filterMap nodeId)

def _tree_node_contents (canonical : Json → String) (tree : Json) : List (String × String) :=
  Selection.firsts Prod.fst []
    (tree.preorder.filterMap fun value => (nodeId value).map fun id => (id, canonical value))

structure Replacement where
  replacedNodeId : String
  successorNodeId : String
  reason : String
  deriving DecidableEq, Repr

/-- The order of two replacements: by the ids. -/
def Replacement.le (a b : Replacement) : Bool :=
  a.replacedNodeId < b.replacedNodeId ||
    (a.replacedNodeId = b.replacedNodeId && a.successorNodeId ≤ b.successorNodeId)

section Library

variable (py : PyLib)

def reconciledReplacement (id : String) : Json → Option Replacement
  | .obj fields =>
    match Fields.get fields "replaced_node_id" with
    | .str replaced =>
      if pyStrip replaced = "" then none
      else some ⟨replaced, id, py.strOr (Fields.get fields "reason") ""⟩
    | _ => none
  | _ => none

def nodeReplacements (value : Json) : List Replacement :=
  match value, nodeId value with
  | .obj fields, some id =>
    (match Fields.get fields "replaces" with
      | .str replaced =>
        if pyStrip replaced = "" then []
        else [⟨replaced, id, py.strOr (Fields.get fields "replacement_reason") ""⟩]
      | _ => []) ++
    (match Fields.get fields "reconciled_replaces" with
      | .arr items => items.filterMap (reconciledReplacement py id)
      | _ => [])
  | _, _ => []

def _tree_replacement_declarations (tree : Json) : List Replacement :=
  (tree.preorder.flatMap (nodeReplacements py)).insertionSort fun a b => a.le b

def _implied_replacement_declarations (before after : List String) (declared : List Replacement) :
    List Replacement :=
  (declared.filterMap fun declaration =>
    let oldEvaluation := "evaluation:" ++ declaration.replacedNodeId
    let newEvaluation := "evaluation:" ++ declaration.successorNodeId
    if oldEvaluation ∈ before ∧ newEvaluation ∈ after then
      some ⟨oldEvaluation, newEvaluation,
        "derived: evaluation node follows its declared candidate replacement"⟩
    else none) ++
  derivedSingletonIdPrefixes.flatMap fun front =>
    let removed := sorted (before.filter fun id => startsWith id [front] && id ∉ after)
    let introduced := sorted (after.filter fun id => startsWith id [front] && id ∉ before)
    match removed, introduced with
    | [old], [new] => [⟨old, new, "derived: singleton node id follows the selected candidate"⟩]
    | _, _ => []

def _revision_replacements (previous revised : Json) : List Replacement :=
  let declared := _tree_replacement_declarations py revised
  declared ++ _implied_replacement_declarations (nodeIds previous) (nodeIds revised) declared

def successors (replacements : List Replacement) (id : String) : List String :=
  (replacements.filter (·.replacedNodeId = id)).map (·.successorNodeId)

end Library

/-- An id in a field that holds ids. -/
structure Reference where
  field : String
  reference : String
  holder : String
  deriving DecidableEq, Repr

/-- The ends of a link that are not made at assembly. -/
def linkReferences (current : String) : Json → List Reference
  | .obj link => ["from", "to"].filterMap fun endpoint =>
      match textAt link endpoint with
      | some reference =>
        if startsWith reference syntheticCrossLinkPrefixes then none
        else some ⟨"cross_links." ++ endpoint, reference, if current = "" then "root" else current⟩
      | none => none
  | _ => []

/-- The references that a mapping itself holds. -/
def ownReferences (current : String) (fields : Fields) : List Reference :=
  (idTypedReferenceFields.filterMap fun field =>
    (textAt fields field).map fun reference => ⟨field, reference, current⟩) ++
  match fields.get "cross_links" with
  | .arr links => links.flatMap (linkReferences current)
  | _ => []

mutual

/-- The walk of `_id_typed_tree_references`, with the node that holds the value. -/
def referencesIn (holder : String) : Json → List Reference
  | .obj fields =>
    let current := (textAt fields "id").getD holder
    ownReferences current fields ++ referencesInFields current fields
  | .arr items => referencesInItems holder items
  | _ => []

def referencesInItems (holder : String) : List Json → List Reference
  | [] => []
  | item :: items => referencesIn holder item ++ referencesInItems holder items

/-- `referencesIn` on the members of a mapping. -/
def referencesInFields (holder : String) : List (String × Json) → List Reference
  | [] => []
  | (key, value) :: fields =>
    (if key = "cross_links" then [] else referencesIn holder value) ++ referencesInFields holder fields

end

def _id_typed_tree_references (tree : Json) : List Reference := referencesIn "" tree

section Gate

variable (py : PyLib)

def anchors (objection : Fields) : List String :=
  match objection.get "anchor_node_ids" with
  | .arr items => items.filterMap fun item =>
      match item with
      | .str anchor => if anchor = "" then none else some anchor
      | _ => none
  | _ => []

def resolves (known : List String) (replacements : List Replacement) (id : String) : Bool :=
  id ∈ known || id ∈ replacements.map (·.replacedNodeId)

/-- What the gate says of a reference. -/
def danglingMessage (reference : Reference) : String :=
  "dangling node reference: " ++ reference.field ++ "=" ++ py.repr reference.reference ++
    " held by " ++ (if reference.holder = "" then "tree root" else reference.holder) ++
    " resolves to no node id and no declared replacement"

/-- What the gate says of an anchor. -/
def pruneMessage (objection : Fields) (anchor : String) : String :=
  "undeclared prune: open objection " ++ py.repr (py.strOr (objection.get "objection_id") "") ++
    " anchors " ++ py.repr anchor ++ ", which was removed " ++
    "without a declared replacement (declare replaces on the successor node or keep the node)"

def _revision_continuity_violations (previous revised : Json) (objections : List Fields) :
    List String :=
  let known := nodeIds revised
  let replacements := _revision_replacements py previous revised
  let dangling := (_id_typed_tree_references revised).filter fun reference =>
    !resolves known replacements reference.reference
  let pruned := objections.flatMap fun objection =>
    ((anchors objection).filter fun anchor =>
      !resolves known replacements anchor && !startsWith anchor reindexedFamilyIdPrefixes).map
        (pruneMessage py objection)
  Selection.firsts id [] (dangling.map (danglingMessage py) ++ pruned)

/-- A dead end of a link with one successor is set to it. -/
def remapEndpoint (known : List String) (replacements : List Replacement) (link : Fields)
    (endpoint : String) : Fields :=
  match textAt link endpoint with
  | some target =>
    if target ∉ known ∧ startsWith target syntheticCrossLinkPrefixes = false then
      match successors replacements target with
      | [successor] => link.set endpoint (.str successor)
      | _ => link
    else link
  | none => link

def _remap_root_reference_ids (previous : Json) (revised : Fields) : Fields :=
  match revised.get "cross_links" with
  | .arr links =>
    let known := nodeIds (.obj revised)
    let replacements := _revision_replacements py previous (.obj revised)
    let remapped := links.map fun link =>
      match link with
      | .obj link => .obj (remapEndpoint known replacements
          (remapEndpoint known replacements link "from") "to")
      | link => link
    if remapped = links then revised else revised.set "cross_links" (.arr remapped)
  | _ => revised

end Gate

end Reform

end AiOrg
