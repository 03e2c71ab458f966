import AiOrg.Gate.Network

/-!
# Partition of a plan

The committed patch plan is a graph of work items; its weakly connected components become the
children of a split, and `_normalize_split` turns them into nodes of the network under the root.
-/

namespace AiOrg

/-- What the partition can raise. -/
inductive PlanError where
  | value (message : String)
  | type
  | key (name : String)
  deriving DecidableEq, Repr

/-- `sep.join(xs)`. -/
def pyJoin (sep : String) : List String → String
  | [] => ""
  | [x] => x
  | x :: xs => x ++ sep ++ pyJoin sep xs

def stripChar (c : Char) (text : List Char) : List Char :=
  (text.dropWhile (· == c)).rdropWhile (· == c)

/-- `text.removeprefix(prefix)`. -/
def pyRemovePrefix (text pre : String) : String :=
  if pyStartsWith text pre then String.ofList (text.toList.drop pre.toList.length) else text

def listOfMappings : Json → List Fields
  | .arr items => items.filterMap fun
    | .obj item => some item
    | _ => none
  | _ => []

mutual

/-- `_find_first_mapping`; the stack hands out the values of a container in order. -/
def findFirstMapping (key : String) : Json → Option Fields
  | .obj fields =>
    match fields.lookup key with
    | some (.obj found) => some found
    | _ => findFirstInFields key fields
  | .arr items => findFirstInItems key items
  | _ => none

def findFirstInItems (key : String) : List Json → Option Fields
  | [] => none
  | v :: vs => (findFirstMapping key v).or (findFirstInItems key vs)

def findFirstInFields (key : String) : List (String × Json) → Option Fields
  | [] => none
  | (_, v) :: fields => (findFirstMapping key v).or (findFirstInFields key fields)

end

/-- `for x in value`, with the error of a value that is not iterable. -/
def iterOrRaise (v : Json) : Except PlanError (List Json) :=
  match v.iter with
  | some items => .ok items
  | none => .error .type

section Plan

variable (py : PyLib)

/-- `str(item.get("id") or "")`. -/
def itemId (item : Fields) : String := py.strOr (item.get "id") ""

/-- `f"{index:02d}"`. -/
def twoDigits (index : ℕ) : String :=
  if index < 10 then "0" ++ toString index else toString index

/-- The items of the `follow_ups` of a positional plan, each depending on the one before. -/
def followUpItems (planId : String) : ℕ → String → List Fields → Except PlanError (List Fields)
  | _, _, [] => .ok []
  | index, previous, followUp :: rest => do
    let id := planId ++ "#follow-up-" ++ twoDigits index
    let content ← iterOrRaise (followUp.getD "named_content" (.arr []))
    let items ← followUpItems planId (index + 1) id rest
    pure ([("id", .str id),
      ("objective", .str (py.strOr (followUp.get "adds") (py.dumps (.obj followUp)))),
      ("named_content", .arr content),
      ("acceptance_criteria", .arr []),
      ("how_verified", .str (py.strOr (followUp.get "how_verified") "")),
      ("depends_on", .arr [.str previous])] :: items)

/-- The chain a historical positional plan stands for. -/
def positionalItems (patchPlan : Fields) : Except PlanError (List Fields) :=
  match patchPlan.get "first_proof_moment" with
  | .obj first => do
    let planId := py.strOr (patchPlan.get "id") "patch_plan"
    let id := planId ++ "#first_proof_moment"
    let content ← iterOrRaise (Fields.getD first "named_content" (.arr []))
    let items ← followUpItems py planId 1 id (listOfMappings (patchPlan.get "follow_ups"))
    pure ([("id", .str id),
      ("objective", .str (py.dumps (.obj first))),
      ("named_content", .arr content),
      ("acceptance_criteria",
        .arr [.str (py.strOr (Fields.get first "win_or_progress_condition") "")]),
      ("how_verified", .str (py.strOr (Fields.get first "how_verified") "")),
      ("depends_on", .arr [])] :: items)
  | _ => .error (.value "patch_plan has no executable work items")

def stringItems : List Json → Option (List String)
  | [] => some []
  | .str s :: vs => (stringItems vs).map (s :: ·)
  | _ :: _ => none

def checkDependsOn (known : List String) (item : Fields) : Except PlanError Unit :=
  match item.get "depends_on" with
  | .arr values =>
    match stringItems values with
    | some dependencies =>
      let unresolved := sorted (dependencies.dedup.filter (· ∉ known))
      if unresolved = [] then .ok ()
      else .error (.value ("patch_plan item " ++ py.reprJson (item.get "id")
        ++ " has unresolved dependencies: " ++ py.reprJson (.arr (unresolved.map .str))))
    | none => .error (.value ("patch_plan item " ++ py.reprJson (item.get "id")
        ++ " has invalid depends_on references"))
  | _ => .error (.value ("patch_plan item " ++ py.reprJson (item.get "id")
      ++ " has invalid depends_on references"))

/-- The loop over the items in `_plan_graph`. -/
def checkItems (known : List String) : List Fields → Except PlanError Unit
  | [] => .ok ()
  | item :: items => do
    checkDependsOn py known item
    checkItems known items

def planItems (patchPlan : Fields) : Except PlanError (List Fields) :=
  let graphItems := listOfMappings (patchPlan.get "items")
  if graphItems ≠ [] then .ok graphItems else positionalItems py patchPlan

def planGraph (approach : Json) : Except PlanError (List Fields) :=
  match findFirstMapping "patch_plan" approach with
  | none => .error (.value "technical approach has no patch_plan")
  | some [] => .error (.value "technical approach has no patch_plan")
  | some patchPlan => do
    let items ← planItems py patchPlan
    let ids := items.map (itemId py)
    if "" ∈ ids ∨ ¬ ids.Nodup then
      .error (.value "patch_plan work-item ids must be unique and non-empty")
    else do
      checkItems py ids items
      pure items

def dependencies (item : Fields) : List String :=
  match item.get "depends_on" with
  | .arr values => (stringItems values).getD []
  | _ => []

/-- The set `neighbors[id]` after the loops over the items. -/
def neighborsOf (items : List Fields) (id : String) : List String :=
  (items.flatMap fun item =>
    (if itemId py item = id then dependencies item else [])
      ++ (if id ∈ dependencies item then [itemId py item] else [])).dedup

/-- The `while stack` loop of `_weak_components`; the top of the stack is the head. -/
def componentLoop (neighbors : String → List String) :
    ℕ → List String → List String → List String
  | 0, _, members => members
  | _, [], members => members
  | fuel + 1, current :: stack, members =>
    if current ∈ members then componentLoop neighbors fuel stack members
    else
      let members := current :: members
      componentLoop neighbors fuel
        (sorted ((neighbors current).filter (· ∉ members)) ++ stack) members

/-- More passes than one component can take. -/
def componentFuel (items : List Fields) : ℕ :=
  ((items.map (itemId py)).map fun id => (neighborsOf py items id).length).sum + 2

def componentMembers (items : List Fields) (start : String) : List String :=
  componentLoop (neighborsOf py items) (componentFuel py items) [start] []

/-- The loop over `order` in `_weak_components`. -/
def componentsFrom (items : List Fields) : List String → List String → List (List Fields)
  | [], _ => []
  | start :: order, seen =>
    if start ∈ seen then componentsFrom items order seen
    else
      let members := componentMembers py items start
      items.filter (fun item => itemId py item ∈ members)
        :: componentsFrom items order (members ++ seen)

def weakComponents (items : List Fields) : List (List Fields) :=
  componentsFrom py items (items.map (itemId py)) []

/-- The class `[a-z0-9_]`. -/
def isKeyChar (c : Char) : Bool := c.isLower || c.isDigit || c == '_'

/-- `re.sub(r"[^a-z0-9_]+", "_", text)`; the flag says that the run has its underscore. -/
def subRuns : Bool → List Char → List Char
  | _, [] => []
  | inRun, c :: cs =>
    if isKeyChar c then c :: subRuns false cs
    else if inRun then subRuns true cs
    else '_' :: subRuns true cs

/-- The key the first item of a component gives. -/
def baseKey (index : ℕ) (firstId : String) : String :=
  let key := stripChar '_' (subRuns false (py.lower firstId).toList)
  if key = [] then "component_" ++ toString index else String.ofList key

/-- `f"{base_key}_{suffix}"`. -/
def suffixedKey (base : String) (suffix : ℕ) : String := base ++ "_" ++ toString suffix

/-- `while child_key in used_keys`. -/
def suffixLoop (base : String) (used : List String) : ℕ → ℕ → String
  | 0, suffix => suffixedKey base suffix
  | fuel + 1, suffix =>
    if suffixedKey base suffix ∈ used then suffixLoop base used fuel (suffix + 1)
    else suffixedKey base suffix

/-- The key of a component that is not used yet. -/
def freshKey (base : String) (used : List String) : String :=
  if base ∈ used then suffixLoop base used used.length 2 else base

def componentCriteria : List Fields → Except PlanError (List Json)
  | [] => .ok []
  | item :: items => do
    let criteria ← iterOrRaise (item.getD "acceptance_criteria" (.arr []))
    let rest ← componentCriteria items
    pure (criteria.filter (fun
      | .str s => decide (pyStrip s ≠ "")
      | _ => false) ++ rest)

def componentChild (patchPlan : Fields) (key : String) (component : List Fields) :
    Except PlanError Fields := do
  let first := component.headD []
  let firstId := py.str (first.get "id")
  let criteria ← componentCriteria component
  let checks := (component.map fun item => pyStrip (py.strOr (item.get "how_verified") "")).filter
    (· ≠ "")
  pure [("child_key", .str key),
    ("title", .str (py.strOr (first.get "objective") firstId)),
    ("stage_name", .str "independent"),
    ("edges", .arr []),
    ("summary", .str (pyJoin "; " (component.map fun item =>
      py.strOr (item.get "objective") (py.str (item.get "id"))))),
    ("acceptance_criteria", .arr (if criteria = []
      then [.str ("Complete and verify " ++ firstId ++ ".")] else criteria)),
    ("functional_check", .str (pyJoin "; " checks)),
    ("patch_plan", .obj
      ((match patchPlan.get "id" with
        | .str id => [("id", .str id)]
        | _ => [])
        ++ [("items", .arr (component.map .obj)), ("deferred", .arr []),
          ("open_questions", .arr [])])),
    ("systems", .arr []),
    ("ux_acceptance_tests", .arr []),
    ("risks", .arr [])]

/-- The loop over the components in `_partition_plan_graph`. -/
def componentChildren (patchPlan : Fields) :
    ℕ → List String → List (List Fields) → Except PlanError (List Fields)
  | _, _, [] => .ok []
  | index, used, component :: components => do
    let firstId := py.str ((component.headD []).get "id")
    let key := freshKey (baseKey py index firstId) used
    let child ← componentChild py patchPlan key component
    let children ← componentChildren patchPlan (index + 1) (key :: used) components
    pure (child :: children)

def partitionPlanGraph (approach : Json) : Except PlanError Fields := do
  let items ← planGraph py approach
  let components := weakComponents py items
  if components.length = 1 then
    pure [("split_mode", .str "right_sized"),
      ("rationale", .str "one dependency component; keep the chain in one leaf"),
      ("children", .arr [])]
  else do
    let patchPlan := (findFirstMapping "patch_plan" approach).getD []
    let children ← componentChildren py patchPlan 1 [] components
    pure [("split_mode", .str "split_into_children"),
      ("rationale", .str (toString children.length ++ " independent dependency components")),
      ("children", .arr (children.map .obj))]

end Plan

/-! ### The nodes of a split -/

def subdir : String := "sub"

def workOrderPrefix : String := "ai-org/patch-series/"

def patchSeriesBranch (seriesOrBranch : String) : String :=
  if pyStartsWith seriesOrBranch "refs/heads/" then pyRemovePrefix seriesOrBranch "refs/heads/"
  else if pyStartsWith seriesOrBranch workOrderPrefix then seriesOrBranch
  else workOrderPrefix ++ seriesOrBranch

def patchSeriesId (seriesOrBranch : String) : String :=
  pyRemovePrefix (patchSeriesBranch seriesOrBranch) workOrderPrefix

def safeChildKey (value : String) : String :=
  if pyStrip value = "" then "child" else pyStrip value

/-- An edge as the mapping `_normalize_edges` makes. -/
def edgeJson (edge : Edge) : Json :=
  let text := fun o : Option String => (o.map Json.str).getD .null
  .obj [("type", .str edge.type), ("to", text edge.toNode), ("with", text edge.excluded),
    ("state", text edge.state), ("or_group", text edge.orGroup), ("when", text edge.when),
    ("reason", text edge.reason)]

def coercePartOfTarget (target : Option String) (parentKey : String) : String :=
  let text := pyStrip (target.getD "")
  if text = "" ∨ '/' ∈ text.toList then parentKey else text

def partOfEdge (parentKey : String) : Edge :=
  { type := "part_of", toNode := some parentKey, excluded := none, state := none, orGroup := none,
    when := none, reason := some "" }

def stampParentProvenanceEdge (edges : List Edge) (parentKey : String) : List Edge :=
  let stamped := edges.map fun edge =>
    if edge.type = "part_of" then
      { edge with toNode := some (coercePartOfTarget edge.toNode parentKey) }
    else edge
  if edges.any (·.type = "part_of") then stamped else stamped ++ [partOfEdge parentKey]

/-- `value[key]`. -/
def item? (m : Fields) (key : String) : Except PlanError Json :=
  match m.lookup key with
  | some v => .ok v
  | none => .error (.key key)

section Normalize

variable (py : PyLib)

/-- The items of a child's `patch_plan`, `none` where it has no such mapping. -/
def childPlanItems (child : Fields) : Option (List Fields) :=
  match child.get "patch_plan" with
  | .obj plan => some (listOfMappings (Fields.get plan "items"))
  | _ => none

/-- The assignments to `item_owner`, in order. -/
def itemOwners (children : List Fields) : List (String × String) :=
  children.flatMap fun child =>
    ((childPlanItems child).getD []).filterMap fun item =>
      if itemId py item = "" then none
      else some (itemId py item, py.strOr (child.get "child_key") "")

/-- `item_owner.get(item)`. -/
def ownerOf (owners : List (String × String)) (item : String) : Option String :=
  owners.reverse.lookup item

def ownerEdge (owner item dependency : String) : Json :=
  .obj [("type", .str "depends"), ("to", .str owner), ("with", .str ""),
    ("state", .str subsystemMerged), ("or_group", .str ""), ("when", .str ""),
    ("reason", .str ("work item " ++ item ++ " builds on " ++ dependency))]

def itemEdges (owners : List (String × String)) (childKey : String) (item : Fields) :
    Except PlanError (List Json) := do
  let values ← iterOrRaise (item.getD "depends_on" (.arr []))
  pure (values.filterMap fun dependency =>
    match ownerOf owners (py.str dependency) with
    | some owner =>
      if owner ≠ "" ∧ owner ≠ childKey then
        some (ownerEdge owner (itemId py item) (py.str dependency))
      else none
    | none => none)

def ownedEdges (owners : List (String × String)) (childKey : String) :
    List Fields → Except PlanError (List Json)
  | [] => .ok []
  | item :: items => do
    let edges ← itemEdges py owners childKey item
    let rest ← ownedEdges owners childKey items
    pure (edges ++ rest)

/-- The ids `_normalize_split` takes for the scope of a child. -/
def childScopeIds (child : Fields) : List String :=
  match childPlanItems child with
  | some items => (items.map (itemId py)).filter (· ≠ "")
  | none =>
    match child.get "scope_item_ids" with
    | .arr ids => ids.filterMap fun
      | .str id => some id
      | _ => none
    | _ => []

/-- One turn of the first loop over `split["children"]`. -/
def prepareChild (owners : List (String × String)) (scopeIds : List String) (child : Fields) :
    Except PlanError Fields := do
  let childKey := safeChildKey (py.str (← item? child "child_key"))
  let edges ← iterOrRaise (child.getD "edges" (.arr []))
  let owned ← ownedEdges py owners childKey ((childPlanItems child).getD [])
  let stamped := stampParentProvenanceEdge (normalizeEdges py (.arr (edges ++ owned))) "root"
  pure (((child.set "child_key" (.str childKey)).set "scope_item_ids"
      (.arr (((childScopeIds py child).filter (· ∈ scopeIds)).map .str))).set "edges"
    (.arr (stamped.map edgeJson)))

/-- `_dependency_edges`: prerequisite and dependent. -/
def dependencyEdges (children : List Fields) : List (String × String) :=
  children.flatMap fun child =>
    (listOfMappings (child.get "edges")).filterMap fun edge =>
      if edge.get "type" = .str "depends" ∧ py.strOr (edge.get "to") "" ≠ "" then
        some (py.strOr (edge.get "to") "", py.str (child.getD "child_key" (.str "")))
      else none

structure DepthState where
  incoming : String → ℤ
  depths : String → ℕ
  ready : List String

/-- One neighbour of the node taken in `_child_depths`. -/
def DepthState.visit (key : String) (s : DepthState) (child : String) : DepthState :=
  let incoming := fun k => if k = child then s.incoming child - 1 else s.incoming k
  let depths := fun k => if k = child then max (s.depths child) (s.depths key + 1) else s.depths k
  ⟨incoming, depths, if incoming child = 0 then sorted (s.ready ++ [child]) else s.ready⟩

/-- The `while ready` loop. -/
def depthLoop (outgoing : String → List String) : ℕ → DepthState → DepthState
  | 0, s => s
  | fuel + 1, s =>
    match s.ready with
    | [] => s
    | key :: ready =>
      depthLoop outgoing fuel ((sorted (outgoing key)).foldl (DepthState.visit key)
        { s with ready := ready })

/-- `_child_depths`; a key is made ready at most once. -/
def childDepths (children : List Fields) : String → ℕ :=
  let keys := (children.map fun child => py.str (child.get "child_key")).dedup
  let edges := (dependencyEdges py children).filter fun e => e.1 ∈ keys ∧ e.2 ∈ keys
  let incoming := fun k => (edges.countP fun e => e.2 = k : ℤ)
  let outgoing := fun k => (edges.filter fun e => e.1 = k).map Prod.snd
  (depthLoop outgoing keys.length
    ⟨incoming, fun _ => 0, sorted (keys.filter fun k => incoming k = 0)⟩).depths

/-- One turn of the second loop, over the prepared children. -/
def normalizeChild (rootId parentBranch : String) (horizon : ℤ) (depths : String → ℕ)
    (child : Fields) : Except PlanError Fields := do
  let childKey := safeChildKey (py.str (← item? child "child_key"))
  let nodePath := subdir ++ "/" ++ childKey
  let criteria ← iterOrRaise (← item? child "acceptance_criteria")
  let status := if (depths childKey : ℤ) < max 1 horizon then "ready_for_patch_authoring"
    else "posted_to_mailing_list"
  pure (((((((((child.set "child_key" (.str childKey)).set "id"
      (.str (rootId ++ ":" ++ nodePath))).set "serial_id" (.str "")).set "node_path"
      (.str nodePath)).set "address" (.str (parentBranch ++ ":" ++ nodePath))).set
      "allowed_subtree" (.str (nodePath ++ "/"))).set "contrib_branch"
      (.str ("ai-org/contrib/" ++ patchSeriesId parentBranch ++ "-" ++ childKey))).set
      "lifecycle_status" (.str status)).set "acceptance_criteria" (.arr criteria))

/-- `f(x)` for every `x` in order, stopping at the first error. -/
def mapPlan {α β : Type*} (f : α → Except PlanError β) : List α → Except PlanError (List β)
  | [] => .ok []
  | x :: xs => do
    let y ← f x
    let ys ← mapPlan f xs
    pure (y :: ys)

/-- `dict(child)`. -/
def asMapping : Json → Except PlanError Fields
  | .obj m => .ok m
  | _ => .error .type

def normalizeSplit (rootId parentBranch : String) (split : Fields) (scopeItems : List Fields)
    (horizon : ℤ) : Except PlanError Fields := do
  let scopeIds := scopeItems.map (itemId py)
  let children ← mapPlan asMapping (← iterOrRaise (← item? split "children"))
  let prepared ← mapPlan (prepareChild py (itemOwners py children) scopeIds) children
  let normalized ← mapPlan
    (normalizeChild py rootId parentBranch horizon (childDepths py prepared)) prepared
  let childIds := normalized.flatMap fun child =>
    match child.get "scope_item_ids" with
    | .arr ids => (stringItems ids).getD []
    | _ => []
  let splitMode ← item? split "split_mode"
  let rationale ← item? split "rationale"
  pure [("split_mode", splitMode), ("rationale", rationale),
    ("parent_retained_scope_ids",
      .arr ((sorted (scopeIds.dedup.filter (· ∉ childIds))).map .str)),
    ("children", .arr (normalized.map .obj))]

end Normalize

end AiOrg
