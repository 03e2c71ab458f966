import AiOrg.Gate.When
import AiOrg.Gate.Cycle

/-!
# The patchwork network

Nodes are manifests keyed by child key; a `depends` edge of a manifest names another node by key or
by serial id, may be switched by a `when` predicate, and may belong to an OR group.  The gate
decides which nodes are eligible now, which edge facts it publishes, and whether the blocking
dependencies form a cycle.
-/

namespace AiOrg

def subsystemMerged : String := "merged_into_subsystem_tree"

def lifecycleStates : List String :=
  ["posted_to_mailing_list", "ready_for_patch_authoring", "claimed_by_patch_author",
    "submitted_for_maintainer_review", subsystemMerged]

def legacyActiveStates : List (String × String) :=
  [("active", "ready_for_patch_authoring"),
    ("request-only", "posted_to_mailing_list"),
    ("requested", "posted_to_mailing_list"),
    ("elaborated", "ready_for_patch_authoring"),
    ("claimed", "claimed_by_patch_author"),
    ("delivered", "submitted_for_maintainer_review"),
    ("accepted", subsystemMerged),
    ("work_request_submitted", "posted_to_mailing_list"),
    ("ready_for_claim", "ready_for_patch_authoring"),
    ("claimed_by_contributor", "claimed_by_patch_author"),
    ("submitted_for_acceptance", "submitted_for_maintainer_review"),
    ("acceptance_criteria_passed", subsystemMerged)]

/-- `LEGACY_ACTIVE_STATES.get(state, state)`. -/
def currentStateName (state : String) : String := (legacyActiveStates.lookup state).getD state

/-- `text.startswith(prefix)`. -/
def pyStartsWith (text pre : String) : Bool := pre.toList.isPrefixOf text.toList

/-- An edge as `_normalize_edges` writes it. -/
structure Edge where
  type : String
  toNode : Option String
  excluded : Option String
  state : Option String
  orGroup : Option String
  when : Option String
  reason : Option String
  deriving DecidableEq, Repr

namespace Edge

/-- `str(edge.get("to") or "")`. -/
def target (e : Edge) : String := e.toNode.getD ""

def group (e : Edge) : Option String := e.orGroup.filter (· ≠ "")

end Edge

/-- The nodes of a network: manifests by key. -/
abbrev Nodes := List (String × Fields)

/-- A loaded network. -/
structure Graph where
  nodes : Nodes
  keys_nodup : (nodes.map Prod.fst).Nodup
  registry : Registry

section Edges

variable (py : PyLib)

def blankToNone : Json → Option String
  | .null => none
  | v =>
    let text := pyStrip (py.str v)
    if text = "" then none else some text

/-- One turn of the loop of `_normalize_edges`. -/
def normalizeEdge (edge : Fields) : Edge :=
  let type := py.strOr (edge.get "type") ""
  let state := blankToNone py (edge.get "state")
  { type := type
    toNode := blankToNone py (edge.get "to")
    excluded := blankToNone py (edge.get "with")
    state := if type = "depends" ∧ state = none then some subsystemMerged else state
    orGroup := blankToNone py (edge.get "or_group")
    when := blankToNone py (edge.get "when")
    reason := blankToNone py (edge.get "reason") }

def normalizeEdges : Json → List Edge
  | .arr items => items.filterMap fun
    | .obj edge => some (normalizeEdge py edge)
    | _ => none
  | _ => []

def manifestEdges (manifest : Fields) : List Edge :=
  normalizeEdges py (manifest.getD "edges" (.arr []))

def canonicalLifecycle (manifest : Fields) : String :=
  let raw := currentStateName (py.strOr (manifest.get "lifecycle_status") "")
  if raw ∈ lifecycleStates then raw
  else if pyStartsWith raw "blocked:" ∨ raw = "stale" then raw
  else if manifest.get "node_kind" = .str "coarse" then "posted_to_mailing_list"
  else if manifest.get "node_kind" = .str "leaf" then "ready_for_patch_authoring"
  else "posted_to_mailing_list"

/-- `_when_identifiers`, with repetitions and in no particular order. -/
def whenIdentifiers : WhenAst → List String
  | .ident name => [name]
  | .literal _ => []
  | .not e => whenIdentifiers e
  | .logic _ l r => whenIdentifiers l ++ whenIdentifiers r
  | .cmp _ l r => whenIdentifiers l ++ whenIdentifiers r

def whenOperandType (registry : Registry) : WhenAst → Option CheckType
  | .ident name => registry.lookup name
  | .literal (.int _) => some .counter
  | .literal (.text _) => some .text
  | _ => none

/-- `_when_comparison_type_pairs`; the stack hands out the right operand before the left one. -/
def whenComparisonTypePairs (registry : Registry) :
    WhenAst → List (Option CheckType × Option CheckType)
  | .cmp _ l r =>
    (whenOperandType registry l, whenOperandType registry r)
      :: (whenComparisonTypePairs registry r ++ whenComparisonTypePairs registry l)
  | .not e => whenComparisonTypePairs registry e
  | .logic _ l r => whenComparisonTypePairs registry r ++ whenComparisonTypePairs registry l
  | .ident _ => []
  | .literal _ => []

structure WhenStaticError where
  type : String
  node : String
  edge : Edge
  predicate : String
  name : Option String
  message : String
  deriving DecidableEq, Repr

def declaredPatchworkChecksField : String := "declared_patchwork_checks"

def whenStaticErrors (key : String) (edge : Edge) (registry : Registry) (registryPresent : Bool) :
    List WhenStaticError :=
  match edge.when with
  | none => []
  | some text =>
    if pyStrip text = "" then []
    else match parseWhen py text with
      | .error _ => []
      | .ok ast =>
        if !registryPresent then
          [⟨"declared_patchwork_checks_missing", key, edge, text, none,
            declaredPatchworkChecksField ++ " is required when predicates are present"⟩]
        else
          let undeclared := (sorted (whenIdentifiers ast).dedup).filter fun name =>
            (registry.lookup name).isNone
          if undeclared ≠ [] then
            undeclared.map fun name =>
              ⟨"when_undeclared_variable", key, edge, text, some name,
                "when variable " ++ name ++ " is not declared in " ++ declaredPatchworkChecksField⟩
          else
            (whenComparisonTypePairs registry ast).filterMap fun
              | (some l, some r) =>
                if l ≠ r then
                  some ⟨"when_type_error", key, edge, text, none,
                    "when comparison mixes " ++ l.name ++ " and " ++ r.name⟩
                else none
              | _ => none

/-- Whether `_active_edges` keeps an edge: a malformed predicate switches it off. -/
def edgeActive (state : CheckState) (node : String) (index : ℕ) (edge : Edge) :
    Except GateError Bool :=
  match edge.when with
  | none => .ok true
  | some text =>
    match evaluateWhen py state text node (some index) with
    | .ok (b, _) => .ok b
    | .error (.whenSyntax _) => .ok false
    | .error e => .error e

def activeEdgesFrom (state : CheckState) (node : String) :
    ℕ → List Edge → Except GateError (List Edge)
  | _, [] => .ok []
  | index, edge :: edges => do
    let isActive ← edgeActive py state node index edge
    let active ← activeEdgesFrom state node (index + 1) edges
    pure (if isActive then edge :: active else active)

def activeEdges (manifest : Fields) (state : CheckState) (node : String) :
    Except GateError (List Edge) :=
  activeEdgesFrom py state node 0 (manifestEdges py manifest)

def resolveEntry (target : String) (nodes : Nodes) : Option (String × Fields) :=
  match nodes.lookup target with
  | some manifest => some (target, manifest)
  | none => nodes.find? fun (_, manifest) =>
      target ≠ "" && decide (manifest.get "serial_id" = .str target)

def resolveNode (target : String) (nodes : Nodes) : Option Fields :=
  (resolveEntry target nodes).map Prod.snd

def milestoneStateValue (target required : String) (state : CheckState) : Json :=
  match state (target ++ "_" ++ required) with
  | some v => v
  | none => (state (target ++ "." ++ required)).getD .null

/-- `value in {True, "true", "set", "done", "merged_into_subsystem_tree", 1}`. -/
def milestoneReached : Json → Except GateError Bool
  | .bool b => .ok b
  | .int n => .ok (n = 1)
  | .float r => .ok (r = "1.0")
  | .str s => .ok (s ∈ ["true", "set", "done", subsystemMerged])
  | .null => .ok false
  | .arr _ => .error .typeError
  | .obj _ => .error .typeError

/-- `_target_declares_milestone`, the two tests of `_edge_target_satisfied` together. -/
def declaresMilestone (manifest : Fields) (milestone : String) : Bool :=
  (match manifest.get "milestones" with
    | .obj milestones => Fields.contains milestones milestone
    | _ => false)
  || (match manifest.get "declared_milestones" with
    | .arr declared => .str milestone ∈ declared
    | _ => false)

/-- The lifecycle state or milestone an edge asks of its target. -/
def requiredState (edge : Edge) : String :=
  currentStateName ((edge.state.filter (· ≠ "")).getD subsystemMerged)

def edgeTargetSatisfied (edge : Edge) (nodes : Nodes) (state : CheckState) :
    Except GateError Bool :=
  match resolveNode edge.target nodes with
  | none => .ok false
  | some [] => .ok false
  | some manifest =>
    let required := requiredState edge
    if required ∈ lifecycleStates then
      let current := canonicalLifecycle py manifest
      if current ∉ lifecycleStates then .ok false
      else .ok (lifecycleStates.idxOf required ≤ lifecycleStates.idxOf current)
    else if declaresMilestone manifest required then
      milestoneReached (milestoneStateValue edge.target required state)
    else .ok false

/-- `all(f(x) for x in xs)`. -/
def allOk {α : Type*} (f : α → Except GateError Bool) : List α → Except GateError Bool
  | [] => .ok true
  | x :: xs => do if ← f x then allOk f xs else pure false

/-- `any(f(x) for x in xs)`. -/
def anyOk {α : Type*} (f : α → Except GateError Bool) : List α → Except GateError Bool
  | [] => .ok false
  | x :: xs => do if ← f x then pure true else anyOk f xs

/-- `f(x)` for every `x` in order. -/
def mapOk {α β : Type*} (f : α → Except GateError β) : List α → Except GateError (List β)
  | [] => .ok []
  | x :: xs => do
    let y ← f x
    let ys ← mapOk f xs
    pure (y :: ys)

def isDepends (edge : Edge) : Bool := edge.type = "depends"

def eligible (key : String) (values : CheckState) (graph : Graph) : Except GateError Bool :=
  match graph.nodes.lookup key with
  | none => .ok false
  | some manifest => do
    let state := (stateDefaults graph.registry).update values
    let active ← activeEdges py manifest state key
    let depends := active.filter isDepends
    let andEdges := depends.filter fun edge => edge.group = none
    let groups := groupBy Edge.group depends
    let satisfied := fun edge => edgeTargetSatisfied py edge graph.nodes state
    if ← allOk satisfied andEdges then allOk (fun g => anyOk satisfied g.2) groups
    else pure false

structure EdgeFact where
  toNode : String
  state : String
  reason : String
  when : String
  whenCurrently : Option Bool
  deriving DecidableEq, Repr

def computedEdgeFact (edge : Edge) (state : CheckState) (node : String) (index : ℕ) :
    Except GateError (EdgeFact × Bool) := do
  let whenCurrently ← match edge.when.filter (· ≠ "") with
    | some text =>
      match evaluateWhen py state text node (some index) with
      | .ok (b, _) => .ok (some b)
      | .error (.whenSyntax _) => .ok (some false)
      | .error e => .error e
    | none => .ok none
  pure (⟨edge.target, (edge.state.filter (· ≠ "")).getD subsystemMerged, edge.reason.getD "",
    edge.when.getD "", whenCurrently⟩, whenCurrently.getD true)

structure EdgeEntry where
  edge : Edge
  fact : EdgeFact
  active : Bool
  targetSatisfied : Bool
  deriving DecidableEq, Repr

/-- One turn of the loop over the `depends` edges in `_computed_edge_facts`. -/
def edgeEntry (nodes : Nodes) (state : CheckState) (node : String) (indexed : Edge × ℕ) :
    Except GateError EdgeEntry := do
  let (fact, active) ← computedEdgeFact py indexed.1 state node indexed.2
  let satisfied ← edgeTargetSatisfied py indexed.1 nodes state
  pure ⟨indexed.1, fact, active, satisfied⟩

/-- `any(member["active"] and member["target_satisfied"] for member in members)`. -/
def groupSatisfied (members : List EdgeEntry) : Bool :=
  members.any fun m => m.active && m.targetSatisfied

def groupBlocking (members : List EdgeEntry) : List EdgeFact :=
  if groupSatisfied members then [] else (members.filter (·.active)).map EdgeEntry.fact

def groupSatisfiedFacts (members : List EdgeEntry) : List EdgeFact :=
  (if groupSatisfied members then members else members.filter (!·.active)).map EdgeEntry.fact

def splitFacts (entries : List EdgeEntry) : List EdgeFact × List EdgeFact :=
  let andEntries := entries.filter fun e => e.edge.group = none
  let groups := groupBy (fun e => e.edge.group) entries
  let satisfiedNow := fun e : EdgeEntry => !e.active || e.targetSatisfied
  ((andEntries.filter (!satisfiedNow ·)).map EdgeEntry.fact
      ++ groups.flatMap (fun g => groupBlocking g.2),
    (andEntries.filter satisfiedNow).map EdgeEntry.fact
      ++ groups.flatMap (fun g => groupSatisfiedFacts g.2))

def dependsEdges (manifest : Fields) : List Edge := (manifestEdges py manifest).filter isDepends

def computedEdgeFacts (key : String) (manifest : Fields) (nodes : Nodes) (state : CheckState) :
    Except GateError (List EdgeFact × List EdgeFact) := do
  let entries ← mapOk (edgeEntry py nodes state key) ((dependsEdges py manifest).zipIdx)
  pure (splitFacts entries)

def blockingPair (nodes : Nodes) (key : String) (edge : Edge) : List (String × String) :=
  if (nodes.lookup edge.target).isSome then [(edge.target, key)] else []

def nodeBlockingPairs (nodes : Nodes) (state : CheckState) (node : String × Fields) :
    Except GateError (List (String × String)) := do
  let active ← activeEdges py node.2 state node.1
  let depends := active.filter isDepends
  let satisfied := fun edge => edgeTargetSatisfied py edge nodes state
  let fromAnd ← mapOk
    (fun edge =>
      if (nodes.lookup edge.target).isSome then do
        if ← satisfied edge then pure [] else pure (blockingPair nodes node.1 edge)
      else pure [])
    (depends.filter fun edge => edge.group = none)
  let fromGroups ← mapOk
    (fun group : String × List Edge => do
      if ← anyOk satisfied group.2 then pure []
      else pure (group.2.flatMap (blockingPair nodes node.1)))
    (groupBy Edge.group depends)
  pure (fromAnd.flatten ++ fromGroups.flatten)

def blockingDependencyPairs (nodes : Nodes) (state : CheckState) :
    Except GateError (List (String × String)) := do
  let pairs ← mapOk (nodeBlockingPairs py nodes state) nodes
  pure pairs.flatten

def instantCycle (nodes : Nodes) (state : CheckState) : Except GateError (List String) := do
  let pairs ← blockingDependencyPairs py nodes state
  pure (cycle pairs)

end Edges

end AiOrg
