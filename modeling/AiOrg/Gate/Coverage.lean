import AiOrg.Gate.Plan
import AiOrg.Python.Lines

/-!
# Scope items and who covers them

`_scope_items` lists what a series has to cover, under ids of its own, and `_split_coverage_projection` says for each of
them which child of the split owns it. The ids of the plan are stripped in the first and not in the split.
-/

namespace AiOrg

namespace Coverage

/-- A dict of `_append_text_item`. -/
structure ScopeItem where
  id : String
  kind : String
  text : String
  deriving DecidableEq

def ScopeItem.fields (item : ScopeItem) : Fields :=
  [("id", .str item.id), ("kind", .str item.kind), ("text", .str item.text)]

/-- The values of a list with their positions, counted from one. -/
def numbered {α : Type*} (values : List α) : List (ℕ × α) := values.zipIdx.map fun value => (value.2 + 1, value.1)

section Search

variable (py : PyLib)

def compactText : Json → String
  | .str text => squash text
  | .obj fields => py.dumps (.obj fields)
  | .arr items => py.dumps (.arr items)
  | _ => ""

mutual

def findMappingsNamed (key : String) : Json → List Fields
  | .obj fields =>
    match fields.lookup key with
    | some (.obj found) => found :: mappingsInFields key fields
    | _ => mappingsInFields key fields
  | .arr items => mappingsInItems key items
  | _ => []

def mappingsInItems (key : String) : List Json → List Fields
  | [] => []
  | v :: vs => findMappingsNamed key v ++ mappingsInItems key vs

def mappingsInFields (key : String) : List (String × Json) → List Fields
  | [] => []
  | (_, v) :: fields => findMappingsNamed key v ++ mappingsInFields key fields

end

mutual

def findNamedStrings (keys : List String) : Json → List String
  | .obj fields => namedInFields keys fields
  | .arr items => namedInItems keys items
  | _ => []

def namedInItems (keys : List String) : List Json → List String
  | [] => []
  | v :: vs => findNamedStrings keys v ++ namedInItems keys vs

def namedInFields (keys : List String) : List (String × Json) → List String
  | [] => []
  | (key, v) :: fields =>
    (if key ∈ keys then
      if compactText py v = "" then [] else [compactText py v]
    else findNamedStrings keys v) ++ namedInFields keys fields

end

mutual

def riskItems : Json → List Fields
  | .obj fields => risksInFields fields
  | .arr items => risksInItems items
  | _ => []

def risksInItems : List Json → List Fields
  | [] => []
  | v :: vs => riskItems v ++ risksInItems vs

def risksInFields : List (String × Json) → List Fields
  | [] => []
  | (key, .arr risks) :: fields =>
    (if key = "risks" then listOfMappings (.arr risks) else risksInItems risks) ++ risksInFields fields
  | (_, v) :: fields => riskItems v ++ risksInFields fields

end

def fieldTests (path field : String) : Json → List (String × String)
  | .arr tests => (numbered tests).filterMap fun test =>
    match test.2 with
    | .str text =>
      if pyStrip text = "" then none else some (path ++ ":" ++ field ++ ":" ++ toString test.1, text)
    | _ => none
  | _ => []

def experienceTests (path : String) (ux : Fields) : List (String × String) :=
  match ux.get "acceptance_tests" with
  | .obj acceptance =>
    (sorted (acceptance.map Prod.fst)).flatMap fun field => fieldTests path field (Fields.get acceptance field)
  | _ => []

def sourceTests (name : String) (source : Json) : List (String × String) :=
  (numbered (findMappingsNamed "user_experience_requirements" source)).flatMap fun ux =>
    experienceTests (name ++ ":" ++ toString ux.1) ux.2

def acceptanceTests (patchSeries approach : Json) : List (String × String) :=
  sourceTests "patch_series" patchSeries ++ sourceTests "technical_approach" approach

/-- `isinstance(value, str)`. -/
def isString : Json → Bool
  | .str _ => true
  | _ => false

def domainScopeAspects (value : Json) : List Fields :=
  match (findFirstMapping "domain_specification" value).getD [] |>.get "aspects" with
  | .arr aspects => (listOfMappings (.arr aspects)).filter fun aspect =>
    aspect.get "applicability" = .str "applies" ∧ isString (aspect.get "id")
  | _ => []

def textItem (id kind : String) (value : Json) : List ScopeItem :=
  if compactText py value = "" then [] else [⟨id, kind, compactText py value⟩]

def planScopeItems (patchPlan : Fields) : List ScopeItem :=
  (if listOfMappings (patchPlan.get "items") ≠ [] then
    (listOfMappings (patchPlan.get "items")).flatMap fun item =>
      let id := pyStrip (itemId py item)
      if id = "" then [] else textItem py id "patch_plan" (.obj item)
  else
    textItem py "patch_plan:first_proof_moment" "patch_plan" (patchPlan.get "first_proof_moment") ++
      (numbered (listOfMappings (patchPlan.get "follow_ups"))).flatMap fun item =>
        textItem py ("patch_plan:follow_up:" ++ toString item.1) "patch_plan" (.obj item.2)) ++
    (numbered (listOfMappings (patchPlan.get "deferred"))).flatMap fun item =>
      textItem py ("patch_plan:deferred:" ++ toString item.1) "patch_plan" (.obj item.2)

def riskId (index : ℕ) (risk : Fields) : String :=
  match risk.get "id" with
  | .str id => if id = "" then toString index else id
  | _ => toString index

/-- The items before they are deduplicated. -/
def allScopeItems (patchSeries : Fields) (approach : Json) : List ScopeItem :=
  textItem py "goal:patch_series.desired_outcomes_success" "desired_outcome"
      (patchSeries.get "desired_outcomes_success") ++
    ((numbered (findNamedStrings py ["goal", "goals", "success_criteria", "success_criterion"] approach)).flatMap
      fun goal => textItem py ("goal:technical_approach:" ++ toString goal.1) "referee_goal" (.str goal.2)) ++
    ((acceptanceTests (.obj patchSeries) approach).flatMap fun test =>
      textItem py ("ux:" ++ test.1) "ux_acceptance_test" (.str test.2)) ++
    planScopeItems py ((findFirstMapping "patch_plan" approach).getD []) ++
    ((numbered (riskItems approach)).flatMap fun risk =>
      textItem py ("risk:" ++ riskId risk.1 risk.2) "must_address_risk" (.obj risk.2)) ++
    (domainScopeAspects approach).flatMap fun aspect =>
      let id := pyStrip (itemId py aspect)
      if id = "" then [] else textItem py id "domain_specification" (.obj aspect)

def firstOfId : List ScopeItem → List ScopeItem
  | [] => []
  | item :: items => item :: (firstOfId items).filter fun other => other.id ≠ item.id

def scopeItems (patchSeries : Fields) (approach : Json) : List ScopeItem :=
  firstOfId (allScopeItems py patchSeries approach)

end Search

structure CoverageRow where
  scope_item_id : String
  owner : String
  deriving DecidableEq

structure Projection where
  coverage : List CoverageRow
  retained_scope_ids : List String
  deriving DecidableEq

section Coverage

variable (py : PyLib)

/-- What one child puts into `owner_by_id`. -/
def ownedBy (child : Fields) : Except PlanError (List (String × String)) := do
  let ids ← iterOrRaise (child.getD "scope_item_ids" (.arr []))
  return ids.map fun id => (py.str id, py.strOr (child.get "child_key") "root")

/-- `owner_by_id`, in the order of its assignments. -/
def ownerById (split : Fields) : Except PlanError (List (String × String)) := do
  let children ← iterOrRaise (split.getD "children" (.arr []))
  let owned ← mapPlan (ownedBy py) (listOfMappings (.arr children))
  return owned.flatten

def splitCoverageProjection (split : Fields) (scopeItems : List ScopeItem) : Except PlanError Projection := do
  let owners ← ownerById py split
  return {
    coverage := (scopeItems.insertionSort fun a b => a.id ≤ b.id).map fun item =>
      ⟨item.id, (ownerOf owners item.id).getD "root"⟩
    retained_scope_ids := sorted ((scopeItems.map ScopeItem.id).filter fun id => ownerOf owners id = none) }

end Coverage

section Spec

variable (py : PyLib)

/-- The ids that are stored on a child. -/
def scopeOf (child : Fields) : List String :=
  match child.get "scope_item_ids" with
  | .arr ids => (stringItems ids).getD []
  | _ => []

/-- The coverage has a row for every scope item, names the child of every plan item, retains what no child owns, and
agrees with what is stored on the children. -/
structure Consistent (scope : List ScopeItem) (children : List Fields) (projection : Projection) : Prop where
  rows_nodup : (projection.coverage.map CoverageRow.scope_item_id).Nodup
  rows : ∀ id, id ∈ projection.coverage.map CoverageRow.scope_item_id ↔ id ∈ scope.map ScopeItem.id
  names : ∀ row ∈ projection.coverage, ∀ child ∈ children, ∀ item ∈ (childPlanItems child).getD [],
    pyStrip (itemId py item) = row.scope_item_id → child.get "child_key" = .str row.owner
  retained : ∀ id, id ∈ projection.retained_scope_ids ↔
    id ∈ scope.map ScopeItem.id ∧ ∀ child ∈ children, id ∉ scopeOf child
  stored : ∀ child ∈ children, ∀ id ∈ scopeOf child, id ∈ scope.map ScopeItem.id
  agree : ∀ row ∈ projection.coverage, ∀ child ∈ children,
    child.get "child_key" = .str row.owner ↔ row.scope_item_id ∈ scopeOf child

def RootKeyed (id : String) : Prop := stripChar '_' (subRuns false (py.lower id).toList) = "root".toList

end Spec

end Coverage

end AiOrg
