import AiOrg.Producer.Preview

/-!
# The validation of a producer-aware root

Goals, requirements and obligations are joined by their ids, obligations are compared with those of the
previous root, and the patch plan has to assign each of them once.
-/

namespace AiOrg

namespace Producer

open Checks

def _producer_problem (value : Fields) : Except Raised (Fields × String) :=
  match value.get "problem" with
  | .null => .ok (value, "")
  | .obj problem => .ok (problem, "/problem")
  | _ => .error (raisePreview "problem-object" "problem" "/problem" "" "" "problem must be an object")

def _require_preview_list (problem : Fields) (field pointer : String) : Except Raised (List Json) :=
  match problem.lookup field with
  | none => .error (raisePreview "producer-root-field-required" field (pointer ++ "/" ++ field) "" ""
      (field ++ " is required in the canonical root preview"))
  | some (.arr items) => .ok items
  | some _ => .error (raisePreview "producer-root-list" field (pointer ++ "/" ++ field))

/-- A member of a mapping, if it is one. -/
def childOf (value : Json) (key : String) : Json :=
  match value with
  | .obj fields => Fields.get fields key
  | _ => .null

def projectItem (fields : Fields) : Json :=
  .obj (rootPatchPlanAssignmentFields.filterMap fun key =>
    (fields.lookup key).map fun value => (key, value))

def projectGraphItem (pointer : String) (_seen : List Json) (index : ℕ) (item : Json) :
    Except Raised Json :=
  match childOf item "id" with
  | .str id =>
    match (Fields.getD (match item with | .obj fields => fields | _ => [])
        "production_obligation_ids" (.arr [])).iter with
    | some items => .ok (.obj [("item_id", .str id), ("production_obligation_ids", .arr items)])
    | none => .error (.python "TypeError")
  | _ => .error (raisePreview "patch-plan-item-object" "patch_plan" (pointer ++ "/items/" ++ toString index))

def projectFollowUp (pointer : String) (_seen : List Json) (index : ℕ) (item : Json) :
    Except Raised Json :=
  match item with
  | .obj fields => .ok (projectItem fields)
  | _ => .error (raisePreview "patch-plan-item-object" "patch_plan"
      (pointer ++ "/follow_ups/" ++ toString index))

/-- The projection of an older plan onto assignments. -/
def projectLegacy (legacy : Json) (problemPointer pointer : String) : Except Raised (List Json) :=
  match legacy with
  | .arr items => .ok (items.map fun item =>
      match item with
      | .obj fields => projectItem fields
      | item => item)
  | .obj plan =>
    match Fields.get plan "items" with
    | .arr items => collect (projectGraphItem pointer) [] 0 items
    | _ =>
      match Fields.get plan "first_proof_moment", Fields.get plan "follow_ups" with
      | .obj first, .arr followUps =>
        (collect (projectFollowUp pointer) [] 0 followUps).map (projectItem first :: ·)
      | _, _ => .error (raisePreview "patch-plan-shape" "patch_plan" pointer "" ""
          "patch plan must expose executable items")
  | _ => .error (raisePreview "patch-plan-required" "patch_plan" (problemPointer ++ "/patch_plan") "" ""
      "canonical root assignment array is required")

/-- The plan of the decision on how to implement. -/
def legacyPlan (problem : Fields) : Json :=
  childOf (childOf (childOf (problem.get "question") "decision") "implementation") "patch_plan"

/-- `_root_patch_plan_assignments`, with what it sets `patch_plan` to, if it does. Where the root has no
`problem` it is the problem itself. -/
def _root_patch_plan_assignments (problem : Fields) (problemPointer : String) :
    Except Raised (List Json × String × Fields) :=
  match problem.get "patch_plan" with
  | .arr direct => .ok (direct, problemPointer ++ "/patch_plan", problem)
  | _ =>
    let pointer := problemPointer ++ "/question/decision/implementation/patch_plan"
    (projectLegacy (legacyPlan problem) problemPointer pointer).map fun projection =>
      (projection, pointer, problem.set "patch_plan" (.arr projection))

/-- The collections of a root, and the problem that they come from after the projection of its plan. -/
structure Parts where
  problem : Fields
  pointer : String
  goals : List Json
  requirements : List Json
  obligations : List Json
  assignments : List Json
  assignmentPointer : String

/-- What is looked up before anything is compared. -/
def readParts (root : Fields) : Except Raised Parts :=
  _producer_problem root >>= fun (problem, pointer) =>
  _require_preview_list problem "goals" pointer >>= fun goals =>
  _require_preview_list problem "deliverable_requirements" pointer >>= fun requirements =>
  _require_preview_list problem "production_obligations" pointer >>= fun obligations =>
  (_root_patch_plan_assignments problem pointer).map
    fun (assignments, assignmentPointer, problem) =>
      ⟨problem, pointer, goals, requirements, obligations, assignments, assignmentPointer⟩

def previousProblem : Option Json → Except Raised (Option Fields)
  | none => .ok none
  | some (.obj previous) => (_producer_problem previous).map fun problem => some problem.1
  | some _ => .error (raisePreview "previous-root-object" "previous" "" "" ""
      "previous candidate must be an object")

def checkPair (requirements : List Requirement) (obligations : List Obligation) (pointer : String)
    (goal : Goal) : Except Raised Unit :=
  match goal.requires, requirements.find? (·.goalId = goal.id), obligations.find? (·.goalId = goal.id) with
  | true, some requirement, some obligation => do
    require (obligation.requirementId = requirement.id)
      (raisePreview "pair-cross-link" "deliverable_requirement_id" (pointer ++ "/production_obligations")
        goal.id obligation.id "obligation does not name its one requirement")
    require (requirement.obligationId = .str obligation.id)
      (raisePreview "pair-cross-link" "production_obligation_id" (pointer ++ "/deliverable_requirements")
        goal.id obligation.id "requirement does not name its one production obligation")
    require (obligation.deliverable = requirement.deliverable)
      (raisePreview "pair-deliverable-equality" "deliverable" (pointer ++ "/production_obligations")
        goal.id obligation.id "normalized requirement and obligation deliverables differ")
  | true, none, _ => .error (raisePreview "producer-pair-required" "deliverable_requirements"
      (pointer ++ "/deliverable_requirements") goal.id ""
      "requires_deliverable true requires exactly one complete pair")
  | true, some _, none => .error (raisePreview "producer-pair-required" "production_obligations"
      (pointer ++ "/production_obligations") goal.id ""
      "requires_deliverable true requires exactly one complete pair")
  | false, none, none => .ok ()
  | false, some _, _ => .error (raisePreview "producer-pair-forbidden" "deliverable_requirements"
      (pointer ++ "/deliverable_requirements") goal.id ""
      "requires_deliverable false permits neither pair member")
  | false, none, some _ => .error (raisePreview "producer-pair-forbidden" "production_obligations"
      (pointer ++ "/production_obligations") goal.id ""
      "requires_deliverable false permits neither pair member")

def checkClosure (goals : List Goal) (requirements : List Requirement) (obligations : List Obligation)
    (pointer goalId : String) : Except Raised Unit :=
  let obligation := (obligations.find? (·.goalId = goalId)).map (·.id)
  let requirement := (requirements.find? (·.goalId = goalId)).map (·.id)
  require (goalId ∈ goals.map (·.id)) (raisePreview "pair-goal-closure" "referee_goal_id" pointer goalId
    ((obligation.or requirement).getD "") "pair member references an unknown referee goal")

/-! ### Lineage -/

/-- The pairs of the previous root by their goals. -/
structure Lineage where
  obligations : List (String × Fields)
  requirements : List (String × Fields)

/-- `{str(item.get("referee_goal_id")): item for item in items}`. -/
def byGoal (py : PyLib) (items : List Json) : List (String × Fields) :=
  dictOfEntries (items.filterMap fun item =>
    match item with
    | .obj fields => some (py.str (Fields.get fields "referee_goal_id"), fields)
    | _ => none)

/-- `{str(item.get("id")): goal_id for goal_id, item in items.items()}`. -/
def goalOfId (py : PyLib) (items : List (String × Fields)) : List (String × String) :=
  dictOfEntries (items.map fun item => (py.str (item.2.get "id"), item.1))

/-- The lineage that the previous problem gives. -/
def lineageOf (py : PyLib) (pointer : String) : Option Fields → Except Raised Lineage
  | none => .ok ⟨[], []⟩
  | some problem =>
    match problem.get "production_obligations", problem.get "deliverable_requirements" with
    | .arr obligations, .arr requirements => .ok ⟨byGoal py obligations, byGoal py requirements⟩
    | _, _ => .error (raisePreview "previous-pair-shape" "previous" pointer "" ""
        "previous root must contain pair arrays")

/-- `links == value`, where the links are of one shape. -/
def sameLinks (links : List Link) (value : Json) : Bool :=
  match value with
  | .arr items => items.length = links.length && (items.zip links).all fun (item, link) =>
      match item with
      | .obj fields => hasExactly fields ["replaces_obligation_id", "replacement_reason"] &&
          Fields.get fields "replaces_obligation_id" = .str link.replacesObligationId &&
          Fields.get fields "replacement_reason" = .str link.replacementReason
      | _ => false
  | _ => false

section Validation

variable (py : PyLib) (nfc : List Char → List Char)

def predecessorOf (lineage : Lineage) (currentGoals : List String) (pointer : String)
    (obligation : Obligation) : Except Raised (Option (String × Fields)) :=
  let place := pointer ++ "/production_obligations"
  match lineage.obligations.lookup obligation.goalId, obligation.links with
  | some predecessor, _ => .ok (some (obligation.goalId, predecessor))
  | none, [] => .ok none
  | none, link :: _ =>
    let goalId := ((goalOfId py lineage.obligations).lookup link.replacesObligationId).getD ""
    match lineage.obligations.lookup goalId with
    | none => .error (raisePreview "successor-predecessor-link" "replacement_links" place obligation.goalId
        obligation.id "changed-goal continuity must name an exact prior obligation ID")
    | some predecessor =>
      if goalId ∈ currentGoals then .error (raisePreview "goal-continuity-conflict" "replacement_links" place
        obligation.goalId obligation.id "a successor cannot replace an obligation whose goal survives")
      else .ok (some (goalId, predecessor))

def checkPredecessor (lineage : Lineage) (requirement : Requirement) (pointer : String)
    (obligation : Obligation) (goalId : String) (predecessor : Fields) : Except Raised Unit := do
  let place := pointer ++ "/production_obligations"
  let deliverable ← (normalize_deliverable nfc (predecessor.get "deliverable")).mapError .python
  match lineage.requirements.lookup goalId with
  | none => .error (raisePreview "previous-pair-closure" "deliverable_requirements" pointer
      obligation.goalId obligation.id)
  | some predecessorRequirement =>
    let sameId := (Json.str obligation.id = predecessor.get "id" : Bool)
    let sameRequirement := (Json.str requirement.id = predecessorRequirement.get "id" : Bool)
    if goalId = obligation.goalId ∧ deliverable = obligation.deliverable then do
      require ((sameId && sameRequirement) = true) (raisePreview "retained-identity-byte-stable" "id" place
        obligation.goalId obligation.id "unchanged identity projection must retain both IDs")
      require (sameLinks obligation.links (predecessor.get "replacement_links") = true)
        (raisePreview "retained-lineage-byte-stable" "replacement_links" place obligation.goalId obligation.id)
    else do
      require ((sameId || sameRequirement) = false) (raisePreview "changed-deliverable-new-identity" "id" place
        obligation.goalId obligation.id
        "changed identity projection must mint requirement and obligation successors")
      require (obligation.links.length = 1 ∧
        obligation.links.map (fun link => Json.str link.replacesObligationId) = [predecessor.get "id"])
        (raisePreview "successor-predecessor-link" "replacement_links" place obligation.goalId obligation.id
          "successor must contain exactly the mapped predecessor obligation ID")

/-- An obligation against the previous root, after those before it; the result is the predecessor's id that
it claims. -/
def checkLineage (initial : Bool) (lineage : Lineage) (currentGoals : List String)
    (requirements : List Requirement) (pointer : String) (seen : List (Option String)) (_index : ℕ)
    (obligation : Obligation) : Except Raised (Option String) :=
  let place := pointer ++ "/production_obligations"
  match requirements.find? (·.goalId = obligation.goalId) with
  | none => .error (.python "KeyError")
  | some requirement => do
    require (initial = true → obligation.links = []) (raisePreview "initial-obligation-lineage"
      "replacement_links" place obligation.goalId obligation.id "initial obligations cannot claim a predecessor")
    let owner := (goalOfId py lineage.obligations).lookup obligation.id
    require (∀ goalId ∈ owner, goalId = obligation.goalId) (raisePreview "obligation-id-projection" "id" place
      obligation.goalId obligation.id ("identity already belongs to predecessor goal " ++ owner.getD ""))
    let requirementOwner := (goalOfId py lineage.requirements).lookup requirement.id
    require (∀ goalId ∈ requirementOwner, goalId = obligation.goalId)
      (raisePreview "requirement-id-projection" "id" (pointer ++ "/deliverable_requirements")
        obligation.goalId obligation.id
        ("identity already belongs to predecessor goal " ++ requirementOwner.getD ""))
    match ← predecessorOf py lineage currentGoals pointer obligation with
    | none => .ok none
    | some (goalId, predecessor) => do
      let claimed := py.strOr (predecessor.get "id") ""
      require (some claimed ∉ seen) (raisePreview "predecessor-obligation-unique" "replacement_links" place
        obligation.goalId obligation.id)
      checkPredecessor nfc lineage requirement pointer obligation goalId predecessor
      .ok (some claimed)

def _validate_obligation_lineage (obligations : List Obligation) (requirements : List Requirement)
    (previous : Option Fields) (pointer : String) : Except Raised Unit := do
  let lineage ← lineageOf py pointer previous
  let _ ← collect (checkLineage py nfc previous.isNone lineage (obligations.map (·.goalId)) requirements
    pointer) [] 0 obligations
  .ok ()

def _validate_patch_plan_partition (assignments : List Json) (pointer : String)
    (obligationIds : List String) : Except Raised Unit := do
  let items ← collect (readAssignment py pointer) [] 0 assignments
  let assigned := items.flatMap (·.obligationIds)
  let missing := sorted (obligationIds.filter (· ∉ assigned))
  let surplus := sorted (assigned.filter (· ∉ obligationIds))
  let list := fun ids : List String => py.reprOther (.arr (ids.map .str))
  require (missing = [] ∧ surplus = []) (raisePreview "production-obligation-exact-partition"
    "production_obligation_ids" pointer "" ((missing ++ surplus).headD "")
    ("missing=" ++ list missing ++ " surplus=" ++ list surplus))

/-- `[str(item.get(key) or "") for item in items if isinstance(item, Mapping)]`. -/
def namesOf (key : String) (items : List Json) : List String :=
  items.filterMap fun item =>
    match item with
    | .obj fields => some (py.strOr (Fields.get fields key) "")
    | _ => none

/-- The ids of assignments, where all of them have one. -/
def directItemIds (problem : Fields) : Option (List String) :=
  match problem.get "patch_plan" with
  | .arr direct =>
    let ids := namesOf py "item_id" direct
    if ids.length = direct.length ∧ "" ∉ ids then some ids else none
  | _ => none

/-- The id of a follow-up, counted from 1 with two digits. -/
def followUpId (planId : String) (index : ℕ) : String :=
  let digits := toString (index + 1)
  planId ++ "#follow-up-" ++ (if digits.length < 2 then "0" ++ digits else digits)

def plannedItemIds (plan : Fields) (pointer : String) : Except Raised (List String) :=
  match plan.get "items" with
  | .arr items => do
    let ids := namesOf py "id" items
    require (ids.length = items.length ∧ "" ∉ ids ∧ ids.Nodup)
      (raisePreview "patch-plan-item-identity" "items" (pointer ++ "/items"))
    .ok ids
  | _ => do
    let planId ← _preview_nonempty_string (plan.get "id") "id" (pointer ++ "/id")
    match plan.get "first_proof_moment", plan.get "follow_ups" with
    | .obj _, .arr followUps =>
      .ok ((planId ++ "#first_proof_moment") :: (List.range followUps.length).map (followUpId planId))
    | _, _ => .error (raisePreview "patch-plan-shape" "patch_plan" pointer)

def _canonical_patch_plan_item_ids (candidate : Fields) : Except Raised (List String) := do
  let (problem, pointer) ← _producer_problem candidate
  match directItemIds py problem with
  | some ids => .ok ids
  | none =>
    let pointer := pointer ++ "/question/decision/implementation/patch_plan"
    match legacyPlan problem with
    | .obj plan => plannedItemIds py plan pointer
    | _ => .error (raisePreview "patch-plan-required" "patch_plan" pointer)

/-- The comparison of what was read. -/
def checkJoins (parts : Parts) (previous : Option Fields) (goals : List Goal)
    (requirements : List Requirement) (obligations : List Obligation) : Except Raised Unit := do
  each (checkPair requirements obligations parts.pointer) goals
  each (checkClosure goals requirements obligations parts.pointer)
    (sorted (requirements.map (·.goalId) ++ obligations.map (·.goalId)))
  _validate_obligation_lineage py nfc obligations requirements previous parts.pointer
  _validate_patch_plan_partition py parts.assignments parts.assignmentPointer (obligations.map (·.id))

def normalizedRoot (root : Fields) (parts : Parts) (requirements : List Requirement)
    (obligations : List Obligation) : Fields :=
  let problem := (parts.problem.set "deliverable_requirements"
    (.arr (requirements.map fun requirement => .obj requirement.fields))).set "production_obligations"
    (.arr (obligations.map fun obligation => .obj obligation.fields))
  if parts.pointer = "" then problem else root.set "problem" (.obj problem)

def validate_canonical_root_technical_approach (candidate : Json) (previous : Option Json) :
    Except Raised Fields :=
  match candidate with
  | .obj root => do
    let _ ← _producer_problem root
    let previous ← previousProblem previous
    let parts ← readParts root
    let goals ← collect (readGoal py parts.pointer) [] 0 parts.goals
    require (goals ≠ []) (raisePreview "goals-nonempty" "goals" (parts.pointer ++ "/goals"))
    let requirements ← collect (readRequirement py nfc parts.pointer) [] 0 parts.requirements
    let obligations ← collect (readObligation py nfc parts.pointer) [] 0 parts.obligations
    checkJoins py nfc parts previous goals requirements obligations
    .ok (normalizedRoot root parts requirements obligations)
  | _ => .error (raisePreview "root-object" "technical_approach" "" "" "" "candidate must be an object")

end Validation

end Producer

end AiOrg
