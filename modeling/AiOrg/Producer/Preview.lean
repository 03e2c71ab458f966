import AiOrg.Python.Dict
import AiOrg.Python.Text
import AiOrg.Python.Value
import AiOrg.Run.Checks

/-!
# The members of a producer-aware root

Goals, deliverable requirements, production obligations and patch-plan assignments, and how each of them is
read from the root.
-/

namespace AiOrg

namespace Producer

open Checks

/-- `CanonicalRootPreviewError`. -/
structure PreviewError where
  ruleId : String
  field : String
  pointer : String
  goalId : String
  obligationId : String
  detail : String
  deriving DecidableEq, Repr

/-- What the validation raises: its own error, or one of the language. -/
inductive Raised
  | preview (error : PreviewError)
  | python (text : String)
  deriving DecidableEq, Repr

def raisePreview (ruleId field pointer : String) (goalId obligationId detail : String := "") : Raised :=
  .preview ⟨ruleId, field, pointer, goalId, obligationId, detail⟩

def _preview_nonempty_string (value : Json) (field pointer : String)
    (goalId obligationId : String := "") : Except Raised String :=
  match value with
  | .str text =>
    if pyStrip text = "" then .error (raisePreview "nonempty-string" field pointer goalId obligationId)
    else .ok text
  | _ => .error (raisePreview "nonempty-string" field pointer goalId obligationId)

/-- `set(fields) == set(expected)`. -/
def hasExactly (fields : Fields) (expected : List String) : Bool :=
  expected.all (fun key => fields.contains key) && fields.all fun entry => entry.1 ∈ expected

def _raise_preview_fields (py : PyLib) (fields : Fields) (expected : List String)
    (pointer ruleId : String) (goalId obligationId : String := "") : Except Raised Unit :=
  if hasExactly fields expected then .ok ()
  else
    let missing := sorted (expected.filter fun key => !fields.contains key)
    let surplus := sorted ((fields.map Prod.fst).filter (· ∉ expected))
    let field := (missing ++ surplus).headD ""
    let list := fun keys : List String => py.reprOther (.arr (keys.map .str))
    .error (raisePreview ruleId field (pointer ++ "/" ++ field) goalId obligationId
      ("missing=" ++ list missing ++ " surplus=" ++ list surplus))

def normalize_deliverable (nfc : List Char → List Char) : Json → Except String String
  | .str text =>
    let normalized := Text.squeeze nfc text.toList
    if normalized = [] then .error "deliverable must be non-empty after normalization"
    else .ok (String.ofList normalized)
  | _ => .error "deliverable must be a string in root preview v1"

def successCriterionFields : List String :=
  ["actor", "capability", "verifiable_outcome", "verification", "ux_trace", "requires_deliverable"]

def producerAwareGoalFields : List String := "id" :: successCriterionFields

def successCriterionVerificationMethods : List String := ["automated_test", "manual_check", "metric"]

def isText (value : Json) : Bool := value.kind = .str

def isMapping (keys : List String) (holds : Fields → Bool) : Json → Bool
  | .obj fields => hasExactly fields keys && holds fields
  | _ => false

/-- `_parse_success_criterion(referee) is not None`, of a mapping with the fields of a criterion. -/
def isCriterion (fields : Fields) : Bool :=
  isText (fields.get "actor") &&
  isMapping ["action", "preconditions"] (fun capability => isText (capability.get "action") &&
    match capability.get "preconditions" with
    | .arr items => items.all isText
    | _ => false) (fields.get "capability") &&
  isMapping ["expected_state", "evidence"] (fun outcome => isText (outcome.get "expected_state") &&
    isText (outcome.get "evidence")) (fields.get "verifiable_outcome") &&
  isMapping ["method", "check"] (fun verification =>
    (successCriterionVerificationMethods.any fun method => verification.get "method" = .str method) &&
    isText (verification.get "check")) (fields.get "verification") &&
  isText (fields.get "ux_trace") && (fields.get "requires_deliverable").kind = .bool

/-- A referee goal. -/
structure Goal where
  id : String
  requires : Bool
  deriving DecidableEq, Repr

section Readers

variable (py : PyLib) (nfc : List Char → List Char) (root : String)

def readGoal (seen : List Goal) (index : ℕ) (value : Json) : Except Raised Goal :=
  let pointer := root ++ "/goals/" ++ toString index
  match value with
  | .obj fields => do
    let named := py.strOr (Fields.get fields "id") ""
    require (Fields.contains fields "deliverable_required" = false)
      (raisePreview "requires-deliverable-alias" "deliverable_required"
        (pointer ++ "/deliverable_required") named "" "use only requires_deliverable")
    require (Fields.contains fields "requires_deliverable" = true)
      (raisePreview "requires-deliverable-required" "requires_deliverable"
        (pointer ++ "/requires_deliverable") named "" "omission is not a false determination")
    _raise_preview_fields py fields producerAwareGoalFields pointer "goal-fields"
    let id ← _preview_nonempty_string (Fields.get fields "id") "id" (pointer ++ "/id")
    require (id ∉ seen.map (·.id))
      (raisePreview "goal-id-unique" "id" (pointer ++ "/id") id "" "duplicate goal id")
    match Fields.get fields "requires_deliverable" with
    | .bool requires => do
      require (isCriterion fields = true) (raisePreview "referee-criterion-shape" "goals" pointer id ""
        "existing referee criterion fields are invalid")
      .ok ⟨id, requires⟩
    | _ => .error (raisePreview "requires-deliverable-boolean" "requires_deliverable"
        (pointer ++ "/requires_deliverable") id)
  | _ => .error (raisePreview "goal-object" "goals" pointer "" "" "goal must be an object")

def deliverableRequirementFields : List String :=
  ["id", "referee_goal_id", "production_obligation_id", "deliverable"]

structure Requirement where
  id : String
  goalId : String
  obligationId : Json
  deliverable : String
  fields : Fields
  deriving DecidableEq

/-- The normalization of a deliverable, where the error names the goal. -/
def readDeliverable (value : Json) (pointer goalId obligationId : String) : Except Raised String :=
  (normalize_deliverable nfc value).mapError fun text =>
    raisePreview "deliverable-normalization" "deliverable" (pointer ++ "/deliverable") goalId
      obligationId text

def readRequirement (seen : List Requirement) (index : ℕ) (value : Json) : Except Raised Requirement :=
  let pointer := root ++ "/deliverable_requirements/" ++ toString index
  match value with
  | .obj fields => do
    _raise_preview_fields py fields deliverableRequirementFields pointer "requirement-fields"
    let id ← _preview_nonempty_string (Fields.get fields "id") "id" (pointer ++ "/id")
    let goalId ← _preview_nonempty_string (Fields.get fields "referee_goal_id") "referee_goal_id"
      (pointer ++ "/referee_goal_id")
    require (id ∉ seen.map (·.id)) (raisePreview "requirement-id-unique" "id" (pointer ++ "/id") goalId)
    require (goalId ∉ seen.map (·.goalId)) (raisePreview "requirement-one-per-goal" "referee_goal_id"
      (pointer ++ "/referee_goal_id") goalId)
    let deliverable ← readDeliverable nfc (Fields.get fields "deliverable") pointer goalId ""
    .ok ⟨id, goalId, Fields.get fields "production_obligation_id", deliverable,
      Fields.set fields "deliverable" (.str deliverable)⟩
  | _ => .error (raisePreview "requirement-object" "deliverable_requirements" pointer)

def productionObligationFields : List String :=
  ["id", "referee_goal_id", "deliverable_requirement_id", "deliverable", "eligibility_predicate",
    "replacement_links"]

structure Link where
  replacesObligationId : String
  replacementReason : String
  deriving DecidableEq, Repr

/-- A production obligation, with its record after normalization. -/
structure Obligation where
  id : String
  goalId : String
  requirementId : String
  deliverable : String
  links : List Link
  fields : Fields
  deriving DecidableEq

def readLink (pointer goalId obligationId : String) (_seen : List Link) (index : ℕ) (value : Json) :
    Except Raised Link :=
  let pointer := pointer ++ "/replacement_links/" ++ toString index
  match value with
  | .obj fields => do
    _raise_preview_fields py fields ["replaces_obligation_id", "replacement_reason"] pointer
      "replacement-link-fields" goalId obligationId
    let replaces ← _preview_nonempty_string (Fields.get fields "replaces_obligation_id")
      "replaces_obligation_id" (pointer ++ "/replaces_obligation_id") goalId obligationId
    let reason ← _preview_nonempty_string (Fields.get fields "replacement_reason")
      "replacement_reason" (pointer ++ "/replacement_reason") goalId obligationId
    .ok ⟨replaces, reason⟩
  | _ => .error (raisePreview "replacement-link-object" "replacement_links" pointer goalId obligationId)

def _validate_replacement_links (value : Json) (pointer goalId obligationId : String) :
    Except Raised (List Link) :=
  match value with
  | .arr items => do
    require (items.length ≤ 1) (raisePreview "replacement-links-cardinality" "replacement_links"
      (pointer ++ "/replacement_links") goalId obligationId
      "only an initial [] or one successor link is valid")
    collect (readLink py pointer goalId obligationId) [] 0 items
  | _ => .error (raisePreview "replacement-links-array" "replacement_links"
      (pointer ++ "/replacement_links") goalId obligationId)

def readObligation (seen : List Obligation) (index : ℕ) (value : Json) : Except Raised Obligation :=
  let pointer := root ++ "/production_obligations/" ++ toString index
  match value with
  | .obj fields => do
    _raise_preview_fields py fields productionObligationFields pointer "obligation-fields"
    let id ← _preview_nonempty_string (Fields.get fields "id") "id" (pointer ++ "/id")
    let goalId ← _preview_nonempty_string (Fields.get fields "referee_goal_id") "referee_goal_id"
      (pointer ++ "/referee_goal_id")
    let requirementId ← _preview_nonempty_string (Fields.get fields "deliverable_requirement_id")
      "deliverable_requirement_id" (pointer ++ "/deliverable_requirement_id")
    let _ ← _preview_nonempty_string (Fields.get fields "eligibility_predicate")
      "eligibility_predicate" (pointer ++ "/eligibility_predicate")
    require (id ∉ seen.map (·.id)) (raisePreview "obligation-id-unique" "id" (pointer ++ "/id") goalId id)
    require (goalId ∉ seen.map (·.goalId)) (raisePreview "obligation-one-per-goal" "referee_goal_id"
      (pointer ++ "/referee_goal_id") goalId id)
    let deliverable ← readDeliverable nfc (Fields.get fields "deliverable") pointer goalId id
    let links ← _validate_replacement_links py (Fields.get fields "replacement_links") pointer goalId id
    .ok ⟨id, goalId, requirementId, deliverable, links,
      Fields.set fields "deliverable" (.str deliverable)⟩
  | _ => .error (raisePreview "obligation-object" "production_obligations" pointer)

/-- A patch item with the obligations that it takes on. -/
structure Assignment where
  itemId : String
  obligationIds : List String
  deriving DecidableEq, Repr

def nonblankTexts : List Json → Option (List String)
  | [] => some []
  | .str text :: items =>
    if pyStrip text = "" then none else (nonblankTexts items).map (text :: ·)
  | _ => none

def rootPatchPlanAssignmentFields : List String := ["item_id", "production_obligation_ids"]

/-- An assignment, after those read before it; `pointer` is that of the plan. -/
def readAssignment (seen : List Assignment) (index : ℕ) (value : Json) : Except Raised Assignment :=
  let pointer := root ++ "/" ++ toString index
  let listField := "production_obligation_ids"
  match value with
  | .obj fields => do
    let missing := (rootPatchPlanAssignmentFields.filter fun key => !Fields.contains fields key).headD ""
    require (missing = "") (raisePreview "patch-plan-assignment-required" missing (pointer ++ "/" ++ missing))
    _raise_preview_fields py fields rootPatchPlanAssignmentFields pointer "patch-plan-assignment-fields"
    let itemId ← _preview_nonempty_string (Fields.get fields "item_id") "item_id" (pointer ++ "/item_id")
    require (itemId ∉ seen.map (·.itemId))
      (raisePreview "patch-plan-item-id-unique" "item_id" (pointer ++ "/item_id"))
    let arrayError := raisePreview "patch-plan-obligation-array" listField (pointer ++ "/" ++ listField)
    match Fields.get fields listField with
    | .arr items =>
      match nonblankTexts items with
      | none => .error arrayError
      | some ids => do
        require ids.Nodup (raisePreview "patch-plan-item-obligation-unique" listField
          (pointer ++ "/" ++ listField))
        let assigned := seen.flatMap (·.obligationIds)
        require (∀ id ∈ ids, id ∉ assigned) (raisePreview "production-obligation-exactly-once" listField
          (pointer ++ "/" ++ listField) "" ((ids.filter (· ∈ assigned)).headD "")
          "obligation is assigned more than once")
        .ok ⟨itemId, ids⟩
    | _ => .error arrayError
  | _ => .error (raisePreview "patch-plan-item-object" "patch_plan" pointer)

end Readers

end Producer

end AiOrg
