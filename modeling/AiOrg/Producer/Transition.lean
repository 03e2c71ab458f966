import AiOrg.Producer.Carrier

/-!
# The preparation of a formation and of a reform

Which of the two a reform is follows from whether the previous root says of its goals whether they require a
deliverable; a reform of a root that does not is the formation of the first producer-aware one.
-/

namespace AiOrg

namespace Producer

open Checks

section Transition

variable (py : PyLib) (nfc : List Char → List Char)

/-- How many goals say whether they require a deliverable. -/
def countDeterminations (index count : ℕ) : List Json → Except Raised ℕ
  | [] => .ok count
  | .obj goal :: goals => do
    let pointer := "/problem/goals/" ++ toString index
    let named := py.strOr (Fields.get goal "id") ""
    require (Fields.contains goal "deliverable_required" = false)
      (raisePreview "requires-deliverable-alias" "deliverable_required"
        (pointer ++ "/deliverable_required") named "" "use only requires_deliverable")
    match List.lookup "requires_deliverable" goal with
    | none => countDeterminations (index + 1) count goals
    | some (.bool _) => countDeterminations (index + 1) (count + 1) goals
    | some _ => .error (raisePreview "requires-deliverable-boolean" "requires_deliverable"
        (pointer ++ "/requires_deliverable") named)
  | _ :: goals =>
    if count = 0 then countDeterminations (index + 1) count goals
    else .error (raisePreview "goal-object" "goals" ("/problem/goals/" ++ toString index))

def undetermined : Json → Bool
  | .obj goal => !Fields.contains goal "requires_deliverable"
  | _ => true

/-- The first goal that does not say it, where others do. -/
def raiseUndetermined (goals : List Json) : Raised :=
  let index := goals.findIdx undetermined
  let named := match goals[index]? with
    | some (.obj goal) => py.strOr (Fields.get goal "id") ""
    | _ => ""
  raisePreview "requires-deliverable-required" "requires_deliverable"
    ("/problem/goals/" ++ toString index ++ "/requires_deliverable") named ""
    "partial normalization cannot fall back to the historical writer path"

/-- The goals of a tree, or of the tree of a result. -/
def goalsOf (value : Fields) : List Json :=
  let value := match value.get "technical_approach" with
    | .obj tree => tree
    | _ => value
  match childOf (Fields.get value "problem") "goals" with
  | .arr goals => goals
  | _ => []

def _has_explicit_producer_determinations (value : Fields) : Except Raised Bool := do
  let goals := goalsOf value
  let count ← countDeterminations py 0 0 goals
  if count = 0 then .ok false
  else if count = goals.length then .ok true
  else .error (raiseUndetermined py goals)

/-- `"formation"` or `"reform"`. -/
inductive Transition
  | formation | reform
  deriving DecidableEq

def _producer_preparation_transition (candidate previous : Fields) : Except Raised Transition := do
  let aware ← _has_explicit_producer_determinations py candidate
  let previousAware ← _has_explicit_producer_determinations py previous
  if previousAware && !aware then
    .error (raisePreview "requires-deliverable-required" "requires_deliverable"
      (if (goalsOf candidate).isEmpty then "/problem/goals" else "/problem/goals/0/requires_deliverable")
      (match goalsOf candidate with
        | .obj goal :: _ => py.strOr (Fields.get goal "id") ""
        | _ => "") ""
      "a producer-aware predecessor cannot reform through the historical writer fallback")
  else .ok (if previousAware then .reform else .formation)

/-- A goal of the candidate against the criterion that it was made of. -/
def checkSourceGoal (pointer : String) (_seen : List Unit) (index : ℕ) (pair : Json × Json) :
    Except Raised Unit :=
  let place := pointer ++ "/goals/" ++ toString index
  match pair with
  | (.obj goal, .obj source) =>
    match successCriterionFields.find? fun field =>
        !sameValue py (Fields.get goal field) (Fields.get source field) with
    | none => .ok ()
    | some field => .error (raisePreview "normalized-referee-source" field (place ++ "/" ++ field)
        (py.strOr (Fields.get goal "id") "") ""
        "assembled Canonical Referee Criterion differs from the normalization result")
  | _ => .error (raisePreview "normalized-referee-source" "goals" place "" ""
      "normalized and assembled referee criteria must be objects")

def _validate_normalized_referee_source (candidate normalized : Fields) : Except Raised Unit := do
  let (problem, pointer) ← _producer_problem candidate
  match problem.get "goals", normalized.get "success_criteria" with
  | .arr goals, .arr sources => do
    require (goals.length = sources.length) (raisePreview "normalized-referee-source" "goals"
      (pointer ++ "/goals") "" "" "assembled referee-goal coverage differs from normalization")
    let _ ← collect (checkSourceGoal py pointer) [] 0 (goals.zip sources)
    .ok ()
  | _, _ => .error (raisePreview "normalized-referee-source" "goals" (pointer ++ "/goals") "" ""
      "formation preparation requires both normalized success criteria and assembled referee goals")

def checkSource (candidate : Fields) : Option Fields → Except Raised Unit
  | none => .ok ()
  | some normalized => _validate_normalized_referee_source py candidate normalized

variable (carrierOf : Fields → List String → Option Fields → Except Raised Fields)

/-- `_prepare_producer_aware_root`, where `carrierOf` replies to the preparation prompt. -/
def prepareRoot (candidate : Fields) (previous : Option Fields) : Except Raised Fields := do
  let itemIds ← _canonical_patch_plan_item_ids py candidate
  let carrier ← carrierOf candidate itemIds previous
  _prepare_producer_aware_root py nfc carrier candidate previous

def prepare_producer_aware_formation (candidate : Fields) (normalized : Option Fields) :
    Except Raised Fields := do
  checkSource py candidate normalized
  prepareRoot py nfc carrierOf candidate none

def prepare_producer_aware_reform (candidate : Fields) (normalized : Option Fields) (previous : Fields) :
    Except Raised Fields := do
  checkSource py candidate normalized
  let previous ← validate_canonical_root_technical_approach py nfc (.obj previous) (some (.obj previous))
  prepareRoot py nfc carrierOf candidate (some previous)

/-- The preparation in a reform. -/
def prepareTransition (candidate : Fields) (normalized : Option Fields) (previous : Fields) :
    Except Raised Fields := do
  match ← _producer_preparation_transition py candidate previous with
  | .reform => prepare_producer_aware_reform py nfc carrierOf candidate normalized previous
  | .formation => prepare_producer_aware_formation py nfc carrierOf candidate none

end Transition

end Producer

end AiOrg
