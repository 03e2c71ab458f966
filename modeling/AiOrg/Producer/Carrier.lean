import AiOrg.Producer.Root
import AiOrg.Python.JsonPlain

/-!
# The carrier of a producer-aware root

A carrier proposes the pairs of a root. The identities, the lineage and the coordinates of the assignments
are rebuilt from the candidate and the previous root (`_reconstruct_producer_aware_carrier`), and what the
carrier then says is put into the candidate and validated (`parse_canonical_root_preview`).
-/

namespace AiOrg

section Language

variable (py : PyLib)

mutual

/-- `a == b`. -/
def sameValue : Json → Json → Bool
  | .null, .null => true
  | .bool a, .bool b => a = b
  | .bool a, .int n => (if a then 1 else 0) = n
  | .int n, .bool b => n = (if b then 1 else 0)
  | .int m, .int n => m = n
  | .str a, .str b => a = b
  | .arr xs, .arr ys => sameItems xs ys
  | .obj xs, .obj ys => xs.length = ys.length && sameEntries xs ys
  | .float a, b => (py.compareOther .eq (.float a) b).getD false
  | a, .float b => (py.compareOther .eq a (.float b)).getD false
  | _, _ => false

def sameItems : List Json → List Json → Bool
  | [], [] => true
  | x :: xs, y :: ys => sameValue x y && sameItems xs ys
  | _, _ => false

def sameEntries : Fields → Fields → Bool
  | [], _ => true
  | (key, x) :: xs, ys =>
    (match ys.lookup key with
    | some y => sameValue x y
    | none => false) && sameEntries xs ys

end

end Language

namespace Producer

open Checks

/-- A character as `json.dumps` writes it with `ensure_ascii=False`. -/
def strictChar (c : Char) : List Char :=
  match dumpsLetter c with
  | some letter => ['\\', letter]
  | none => if 0x20 ≤ c.toNat then [c] else '\\' :: 'u' :: GoJson.hex4 c.toNat

/-- A string as `strict_json_dumps` writes it. -/
def strictString (text : String) : List Char :=
  '\x22' :: text.toList.flatMap strictChar ++ ['\x22']

/-- `strict_json_dumps` of what an identity is made of. -/
def identityProjection (goalId deliverable : String) : List Char :=
  '\x7b' :: strictString "deliverable" ++ ':' :: strictString deliverable ++ ',' ::
    strictString "deliverable_type" ++ ':' :: strictString "string" ++ ',' ::
    strictString "referee_goal_id" ++ ':' :: strictString goalId ++ ['\x7d']

section Identity

variable (py : PyLib) (nfc : List Char → List Char)

def production_obligation_identity (goalId : String) (deliverable : Json) : Except String String :=
  if pyStrip goalId = "" then .error "referee_goal_id must be a non-empty string"
  else (normalize_deliverable nfc deliverable).map fun normalized =>
    py.sha256 (GoJson.utf8Bytes (identityProjection goalId normalized))

end Identity

def previewProducerAwareGoalFields : List String :=
  ["id", "requires_deliverable", "actor", "capability_action", "capability_preconditions",
    "outcome_expected_state", "outcome_evidence", "verification_method", "verification_check", "ux_trace"]

def criterionOf (goal : Fields) : Fields :=
  [("actor", goal.get "actor"),
    ("capability", .obj [("action", goal.get "capability_action"),
      ("preconditions", goal.get "capability_preconditions")]),
    ("verifiable_outcome", .obj [("expected_state", goal.get "outcome_expected_state"),
      ("evidence", goal.get "outcome_evidence")]),
    ("verification", .obj [("method", goal.get "verification_method"),
      ("check", goal.get "verification_check")]),
    ("ux_trace", goal.get "ux_trace"),
    ("requires_deliverable", goal.get "requires_deliverable")]

section Carrier

variable (py : PyLib) (nfc : List Char → List Char)

def _preview_goal_to_referee (goal : Fields) (pointer : String) : Except Raised Fields :=
  (_raise_preview_fields py goal previewProducerAwareGoalFields pointer "preview-goal-fields"
    (py.strOr (goal.get "id") "")).map fun _ => criterionOf goal

/-- A goal of a carrier is a mapping that says whether it requires a deliverable. -/
def checkDetermination (index : ℕ) (value : Json) : Except Raised Fields :=
  let pointer := "/goals/" ++ toString index
  match value with
  | .obj goal => do
    let named := py.strOr (Fields.get goal "id") ""
    require (Fields.contains goal "deliverable_required" = false)
      (raisePreview "requires-deliverable-alias" "deliverable_required"
        (pointer ++ "/deliverable_required") named "" "use only requires_deliverable")
    require (Fields.contains goal "requires_deliverable" = true)
      (raisePreview "requires-deliverable-required" "requires_deliverable"
        (pointer ++ "/requires_deliverable") named "" "omission is not a false determination")
    .ok goal
  | _ => .error (raisePreview "goal-object" "goals" pointer)

/-- `{str(goal.get("id")): goal for goal in goals}` of the goals with a text as their id. -/
def goalsById (goals : List Json) : List (String × Fields) :=
  dictOfEntries (goals.filterMap fun value =>
    match value with
    | .obj goal =>
      match Fields.get goal "id" with
      | .str id => some (id, goal)
      | _ => none
    | _ => none)

/-- A goal of the candidate does not use the rejected spelling. -/
def checkSupplied (_seen : List Unit) (index : ℕ) (value : Json) : Except Raised Unit :=
  match value with
  | .obj goal => require (Fields.contains goal "deliverable_required" = false)
      (raisePreview "requires-deliverable-alias" "deliverable_required"
        ("/problem/goals/" ++ toString index ++ "/deliverable_required") (py.strOr (Fields.get goal "id") "") ""
        "the supplied candidate cannot use the rejected alias")
  | _ => .ok ()

/-- A goal of the carrier is one of the candidate, unchanged. -/
def checkGoal (candidateById : List (String × Fields)) (_seen : List Fields) (index : ℕ) (value : Json) :
    Except Raised Fields := do
  let pointer := "/goals/" ++ toString index
  let goal ← checkDetermination py index value
  let named := py.strOr (goal.get "id") ""
  match candidateById.lookup named with
  | none => .error (raisePreview "referee-goal-identity" "id" (pointer ++ "/id") named)
  | some supplied => do
    let restored ← _preview_goal_to_referee py goal pointer
    require ((successCriterionFields.all fun field =>
        sameValue py (restored.get field) (Fields.get supplied field)) = true)
      (raisePreview "canonical-referee-byte-stable" "goals" pointer named "" ("preparation must preserve " ++
        "the referee criterion and its normalized requires_deliverable determination"))
    .ok goal

/-- `str(goal.get("id"))`. -/
def goalName (value : Json) : Except Raised String :=
  match value with
  | .obj goal => .ok (py.str (Fields.get goal "id"))
  | _ => .error (.python "AttributeError")

def checkGoals (candidateGoals carrierGoals : List Json) : Except Raised (List Fields) := do
  require (candidateGoals.length = carrierGoals.length) (raisePreview "referee-goal-coverage" "goals" "/goals"
    "" "" "preparation must preserve every supplied referee criterion")
  let _ ← collect (checkSupplied py) [] 0 candidateGoals
  let goals ← collect (checkGoal py (goalsById candidateGoals)) [] 0 carrierGoals
  let supplied ← collect (fun (_ : List String) _ value => goalName py value) [] 0 candidateGoals
  require ((goals.map fun goal => py.str (goal.get "id")) = supplied) (raisePreview "referee-goal-order" "goals"
    "/goals" "" "" "preparation must retain supplied goal order")
  .ok goals

/-- `carrier.get(field)`, where it is a list. -/
def carrierList (carrier : Fields) (field : String) : Except Raised (List Json) :=
  match carrier.get field with
  | .arr items => .ok items
  | _ => .error (raisePreview "producer-root-list" field ("/" ++ field))

/-- A record with the goal that it is for. -/
def readRecord (field : String) (seen : List (String × Fields)) (index : ℕ) (value : Json) :
    Except Raised (String × Fields) :=
  let pointer := "/" ++ field ++ "/" ++ toString index
  match value with
  | .obj record => do
    let goalId := py.strOr (Fields.get record "referee_goal_id") ""
    require (goalId ∉ seen.map Prod.fst) (raisePreview (field ++ "-one-per-goal") "referee_goal_id"
      (pointer ++ "/referee_goal_id") goalId)
    .ok (goalId, record)
  | _ => .error (raisePreview (field ++ "-object") field pointer)

/-- `_one_preview_record_per_goal`. The records are those of the carrier: a change of one changes it there. -/
def _one_preview_record_per_goal (values : List Json) (field : String) :
    Except Raised (List (String × Fields)) :=
  collect (readRecord py field) [] 0 values

/-- What `for item in problem.get(field, [])` goes through. -/
def previousItems (problem : Fields) (field : String) : Except Raised (List Json) :=
  match (problem.getD field (.arr [])).iter with
  | some items => .ok items
  | none => .error (.python "TypeError")

/-- The pairs of the previous root by their goals. -/
def previousPairs (previous : Option Fields) : Except Raised Lineage := do
  let problem ← match previous with
    | none => .ok []
    | some root => (_producer_problem root).map Prod.fst
  let requirements ← previousItems problem "deliverable_requirements"
  let obligations ← previousItems problem "production_obligations"
  .ok ⟨byGoal py obligations, byGoal py requirements⟩

/-! ### One goal -/

/-- `{str(item.get("id")): item for item in obligations.values()}`. -/
def byId (obligations : List (String × Fields)) : List (String × Fields) :=
  dictOfEntries (obligations.map fun item => (py.str (item.2.get "id"), item.2))

def recordIndex (records : List (String × Fields)) (goalId : String) : String :=
  toString ((records.map Prod.fst).idxOf goalId)

def pairDeliverable (requirements obligations : List (String × Fields)) (goalId : String)
    (requirement obligation : Fields) : Except Raised String := do
  let required ← readDeliverable nfc (requirement.get "deliverable")
    ("/deliverable_requirements/" ++ recordIndex requirements goalId) goalId ""
  let deliverable ← readDeliverable nfc (obligation.get "deliverable")
    ("/production_obligations/" ++ recordIndex obligations goalId) goalId (py.strOr (obligation.get "id") "")
  require (required = deliverable)
    (raisePreview "pair-deliverable-equality" "deliverable" "/production_obligations" goalId)
  .ok deliverable

/-- The pair that a pair follows: that of its goal, or else the declared one, whose goal is gone. -/
def findPredecessor (previous : Lineage) (candidateIds : List String) (goalId : String)
    (obligation : Fields) : Except Raised (Option Fields × Option Fields) :=
  match previous.obligations.lookup goalId with
  | some predecessor => .ok (some predecessor, previous.requirements.lookup goalId)
  | none =>
    let declared := py.strOr (obligation.get "replaces_obligation_id") ""
    if declared = "" then .ok (none, previous.requirements.lookup goalId)
    else
      match (byId py previous.obligations).lookup declared with
      | none => .error (raisePreview "successor-predecessor-link" "replaces_obligation_id"
          "/production_obligations" goalId "" "changed-goal continuity must name an exact prior obligation ID")
      | some predecessor =>
        let predecessorGoal := py.strOr (Fields.get predecessor "referee_goal_id") ""
        if predecessorGoal ∈ candidateIds then .error (raisePreview "goal-continuity-conflict"
          "replaces_obligation_id" "/production_obligations" goalId declared
          "a successor cannot replace an obligation whose goal survives")
        else .ok (some predecessor, previous.requirements.lookup predecessorGoal)

def claimPredecessor (goalId : String) (claimed : List String) :
    Option Fields → Except Raised (List String)
  | none => .ok claimed
  | some predecessor => do
    let id := py.strOr (Fields.get predecessor "id") ""
    require (id ∉ claimed) (raisePreview "predecessor-obligation-unique" "replaces_obligation_id"
      "/production_obligations" goalId id "one predecessor cannot establish continuity for multiple goals")
    .ok (id :: claimed)

def sameProjection (goalId deliverable : String) : Option Fields → Except Raised Bool
  | none => .ok false
  | some predecessor =>
    if Fields.get predecessor "referee_goal_id" = .str goalId then
      ((normalize_deliverable nfc (Fields.get predecessor "deliverable")).mapError Raised.python).map
        fun normalized => normalized = deliverable
    else .ok false

/-- `fields[key]`. -/
def item (fields : Fields) (key : String) : Except Raised Json :=
  match fields.lookup key with
  | some value => .ok value
  | none => .error (.python "KeyError")

/-- What a pair is rewritten with. -/
structure Rewrite where
  obligationId : String
  requirementId : String
  replaces : Json
  reason : Json
  deriving DecidableEq

/-- `links[0][key] if links else ""`. -/
def firstLink (links : Json) (key : String) : Except Raised Json :=
  match links with
  | .arr (.obj link :: _) => item link key
  | .obj (_ :: _) => .error (.python "KeyError")
  | links => if links.truthy then .error (.python "TypeError") else .ok (.str "")

def retainIdentity (predecessor : Fields) : Option Fields → Except Raised Rewrite
  | none => .error (.python "AssertionError")
  | some requirement => do
    let obligationId ← item predecessor "id"
    let requirementId ← item requirement "id"
    let links := predecessor.getD "replacement_links" (.arr [])
    let replaces ← firstLink links "replaces_obligation_id"
    let reason ← firstLink links "replacement_reason"
    .ok ⟨py.str obligationId, py.str requirementId, replaces, reason⟩

/-- A new identity, with a link to the predecessor if there is one. -/
def mintIdentity (goalId deliverable : String) (obligation : Fields) (predecessor requirement : Option Fields) :
    Except Raised Rewrite := do
  let digest ← (production_obligation_identity py nfc goalId (.str deliverable)).mapError .python
  let obligationId := "obligation:" ++ digest
  match predecessor with
  | none => do
    require (((obligation.get "replaces_obligation_id").truthy ||
        (obligation.get "replacement_reason").truthy) = false)
      (raisePreview "initial-replacement-links-empty" "replacement_links" "/production_obligations" goalId
        obligationId)
    .ok ⟨obligationId, "requirement:" ++ digest, .str "", .str ""⟩
  | some predecessor => do
    require (requirement.isSome = true) (raisePreview "previous-pair-closure" "deliverable_requirements"
      "/production_obligations" goalId (py.strOr (Fields.get predecessor "id") ""))
    let reason ← (_preview_nonempty_string (obligation.get "replacement_reason") "" "").mapError fun _ =>
      raisePreview "successor-replacement-reason" "replacement_reason" "/production_obligations" goalId
        obligationId
    let replaced ← item predecessor "id"
    .ok ⟨obligationId, "requirement:" ++ digest, .str (py.str replaced), .str reason⟩

def pairIdentity (goalId deliverable : String) (obligation : Fields) (predecessor requirement : Option Fields)
    (same : Bool) : Except Raised Rewrite :=
  match predecessor, same with
  | some predecessor, true => retainIdentity py predecessor requirement
  | predecessor, _ => mintIdentity py nfc goalId deliverable obligation predecessor requirement

/-- Where the reconstruction stands. -/
structure Rebuild where
  requirements : List (String × Fields)
  obligations : List (String × Fields)
  rewritten : List (String × String)
  claimed : List String
  deriving DecidableEq

/-- The records of a pair after their rewrite. -/
def rewriteRequirement (requirement : Fields) (rewrite : Rewrite) (deliverable : String) : Fields :=
  ((requirement.set "id" (.str rewrite.requirementId)).set "production_obligation_id"
    (.str rewrite.obligationId)).set "deliverable" (.str deliverable)

/-- The obligation likewise. -/
def rewriteObligation (obligation : Fields) (rewrite : Rewrite) (deliverable : String) : Fields :=
  ((((obligation.set "id" (.str rewrite.obligationId)).set "deliverable_requirement_id"
    (.str rewrite.requirementId)).set "deliverable" (.str deliverable)).set "replaces_obligation_id"
    rewrite.replaces).set "replacement_reason" rewrite.reason

def rebuildPair (previous : Lineage) (candidateIds : List String) (state : Rebuild) (goalId : String)
    (requirement obligation : Fields) : Except Raised Rebuild := do
  let deliverable ← pairDeliverable py nfc state.requirements state.obligations goalId requirement obligation
  let (predecessor, predecessorRequirement) ← findPredecessor py previous candidateIds goalId obligation
  let claimed ← claimPredecessor py goalId state.claimed predecessor
  let same ← sameProjection nfc goalId deliverable predecessor
  let rewrite ← pairIdentity py nfc goalId deliverable obligation predecessor predecessorRequirement same
  .ok ⟨assign goalId (rewriteRequirement requirement rewrite deliverable) state.requirements,
    assign goalId (rewriteObligation obligation rewrite deliverable) state.obligations,
    assign (py.strOr (obligation.get "id") "") rewrite.obligationId state.rewritten, claimed⟩

/-- The reconstruction of the pair of a goal that requires a deliverable. -/
def rebuildGoal (previous : Lineage) (candidateIds : List String) (state : Rebuild) (goal : Fields) :
    Except Raised Rebuild :=
  let goalId := py.str (goal.get "id")
  if (goal.get "requires_deliverable").truthy = false then .ok state
  else
    match state.requirements.lookup goalId, state.obligations.lookup goalId with
    | some requirement, some obligation => rebuildPair py nfc previous candidateIds state goalId requirement
        obligation
    | none, _ => .error (raisePreview "producer-pair-required" "deliverable_requirements"
        "/deliverable_requirements" goalId)
    | _, none => .error (raisePreview "producer-pair-required" "production_obligations"
        "/production_obligations" goalId)

/-- An assignment with the new ids. -/
def rewriteAssignment (rewritten : List (String × String)) (_seen : List Json) (_index : ℕ) (value : Json) :
    Except Raised Json :=
  match value with
  | .obj assignment =>
    match Fields.get assignment "production_obligation_ids" with
    | .arr values => .ok (.obj (Fields.set assignment "production_obligation_ids"
        (.arr (values.map fun value => .str ((rewritten.lookup (py.str value)).getD (py.str value))))))
    | _ => .error (raisePreview "patch-plan-obligation-array" "production_obligation_ids" "/patch_plan")
  | _ => .error (.python "AttributeError")

/-- The assignments are to the planned items in order. -/
def rebuildAssignments (assignments : List Json) (itemIds : List String)
    (rewritten : List (String × String)) : Except Raised (List Json) := do
  let actual := assignments.filterMap fun value =>
    match value with
    | .obj assignment => some (py.str (Fields.get assignment "item_id"))
    | _ => none
  require (actual = itemIds) (raisePreview "patch-plan-item-coverage" "item_id" "/patch_plan" "" ""
    ("expected exact ordered patch items " ++ py.reprOther (.arr (itemIds.map .str))))
  collect (rewriteAssignment py rewritten) [] 0 assignments

def _reconstruct_producer_aware_carrier (carrier candidate : Fields) (itemIds : List String)
    (previous : Option Fields) : Except Raised Fields := do
  let (problem, _) ← _producer_problem candidate
  match problem.get "goals", carrier.get "goals" with
  | .arr candidateGoals, .arr carrierGoals => do
    let goals ← checkGoals py candidateGoals carrierGoals
    let requirements ← carrierList carrier "deliverable_requirements"
    let obligations ← carrierList carrier "production_obligations"
    let assignments ← carrierList carrier "patch_plan"
    let pairs ← previousPairs py previous
    let requirements ← _one_preview_record_per_goal py requirements "deliverable_requirements"
    let obligations ← _one_preview_record_per_goal py obligations "production_obligations"
    let rebuilt ← goals.foldlM (rebuildGoal py nfc pairs ((goalsById candidateGoals).map Prod.fst))
      ⟨requirements, obligations, [], []⟩
    let assignments ← rebuildAssignments py assignments itemIds rebuilt.rewritten
    .ok (((carrier.set "deliverable_requirements" (.arr (rebuilt.requirements.map (.obj ·.2)))).set
      "production_obligations" (.arr (rebuilt.obligations.map (.obj ·.2)))).set "patch_plan"
      (.arr assignments))
  | _, _ => .error (raisePreview "producer-root-list" "goals" "/goals")

def previewProductionObligationFields : List String :=
  ["id", "referee_goal_id", "deliverable_requirement_id", "deliverable", "eligibility_predicate",
    "replaces_obligation_id", "replacement_reason"]

/-- A goal of a root from one of a carrier. -/
def expandGoal (_seen : List Json) (index : ℕ) (value : Json) : Except Raised Json := do
  let goal ← checkDetermination py index value
  _raise_preview_fields py goal previewProducerAwareGoalFields ("/goals/" ++ toString index)
    "preview-goal-fields" (py.strOr (goal.get "id") "")
  .ok (.obj (("id", goal.get "id") :: ("requires_deliverable", goal.get "requires_deliverable") ::
    (criterionOf goal).take 5))

def expandLinks (obligation : Fields) (pointer : String) : Except Raised Json :=
  let replaces := obligation.get "replaces_obligation_id"
  let reason := obligation.get "replacement_reason"
  let partialLink := fun field => Except.error (raisePreview "replacement-link-partial" field
    (pointer ++ "/" ++ field) (py.strOr (obligation.get "referee_goal_id") "")
    (py.strOr (obligation.get "id") "")
    "predecessor identity and replacement reason must both be empty or both non-empty")
  if replaces = .str "" ∧ reason = .str "" then .ok (.arr [])
  else
    match _preview_nonempty_string replaces "" "", _preview_nonempty_string reason "" "" with
    | .ok _, .ok _ =>
      .ok (.arr [.obj [("replaces_obligation_id", replaces), ("replacement_reason", reason)]])
    | .error _, _ => partialLink "replaces_obligation_id"
    | .ok _, .error _ => partialLink "replacement_reason"

/-- An obligation of a root from one of a carrier. -/
def expandObligation (_seen : List Json) (index : ℕ) (value : Json) : Except Raised Json :=
  let pointer := "/production_obligations/" ++ toString index
  match value with
  | .obj obligation => do
    _raise_preview_fields py obligation previewProductionObligationFields pointer
      "preview-obligation-fields" (py.strOr (Fields.get obligation "referee_goal_id") "")
      (py.strOr (Fields.get obligation "id") "")
    let links ← expandLinks py obligation pointer
    .ok (.obj (((productionObligationFields.filter (· ≠ "replacement_links")).map fun field =>
      (field, Fields.get obligation field)) ++ [("replacement_links", links)]))
  | _ => .error (raisePreview "obligation-object" "production_obligations" pointer)

def _expand_canonical_root_preview_carrier (value : Fields) : Except Raised Fields := do
  let goals ← carrierList value "goals"
  let goals ← collect (expandGoal py) [] 0 goals
  let obligations ← carrierList value "production_obligations"
  let obligations ← collect (expandObligation py) [] 0 obligations
  .ok [("goals", .arr goals), ("deliverable_requirements", value.get "deliverable_requirements"),
    ("production_obligations", .arr obligations), ("patch_plan", value.get "patch_plan")]

def canonicalRootPreviewFields : List String :=
  ["goals", "deliverable_requirements", "production_obligations", "patch_plan"]

/-- `mapping.update(other)`. -/
def update (fields other : Fields) : Fields :=
  other.foldl (fun fields entry => fields.set entry.1 entry.2) fields

def withProblem (candidate problem : Fields) (pointer : String) : Fields :=
  if pointer = "" then problem else candidate.set "problem" (.obj problem)

def parse_canonical_root_preview (value candidate : Fields) (previous : Option Fields) :
    Except Raised Fields := do
  _raise_preview_fields py value canonicalRootPreviewFields "" "preview-fields"
  let overlay ← _expand_canonical_root_preview_carrier py value
  let (problem, pointer) ← _producer_problem candidate
  validate_canonical_root_technical_approach py nfc
    (.obj (withProblem candidate (update problem overlay) pointer)) (previous.map .obj)

def _prepare_producer_aware_root (carrier candidate : Fields) (previous : Option Fields) :
    Except Raised Fields := do
  let itemIds ← _canonical_patch_plan_item_ids py candidate
  _raise_preview_fields py carrier canonicalRootPreviewFields "" "preview-fields"
  let reconstructed ← _reconstruct_producer_aware_carrier py nfc carrier candidate itemIds previous
  parse_canonical_root_preview py nfc reconstructed candidate previous

end Carrier

end Producer

end AiOrg
