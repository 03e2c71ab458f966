import AiOrg.Python.Int
import AiOrg.Python.Lines
import AiOrg.Python.Mapping
import AiOrg.Reform.Commit
import AiOrg.Run.Checks

/-!
# Scope decomposition of a series

`_series_scope_decomposition_body` copies the scope rows and the owners of a historical ledger and adds one row for each
production obligation of the root, owned like the row of the ledger that its patch-plan item resolves to. The sets
that the loops add to are those of the rows read so far.
-/

namespace AiOrg

namespace Scope

open Checks

inductive Raised where
  | SeriesScopeDecompositionError (rule_id coordinate detail : String)
  | ValueError
  deriving DecidableEq, Repr

def refused (rule_id coordinate : String) : Raised := .SeriesScopeDecompositionError rule_id coordinate ""

def ledgerPath : String := "series-coverage-ledger.json"

def ESTABLISHED_SERIES_SCOPE_CATEGORIES : List String :=
  ["desired_outcome", "referee_goal", "goal", "ux_acceptance_test", "patch_plan", "must_address_risk",
    "domain_specification"]

def ROOT_PRODUCTION_OBLIGATION_FIELDS : List String :=
  ["id", "referee_goal_id", "deliverable_requirement_id", "deliverable", "eligibility_predicate", "replacement_links"]

def ROOT_PRODUCTION_OBLIGATION_REQUIRED_FIELDS : List String :=
  ["id", "referee_goal_id", "deliverable_requirement_id", "deliverable", "eligibility_predicate"]

def ROOT_DELIVERABLE_REQUIREMENT_FIELDS : List String :=
  ["id", "referee_goal_id", "production_obligation_id", "deliverable"]

def ROOT_PATCH_PLAN_ASSIGNMENT_FIELDS : List String := ["item_id", "production_obligation_ids"]

def ESCALATION_CONSUMPTION_FIELDS : List String := ["review_round", "child_branch", "git_result_commit"]

def HISTORICAL_ESCALATION_CONSUMPTION_FIELDS : List String := ESCALATION_CONSUMPTION_FIELDS ++ ["review_record_path"]

def mapping (error : Raised) : Json → Except Raised Fields
  | .obj fields => .ok fields
  | _ => .error error

def items (error : Raised) : Json → Except Raised (List Json)
  | .arr items => .ok items
  | _ => .error error

def boolean (error : Raised) : Json → Except Raised Bool
  | .bool b => .ok b
  | _ => .error error

/-- A text that is not empty. -/
def text (error : Raised) : Json → Except Raised String
  | .str text => if text = "" then .error error else .ok text
  | _ => .error error

def string (error : Raised) : Json → Except Raised String
  | .str text => .ok text
  | _ => .error error

/-- An integer from one on. -/
def positive (error : Raised) : Json → Except Raised ℤ
  | .int n => if n < 1 then .error error else .ok n
  | _ => .error error

/-- `set(xs) == set(ys)`. -/
def SameMembers (xs ys : List String) : Prop := (∀ x ∈ xs, x ∈ ys) ∧ ∀ y ∈ ys, y ∈ xs

instance (xs ys : List String) : Decidable (SameMembers xs ys) :=
  inferInstanceAs (Decidable ((∀ x ∈ xs, x ∈ ys) ∧ ∀ y ∈ ys, y ∈ xs))

/-- `set(fields)`. -/
def keys (fields : Fields) : List String := fields.map Prod.fst

/-- `re.fullmatch(r"[0-9a-f]{length}", text)`. -/
def isHex (length : ℕ) (text : String) : Bool :=
  text.toList.length == length && text.toList.all "0123456789abcdef".toList.contains

structure ScopeRow where
  id : String
  kind : String
  text : String
  deriving DecidableEq, Repr

structure OwnerRow where
  scope_item_id : String
  owner : String
  owner_node_path : String
  deriving DecidableEq, Repr

def readScopeRow (seen : List ScopeRow) (index : ℕ) (item : Json) : Except Raised ScopeRow := do
  let coordinate := ledgerPath ++ "/scope_items/" ++ toString index
  let fields ← mapping (refused "scope-item-object" coordinate) item
  require (SameMembers (keys fields) ["id", "kind", "text"])
    (refused "established-scope-shape" coordinate)
  let id ← text (refused "established-scope-category" coordinate) (fields.get "id")
  let kind ← text (refused "established-scope-category" coordinate) (fields.get "kind")
  let words ← text (refused "established-scope-category" coordinate) (fields.get "text")
  require (kind ∈ ESTABLISHED_SERIES_SCOPE_CATEGORIES) (refused "established-scope-category" coordinate)
  require (id ∉ seen.map (·.id)) (refused "duplicate-scope-id" coordinate)
  return ⟨id, kind, words⟩

def readOwnerRow (rows : List ScopeRow) (seen : List OwnerRow) (index : ℕ) (item : Json) : Except Raised OwnerRow := do
  let coordinate := ledgerPath ++ "/coverage/" ++ toString index
  let names := ["scope_item_id", "owner", "owner_node_path"]
  let fields ← mapping (refused "ownership-object" coordinate) item
  require (SameMembers (keys fields) names) (refused "ownership-shape" coordinate)
  let scope_id ← text (refused "ownership-shape" coordinate) (fields.get "scope_item_id")
  let owner ← text (refused "ownership-shape" coordinate) (fields.get "owner")
  let owner_node_path ← text (refused "ownership-shape" coordinate) (fields.get "owner_node_path")
  require (scope_id ∈ rows.map (·.id)) (refused "fabricated-ownership" coordinate)
  require (scope_id ∉ seen.map (·.scope_item_id)) (refused "duplicate-ownership" coordinate)
  return ⟨scope_id, owner, owner_node_path⟩

/-- `if names: raise` with the first of them in order. -/
def refuseFirst (error : String → Raised) (names : List String) : Except Raised Unit :=
  match sorted names with
  | [] => .ok ()
  | name :: _ => .error (error name)

/-- `scope_kind_by_id.get(id)`. -/
def kindOf (rows : List ScopeRow) (id : String) : Option String :=
  (rows.find? fun row => row.id = id).map (·.kind)

structure Goal where
  id : String
  requires_deliverable : Bool
  deriving DecidableEq

structure Requirement where
  id : String
  fields : Fields
  deriving DecidableEq

structure Assignment where
  obligation_id : String
  item_id : String
  deriving DecidableEq

structure Obligation where
  id : String
  referee_goal_id : String
  deliverable_requirement_id : String
  deliverable : String
  eligibility_predicate : String
  deriving DecidableEq

def readGoal (rows : List ScopeRow) (seen : List Goal) (index : ℕ) (item : Json) : Except Raised Goal := do
  let coordinate := "root/problem/goals/" ++ toString index
  let fields ← mapping (refused "referee-goal-object" coordinate) item
  let id ← text (refused "referee-goal-identity" coordinate) (fields.get "id")
  require (id ∉ seen.map (·.id)) (refused "referee-goal-identity" coordinate)
  let requires_deliverable ← boolean (refused "referee-goal-identity" coordinate) (fields.get "requires_deliverable")
  require (requires_deliverable = true → kindOf rows id = some "referee_goal" ∨ kindOf rows id = some "goal")
    (.SeriesScopeDecompositionError "obligation-referee-association" coordinate
      "each referee goal must retain its historical scope row")
  return ⟨id, requires_deliverable⟩

def readRequirement (seen : List Requirement) (index : ℕ) (item : Json) : Except Raised Requirement := do
  let coordinate := "root/problem/deliverable_requirements/" ++ toString index
  let fields ← mapping (refused "requirement-object" coordinate) item
  require (SameMembers (keys fields) ROOT_DELIVERABLE_REQUIREMENT_FIELDS)
    (refused "requirement-shape" coordinate)
  let id ← text (refused "requirement-identity" coordinate) (fields.get "id")
  require (id ∉ seen.map (·.id)) (refused "requirement-identity" coordinate)
  return ⟨id, fields⟩

/-- One of the obligations of a patch-plan item, with those of the items read so far. -/
def readAssignment (coordinate item_id : String) (seen : List Assignment) (_ : ℕ) (value : Json) :
    Except Raised Assignment := do
  let obligation_id ← text (refused "inexact-obligation-assignment" coordinate) value
  require (obligation_id ∉ seen.map (·.obligation_id)) (refused "inexact-obligation-assignment" coordinate)
  return ⟨obligation_id, item_id⟩

def readPlanItem (seen : List (List Assignment)) (index : ℕ) (item : Json) : Except Raised (List Assignment) := do
  let coordinate := "root/problem/patch_plan/" ++ toString index
  let fields ← mapping (refused "patch-plan-assignment" coordinate) item
  require (SameMembers (keys fields) ROOT_PATCH_PLAN_ASSIGNMENT_FIELDS)
    (refused "patch-plan-assignment-shape" coordinate)
  let item_id ← text (refused "patch-plan-assignment" coordinate) (fields.get "item_id")
  let obligation_ids ← items (refused "patch-plan-assignment" coordinate) (fields.get "production_obligation_ids")
  collect (readAssignment coordinate item_id) seen.flatten 0 obligation_ids

/-- What is read before the obligations are projected. -/
structure Inputs where
  rows : List ScopeRow
  owners : List OwnerRow
  goals : List Goal
  requirements : List Requirement
  assignments : List Assignment
  obligations : List Json
  deriving DecidableEq

def scopeInputs (frozen_oid root_sha256 : String) (root ledger : Fields) : Except Raised Inputs := do
  require (isHex 40 frozen_oid = true) (refused "frozen-root-identity" "technical-approach-plan.cue/frozen_root_oid")
  require (isHex 64 root_sha256 = true) (refused "canonical-root-digest" "technical-approach-plan.cue/sha256")
  require (ledger.get "schema" = .str "series-coverage-ledger-v1")
    (refused "historical-ledger-schema" (ledgerPath ++ "/schema"))
  let raw_scope ← items (refused "historical-ledger-shape" ledgerPath) (ledger.get "scope_items")
  let raw_coverage ← items (refused "historical-ledger-shape" ledgerPath) (ledger.get "coverage")
  let rows ← collect readScopeRow [] 0 raw_scope
  let owners ← collect (readOwnerRow rows) [] 0 raw_coverage
  refuseFirst (refused "missing-ownership")
    ((rows.map (·.id)).filter fun id => id ∉ owners.map (·.scope_item_id))
  let problem ← mapping (refused "root-problem" "root/problem") (root.get "problem")
  let goals ← items (refused "root-producer-scope" "root/problem") (problem.get "goals")
  let requirements ← items (refused "root-producer-scope" "root/problem") (problem.get "deliverable_requirements")
  let obligations ← items (refused "root-producer-scope" "root/problem") (problem.get "production_obligations")
  let patch_plan ← items (refused "root-producer-scope" "root/problem") (problem.get "patch_plan")
  let goals ← collect (readGoal rows) [] 0 goals
  let requirements ← collect readRequirement [] 0 requirements
  let assignments ← collect readPlanItem [] 0 patch_plan
  return ⟨rows, owners, goals, requirements, assignments.flatten, obligations⟩

def Inputs.referee_goals (inputs : Inputs) : List String :=
  (inputs.goals.filter (·.requires_deliverable)).map (·.id)

def readObligation (coordinate : String) (item : Json) : Except Raised Obligation := do
  let fields ← mapping (refused "obligation-object" coordinate) item
  require ((∀ key ∈ ROOT_PRODUCTION_OBLIGATION_REQUIRED_FIELDS, key ∈ keys fields) ∧
    ∀ key ∈ keys fields, key ∈ ROOT_PRODUCTION_OBLIGATION_FIELDS) (refused "obligation-shape" coordinate)
  let id ← text (refused "obligation-shape" coordinate) (fields.get "id")
  let referee_goal_id ← text (refused "obligation-shape" coordinate) (fields.get "referee_goal_id")
  let requirement_id ← text (refused "obligation-shape" coordinate) (fields.get "deliverable_requirement_id")
  let deliverable ← text (refused "obligation-shape" coordinate) (fields.get "deliverable")
  let predicate ← text (refused "obligation-shape" coordinate) (fields.get "eligibility_predicate")
  return ⟨id, referee_goal_id, requirement_id, deliverable, predicate⟩

section Resolution

variable (py : PyLib)

/-- The coordinate of a numbered item, where the name starts with the marker and goes on in digits. -/
def numberedCandidate (normalized : List Char) (marker label : String) : Except Raised (List String) :=
  let ordinal := Text.removePrefix marker.toList normalized
  if marker.toList <+: normalized ∧ Text.isdigit ordinal = true then
    match Text.pyInt ordinal with
    | none => .error .ValueError
    | some n => .ok [label ++ toString n]
  else .ok []

/-- The name of an item after the last `#`, in small letters and with underscores. -/
def normalizedSuffix (item_id : String) : List Char :=
  (py.lower (String.ofList (item_id.toList.rtakeWhile (· != '#')))).toList.map fun c => if c = '-' then '_' else c

def planCandidates (item_id : String) : Except Raised (List String) := do
  let normalized := normalizedSuffix py item_id
  let followUps ← numberedCandidate normalized "follow_up_" "patch_plan:follow_up:"
  let deferred ← numberedCandidate normalized "deferred_" "patch_plan:deferred:"
  return item_id :: ((if normalized = "first_proof_moment".toList ∨ normalized = "first_proof".toList then
    ["patch_plan:first_proof_moment"] else []) ++ followUps ++ deferred)

def _historical_patch_plan_scope_id (item_id : String) (ownership : List String) : Except Raised (Option String) :=
  (planCandidates py item_id).map fun candidates => candidates.find? fun candidate => candidate ∈ ownership

structure Projection where
  obligation : Obligation
  patch_plan_item_id : String
  owner : OwnerRow

def Projection.id (row : Projection) : String := row.obligation.id

/-- The obligation has its own goal and its own requirement, which name it. -/
def Associated (inputs : Inputs) (seen : List Projection) (obligation : Obligation) : Prop :=
  obligation.referee_goal_id ∈ inputs.referee_goals ∧
    obligation.referee_goal_id ∉ seen.map (·.obligation.referee_goal_id) ∧
    obligation.deliverable_requirement_id ∉ seen.map (·.obligation.deliverable_requirement_id) ∧
    ∃ requirement ∈ inputs.requirements.find? fun r => r.id = obligation.deliverable_requirement_id,
      requirement.fields.get "referee_goal_id" = .str obligation.referee_goal_id ∧
        requirement.fields.get "production_obligation_id" = .str obligation.id ∧
        requirement.fields.get "deliverable" = .str obligation.deliverable

instance (inputs : Inputs) (seen : List Projection) (obligation : Obligation) :
    Decidable (Associated inputs seen obligation) := by
  unfold Associated
  infer_instance

/-- The row of the ownership that an obligation adds. -/
def Projection.ownerRow (row : Projection) : OwnerRow := ⟨row.id, row.owner.owner, row.owner.owner_node_path⟩

def present {α : Type} (error : Raised) : Option α → Except Raised α
  | some a => .ok a
  | none => .error error

def project (inputs : Inputs) (seen : List Projection) (index : ℕ) (item : Json) : Except Raised Projection := do
  let coordinate := "root/problem/production_obligations/" ++ toString index
  let obligation ← readObligation coordinate item
  require (Associated inputs seen obligation) (refused "obligation-referee-association" coordinate)
  -- Assignments are popped as their obligations are projected.
  let assignment ← present (refused "missing-obligation-assignment" coordinate)
    ((inputs.assignments.filter fun a => a.obligation_id ∉ seen.map (·.id)).find? fun a => a.obligation_id = obligation.id)
  require (obligation.id ∉ inputs.rows.map (·.id) ++ seen.map (·.id)) (refused "duplicate-scope-id" coordinate)
  let ownership := inputs.owners ++ seen.map (·.ownerRow)
  let owner_scope_id ← _historical_patch_plan_scope_id py assignment.item_id (ownership.map (·.scope_item_id))
  let owner ← present
    (.SeriesScopeDecompositionError "patch-plan-owner" assignment.item_id
      "assigned patch item has no historical ownership row")
    ((owner_scope_id.filter fun id => kindOf inputs.rows id = some "patch_plan").bind fun id =>
      ownership.find? fun owner => owner.scope_item_id = id)
  return ⟨obligation, assignment.item_id, owner⟩

end Resolution

/-- What holds once every obligation is projected: no assignment is left, and no goal and no requirement. -/
def closeObligations (inputs : Inputs) (projected : List Projection) : Except Raised Unit := do
  refuseFirst (refused "fabricated-obligation-assignment")
    ((inputs.assignments.filter fun a => a.obligation_id ∉ projected.map (·.id)).map (·.obligation_id))
  require
    (SameMembers (projected.map (·.obligation.referee_goal_id)) inputs.referee_goals ∧
      SameMembers (projected.map (·.obligation.deliverable_requirement_id)) (inputs.requirements.map (·.id)))
    (.SeriesScopeDecompositionError "obligation-referee-association" "root/problem/production_obligations"
      "producer-aware goals and requirements must project exactly once")

def ScopeRow.json (row : ScopeRow) : Json :=
  .obj [("id", .str row.id), ("kind", .str row.kind), ("text", .str row.text)]

def OwnerRow.json (row : OwnerRow) : Json :=
  .obj [("scope_item_id", .str row.scope_item_id), ("owner", .str row.owner),
    ("owner_node_path", .str row.owner_node_path)]

def Projection.json (row : Projection) : Json :=
  .obj [("id", .str row.id), ("kind", .str "production_obligation"), ("text", .str row.obligation.deliverable),
    ("production_obligation_id", .str row.id), ("referee_goal_id", .str row.obligation.referee_goal_id),
    ("deliverable_requirement_id", .str row.obligation.deliverable_requirement_id),
    ("patch_plan_item_id", .str row.patch_plan_item_id), ("deliverable", .str row.obligation.deliverable),
    ("eligibility_predicate", .str row.obligation.eligibility_predicate)]

def escalationError : Raised :=
  refused "escalation-consumption" (ledgerPath ++ "/rebaselined_from_escalation")

/-- The record of a round, which older ledgers name. The number is one that `json` reads, so its text is within the
limit. -/
def legacyRecord (review_round : ℤ) (fields : Fields) : Prop :=
  fields.get "review_record_path" = .null ∨
    fields.get "review_record_path" =
      .str ("patch-series-review-rounds/round-" ++ Reform.padded review_round ++ "-direction-review-record.cue")

instance (review_round : ℤ) (fields : Fields) : Decidable (legacyRecord review_round fields) := by
  unfold legacyRecord
  infer_instance

def _closed_escalation_consumption (value : Json) : Except Raised Fields := do
  let fields ← mapping escalationError value
  if fields = [] then return []
  require
    (SameMembers (keys fields) ESCALATION_CONSUMPTION_FIELDS ∨
      SameMembers (keys fields) HISTORICAL_ESCALATION_CONSUMPTION_FIELDS)
    (.SeriesScopeDecompositionError "escalation-consumption" (ledgerPath ++ "/rebaselined_from_escalation")
      "the complete review_round/child_branch/git_result_commit tuple is required")
  let review_round ← positive escalationError (fields.get "review_round")
  let child_branch ← text escalationError (fields.get "child_branch")
  let result_commit ← text escalationError (fields.get "git_result_commit")
  require (isHex 40 result_commit = true) escalationError
  require (legacyRecord review_round fields) escalationError
  return [("review_round", .int review_round), ("child_branch", .str child_branch),
    ("git_result_commit", .str result_commit)]

/-- What the body keeps of the history of the ledger. -/
structure Lineage where
  ledger_revision : ℤ
  supersedes_ledger_commit : String
  rebaselined_from_escalation : Fields
  parent_retained_scope_ids : List String
  deriving DecidableEq

def readRetained (scope_ids seen : List String) (index : ℕ) (item : Json) : Except Raised String := do
  let coordinate := ledgerPath ++ "/parent_retained_scope_ids/" ++ toString index
  let id ← string (refused "parent-retained-scope" coordinate) item
  require (id ∈ scope_ids) (refused "parent-retained-scope" coordinate)
  require (id ∉ seen) (refused "duplicate-parent-retained-scope" coordinate)
  return id

def readLineage (ledger : Fields) (scope_ids : List String) : Except Raised Lineage := do
  let lineage := ledgerPath ++ "/supersedes_ledger_commit"
  let revision ← positive (refused "ledger-revision" (ledgerPath ++ "/ledger_revision")) (ledger.get "ledger_revision")
  let supersedes ← string (refused "ledger-lineage" lineage) (ledger.get "supersedes_ledger_commit")
  require (supersedes = "" ∨ isHex 40 supersedes = true) (refused "ledger-lineage" lineage)
  require ((revision = 1 → supersedes = "") ∧ (1 < revision → supersedes ≠ ""))
    (.SeriesScopeDecompositionError "ledger-lineage" lineage
      "revision one has no predecessor; every later revision retains one")
  let escalation ← _closed_escalation_consumption (ledger.get "rebaselined_from_escalation")
  let retained ← items (refused "parent-retained-scope" (ledgerPath ++ "/parent_retained_scope_ids"))
    (ledger.get "parent_retained_scope_ids")
  let retained ← collect (readRetained scope_ids) [] 0 retained
  return ⟨revision, supersedes, escalation, retained⟩

/-- `ownership_by_scope` once every obligation has assigned its row. -/
def ownershipRows (inputs : Inputs) (projected : List Projection) : List OwnerRow :=
  (projected.foldl (fun rows row => assign row.id row.ownerRow rows)
    (inputs.owners.map fun owner => (owner.scope_item_id, owner))).map Prod.snd

def _series_scope_decomposition_body (py : PyLib) (frozen_oid root_sha256 : String) (root ledger : Fields) :
    Except Raised Fields := do
  let inputs ← scopeInputs frozen_oid root_sha256 root ledger
  let projected ← collect (project py inputs) [] 0 inputs.obligations
  closeObligations inputs projected
  let scope_items := inputs.rows.map ScopeRow.json ++ projected.map Projection.json
  let ownership := ownershipRows inputs projected
  require (scope_items.length = inputs.rows.length + inputs.obligations.length)
    (refused "obligation-row-delta" "series-scope-decomposition.cue/scope_items")
  require (ownership.length = inputs.owners.length + inputs.obligations.length)
    (refused "ownership-row-delta" "series-scope-decomposition.cue/ownership")
  let lineage ← readLineage ledger (inputs.rows.map (·.id) ++ projected.map (·.id))
  return [("schema", .str "series-scope-decomposition-v1"), ("frozen_root_oid", .str frozen_oid),
    ("canonical_root_sha256", .str root_sha256), ("historical_ledger_schema", .str "series-coverage-ledger-v1"),
    ("ledger_revision", .int lineage.ledger_revision),
    ("supersedes_ledger_commit", .str lineage.supersedes_ledger_commit),
    ("rebaselined_from_escalation", .obj lineage.rebaselined_from_escalation),
    ("scope_items", .arr scope_items), ("ownership", .arr (ownership.map OwnerRow.json)),
    ("parent_retained_scope_ids", .arr (lineage.parent_retained_scope_ids.map Json.str))]

end Scope

end AiOrg
