import AiOrg.Approach.DomainSpecification
import AiOrg.Python.Lines

/-!
# The items of a revision

What the parsers of candidates, prior-art patterns, risks and constraints accept, and the lints for slots that are
empty. An item keeps the declaration that it replaces another one only where it makes one.
-/

namespace AiOrg

namespace Approach

open Checks

def REVISION_DECLARATION_FIELDS : List String := ["replaces", "replacement_reason"]

section Fields

/-- There are these fields, and no others but those of a declaration. -/
def declaringKeys (fields : Fields) (names : List String) : Prop :=
  (∀ name ∈ names, name ∈ fields.map Prod.fst) ∧
    ∀ key ∈ fields.map Prod.fst, key ∈ names ∨ key ∈ REVISION_DECLARATION_FIELDS

instance (fields : Fields) (names : List String) : Decidable (declaringKeys fields names) :=
  inferInstanceAs (Decidable ((∀ name ∈ names, name ∈ fields.map Prod.fst) ∧
    ∀ key ∈ fields.map Prod.fst, key ∈ names ∨ key ∈ REVISION_DECLARATION_FIELDS))

def objectOf : Json → Option Fields
  | .obj fields => some fields
  | _ => none

/-- `item.get(field, "")`, where it is text. -/
def textOr (fields : Fields) (field : String) : Option String :=
  match fields.lookup field with
  | some value => stringOf value
  | none => some ""

/-- A text that is one of some values. -/
def oneOf (values : List String) (value : Json) : Option String :=
  (stringOf value).bind fun text => if text ∈ values then some text else none

def texts (items : List String) : Json := .arr (items.map .str)

/-- The declaration that an item carries, if it names something that it replaces. -/
def declaration (replaces replacement_reason : String) : Fields :=
  if pyStrip replaces = "" then []
  else [("replaces", .str replaces), ("replacement_reason", .str replacement_reason)]

/-- The text of a field, or of its default where it is missing. -/
def fieldOr (py : PyLib) (fields : Fields) (field : String) : String :=
  py.str ((fields.lookup field).getD (.str ""))

end Fields

def NON_EMPTY_ARRAY_SLOT_NAMES : List String :=
  ["success_criteria", "preconditions", "user_actions", "named_content", "core_systems", "draws_on", "because",
    "under_constraints", "accepting_tradeoffs", "systems", "key_modules", "saved_fields", "user_can"]

/-- `text.rsplit(mark, 1)[-1]`. -/
def afterLast (mark : Char) (text : String) : List Char := text.toList.rtakeWhile (· != mark)

def isEmptyAt (path : String) : String := (if path = "" then "value" else path) ++ " is empty"

def childPath (path key : String) : String := if path = "" then key else path ++ "." ++ key

mutual

def _lint_empty_slots (path : String) : Json → List String
  | .str text => if pyStrip text = "" then [isEmptyAt path] else []
  | .obj fields => lintFields path fields
  | .arr items =>
    (if items.isEmpty ∧ String.ofList (afterLast '.' path) ∈ NON_EMPTY_ARRAY_SLOT_NAMES then [isEmptyAt path] else []) ++
      lintItems path 0 items
  | _ => []

def lintFields (path : String) : List (String × Json) → List String
  | [] => []
  | (key, item) :: fields => _lint_empty_slots (childPath path key) item ++ lintFields path fields

def lintItems (path : String) (index : ℕ) : List Json → List String
  | [] => []
  | item :: items =>
    _lint_empty_slots (path ++ "[" ++ toString index ++ "]") item ++ lintItems path (index + 1) items

end

/-! ### Candidates -/

def CANDIDATE_APPROACH_FIELDS : List String :=
  ["id", "name", "kind", "summary", "stack_requirement", "first_proof_moment", "core_systems", "draws_on"]

def CANDIDATE_APPROACH_KINDS : List String := ["minimal_local", "repo_native", "general_architectural", "do_nothing_defer"]

def CANDIDATE_STACK_REQUIREMENT_FIELDS : List String :=
  ["build_strategy", "engine", "framework", "language", "platform", "authoring_model", "verification_model"]

def TECH_STACK_CONCRETE_BUILD_STRATEGIES : List String := ["engine_based", "framework_based", "from_scratch"]

def CANDIDATE_AUTHORING_MODELS : List String := ["text_first", "gui_editor", "binary_assets"]

def CANDIDATE_VERIFICATION_MODELS : List String := ["headless_ci", "gui_required"]

def CANDIDATE_FIRST_PROOF_FIELDS : List String := ["user_actions", "named_content", "win_or_progress_condition"]

def _parse_candidate_stack_requirement (value : Json) : Option Fields := do
  let fields ← closedMapping CANDIDATE_STACK_REQUIREMENT_FIELDS value
  let entries ← CANDIDATE_STACK_REQUIREMENT_FIELDS.mapM fun field =>
    (stringOf (fields.get field)).map fun text => (field, Json.str text)
  let _ ← oneOf TECH_STACK_CONCRETE_BUILD_STRATEGIES (fields.get "build_strategy")
  let _ ← oneOf CANDIDATE_AUTHORING_MODELS (fields.get "authoring_model")
  let _ ← oneOf CANDIDATE_VERIFICATION_MODELS (fields.get "verification_model")
  return entries

def namedContentItem (item : Json) : Option Json := do
  let fields ← closedMapping ["name", "kind"] item
  return .obj [("name", .str (← stringOf (fields.get "name"))), ("kind", .str (← stringOf (fields.get "kind")))]

def _parse_named_content : Json → Option (List Json)
  | .arr items => items.mapM namedContentItem
  | _ => none

def _parse_candidate_first_proof_moment (value : Json) : Option Fields := do
  let fields ← closedMapping CANDIDATE_FIRST_PROOF_FIELDS value
  let user_actions ← stringsOf (fields.get "user_actions")
  let named_content ← _parse_named_content (fields.get "named_content")
  let win_or_progress_condition ← stringOf (fields.get "win_or_progress_condition")
  return [("user_actions", texts user_actions), ("named_content", .arr named_content),
    ("win_or_progress_condition", .str win_or_progress_condition)]

def candidateError (what : String) : String := "Codex candidate generation returned " ++ what

def _parse_candidate_approach (parsed : Json) (expected_kind : Option String) : Except String Fields := do
  let fields ← orError (candidateError "non-object JSON") (objectOf parsed)
  require (declaringKeys fields CANDIDATE_APPROACH_FIELDS) (candidateError "invalid candidate fields")
  let replaces ← orError (candidateError "invalid replacement declaration") (textOr fields "replaces")
  let replacement_reason ← orError (candidateError "invalid replacement declaration") (textOr fields "replacement_reason")
  let strings := candidateError "invalid candidate string fields"
  let id ← orError strings (stringOf (fields.get "id"))
  let name ← orError strings (stringOf (fields.get "name"))
  let kind ← orError strings (stringOf (fields.get "kind"))
  let summary ← orError strings (stringOf (fields.get "summary"))
  require (kind ∈ CANDIDATE_APPROACH_KINDS) (candidateError "invalid candidate kind")
  require (∀ expected ∈ expected_kind, kind = expected) (candidateError "unexpected candidate kind")
  let stack_requirement ← orError (candidateError "invalid stack_requirement")
    (_parse_candidate_stack_requirement (fields.get "stack_requirement"))
  let first_proof_moment ← orError (candidateError "invalid first_proof_moment")
    (_parse_candidate_first_proof_moment (fields.get "first_proof_moment"))
  let core_systems ← orError (candidateError "invalid core_systems") (stringsOf (fields.get "core_systems"))
  let draws_on ← orError (candidateError "invalid draws_on") (stringsOf (fields.get "draws_on"))
  return [("id", .str id), ("name", .str name), ("kind", .str kind), ("summary", .str summary),
    ("stack_requirement", .obj stack_requirement), ("first_proof_moment", .obj first_proof_moment),
    ("core_systems", texts core_systems), ("draws_on", texts draws_on)] ++ declaration replaces replacement_reason

/-- The slots that the build strategy of a candidate leaves empty. -/
def allowedEmpty (build_strategy : Json) : List String :=
  if build_strategy = .str "engine_based" then ["stack_requirement.framework is empty"]
  else if build_strategy = .str "framework_based" then ["stack_requirement.engine is empty"]
  else if build_strategy = .str "from_scratch" then
    ["stack_requirement.engine is empty", "stack_requirement.framework is empty"]
  else []

def _candidate_allows_empty_slot (candidate : Fields) (error : String) : Bool :=
  match candidate.get "stack_requirement" with
  | .obj requirement => error ∈ allowedEmpty (Fields.get requirement "build_strategy")
  | _ => false

def _candidate_empty_slot_lints (candidate : Fields) : List String :=
  (_lint_empty_slots "" (.obj candidate)).filter fun error => !_candidate_allows_empty_slot candidate error

def ORG_INTERNAL_PLATFORM_TOKENS : List String := ["functional_check", "worktree", "codex"]

def ORG_INTERNAL_PLATFORM_TOKENS_ALL_DELIVERABLES : List String := ["functional_check", "codex"]

def BROWSER_STANDARDS_STACK_NAMES : List String :=
  ["browser", "browser standards", "web platform", "web standards", "html css javascript", "html/css/javascript",
    "html/css/js", "vanilla web", "vanilla browser"]

section Stack

variable (py : PyLib)

def _platform_contains_org_internal_token (platform : String) (user_facing : Bool) : Bool :=
  let canonical := py.lower platform
  let tokens := if user_facing then ORG_INTERNAL_PLATFORM_TOKENS else ORG_INTERNAL_PLATFORM_TOKENS_ALL_DELIVERABLES
  tokens.any fun token => token.toList <:+: canonical.toList

def _names_browser_standards (value : String) : Bool :=
  let spaced := (py.lower value).toList.map fun c => if c = '/' ∨ c = '-' then ' ' else c
  squash (String.ofList spaced) ∈ BROWSER_STANDARDS_STACK_NAMES ∨ py.lower (pyStrip value) ∈ BROWSER_STANDARDS_STACK_NAMES

def _lint_stack_requirement_consistency (requirement : Fields) (label : String) (user_facing : Bool) : List String :=
  let build_strategy := fieldOr py requirement "build_strategy"
  let engine := pyStrip (fieldOr py requirement "engine")
  let framework := pyStrip (fieldOr py requirement "framework")
  let platform := pyStrip (fieldOr py requirement "platform")
  (if _platform_contains_org_internal_token py platform user_facing then
    if user_facing then [label ++ ".platform must name the user-facing runtime target, not org verifier vocabulary"]
    else [label ++ ".platform must name the deliverable's own target surface (for example " ++
      "git-committed specification documents, repository docs); AI Org's own verification " ++
      "mechanisms (functional_check, codex) are not a platform"]
  else []) ++
  (if build_strategy = "engine_based" ∧ (engine = "" ∨ _names_browser_standards py engine) then
    [label ++ ".build_strategy engine_based requires a real engine/framework product in engine; " ++
      "hand-rolled browser standards must use from_scratch"]
  else []) ++
  (if build_strategy = "framework_based" ∧ framework = "" then
    [label ++ ".build_strategy framework_based requires a framework product in framework"]
  else [])

def _lint_candidate_stack_requirement (candidate : Fields) (user_facing : Bool) : List String :=
  match candidate.get "stack_requirement" with
  | .obj requirement =>
    _lint_stack_requirement_consistency py requirement "candidate stack_requirement" user_facing
  | _ => ["stack_requirement is missing"]

end Stack

def PRIOR_ART_PATTERN_FIELDS : List String :=
  ["name", "source", "when_applies", "tradeoffs", "disposition", "traces_to"]

def PRIOR_ART_FACET_KINDS : List String := ["design", "implementation", "none"]

def PRIOR_ART_DISPOSITIONS : List String := ["adopt", "adapt", "reject"]

def _parse_prior_art_source (value : Json) : Option Fields := do
  let fields ← closedMapping ["reference_concept", "facet_kind", "where"] value
  let reference_concept ← stringOf (fields.get "reference_concept")
  let facet_kind ← oneOf PRIOR_ART_FACET_KINDS (fields.get "facet_kind")
  let place ← stringOf (fields.get "where")
  return [("reference_concept", .str reference_concept), ("facet_kind", .str facet_kind), ("where", .str place)]

def _parse_prior_art_tradeoffs (value : Json) : Option Fields := do
  let fields ← closedMapping ["pros", "cons"] value
  let pros ← stringsOf (fields.get "pros")
  let cons ← stringsOf (fields.get "cons")
  return [("pros", texts pros), ("cons", texts cons)]

def _parse_prior_art_disposition (value : Json) : Option Fields := do
  let fields ← closedMapping ["choice", "why"] value
  let choice ← oneOf PRIOR_ART_DISPOSITIONS (fields.get "choice")
  let why ← stringOf (fields.get "why")
  return [("choice", .str choice), ("why", .str why)]

def patternError (what : String) : String := "Codex prior-art mapping returned " ++ what

def _parse_prior_art_pattern (pattern : Json) : Except String Fields := do
  let fields ← orError (patternError "invalid pattern item") (objectOf pattern)
  require (declaringKeys fields PRIOR_ART_PATTERN_FIELDS) (patternError "invalid pattern fields")
  let replaces ← orError (patternError "invalid replacement declaration") (textOr fields "replaces")
  let replacement_reason ← orError (patternError "invalid replacement declaration") (textOr fields "replacement_reason")
  let source ← orError (patternError "invalid source") (_parse_prior_art_source (fields.get "source"))
  let tradeoffs ← orError (patternError "invalid tradeoffs") (_parse_prior_art_tradeoffs (fields.get "tradeoffs"))
  let disposition ← orError (patternError "invalid disposition") (_parse_prior_art_disposition (fields.get "disposition"))
  let traces_to ← orError (patternError "invalid traces_to") (stringsOf (fields.get "traces_to"))
  let name ← orError (patternError "invalid pattern values") (stringOf (fields.get "name"))
  let when_applies ← orError (patternError "invalid pattern values") (stringOf (fields.get "when_applies"))
  return [("name", .str name), ("source", .obj source), ("when_applies", .str when_applies),
    ("tradeoffs", .obj tradeoffs), ("disposition", .obj disposition), ("traces_to", texts traces_to)] ++
      declaration replaces replacement_reason

def SURFACED_RISK_FIELDS : List String := ["id", "risk", "mitigation", "attaches_to", "target_id"]

def RISK_ATTACHES_TO : List String := ["candidate", "decision", "implementation", "patch_plan"]

def riskError (what : String) : String := "Codex risk surfacing returned " ++ what

def surfacedRisk (item : Json) : Except String Fields := do
  let fields ← orError (riskError "invalid risk item") (objectOf item)
  require (declaringKeys fields SURFACED_RISK_FIELDS) (riskError "invalid risk fields")
  let values := riskError "invalid risk values"
  let id ← orError values (textOr fields "id")
  let risk ← orError values (textOr fields "risk")
  let mitigation ← orError values (textOr fields "mitigation")
  let attaches_to ← orError values (textOr fields "attaches_to")
  let target_id ← orError values (textOr fields "target_id")
  let replaces ← orError values (textOr fields "replaces")
  let replacement_reason ← orError values (textOr fields "replacement_reason")
  require (attaches_to ∈ RISK_ATTACHES_TO) (riskError "invalid risk attachment")
  return [("id", .str id), ("risk", .str risk), ("mitigation", .str mitigation), ("attaches_to", .str attaches_to),
    ("target_id", .str target_id)] ++ declaration replaces replacement_reason

def _parse_surface_risks (parsed : Fields) : Except String (List Fields) := do
  require (sameKeys parsed ["risks"]) (riskError "invalid fields")
  match Fields.get parsed "risks" with
  | .arr risks => risks.mapM surfacedRisk
  | _ => .error (riskError "invalid risks")

inductive ConstraintKind
  | hard | soft
  deriving DecidableEq, Repr

namespace ConstraintKind

def name : ConstraintKind → String
  | hard => "hard"
  | soft => "soft"

def field : ConstraintKind → String
  | hard => "hard_constraints"
  | soft => "soft_preferences"

def idFront : ConstraintKind → String
  | hard => "constraint:hard:"
  | soft => "constraint:soft:"

def itemFields : ConstraintKind → List String
  | hard => ["statement", "derivation", "implication"]
  | soft => ["statement", "derivation", "rationale"]

end ConstraintKind

def CONSTRAINT_DERIVATION_VALUES : List String := ["problem", "success_criteria", "non_goals", "repo", "domain"]

def _parse_constraint_derivation (value : Json) : Option Fields := do
  let fields ← closedMapping ["from", "trace"] value
  let source ← oneOf CONSTRAINT_DERIVATION_VALUES (fields.get "from")
  let trace ← stringOf (fields.get "trace")
  return [("from", .str source), ("trace", .str trace)]

def _parse_constraint_implication (value : Json) : Option Fields := do
  let fields ← closedMapping ["must", "must_not"] value
  let must ← stringOf (fields.get "must")
  let must_not ← stringOf (fields.get "must_not")
  return [("must", .str must), ("must_not", .str must_not)]

def constraintError (kind : ConstraintKind) (what : String) : String :=
  "Codex constraint extraction returned invalid " ++ kind.field ++ what

def constraintItem (kind : ConstraintKind) (item : Fields) : Except String Fields := do
  require (sameKeys item kind.itemFields) (constraintError kind " item fields")
  let derivation ← orError (constraintError kind " derivation") (_parse_constraint_derivation (item.get "derivation"))
  let statement ← orError (constraintError kind " item values") (stringOf (item.get "statement"))
  match kind with
  | .hard => do
    let implication ← orError (constraintError kind " implication") (_parse_constraint_implication (item.get "implication"))
    return [("statement", .str statement), ("derivation", .obj derivation), ("implication", .obj implication)]
  | .soft => do
    let rationale ← orError (constraintError kind " item values") (stringOf (item.get "rationale"))
    return [("statement", .str statement), ("derivation", .obj derivation), ("rationale", .str rationale)]

def _parse_constraint_items (kind : ConstraintKind) (items : List Fields) : Except String (List Fields) :=
  items.mapM (constraintItem kind)

end Approach

end AiOrg
