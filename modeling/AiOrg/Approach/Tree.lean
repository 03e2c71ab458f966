import AiOrg.Reform.Reconcile

/-!
# The tree of a technical approach

The tree is assembled from what the steps return. Goals, constraints and the singletons of the decision have
ids that the code makes, prior art and the aspects of the domain have slugs of their names, and candidates and
risks keep the ids of the step. Where the source would raise there is no tree.
-/

namespace AiOrg

namespace Approach

open Reform (childFields childItems)

def isSlugChar (c : Char) : Bool := ('a' ≤ c && c ≤ 'z') || ('0' ≤ c && c ≤ '9')

/-- `re.sub(r"[^a-z0-9]+", "-", text)`, where a dash was just written or not. -/
def dashes : Bool → List Char → List Char
  | _, [] => []
  | dashed, c :: text =>
    if isSlugChar c then c :: dashes false text
    else if dashed then dashes true text
    else '-' :: dashes true text

/-- `text.strip("-")`. -/
def stripDashes (text : List Char) : List Char :=
  ((text.dropWhile (· = '-')).reverse.dropWhile (· = '-')).reverse

def _slug (py : PyLib) (value : String) : String :=
  let slug := (stripDashes (dashes false (py.lower (pyStrip value)).toList)).take 80
  if slug = [] then "patch_series" else String.ofList slug

/-! ### Nodes -/

def _node_with_id (node : Fields) (id : String) : Fields := node.set "id" (.str id)

/-- The mappings in a list, with their positions from 1 on. -/
def numbered (items : List Json) : List (Fields × ℕ) :=
  (items.zipIdx 1).filterMap fun (item, index) =>
    match item with
    | .obj fields => some (fields, index)
    | _ => none

def mappings (items : List Json) : List Fields :=
  items.filterMap fun item =>
    match item with
    | .obj fields => some fields
    | _ => none

def _string_list (value : Json) : Json :=
  match value with
  | .arr items => if items.all fun item => item.kind = .str then .arr items else .arr []
  | _ => .arr []

def emptyConstraints : Json := .obj [("hard", .arr []), ("soft", .arr [])]

def emptyQuestion : Json :=
  .obj [("id", .str "question:approach"), ("candidates", .arr []), ("decision", .obj [])]

def _problem_root_from_normalized (normalized : Fields) : Fields :=
  [("id", .str "problem"), ("problem", normalized.getD "problem" (.str "")),
    ("affected", normalized.getD "affected" (.str "")),
    ("current_inadequacy", normalized.getD "current_inadequacy" (.str "")),
    ("goals", .arr ((numbered (childItems normalized "success_criteria")).map fun (goal, index) =>
      .obj (_node_with_id goal ("goal:" ++ toString index)))),
    ("non_goals", .arr (childItems normalized "non_goals")), ("constraints", emptyConstraints),
    ("prior_art", .arr []),
    ("question", .obj [("id", .str "question:approach"), ("text", .str ""), ("candidates", .arr []),
      ("decision", .obj [])]),
    ("open_questions", _string_list (normalized.get "open_questions"))]

def constraintNodes (kind : String) (items : List Json) : List Json :=
  (numbered items).map fun (item, index) =>
    .obj (_node_with_id item ("constraint:" ++ kind ++ ":" ++ toString index))

def _constraint_tree_nodes (constraints : Fields) : Json :=
  .obj [("hard", .arr (constraintNodes "hard" (childItems constraints "hard_constraints"))),
    ("soft", .arr (constraintNodes "soft" (childItems constraints "soft_preferences")))]

section Tree

variable (py : PyLib)

/-- A slug is never empty, so the position is not used. -/
def _prior_art_tree_nodes (priorArt : Fields) : List Json :=
  (mappings (childItems priorArt "patterns")).map fun pattern =>
    .obj (_node_with_id pattern ("prior_art:" ++ _slug py (py.str (pattern.get "name"))))

/-- The ids that a node of prior art stands for. -/
def linkTargets (node : Fields) : List String :=
  let named := fun (fields : Fields) key =>
    match fields.get key with
    | .str id => if pyStrip id = "" then [] else [id]
    | _ => []
  (match node.get "id" with
    | .str id => if id = "" then [] else [id]
    | _ => []) ++ named node "replaces" ++
    (mappings (childItems node "reconciled_replaces")).flatMap fun item => named item "replaced_node_id"

def _prior_art_link_targets (nodes : List Json) : List String := (mappings nodes).flatMap linkTargets

def _risks_for (attachment targetId : String) (risks : Fields) : List Fields :=
  (mappings (childItems risks "risks")).filter fun risk =>
    risk.get "attaches_to" = .str attachment && risk.get "target_id" = .str targetId

def _add_cross_link (links : List Json) (source target : Json) (type : String) : List Json :=
  let link := Json.obj [("from", source), ("to", target), ("type", .str type)]
  if link ∈ links then links else links ++ [link]

def riskLinks (links : List Json) (target : String) : List Fields → Option (List Json)
  | [] => some links
  | risk :: risks => do
    let id ← risk.lookup "id"
    riskLinks (_add_cross_link links id (.str target) "mitigates") target risks

/-- The candidate that stands for a provided approach. -/
def providedCandidate : Fields :=
  [("id", .str "provided_approach"), ("name", .str "Requester-provided Technical Approach"),
    ("kind", .str "repo_native"),
    ("summary", .str "Preserve and refine the requester-provided Technical Approach."),
    ("first_proof_moment", .obj [
      ("user_actions", .arr
        [.str "Follow the requester-provided approach through implementation planning."]),
      ("named_content", .arr [
        .obj [("name", .str "Requester-provided scope"), ("kind", .str "scope")],
        .obj [("name", .str "Requester-provided conflicts"), ("kind", .str "constraint")],
        .obj [("name", .str "Requester-provided mechanisms"), ("kind", .str "mechanism")]]),
      ("win_or_progress_condition",
        .str "The provided approach is grounded into implementation and patch-plan nodes.")]),
    ("core_systems", .arr [.str "patch series receive Technical Approach refinement"]),
    ("draws_on", .arr [.str "Requester-provided Technical Approach"])]

/-- The candidates of a step, or else the provided one. -/
def candidateItems (candidates : Fields) (provided : Option Json) : List Fields :=
  match childItems candidates "candidates", provided with
  | [], some _ => [providedCandidate]
  | items, _ => mappings items

def argumentsAbout (selected : Fields) (id : String) : List Json :=
  ((mappings (childItems selected "arguments")).filter fun argument =>
    argument.get "about_candidate_id" = .str id).map .obj

/-- The evaluation of a candidate, the last one where there are more. -/
def evaluationOf (evaluations : Fields) (id : String) : Fields :=
  ((mappings (childItems evaluations "evaluations")).reverse.find? fun evaluation =>
    evaluation.get "candidate_id" = .str id).getD [("candidate_id", .str id), ("scores", .obj [])]

/-- Links of the arguments about a candidate. -/
def argumentLinks (links : List Json) (id : String) : List Json → List Json
  | [] => links
  | argument :: arguments =>
    let role := match argument with
      | .obj fields => Fields.get fields "role"
      | _ => .null
    argumentLinks (_add_cross_link links (.str ("argument:" ++ id ++ ":" ++ toString links.length)) (.str id)
      (if role = .str "support" then "supports" else "objects_to")) id arguments

def drawLinks (targets : List String) (links : List Json) (id : String) : List Json → List Json
  | [] => links
  | .str draw :: draws =>
    let prior := "prior_art:" ++ _slug py draw
    drawLinks targets
      (if prior ∈ targets then _add_cross_link links (.str id) (.str prior) "derived_from" else links) id draws
  | _ :: draws => drawLinks targets links id draws

/-- The node of a candidate, without its links. -/
def candidateNode (evaluations selected risks : Fields) (candidate : Fields) (id : String) : Fields :=
  let evaluation := ((evaluationOf evaluations id).set "id" (.str ("evaluation:" ++ id))).set "arguments"
    (.arr (argumentsAbout selected id))
  (candidate.set "evaluation" (.obj evaluation)).set "risks"
    (.arr ((_risks_for "candidate" id risks).map .obj))

def candidateLinks (selected risks : Fields) (targets : List String) (links : List Json) (candidate : Fields)
    (id : String) : Option (List Json) :=
  let links := _add_cross_link links (.str id) (.str "question:approach") "depends_on"
  let links := _add_cross_link links (.str ("evaluation:" ++ id)) (.str id) "derived_from"
  let links := argumentLinks links id (argumentsAbout selected id)
  let links := drawLinks py targets links id (childItems candidate "draws_on")
  riskLinks links id (_risks_for "candidate" id risks)

def _candidate_tree_nodes (evaluations selected risks : Fields) (targets : List String) :
    List Json → List Fields → Option (List Json × List Json)
  | links, [] => some ([], links)
  | links, candidate :: candidates => do
    let id ← (candidate.lookup "id").map py.str
    let links ← candidateLinks py selected risks targets links candidate id
    let (nodes, links) ← _candidate_tree_nodes evaluations selected risks targets links candidates
    some (.obj (candidateNode evaluations selected risks candidate id) :: nodes, links)

def _domain_specification_tree_node (domainSpecification : Fields) : Fields :=
  [("id", .str "domain_specification"),
    ("aspects", .arr ((mappings (childItems domainSpecification "aspects")).map fun aspect =>
      if aspect.contains "id" then .obj aspect
      else .obj (aspect.set "id"
        (.str ("domain_specification:" ++ _slug py (py.strOr (aspect.get "aspect_name") ""))))))]

def patchPlanNode (patchPlan risks : Fields) (selectedId : String) : Fields :=
  let id := "patch_plan:" ++ selectedId
  (_node_with_id patchPlan id).set "risks" (.arr ((_risks_for "patch_plan" id risks).map .obj))

/-- The implementation of a decision. -/
def implementationNode (implementation domainSpecification patchPlan risks : Fields) (selectedId : String) :
    Fields :=
  let id := "implementation:" ++ selectedId
  (((implementation.set "id" (.str id)).set "domain_specification"
    (.obj (_domain_specification_tree_node py domainSpecification))).set "patch_plan"
    (.obj (patchPlanNode patchPlan risks selectedId))).set "risks"
    (.arr ((_risks_for "implementation" id risks).map .obj))

def aspectLinks (links : List Json) (implementationId : String) (domain : Fields) : List Json :=
  (mappings (childItems domain "aspects")).foldl (fun links aspect =>
    match aspect.get "id" with
    | .str id => _add_cross_link links (.str id) (.str implementationId) "derived_from"
    | _ => links) links

def rejectionLinks (links : List Json) (decisionId : String) : List Fields → Option (List Json)
  | [] => some links
  | rejection :: rejected => do
    let id ← rejection.lookup "candidate_id"
    rejectionLinks (_add_cross_link links (.str decisionId) id "objects_to") decisionId rejected

def _decision_tree_node (selected implementation domainSpecification patchPlan risks : Fields)
    (links : List Json) : Option (Fields × List Json) := do
  let selectedId ← (selected.lookup "selected_candidate_id").map py.str
  let decisionId := "decision:" ++ selectedId
  let implementationId := "implementation:" ++ selectedId
  let patchPlanId := "patch_plan:" ++ selectedId
  let rejected := mappings (childItems selected "rejected")
  let rationale := childFields selected "rationale"
  let node : Fields := [("id", .str decisionId), ("selected_candidate_id", .str selectedId),
    ("arguments", .arr ((mappings (childItems selected "arguments")).map .obj)),
    ("rationale", .obj [("because", .arr (childItems rationale "because")),
      ("under_constraints", .arr (childItems rationale "under_constraints")),
      ("accepting_tradeoffs", .arr (childItems rationale "accepting_tradeoffs"))]),
    ("stack_axes", .obj (childFields selected "stack_axes")), ("rejected", .arr (rejected.map .obj)),
    ("risks", .arr ((_risks_for "decision" decisionId risks).map .obj)),
    ("implementation", .obj (implementationNode py implementation domainSpecification patchPlan risks selectedId))]
  let links := _add_cross_link links (.str decisionId) (.str "question:approach") "derived_from"
  let links := _add_cross_link links (.str decisionId) (.str selectedId) "supports"
  let links := _add_cross_link links (.str implementationId) (.str decisionId) "implements"
  let links := aspectLinks links implementationId (_domain_specification_tree_node py domainSpecification)
  let links := _add_cross_link links (.str patchPlanId) (.str implementationId) "implements"
  let links ← rejectionLinks links decisionId rejected
  let links ← riskLinks links decisionId (_risks_for "decision" decisionId risks)
  let links ← riskLinks links implementationId (_risks_for "implementation" implementationId risks)
  let links ← riskLinks links patchPlanId (_risks_for "patch_plan" patchPlanId risks)
  some (node, links)

/-- What the steps after the problem return. -/
structure Outputs where
  constraints : Fields
  priorArt : Fields
  candidates : Fields
  evaluations : Fields
  selected : Fields
  implementation : Fields
  domainSpecification : Fields
  patchPlan : Fields
  risks : Fields
  provided : Option Json

def _question_tree (outputs : Outputs) (targets : List String) : Option (Fields × List Json) := do
  let (nodes, links) ← _candidate_tree_nodes py outputs.evaluations outputs.selected outputs.risks targets []
    (candidateItems outputs.candidates outputs.provided)
  let (decision, links) ← _decision_tree_node py outputs.selected outputs.implementation
    outputs.domainSpecification outputs.patchPlan outputs.risks links
  some ([("id", .str "question:approach"),
    ("text", .str
      "Which implementation approach best satisfies the problem under the derived constraints?"),
    ("candidates", .arr nodes), ("decision", .obj decision)], links)

def _append_unique_strings (existing additions : List Json) : List Json :=
  additions.foldl (fun texts text => if text ∈ texts then texts else texts ++ [text]) existing

def _approach_open_questions (normalized selected patchPlan : Fields) : Json :=
  .arr ([normalized, selected, patchPlan].foldl (fun questions source =>
    match _string_list (source.get "open_questions") with
    | .arr items => _append_unique_strings questions items
    | _ => questions) [])

def problemLinks (links : List Json) (nodes : List Json) (type : String) : List Json :=
  (mappings nodes).foldl (fun links node => _add_cross_link links (node.get "id") (.str "problem") type) links

def withNodes (problem : Fields) (outputs : Outputs) : Option (Fields × List Json) := do
  let constraints := _constraint_tree_nodes outputs.constraints
  let priorArt := _prior_art_tree_nodes py outputs.priorArt
  let (question, links) ← _question_tree py outputs (_prior_art_link_targets priorArt)
  some (((problem.set "constraints" constraints).set "prior_art" (.arr priorArt)).set "question" (.obj question),
    links)

def _assemble_technical_approach (normalized : Fields) (outputs : Outputs) : Option Fields := do
  let (problem, links) ← withNodes py (_problem_root_from_normalized normalized) outputs
  let problem := problem.set "open_questions"
    (_approach_open_questions normalized outputs.selected outputs.patchPlan)
  let links := _add_cross_link links (.str "question:approach") (.str "problem") "derived_from"
  let links := problemLinks links (childItems problem "goals") "satisfies"
  let constraints := childFields problem "constraints"
  let links := problemLinks links (childItems constraints "hard" ++ childItems constraints "soft") "derived_from"
  let links := problemLinks links (childItems problem "prior_art") "derived_from"
  some [("problem", .obj problem), ("cross_links", .arr links)]

end Tree

end Approach

end AiOrg
