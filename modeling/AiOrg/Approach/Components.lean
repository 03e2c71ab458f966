import AiOrg.Approach.Tree

/-!
# The steps of a reform

A reform takes the tree of the previous root apart, runs the affected steps again on the parts and puts
the tree together from them.
-/

namespace AiOrg

namespace Approach

open Reform (childFields childItems nodeId)

inductive Step
  | problem | constraints | prior_art | candidates | decision | implementation | domain_specification
  | patch_plan | risks
  deriving DecidableEq, Repr

def reformStepOrder : List Step :=
  [.problem, .constraints, .prior_art, .candidates, .decision, .implementation, .domain_specification,
    .patch_plan, .risks]

def _step_for_tree_key (key : String) (inherited : Step) : Step :=
  match key with
  | "constraints" => .constraints
  | "prior_art" => .prior_art
  | "question" => .candidates
  | "candidates" => .candidates
  | "evaluation" => .candidates
  | "decision" => .decision
  | "implementation" => .implementation
  | "domain_specification" => .domain_specification
  | "patch_plan" => .patch_plan
  | "risks" => .risks
  | _ => inherited

mutual

def stepEntries (step : Step) : Json → List (String × Step)
  | .obj fields => ((nodeId (.obj fields)).map (·, step)).toList ++ stepEntriesFields step fields
  | .arr items => stepEntriesItems step items
  | _ => []

def stepEntriesFields (step : Step) : List (String × Json) → List (String × Step)
  | [] => []
  | (key, value) :: fields => stepEntries (_step_for_tree_key key step) value ++ stepEntriesFields step fields

def stepEntriesItems (step : Step) : List Json → List (String × Step)
  | [] => []
  | item :: items => stepEntries step item ++ stepEntriesItems step items

end

def _node_step_map (tree : Json) : List (String × Step) := dictOfEntries (stepEntries .problem tree)

def _step_for_node_id (id : String) : Step :=
  let starts := fun texts => Reform.startsWith id texts
  if id = "problem" ∨ starts ["goal:"] then .problem
  else if starts ["constraint:"] then .constraints
  else if starts ["prior_art:"] then .prior_art
  else if id = "question:approach" ∨ starts ["candidate:", "evaluation:"] then .candidates
  else if starts ["decision:"] then .decision
  else if starts ["implementation:"] then .implementation
  else if id = "domain_specification" ∨ starts ["domain_specification:"] then .domain_specification
  else if starts ["patch_plan:"] then .patch_plan
  else if starts ["risk:"] then .risks
  else .candidates

def without (fields : Fields) (keys : List String) : Fields := fields.filter fun entry => entry.1 ∉ keys

def _constraints_from_tree (value : Json) : Fields :=
  match value with
  | .obj fields => [("hard_constraints", .arr ((mappings (childItems fields "hard")).map .obj)),
      ("soft_preferences", .arr ((mappings (childItems fields "soft")).map .obj))]
  | _ => [("hard_constraints", .arr []), ("soft_preferences", .arr [])]

mutual

def _collect_risks : Json → List Fields
  | .obj fields => mappings (childItems fields "risks") ++ collectRisksFields fields
  | .arr items => collectRisksItems items
  | _ => []

def collectRisksFields : List (String × Json) → List Fields
  | [] => []
  | (key, value) :: fields => (if key = "risks" then [] else _collect_risks value) ++ collectRisksFields fields

def collectRisksItems : List Json → List Fields
  | [] => []
  | item :: items => _collect_risks item ++ collectRisksItems items

end

/-- The problem and what the other steps returned. A reform has no provided approach. -/
structure Components where
  problem : Fields
  outputs : Outputs

def _approach_components (approach : Fields) : Components :=
  let problem := childFields approach "problem"
  let question := childFields problem "question"
  let decision := childFields question "decision"
  let implementation := childFields decision "implementation"
  let candidates := mappings (childItems question "candidates")
  ⟨problem,
    { constraints := _constraints_from_tree (problem.get "constraints")
      priorArt := [("patterns", .arr ((mappings (childItems problem "prior_art")).map .obj))]
      candidates := [("candidates", .arr (candidates.map .obj))]
      evaluations := [("evaluations", .arr (candidates.filterMap fun candidate =>
        match Fields.get candidate "evaluation" with
        | .obj evaluation => some (.obj evaluation)
        | _ => none))]
      selected := without decision ["id", "implementation", "risks"]
      implementation := without implementation ["id", "domain_specification", "patch_plan", "risks"]
      domainSpecification := [("aspects",
        .arr ((mappings (childItems (childFields implementation "domain_specification") "aspects")).map
          fun aspect => .obj (without aspect ["id"])))]
      patchPlan := without (childFields implementation "patch_plan") ["id"]
      risks := [("risks", .arr ((_collect_risks (.obj problem)).map .obj))]
      provided := none }⟩

/-- `fields.setdefault(key, value)`. -/
def setDefault (fields : Fields) (key : String) (value : Json) : Fields :=
  if fields.contains key then fields else fields.set key value

section Store

variable (py : PyLib)

/-- What `_store_reform_step_result` puts in the place of the problem. -/
def problemReplacement (previous result : Fields) : Fields :=
  ((((_problem_root_from_normalized result).set "constraints"
    (previous.getD "constraints" emptyConstraints)).set "prior_art"
    (previous.getD "prior_art" (.arr []))).set "question" (previous.getD "question" emptyQuestion)).set
    "open_questions" (previous.getD "open_questions" (.arr []))

def _store_reform_step_result (components : Components) (step : Step) (result : Fields) : Components :=
  match step with
  | .problem => { components with problem := problemReplacement components.problem result }
  | .constraints => ⟨components.problem.set "constraints" (_constraint_tree_nodes result),
      { components.outputs with constraints := result }⟩
  | .prior_art => ⟨components.problem.set "prior_art" (.arr (_prior_art_tree_nodes py result)),
      { components.outputs with priorArt := result }⟩
  | .candidates => { components with outputs := { components.outputs with candidates := result } }
  | .decision => { components with outputs := { components.outputs with
      selected := childFields result "selected"
      evaluations := [("evaluations",
        .arr ((mappings (childItems (childFields result "evaluations") "evaluations")).map .obj))] } }
  | .implementation => { components with outputs := { components.outputs with implementation := result } }
  | .domain_specification => { components with outputs :=
      { components.outputs with domainSpecification := result } }
  | .patch_plan => { components with outputs := { components.outputs with patchPlan := result } }
  | .risks => { components with outputs := { components.outputs with risks := result } }

def _assemble_from_components (components : Components) : Option Fields := do
  let (problem, links) ← withNodes py components.problem components.outputs
  let problem := setDefault (setDefault problem "id" (.str "problem")) "open_questions" (.arr [])
  some [("problem", .obj problem), ("cross_links", .arr links)]

def _component_node_snapshot (components : Components) : Step → Fields
  | .problem => without components.problem ["constraints", "prior_art", "question", "open_questions"]
  | .constraints => components.outputs.constraints
  | .prior_art => components.outputs.priorArt
  | .candidates => components.outputs.candidates
  | .decision => components.outputs.selected
  | .implementation => components.outputs.implementation
  | .domain_specification => components.outputs.domainSpecification
  | .patch_plan => components.outputs.patchPlan
  | .risks => components.outputs.risks

def _changed_node_ids_for_step (components : Components) (step : Step) : Option (List String) :=
  (_assemble_from_components py components).map fun tree =>
    sorted (((_node_step_map (.obj tree)).filter (·.2 = step)).map Prod.fst)

/-- `indexed(matrix)`. -/
def indexedEvaluations (canonical : Json → String) (matrix : Fields) : List (String × String) :=
  dictOfEntries ((mappings (childItems matrix "evaluations")).filterMap fun evaluation =>
    match evaluation.get "candidate_id" with
    | .str id => some (id, canonical (.obj evaluation))
    | _ => none)

def _changed_evaluation_node_ids (canonical : Json → String) (before after : Fields) : List String :=
  let before := indexedEvaluations canonical before
  let after := indexedEvaluations canonical after
  let ids := Selection.firsts id [] (before.map Prod.fst ++ after.map Prod.fst)
  sorted ((ids.filter fun id => before.lookup id ≠ after.lookup id).map ("evaluation:" ++ ·))

end Store

end Approach

end AiOrg
