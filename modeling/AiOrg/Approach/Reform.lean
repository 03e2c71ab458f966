import AiOrg.Approach.Components
import AiOrg.Producer.Transition
import AiOrg.Reform.Commit

/-!
# The reform of an approach

The affected steps run one after the other, each on what those before it left. Questions that are closed on
the way are retired, and the parts are put together (`_reform_technical_approach`). `reformCalls` are the
calls that `reform_patch_series` makes when its revision and its preparation are these.
-/

namespace AiOrg

namespace Approach

open Reform (childFields childItems Files Source Revision Calls)

structure StepResult where
  result : Fields
  externalFiles : Files
  deferralProposals : List Fields
  closedQuestions : List Fields
  defenses : List Fields

structure ReformState where
  components : Components
  changedNodes : List String
  normalized : Option Fields
  externalFiles : Files
  deferralProposals : List Fields
  closedQuestions : List Fields
  defenses : List Fields

structure Reformed where
  technicalApproach : Fields
  changedNodes : List String
  normalized : Option Fields
  externalFiles : Files
  deferralProposals : List Fields
  closedQuestions : List Fields
  defenses : List Fields

def Step.name : Step → String
  | .problem => "problem"
  | .constraints => "constraints"
  | .prior_art => "prior_art"
  | .candidates => "candidates"
  | .decision => "decision"
  | .implementation => "implementation"
  | .domain_specification => "domain_specification"
  | .patch_plan => "patch_plan"
  | .risks => "risks"

section Reform

variable (py : PyLib) (canonical : Json → String) (run : Step → Components → Except String StepResult)

/-- An id of the tree, or else what its form says, gives the step of an anchor. -/
def anchorSteps (stepMap : List (String × Step)) (objection : Fields) : List Step :=
  (childItems objection "anchor_node_ids").map fun anchor =>
    (stepMap.lookup (py.str anchor)).getD (_step_for_node_id (py.str anchor))

def _affected_reform_steps (approach : Fields) (objections : List Fields) : List Step :=
  let stepMap := _node_step_map (.obj approach)
  let affected := objections.flatMap fun objection =>
    anchorSteps py stepMap objection ++
      (if py.str (objection.get "axis") = "need" then [.problem] else [])
  reformStepOrder.filter (· ∈ affected)

def startReform (approach : Fields) : ReformState :=
  ⟨_approach_components approach, [], none, [], [], [], []⟩

def changedNodes (before after : Components) (step : Step) : Except String (List String) :=
  let evaluations := if step = .decision then
    _changed_evaluation_node_ids canonical before.outputs.evaluations after.outputs.evaluations else []
  if canonical (.obj (_component_node_snapshot after step)) =
      canonical (.obj (_component_node_snapshot before step)) then .ok evaluations
  else match _changed_node_ids_for_step py after step with
    | some ids => .ok (evaluations ++ ids)
    | none => .error "KeyError"

/-- One pass of the loop over the affected steps. -/
def reformStep (state : ReformState) (step : Step) : Except String ReformState := do
  let ran ← run step state.components
  let components := _store_reform_step_result py state.components step ran.result
  let changed ← changedNodes py canonical state.components components step
  .ok { components := components
        changedNodes := state.changedNodes ++ changed
        normalized := if step = .problem then some ran.result else state.normalized
        externalFiles := Reform.update state.externalFiles ran.externalFiles
        deferralProposals := state.deferralProposals ++ ran.deferralProposals
        closedQuestions := state.closedQuestions ++ ran.closedQuestions
        defenses := state.defenses ++ ran.defenses }

/-- The open questions that were not closed. -/
def retire (closed : List Fields) (problem : Fields) : Fields :=
  if closed.isEmpty then problem
  else problem.set "open_questions" (.arr ((childItems problem "open_questions").filter fun question =>
    question ∉ closed.map fun closure => Fields.get closure "question"))

def _reform_technical_approach (approach : Fields) (affected : List Step) : Except String Reformed :=
  if affected.isEmpty then .ok ⟨approach, [], none, [], [], [], []⟩
  else do
    let state ← affected.foldlM (reformStep py canonical run) (startReform approach)
    let components := ⟨retire state.closedQuestions state.components.problem, state.components.outputs⟩
    let changed := if state.closedQuestions.isEmpty then state.changedNodes
      else state.changedNodes ++ ["problem"]
    match _assemble_from_components py components with
    | some tree => .ok ⟨tree, Selection.firsts id [] changed, state.normalized, state.externalFiles,
        state.deferralProposals, state.closedQuestions, state.defenses⟩
    | none => .error "KeyError"

/-- The objections that are the author's to answer. -/
def authorBlocking (source : Source) : List Fields :=
  source.openBlocking.filter fun objection => objection.get "resolution_authority" ≠ .str "requester"

/-- The revision of a root. `ground` gives the view of the patch series, grounded again where it has to be. -/
def reviseApproach (ground : Source → Fields → Except String Fields) (source : Source) (view previous : Fields) :
    Except String Revision := do
  let affected := _affected_reform_steps py previous (authorBlocking source)
  let patchSeries ← ground source view
  let reformed ← _reform_technical_approach py canonical run previous affected
  .ok { patchSeries := patchSeries
        technicalApproach := reformed.technicalApproach
        affectedSteps := affected.map Step.name
        changedNodes := reformed.changedNodes
        externalFiles := reformed.externalFiles
        deferralProposals := reformed.deferralProposals
        closedQuestions := reformed.closedQuestions
        defenses := reformed.defenses }

/-- What a reform is run with: the source, what its steps and its preparation reply, and its other calls. -/
structure ReformRun where
  source : Source
  ground : Source → Fields → Except String Fields
  runStep : Step → Components → Except String StepResult
  carrierOf : Fields → List String → Option Fields → Except Producer.Raised Fields
  others : Calls

/-- The steps that a run regenerates of a root. -/
def ReformRun.steps (reform : ReformRun) (previous : Fields) : List Step :=
  _affected_reform_steps py previous (authorBlocking reform.source)

/-- The parts that the steps of a run leave. -/
def ReformRun.left (reform : ReformRun) (previous : Fields) : Option Components :=
  match (reform.steps py previous).foldlM (reformStep py canonical reform.runStep) (startReform previous) with
  | .ok state => some state.components
  | .error _ => none

def ReformRun.normalized (reform : ReformRun) (previous : Fields) : Option Fields :=
  match _reform_technical_approach py canonical reform.runStep previous (reform.steps py previous) with
  | .ok reformed => reformed.normalized
  | .error _ => none

def ReformRun.calls (nfc : List Char → List Char) (text : Producer.Raised → String) (reform : ReformRun) :
    Calls :=
  { reform.others with
    revise := reviseApproach py canonical reform.runStep reform.ground
    prepare := fun candidate previous => (Producer.prepareTransition py nfc reform.carrierOf candidate
      (reform.normalized py canonical previous) previous).mapError text }

end Reform

end Approach

end AiOrg
