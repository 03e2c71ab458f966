import AiOrg.Approach.Reform
import AiOrg.Proofs.Handoff
import AiOrg.Proofs.ProducerCarrier

/-!
# The assignments along a chain of reforms

The preparation assigns the obligations to the items that the root already assigns, and only where there are
none to those of its plan. A reform that runs the problem again starts from a problem without assignments; any
other keeps the items of the previous root, whatever plan it puts beside them (`assignments_follow_iff`).
-/

namespace AiOrg

open List

namespace Approach

open Checks Producer
open Reform (childFields childItems)

variable {py : PyLib} {nfc : List Char → List Char} {carrier candidate root problem plan : Fields}
  {previous : Option Fields} {ids : List String}

def executableIds (py : PyLib) (plan : Fields) : Option (List String) :=
  match plannedItemIds py plan "" with
  | .ok ids => some ids
  | .error _ => none

def assignedIds (py : PyLib) (root : Fields) : Option (List String) :=
  directItemIds py (childFields root "problem")

def planIds (py : PyLib) (root : Fields) : Option (List String) :=
  match legacyPlan (childFields root "problem") with
  | .obj plan => executableIds py plan
  | _ => none

/-- The obligations of a root are assigned to the items of its own plan, in order. -/
def AssignmentsFollow (py : PyLib) (root : Fields) : Prop :=
  ∃ ids, assignedIds py root = some ids ∧ planIds py root = some ids

theorem plannedItemIds_eq_ok_iff {pointer : String} :
    plannedItemIds py plan pointer = .ok ids ↔ executableIds py plan = some ids := by
  have hsame : ∀ pointer pointer', plannedItemIds py plan pointer = .ok ids →
      plannedItemIds py plan pointer' = .ok ids := by
    intro pointer pointer' h
    unfold plannedItemIds at h ⊢
    split at h
    · obtain ⟨hids, h⟩ := require_bind_eq_ok_iff.1 h
      exact require_bind_eq_ok_iff.2 ⟨hids, h⟩
    · obtain ⟨planId, hplanId, h⟩ := bind_eq_ok_iff.1 h
      refine bind_eq_ok_iff.2 ⟨planId, nonempty_string_eq_ok_iff.2 (nonempty_string_eq_ok_iff.1 hplanId), ?_⟩
      split at h
      · exact h
      · cases h
  have hexecutable : executableIds py plan = some ids ↔ plannedItemIds py plan "" = .ok ids := by
    unfold executableIds
    split <;> simp_all
  rw [hexecutable]
  exact ⟨hsame pointer "", hsame "" pointer⟩

/-! ### The preparation -/

theorem childFields_eq {key : String} (h : root.get key = .obj problem) : childFields root key = problem := by
  rw [childFields, h]

theorem producer_problem_of_get (h : root.get "problem" = .obj problem) :
    _producer_problem root = .ok (problem, "/problem") := by
  rw [_producer_problem, h]

theorem canonical_item_ids (hproblem : root.get "problem" = .obj problem)
    (h : _canonical_patch_plan_item_ids py root = .ok ids) :
    assignedIds py root = some ids ∨ assignedIds py root = none ∧ planIds py root = some ids := by
  obtain ⟨⟨problem', pointer⟩, hproblem', h⟩ := bind_eq_ok_iff.1 h
  rw [producer_problem_of_get hproblem] at hproblem'
  obtain ⟨rfl, rfl⟩ := Prod.mk.inj (Except.ok.inj hproblem')
  dsimp only at h
  rw [assignedIds, planIds, childFields_eq hproblem]
  split at h
  · rename_i direct hdirect
    rw [hdirect, Except.ok.inj h]
    exact .inl rfl
  · rename_i hdirect
    refine .inr ⟨hdirect, ?_⟩
    suffices hplanned : ∃ plan, legacyPlan problem = .obj plan ∧ executableIds py plan = some ids by
      obtain ⟨plan, hplan, hids⟩ := hplanned
      rw [hplan]
      exact hids
    split at h
    · rename_i plan hplan
      exact ⟨plan, hplan, plannedItemIds_eq_ok_iff.1 h⟩
    · cases h

theorem rebuildAssignments_ok {values assignments : List Json} {rewritten : List (String × String)}
    (h : rebuildAssignments py values ids rewritten = .ok assignments) :
    Forall₂ (fun assignment id => ∃ fields, assignment = .obj fields ∧
      py.str (Fields.get fields "item_id") = id) assignments ids := by
  obtain ⟨hids, hcollect⟩ := require_bind_eq_ok_iff.1 h
  have hread : ∀ seen index value assignment, rewriteAssignment py rewritten seen index value = .ok assignment →
      ∃ fields list, value = .obj fields ∧
        assignment = .obj (Fields.set fields "production_obligation_ids" list) := by
    intro seen index value assignment h
    cases value with
    | obj fields =>
      unfold rewriteAssignment at h
      dsimp only at h
      split at h
      · exact ⟨fields, _, rfl, (Except.ok.inj h).symm⟩
      · cases h
    | _ => cases h
  have hall := collect_ok hread hcollect
  rw [← hids]
  clear hids h hread hcollect
  induction hall with
  | nil => exact .nil
  | cons hvalue _ ih =>
    obtain ⟨fields, list, rfl, rfl⟩ := hvalue
    refine .cons ⟨_, rfl, ?_⟩ ih
    rw [Fields.get_set_of_ne _ _ (by decide)]

def overlayKeys : List String :=
  ["goals", "deliverable_requirements", "production_obligations", "patch_plan"]

theorem item_ids_of_reads {assignments : List Json} {items : List Assignment}
    (hitems : Forall₂ ReadsAssignment assignments items)
    (hids : Forall₂ (fun assignment id => ∃ fields, assignment = .obj fields ∧
      py.str (Fields.get fields "item_id") = id) assignments ids) : items.map (·.itemId) = ids := by
  induction hitems generalizing ids with
  | nil =>
    cases hids
    rfl
  | cons hitem _ ih =>
    cases hids with
    | cons hid hids =>
      obtain ⟨fields, rfl, -, hitemId, -⟩ := hitem
      obtain ⟨fields', heq, rfl⟩ := hid
      obtain rfl := Json.obj.inj heq
      rw [map_cons, ih hids, hitemId, PyLib.str_str]

theorem get_normalizedProblem {parts : Parts} {requirements : List Requirement} {obligations : List Obligation}
    {key : String} (hrequirements : key ≠ "deliverable_requirements")
    (hobligations : key ≠ "production_obligations") :
    (normalizedProblem parts requirements obligations).get key = parts.problem.get key := by
  rw [Fields.get, lookup_normalizedProblem hrequirements hobligations, Fields.get]

theorem prepared_root (hproblem : candidate.get "problem" = .obj problem)
    (h : _prepare_producer_aware_root py nfc carrier candidate previous = .ok root) :
    ∃ (ids : List String) (problem' : Fields), _canonical_patch_plan_item_ids py candidate = .ok ids ∧
      root.get "problem" = .obj problem' ∧ directItemIds py problem' = some ids ∧
      ∀ key, key ∉ overlayKeys → problem'.get key = problem.get key := by
  obtain ⟨ids, hids, h⟩ := bind_eq_ok_iff.1 h
  obtain ⟨-, h⟩ := raise_preview_fields_bind_eq_ok_iff.1 h
  obtain ⟨rebuilt, hrebuilt, h⟩ := bind_eq_ok_iff.1 h
  obtain ⟨R⟩ := reconstruct_ok hrebuilt
  obtain ⟨-, h⟩ := raise_preview_fields_bind_eq_ok_iff.1 h
  obtain ⟨overlay, hoverlay, h⟩ := bind_eq_ok_iff.1 h
  obtain ⟨⟨problem', pointer⟩, hproblem', h⟩ := bind_eq_ok_iff.1 h
  rw [producer_problem_of_get hproblem] at hproblem'
  obtain ⟨rfl, rfl⟩ := Prod.mk.inj (Except.ok.inj hproblem')
  obtain ⟨⟨goalValues, expandedGoals, obligationValues, expandedObligations, -, -, -, -, rfl⟩⟩ :=
    expand_ok hoverlay
  rw [R.getRequirements, R.getAssignments] at h
  obtain ⟨merged, parts, prev, goals, requirements, obligations, heq, hparts, -, haccepted, rfl⟩ :=
    validate_eq_ok_iff.1 h
  obtain rfl := Json.obj.inj heq
  rw [readParts_merged (producer_problem_of_get hproblem)] at hparts
  obtain rfl := Except.ok.inj hparts
  obtain ⟨items, hitems, -⟩ := haccepted.partition
  obtain ⟨values, hassigned⟩ := R.assigned
  refine ⟨ids, _, hids, Fields.get_set_self _ _ _, ?_, fun key hkey => ?_⟩
  · have hitemIds := item_ids_of_reads hitems (rebuildAssignments_ok hassigned)
    refine (directItemIds_eq_some ?_ hitems).trans (congrArg some hitemIds)
    refine (get_normalizedProblem (by decide) (by decide)).trans ?_
    rw [Fields.get, lookup_merged, if_pos rfl, Option.getD_some]
  · simp only [overlayKeys, mem_cons, not_mem_nil, or_false, not_or] at hkey
    obtain ⟨hgoals, hrequirements, hobligations, hplan⟩ := hkey
    refine (get_normalizedProblem hrequirements hobligations).trans ?_
    rw [Fields.get, lookup_merged, if_neg hplan, if_neg hobligations, if_neg hrequirements, if_neg hgoals,
      Fields.get]

theorem prepared_of_transition
    {carrierOf : Fields → List String → Option Fields → Except Raised Fields} {normalized : Option Fields}
    {before : Fields} (h : prepareTransition py nfc carrierOf candidate normalized before = .ok root) :
    ∃ carrier previous, _prepare_producer_aware_root py nfc carrier candidate previous = .ok root := by
  obtain ⟨transition, -, h⟩ := bind_eq_ok_iff.1 h
  have hroot : ∃ previous, prepareRoot py nfc carrierOf candidate previous = .ok root := by
    cases transition with
    | formation =>
      obtain ⟨-, -, h⟩ := bind_eq_ok_iff.1 h
      exact ⟨none, h⟩
    | reform =>
      obtain ⟨-, -, h⟩ := bind_eq_ok_iff.1 h
      obtain ⟨validated, -, h⟩ := bind_eq_ok_iff.1 h
      exact ⟨some validated, h⟩
  obtain ⟨previous, hroot⟩ := hroot
  obtain ⟨itemIds, -, hroot⟩ := bind_eq_ok_iff.1 hroot
  obtain ⟨carrier, -, hroot⟩ := bind_eq_ok_iff.1 hroot
  exact ⟨carrier, previous, hroot⟩

/-- The ids of the items of the plan that the steps leave. -/
def outputIds (py : PyLib) (outputs : Outputs) : Option (List String) := do
  let selectedId ← (outputs.selected.lookup "selected_candidate_id").map py.str
  executableIds py (patchPlanNode outputs.patchPlan outputs.risks selectedId)

theorem withNodes_ok {outputs : Outputs} {links : List Json} {problem' : Fields}
    (h : withNodes py problem outputs = some (problem', links)) :
    (∀ key, key ∉ ["constraints", "prior_art", "question"] → problem'.get key = problem.get key) ∧
      ∃ selectedId, (outputs.selected.lookup "selected_candidate_id").map py.str = some selectedId ∧
        legacyPlan problem' = .obj (patchPlanNode outputs.patchPlan outputs.risks selectedId) := by
  obtain ⟨⟨question, links'⟩, hquestion, h⟩ := Option.bind_eq_some_iff.1 h
  obtain ⟨rfl, -⟩ := Prod.mk.inj (Option.some.inj h)
  constructor
  · intro key hkey
    simp only [mem_cons, not_mem_nil, or_false, not_or] at hkey
    rw [Fields.get_set_of_ne _ _ hkey.2.2, Fields.get_set_of_ne _ _ hkey.2.1, Fields.get_set_of_ne _ _ hkey.1]
  · obtain ⟨⟨nodes, links₁⟩, -, hquestion⟩ := Option.bind_eq_some_iff.1 hquestion
    obtain ⟨⟨decision, links₂⟩, hdecision, hquestion⟩ := Option.bind_eq_some_iff.1 hquestion
    obtain ⟨rfl, -⟩ := Prod.mk.inj (Option.some.inj hquestion)
    obtain ⟨selectedId, hselected, hdecision⟩ := Option.bind_eq_some_iff.1 hdecision
    refine ⟨selectedId, hselected, ?_⟩
    obtain ⟨links₃, -, hdecision⟩ := Option.bind_eq_some_iff.1 hdecision
    obtain ⟨links₄, -, hdecision⟩ := Option.bind_eq_some_iff.1 hdecision
    obtain ⟨links₅, -, hdecision⟩ := Option.bind_eq_some_iff.1 hdecision
    obtain ⟨links₆, -, hdecision⟩ := Option.bind_eq_some_iff.1 hdecision
    obtain ⟨rfl, -⟩ := Prod.mk.inj (Option.some.inj hdecision)
    have himplementation : (implementationNode py outputs.implementation outputs.domainSpecification
        outputs.patchPlan outputs.risks selectedId).get "patch_plan" =
          .obj (patchPlanNode outputs.patchPlan outputs.risks selectedId) := by
      rw [implementationNode, Fields.get_set_of_ne _ _ (by decide), Fields.get_set_self]
    rw [legacyPlan, Fields.get_set_self]
    exact himplementation

/-- A tree with a problem, what the problem assigns to, and the plan of the outputs that it has. -/
structure Assembled (py : PyLib) (tree : Fields) (assignments : Json) (outputs : Outputs) : Prop where
  problem : ∃ problem : Fields, tree.get "problem" = .obj problem ∧ problem.get "patch_plan" = assignments
  plan : planIds py tree = outputIds py outputs

theorem Assembled.of_withNodes {tree : Fields} {outputs : Outputs} {links : List Json} {problem' built : Fields}
    (h : withNodes py problem outputs = some (problem', links)) (htree : tree.get "problem" = .obj built)
    (hplan : built.get "patch_plan" = problem'.get "patch_plan")
    (hquestion : built.get "question" = problem'.get "question") :
    Assembled py tree (problem.get "patch_plan") outputs := by
  obtain ⟨hother, selectedId, hselected, hlegacy⟩ := withNodes_ok h
  refine ⟨⟨built, htree, hplan.trans (hother _ (by decide))⟩, ?_⟩
  have hsame : legacyPlan built = legacyPlan problem' := by rw [legacyPlan, legacyPlan, hquestion]
  rw [planIds, childFields_eq htree, hsame, hlegacy, outputIds, hselected]
  rfl

theorem get_setDefault {fields : Fields} {key other : String} {value : Json} (hkey : other ≠ key) :
    (setDefault fields key value).get other = fields.get other := by
  unfold setDefault
  split
  · rfl
  · exact Fields.get_set_of_ne _ _ hkey

theorem assembled_of_components {components : Components} {tree : Fields}
    (h : _assemble_from_components py components = some tree) :
    Assembled py tree (components.problem.get "patch_plan") components.outputs := by
  obtain ⟨⟨problem', links⟩, hnodes, h⟩ := Option.bind_eq_some_iff.1 h
  obtain rfl := Option.some.inj h
  refine .of_withNodes hnodes rfl ?_ ?_
  · rw [get_setDefault (by decide), get_setDefault (by decide)]
  · rw [get_setDefault (by decide), get_setDefault (by decide)]

theorem assembled_of_formation {normalized tree : Fields} {outputs : Outputs}
    (h : _assemble_technical_approach py normalized outputs = some tree) :
    Assembled py tree .null outputs := by
  obtain ⟨⟨problem', links⟩, hnodes, h⟩ := Option.bind_eq_some_iff.1 h
  obtain rfl := Option.some.inj h
  refine .of_withNodes hnodes rfl ?_ ?_
  · rw [Fields.get_set_of_ne _ _ (by decide)]
  · rw [Fields.get_set_of_ne _ _ (by decide)]

theorem get_remapped (py : PyLib) (before : Json) (tree : Fields) :
    (Reform._remap_root_reference_ids py before tree).get "problem" = tree.get "problem" := by
  unfold Reform._remap_root_reference_ids
  split
  · dsimp only
    split_ifs
    · rfl
    · exact Fields.get_set_of_ne _ _ (by decide)
  · rfl

theorem patch_plan_stored (components : Components) (step : Step) (result : Fields) :
    (_store_reform_step_result py components step result).problem.get "patch_plan" =
      if step = .problem then .null else components.problem.get "patch_plan" := by
  cases step with
  | problem =>
    rw [if_pos rfl]
    show (problemReplacement components.problem result).get "patch_plan" = _
    rw [problemReplacement, Fields.get_set_of_ne _ _ (by decide), Fields.get_set_of_ne _ _ (by decide),
      Fields.get_set_of_ne _ _ (by decide), Fields.get_set_of_ne _ _ (by decide)]
    rfl
  | constraints => exact Fields.get_set_of_ne _ _ (by decide)
  | prior_art => exact Fields.get_set_of_ne _ _ (by decide)
  | _ => rfl

variable {canonical : Json → String} {runStep : Step → Components → Except String StepResult}

theorem reformStep_ok {state next : ReformState} {step : Step}
    (h : reformStep py canonical runStep state step = .ok next) :
    ∃ ran, runStep step state.components = .ok ran ∧
      next.components = _store_reform_step_result py state.components step ran.result ∧
      next.closedQuestions = state.closedQuestions ++ ran.closedQuestions ∧
      next.externalFiles = Reform.update state.externalFiles ran.externalFiles := by
  obtain ⟨ran, hran, h⟩ := bind_eq_ok_iff.1 h
  obtain ⟨changed, -, h⟩ := bind_eq_ok_iff.1 h
  obtain rfl := Except.ok.inj h
  exact ⟨ran, hran, rfl, rfl, rfl⟩

theorem patch_plan_left {steps : List Step} {state last : ReformState}
    (h : steps.foldlM (reformStep py canonical runStep) state = .ok last) :
    last.components.problem.get "patch_plan" =
      if .problem ∈ steps then .null else state.components.problem.get "patch_plan" := by
  induction steps generalizing state with
  | nil =>
    obtain rfl := Except.ok.inj h
    rfl
  | cons step steps ih =>
    rw [foldlM_cons] at h
    obtain ⟨next, hnext, h⟩ := bind_eq_ok_iff.1 h
    obtain ⟨ran, -, hcomponents, -⟩ := reformStep_ok hnext
    rw [ih h, hcomponents, patch_plan_stored]
    by_cases hrest : Step.problem ∈ steps
    · rw [if_pos hrest, if_pos (mem_cons_of_mem _ hrest)]
    · by_cases hstep : step = .problem
      · rw [if_neg hrest, if_pos hstep, if_pos (by rw [hstep]; exact mem_cons_self)]
      · rw [if_neg hrest, if_neg hstep, if_neg]
        rw [mem_cons, not_or]
        exact ⟨Ne.symm hstep, hrest⟩

theorem get_retire {closed : List Fields} {key : String} (hkey : key ≠ "open_questions") :
    (retire closed problem).get key = problem.get key := by
  unfold retire
  split
  · rfl
  · exact Fields.get_set_of_ne _ _ hkey

theorem reformed_cases {approach : Fields} {steps : List Step} {reformed : Reformed}
    (h : _reform_technical_approach py canonical runStep approach steps = .ok reformed) :
    steps = [] ∧ reformed.technicalApproach = approach ∧ reformed.closedQuestions = [] ∧
      reformed.externalFiles = [] ∨
    steps ≠ [] ∧ ∃ state, steps.foldlM (reformStep py canonical runStep) (startReform approach) = .ok state ∧
      _assemble_from_components py
        ⟨retire state.closedQuestions state.components.problem, state.components.outputs⟩ =
          some reformed.technicalApproach ∧
      reformed.closedQuestions = state.closedQuestions ∧ reformed.externalFiles = state.externalFiles := by
  unfold _reform_technical_approach at h
  split_ifs at h with hsteps
  · obtain rfl := Except.ok.inj h
    exact .inl ⟨List.isEmpty_iff.1 hsteps, rfl, rfl, rfl⟩
  · obtain ⟨state, hstate, h⟩ := bind_eq_ok_iff.1 h
    dsimp only at h
    split at h
    · rename_i tree htree
      obtain rfl := Except.ok.inj h
      exact .inr ⟨fun hnil => hsteps (List.isEmpty_iff.2 hnil), state, hstate, htree, rfl, rfl⟩
    · cases h

variable {text : Raised → String} {preflight : Reform.Preflight} {reform : ReformRun} {before : Fields}
  {committed : Reform.Committed}

structure Publishes (py : PyLib) (nfc : List Char → List Char) (canonical : Json → String)
    (text : Raised → String) (preflight : Reform.Preflight) (reform : ReformRun) (before root : Fields) :
    Prop where
  source : reform.source.technicalApproach = .obj before
  run : ∃ committed, Reform.reform_patch_series py canonical preflight
    (reform.calls py canonical nfc text) reform.source = .ok committed ∧ committed.root = some (.obj root)

theorem Publishes.prepared (h : Publishes py nfc canonical text preflight reform before root) :
    ∃ reformed carrier previous, _reform_technical_approach py canonical reform.runStep before
        (reform.steps py before) = .ok reformed ∧
      _prepare_producer_aware_root py nfc carrier
        (Reform._remap_root_reference_ids py (.obj before) reformed.technicalApproach) previous = .ok root := by
  obtain ⟨committed, hrun, hroot⟩ := h.run
  obtain ⟨view, before', reviewRound, revision, normalized, hview, hbefore, -, hrevise, hprepare, -⟩ :=
    Reform.reform_inv hrun
  obtain rfl := Json.obj.inj (h.source.symm.trans hbefore)
  obtain ⟨-, hcommitted, -⟩ := Reform.reform_ok hview hbefore hrevise hprepare hrun
  obtain rfl := Json.obj.inj (Option.eq_some_unique hroot hcommitted)
  obtain ⟨patchSeries, -, hrevise⟩ := bind_eq_ok_iff.1 hrevise
  obtain ⟨reformed, hreformed, hrevise⟩ := bind_eq_ok_iff.1 hrevise
  obtain rfl := Except.ok.inj hrevise
  have htransition : ∃ normalized', prepareTransition py nfc reform.carrierOf
      (Reform._remap_root_reference_ids py (.obj before) reformed.technicalApproach) normalized' before =
        .ok root := by
    refine ⟨reform.normalized py canonical before, ?_⟩
    have hresult := hprepare
    simp only [ReformRun.calls] at hresult
    revert hresult
    generalize prepareTransition py nfc reform.carrierOf _ _ before = result
    intro hresult
    cases result with
    | error => cases hresult
    | ok value => exact congrArg Except.ok (Except.ok.inj hresult)
  obtain ⟨normalized', htransition⟩ := htransition
  obtain ⟨carrier, previous, hprepared⟩ := prepared_of_transition htransition
  exact ⟨reformed, carrier, previous, hreformed, hprepared⟩

theorem prepared_follows_iff (hproblem : candidate.get "problem" = .obj problem)
    (h : _prepare_producer_aware_root py nfc carrier candidate previous = .ok root) :
    (∃ problem', root.get "problem" = .obj problem') ∧
      (AssignmentsFollow py root ↔
        ∀ ids, assignedIds py candidate = some ids → planIds py candidate = some ids) := by
  obtain ⟨ids, problem', hids, hroot, hdirect, hother⟩ := prepared_root hproblem h
  have hassigned : assignedIds py root = some ids := by rw [assignedIds, childFields_eq hroot, hdirect]
  have hplan : planIds py root = planIds py candidate := by
    rw [planIds, planIds, childFields_eq hroot, childFields_eq hproblem, legacyPlan, legacyPlan,
      hother _ (by decide)]
  refine ⟨⟨problem', hroot⟩, ?_⟩
  have hfollows : AssignmentsFollow py root ↔ planIds py candidate = some ids := by
    rw [AssignmentsFollow, hassigned, hplan]
    constructor
    · rintro ⟨found, hfound, hplan⟩
      rw [hplan, hfound]
    · intro hplan
      exact ⟨ids, rfl, hplan⟩
  rw [hfollows]
  rcases canonical_item_ids hproblem hids with hcandidate | ⟨hcandidate, hcandidatePlan⟩
  · rw [hcandidate]
    constructor
    · rintro hplan found hfound
      rw [hplan, hfound]
    · exact fun hall => hall ids rfl
  · rw [hcandidate, hcandidatePlan]
    simp

theorem assignedIds_congr {other problem' : Fields} (hproblem : root.get "problem" = .obj problem)
    (hother : other.get "problem" = .obj problem')
    (h : problem.get "patch_plan" = problem'.get "patch_plan") : assignedIds py root = assignedIds py other := by
  rw [assignedIds, assignedIds, childFields_eq hproblem, childFields_eq hother, directItemIds, directItemIds, h]

/-- A reform keeps the items of the previous root: it runs no step or the problem again, there are no
assignments to keep, or the plan that its steps leave has the items of the previous plan. -/
def KeepsItems (py : PyLib) (canonical : Json → String) (reform : ReformRun) (before : Fields) : Prop :=
  reform.steps py before = [] ∨ .problem ∈ reform.steps py before ∨ assignedIds py before = none ∨
    ∃ left, reform.left py canonical before = some left ∧ outputIds py left.outputs = planIds py before

theorem Publishes.follows_iff (h : Publishes py nfc canonical text preflight reform before root)
    (hproblem : before.get "problem" = .obj problem)
    (hbefore : AssignmentsFollow py before ∨ assignedIds py before = none) :
    (∃ problem', root.get "problem" = .obj problem') ∧
      (AssignmentsFollow py root ↔ KeepsItems py canonical reform before) := by
  obtain ⟨reformed, carrier, previous, hreformed, hprepared⟩ := h.prepared
  have hsound : ∀ ids, assignedIds py before = some ids → planIds py before = some ids := by
    intro ids hids
    rcases hbefore with ⟨found, hfound, hplan⟩ | hnone
    · rw [hplan, ← hfound, hids]
    · rw [hnone] at hids
      cases hids
  rcases reformed_cases hreformed with ⟨hsteps, htree, -⟩ | ⟨hsteps, state, hstate, htree, -⟩
  · rw [htree] at hprepared
    have hcandidate := (get_remapped py (.obj before) before).trans hproblem
    obtain ⟨hroot, hfollows⟩ := prepared_follows_iff hcandidate hprepared
    have hplan : planIds py (Reform._remap_root_reference_ids py (.obj before) before) = planIds py before := by
      rw [planIds, planIds, childFields_eq hcandidate, childFields_eq hproblem]
    rw [assignedIds_congr hcandidate hproblem rfl, hplan] at hfollows
    exact ⟨hroot, hfollows.trans ⟨fun _ => .inl hsteps, fun _ => hsound⟩⟩
  · obtain ⟨⟨problem', hproblem', hplanned⟩, houtputs⟩ := assembled_of_components htree
    have hcandidate := (get_remapped py (.obj before) reformed.technicalApproach).trans hproblem'
    obtain ⟨hroot, hfollows⟩ := prepared_follows_iff hcandidate hprepared
    refine ⟨hroot, hfollows.trans ?_⟩
    have hplan : planIds py (Reform._remap_root_reference_ids py (.obj before) reformed.technicalApproach) =
        outputIds py state.components.outputs := by
      rw [← houtputs, planIds, planIds, childFields_eq hcandidate, childFields_eq hproblem']
    have hstart : (startReform before).components.problem = problem := childFields_eq hproblem
    rw [get_retire (by decide), patch_plan_left hstate, hstart] at hplanned
    rw [hplan]
    by_cases hrun : Step.problem ∈ reform.steps py before
    · rw [if_pos hrun] at hplanned
      have hnone : assignedIds py (Reform._remap_root_reference_ids py (.obj before)
          reformed.technicalApproach) = none := by
        rw [assignedIds, childFields_eq hcandidate, directItemIds, hplanned]
      rw [hnone]
      exact ⟨fun _ => .inr (.inl hrun), fun _ _ hids => by cases hids⟩
    · rw [if_neg hrun] at hplanned
      rw [assignedIds_congr hcandidate hproblem hplanned]
      have hleft : reform.left py canonical before = some state.components := by
        rw [ReformRun.left, hstate]
      rcases hbefore with ⟨ids, hids, hbeforePlan⟩ | hnone
      · rw [hids]
        constructor
        · intro hall
          exact .inr (.inr (.inr ⟨_, hleft, (hall ids rfl).trans hbeforePlan.symm⟩))
        · rintro (hnil | hmem | hnone | ⟨left, hsame, hkept⟩) found hfound
          · exact absurd hnil hsteps
          · exact absurd hmem hrun
          · rw [hids] at hnone
            cases hnone
          · obtain rfl := Option.eq_some_unique hleft hsame
            rw [hkept, hbeforePlan, hfound]
      · rw [hnone]
        exact ⟨fun _ => .inr (.inr (.inl hnone)), fun _ _ hids => by cases hids⟩

def Formed (py : PyLib) (nfc : List Char → List Char) (root : Fields) : Prop :=
  ∃ normalized outputs tree carrierOf source,
    _assemble_technical_approach py normalized outputs = some tree ∧
    prepare_producer_aware_formation py nfc carrierOf tree source = .ok root

/-- Roots up to the last one, each published by a reform of the one before. The first one is formed, or is an
older one, whose obligations are not assigned yet. -/
structure ReformChain (py : PyLib) (nfc : List Char → List Char) (canonical : Json → String)
    (text : Raised → String) (preflight : Reform.Preflight) (roots : ℕ → Fields) (reforms : ℕ → ReformRun)
    (last : ℕ) : Prop where
  first : Formed py nfc (roots 0) ∨
    assignedIds py (roots 0) = none ∧ ∃ problem, (roots 0).get "problem" = .obj problem
  next : ∀ i < last, Publishes py nfc canonical text preflight (reforms i) (roots i) (roots (i + 1))

theorem Formed.follows (h : Formed py nfc root) :
    (∃ problem, root.get "problem" = .obj problem) ∧ AssignmentsFollow py root := by
  obtain ⟨normalized, outputs, tree, carrierOf, source, htree, h⟩ := h
  obtain ⟨⟨problem, hproblem, hnull⟩, -⟩ := assembled_of_formation htree
  obtain ⟨-, -, h⟩ := bind_eq_ok_iff.1 h
  obtain ⟨itemIds, -, h⟩ := bind_eq_ok_iff.1 h
  obtain ⟨carrier, -, h⟩ := bind_eq_ok_iff.1 h
  obtain ⟨hroot, hfollows⟩ := prepared_follows_iff hproblem h
  refine ⟨hroot, hfollows.2 fun ids hids => ?_⟩
  rw [assignedIds, childFields_eq hproblem, directItemIds, hnull] at hids
  cases hids

variable {roots : ℕ → Fields} {reforms : ℕ → ReformRun} {last : ℕ}

/-- In a chain of reforms the assignments of every root follow its plan exactly when every reform keeps the
items or assigns anew. -/
theorem assignments_follow_iff
    (h : ReformChain py nfc canonical text preflight roots reforms last) :
    (Formed py nfc (roots 0) → AssignmentsFollow py (roots 0)) ∧
    ((∀ i < last, AssignmentsFollow py (roots (i + 1))) ↔
      ∀ i < last, KeepsItems py canonical (reforms i) (roots i)) := by
  have hfirst : (∃ problem, (roots 0).get "problem" = .obj problem) ∧
      (AssignmentsFollow py (roots 0) ∨ assignedIds py (roots 0) = none) := by
    rcases h.first with hformed | ⟨hnone, hproblem⟩
    · exact ⟨hformed.follows.1, .inl hformed.follows.2⟩
    · exact ⟨hproblem, .inr hnone⟩
  -- while every reform before has kept the items, or the roots follow, a root is as the next step needs it
  have hready : ∀ i ≤ last, (∀ j < i, AssignmentsFollow py (roots (j + 1))) →
      (∃ problem, (roots i).get "problem" = .obj problem) ∧
        (AssignmentsFollow py (roots i) ∨ assignedIds py (roots i) = none) := by
    intro i hi hfollow
    induction i with
    | zero => exact hfirst
    | succ i ih =>
      obtain ⟨⟨problem, hproblem⟩, hbefore⟩ := ih (by omega) fun j hj => hfollow j (by omega)
      exact ⟨((h.next i (by omega)).follows_iff hproblem hbefore).1, .inl (hfollow i (by omega))⟩
  refine ⟨fun hformed => hformed.follows.2, fun hfollow i hi => ?_, fun hkeeps => ?_⟩
  · obtain ⟨⟨problem, hproblem⟩, hbefore⟩ := hready i (by omega) fun j hj => hfollow j (by omega)
    exact ((h.next i hi).follows_iff hproblem hbefore).2.1 (hfollow i hi)
  · intro i
    induction i using Nat.strong_induction_on with
    | _ i ih =>
      intro hi
      obtain ⟨⟨problem, hproblem⟩, hbefore⟩ := hready i (by omega) fun j hj => ih j hj (by omega)
      exact ((h.next i hi).follows_iff hproblem hbefore).2.2 (hkeeps i hi)

section Example

/-- What the steps of a formation return, for one candidate and one item of its plan. -/
def formationOutputs : Outputs where
  constraints := []
  priorArt := []
  candidates := [("candidates", .arr [.obj [("id", .str "app")]])]
  evaluations := []
  selected := [("selected_candidate_id", .str "app")]
  implementation := []
  domainSpecification := []
  patchPlan := [("items", .arr [.obj [("id", .str "first")]])]
  risks := []
  provided := none

/-- A preparation that owes nothing and assigns nothing to the one item. -/
def emptyCarrier : Fields :=
  [("goals", .arr [carrierGoal "goal:1" false]), ("deliverable_requirements", .arr []),
    ("production_obligations", .arr []),
    ("patch_plan", .arr [.obj [("item_id", .str "first"), ("production_obligation_ids", .arr [])]])]

def formedTree : Fields :=
  (_assemble_technical_approach asciiLib [("success_criteria", .arr [rootGoal "goal:1" false])]
    formationOutputs).getD []

def formedRoot : Fields :=
  match prepare_producer_aware_formation asciiLib id (fun _ _ _ => .ok emptyCarrier) formedTree none with
  | .ok root => root
  | .error _ => []

def planReform (item : String) : ReformRun where
  source := { Reform.sampleSource with
    openBlocking := [[("objection_id", .str "objection"), ("anchor_node_ids", .arr [.str "patch_plan:app"])]]
    technicalApproach := .obj formedRoot }
  ground _ view := .ok view
  runStep _ _ := .ok ⟨[("items", .arr [.obj [("id", .str item)]])], [], [], [], []⟩
  carrierOf _ _ _ := .ok emptyCarrier
  others := Reform.sampleCalls []

def committedRoot (reform : ReformRun) : Option Json :=
  match Reform.reform_patch_series asciiLib Reform.sampleText Reform.samplePreflight
    (reform.calls asciiLib Reform.sampleText id fun _ => "") reform.source with
  | .ok committed => committed.root
  | .error _ => none

def reformedRoot (item : String) : Fields :=
  match committedRoot (planReform item) with
  | some (.obj root) => root
  | _ => []

def planRoots (item : String) : ℕ → Fields
  | 0 => formedRoot
  | _ + 1 => reformedRoot item

theorem publishes_of_committedRoot {reform : ReformRun}
    (hsource : reform.source.technicalApproach = .obj before)
    (h : committedRoot reform = some (.obj root)) :
    Publishes asciiLib id Reform.sampleText (fun _ => "") Reform.samplePreflight reform before root := by
  unfold committedRoot at h
  split at h
  · rename_i committed hcommitted
    exact ⟨hsource, committed, hcommitted, h⟩
  · cases h

theorem formed_formedRoot : Formed asciiLib id formedRoot := by
  refine ⟨[("success_criteria", .arr [rootGoal "goal:1" false])], formationOutputs, formedTree,
    fun _ _ _ => .ok emptyCarrier, none, ?_, ?_⟩
  · decide +kernel
  · decide +kernel

theorem planChain {item : String} (h : committedRoot (planReform item) = some (.obj (reformedRoot item))) :
    ReformChain asciiLib id Reform.sampleText (fun _ => "") Reform.samplePreflight (planRoots item)
      (fun _ => planReform item) 1 := by
  refine ⟨.inl formed_formedRoot, fun i hi => ?_⟩
  obtain rfl : i = 0 := by omega
  exact publishes_of_committedRoot rfl h

/-- The plan gets another item and the assignments are still to the one that it had. -/
theorem stale_assignments : ∃ roots reforms,
    ReformChain asciiLib id Reform.sampleText (fun _ => "") Reform.samplePreflight roots reforms 1 ∧
    Formed asciiLib id (roots 0) ∧ assignedIds asciiLib (roots 1) = some ["first"] ∧
    planIds asciiLib (roots 1) = some ["second"] ∧ ¬ AssignmentsFollow asciiLib (roots 1) := by
  have hassigned : assignedIds asciiLib (planRoots "second" 1) = some ["first"] := by decide +kernel
  have hplan : planIds asciiLib (planRoots "second" 1) = some ["second"] := by decide +kernel
  refine ⟨planRoots "second", fun _ => planReform "second", planChain (by decide +kernel),
    formed_formedRoot, hassigned, hplan, ?_⟩
  rintro ⟨ids, hids, hsame⟩
  rw [hassigned] at hids
  rw [hplan, ← hids] at hsame
  simp at hsame

/-- A plan with the same item again. -/
theorem assignments_follow_iff_same :
    AssignmentsFollow asciiLib (planRoots "first" 0) ∧ AssignmentsFollow asciiLib (planRoots "first" 1) := by
  have hchain := planChain (show committedRoot (planReform "first") = some (.obj (reformedRoot "first")) by
    decide +kernel)
  obtain ⟨hformed, hiff⟩ := assignments_follow_iff hchain
  refine ⟨hformed formed_formedRoot, hiff.2 (fun i hi => ?_) 0 (by omega)⟩
  obtain rfl : i = 0 := by omega
  have hleft : ((planReform "first").left asciiLib Reform.sampleText formedRoot).map
      (fun left => outputIds asciiLib left.outputs) = some (planIds asciiLib formedRoot) := by decide +kernel
  obtain ⟨left, hleft, hkept⟩ := Option.map_eq_some_iff.1 hleft
  exact .inr (.inr (.inr ⟨left, hleft, hkept⟩))

end Example

end Approach

end AiOrg
