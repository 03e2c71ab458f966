import AiOrg.Proofs.ProducerLineage
import AiOrg.Python.Base64

/-!
# What the validation of a root accepts

`Accepted` says when a root is accepted. What is left of an accepted root has the same members with their
deliverables normalized, so it is accepted again as it is, after the same previous root and after itself.
-/

namespace AiOrg

open List

namespace Producer

open Checks

variable {py : PyLib} {nfc : List Char → List Char} {root : Fields} {parts : Parts}
  {goals : List Goal} {requirements : List Requirement} {obligations : List Obligation}

/-- Where the collections of a root are. -/
structure HasParts (root : Fields) (parts : Parts) : Prop where
  problem : ∃ problem, _producer_problem root = .ok (problem, parts.pointer) ∧
    ∀ key ≠ "patch_plan", parts.problem.lookup key = problem.lookup key
  goals : parts.problem.lookup "goals" = some (.arr parts.goals)
  requirements : parts.problem.lookup "deliverable_requirements" = some (.arr parts.requirements)
  obligations : parts.problem.lookup "production_obligations" = some (.arr parts.obligations)
  assignments : parts.problem.get "patch_plan" = .arr parts.assignments

theorem require_preview_list_eq_ok_iff {problem : Fields} {field pointer : String} {items : List Json} :
    _require_preview_list problem field pointer = .ok items ↔ problem.lookup field = some (.arr items) := by
  unfold _require_preview_list
  rcases problem.lookup field with _ | value
  · simp
  · cases value <;> simp

theorem root_patch_plan_assignments_ok {problem problem' : Fields} {pointer place : String}
    {assignments : List Json}
    (h : _root_patch_plan_assignments problem pointer = .ok (assignments, place, problem')) :
    problem'.get "patch_plan" = .arr assignments ∧
      ∀ key ≠ "patch_plan", problem'.lookup key = problem.lookup key := by
  unfold _root_patch_plan_assignments at h
  split at h
  · rename_i direct hdirect
    cases h
    exact ⟨hdirect, fun _ _ => rfl⟩
  · obtain ⟨projection, -, heq⟩ := map_eq_ok_iff.1 h
    cases heq
    refine ⟨Fields.get_set_self _ _ _, fun key hkey => ?_⟩
    rw [Fields.lookup_set, if_neg hkey]

theorem hasParts_of_readParts (h : readParts root = .ok parts) : HasParts root parts := by
  obtain ⟨⟨problem, pointer⟩, hproblem, h⟩ := bind_eq_ok_iff.1 h
  obtain ⟨goals, hgoals, h⟩ := bind_eq_ok_iff.1 h
  obtain ⟨requirements, hrequirements, h⟩ := bind_eq_ok_iff.1 h
  obtain ⟨obligations, hobligations, h⟩ := bind_eq_ok_iff.1 h
  obtain ⟨⟨assignments, place, problem'⟩, hplan, rfl⟩ := map_eq_ok_iff.1 h
  obtain ⟨hget, hother⟩ := root_patch_plan_assignments_ok hplan
  rw [require_preview_list_eq_ok_iff] at hgoals hrequirements hobligations
  refine ⟨⟨problem, hproblem, hother⟩, ?_, ?_, ?_, hget⟩
  · exact (hother _ (by decide)).trans hgoals
  · exact (hother _ (by decide)).trans hrequirements
  · exact (hother _ (by decide)).trans hobligations

/-- The members of a root, as they are read, and how they have to fit together and to follow from the
previous root. -/
structure Accepted (py : PyLib) (nfc : List Char → List Char) (parts : Parts) (previous : Option Fields)
    (goals : List Goal) (requirements : List Requirement) (obligations : List Obligation) : Prop where
  readGoals : Forall₂ ReadsGoal parts.goals goals
  goalsNonempty : goals ≠ []
  goalIds : (goals.map (·.id)).Nodup
  readRequirements : Forall₂ (ReadsRequirement nfc) parts.requirements requirements
  requirementIds : (requirements.map (·.id)).Nodup
  readObligations : Forall₂ (ReadsObligation nfc) parts.obligations obligations
  obligationIds : (obligations.map (·.id)).Nodup
  correspondence : Correspondence goals requirements obligations
  lineage : LineageHolds py nfc previous requirements obligations
  partition : ∃ items, Forall₂ ReadsAssignment parts.assignments items ∧
    Partitions items (obligations.map (·.id))

theorem checkJoins_eq_ok_iff {previous : Option Fields} (hgoals : (goals.map (·.id)).Nodup)
    (hrequirements : (requirements.map (·.goalId)).Nodup)
    (hobligations : (obligations.map (·.goalId)).Nodup)
    (hids : (obligations.map (·.id)).Nodup) :
    checkJoins py nfc parts previous goals requirements obligations = .ok () ↔
      Correspondence goals requirements obligations ∧
      LineageHolds py nfc previous requirements obligations ∧
      ∃ items, Forall₂ ReadsAssignment parts.assignments items ∧
        Partitions items (obligations.map (·.id)) := by
  rw [checkJoins, bind_eq_ok_iff, ← @correspondence_iff _ _ _ parts.pointer hgoals hrequirements
    hobligations]
  constructor
  · rintro ⟨⟨⟩, hpairs, h⟩
    obtain ⟨⟨⟩, hclosed, h⟩ := bind_eq_ok_iff.1 h
    obtain ⟨⟨⟩, hlineage, h⟩ := bind_eq_ok_iff.1 h
    exact ⟨⟨each_eq_ok_iff.1 hpairs, each_eq_ok_iff.1 hclosed⟩,
      (validate_obligation_lineage_eq_ok_iff hrequirements).1 hlineage, (partition_eq_ok_iff hids).1 h⟩
  · rintro ⟨⟨hpairs, hclosed⟩, hlineage, hpartition⟩
    refine ⟨(), each_eq_ok_iff.2 hpairs, bind_eq_ok_iff.2 ⟨(), each_eq_ok_iff.2 hclosed, ?_⟩⟩
    exact bind_eq_ok_iff.2 ⟨(), (validate_obligation_lineage_eq_ok_iff hrequirements).2 hlineage,
      (partition_eq_ok_iff hids).2 hpartition⟩

theorem collect_readGoal_eq_ok_iff {values : List Json} {pointer : String} :
    collect (readGoal py pointer) [] 0 values = .ok goals ↔
      Forall₂ ReadsGoal values goals ∧ (goals.map (·.id)).Nodup := by
  have hread : ∀ (seen : List Goal) index value goal, readGoal py pointer seen index value = .ok goal ↔
      ReadsGoal value goal ∧ ∀ other ∈ seen, other.id ≠ goal.id := fun _ _ _ _ => readGoal_eq_ok_iff
  rw [collect_nil_eq_ok_iff hread, nodup_map_iff_pairwise]

theorem collect_readRequirement_eq_ok_iff {values : List Json} {pointer : String} :
    collect (readRequirement py nfc pointer) [] 0 values = .ok requirements ↔
      Forall₂ (ReadsRequirement nfc) values requirements ∧ (requirements.map (·.id)).Nodup ∧
        (requirements.map (·.goalId)).Nodup := by
  have hread : ∀ (seen : List Requirement) index value requirement,
      readRequirement py nfc pointer seen index value = .ok requirement ↔
        ReadsRequirement nfc value requirement ∧ ∀ other ∈ seen, other.Apart requirement :=
    fun _ _ _ _ => readRequirement_eq_ok_iff
  rw [collect_nil_eq_ok_iff hread, nodup_map_iff_pairwise, nodup_map_iff_pairwise,
    ← pairwise_and_iff]
  rfl

theorem collect_readObligation_eq_ok_iff {values : List Json} {pointer : String} :
    collect (readObligation py nfc pointer) [] 0 values = .ok obligations ↔
      Forall₂ (ReadsObligation nfc) values obligations ∧ (obligations.map (·.id)).Nodup ∧
        (obligations.map (·.goalId)).Nodup := by
  have hread : ∀ (seen : List Obligation) index value obligation,
      readObligation py nfc pointer seen index value = .ok obligation ↔
        ReadsObligation nfc value obligation ∧ ∀ other ∈ seen, other.Apart obligation :=
    fun _ _ _ _ => readObligation_eq_ok_iff
  rw [collect_nil_eq_ok_iff hread, nodup_map_iff_pairwise, nodup_map_iff_pairwise,
    ← pairwise_and_iff]
  rfl

theorem validate_eq_ok_iff {candidate : Json} {previous : Option Json} {result : Fields} :
    validate_canonical_root_technical_approach py nfc candidate previous = .ok result ↔
      ∃ root parts prev goals requirements obligations, candidate = .obj root ∧
        readParts root = .ok parts ∧ previousProblem previous = .ok prev ∧
        Accepted py nfc parts prev goals requirements obligations ∧
        result = normalizedRoot root parts requirements obligations := by
  cases candidate with
  | obj root =>
    unfold validate_canonical_root_technical_approach
    rw [bind_eq_ok_iff]
    constructor
    · rintro ⟨-, -, h⟩
      obtain ⟨prev, hprev, h⟩ := bind_eq_ok_iff.1 h
      obtain ⟨parts, hparts, h⟩ := bind_eq_ok_iff.1 h
      obtain ⟨goals, hgoals, h⟩ := bind_eq_ok_iff.1 h
      obtain ⟨hne, h⟩ := require_bind_eq_ok_iff.1 h
      obtain ⟨requirements, hrequirements, h⟩ := bind_eq_ok_iff.1 h
      obtain ⟨obligations, hobligations, h⟩ := bind_eq_ok_iff.1 h
      obtain ⟨⟨⟩, hjoins, h⟩ := bind_eq_ok_iff.1 h
      obtain ⟨hgoalsRead, hgoalIds⟩ := collect_readGoal_eq_ok_iff.1 hgoals
      obtain ⟨hrequirementsRead, hrequirementIds, hrequirementGoals⟩ :=
        collect_readRequirement_eq_ok_iff.1 hrequirements
      obtain ⟨hobligationsRead, hobligationIds, hobligationGoals⟩ :=
        collect_readObligation_eq_ok_iff.1 hobligations
      obtain ⟨hcorrespondence, hlineage, hpartition⟩ := (checkJoins_eq_ok_iff hgoalIds
        hrequirementGoals hobligationGoals hobligationIds).1 hjoins
      exact ⟨root, parts, prev, goals, requirements, obligations, rfl, hparts, hprev,
        ⟨hgoalsRead, hne, hgoalIds, hrequirementsRead, hrequirementIds, hobligationsRead,
          hobligationIds, hcorrespondence, hlineage, hpartition⟩, (Except.ok.inj h).symm⟩
    · rintro ⟨root', parts, prev, goals, requirements, obligations, heq, hparts, hprev, h, rfl⟩
      obtain rfl := Json.obj.inj heq
      obtain ⟨problem, hproblem, -⟩ := (hasParts_of_readParts hparts).problem
      have hrequirementGoals := h.correspondence.requirementGoals h.requirementIds
      have hobligationGoals := h.correspondence.obligationGoals h.obligationIds
      refine ⟨_, hproblem, bind_eq_ok_iff.2 ⟨prev, hprev, bind_eq_ok_iff.2 ⟨parts, hparts, ?_⟩⟩⟩
      refine bind_eq_ok_iff.2 ⟨goals, collect_readGoal_eq_ok_iff.2 ⟨h.readGoals, h.goalIds⟩, ?_⟩
      refine require_bind_eq_ok_iff.2 ⟨h.goalsNonempty, ?_⟩
      refine bind_eq_ok_iff.2 ⟨requirements, collect_readRequirement_eq_ok_iff.2
        ⟨h.readRequirements, h.requirementIds, hrequirementGoals⟩, ?_⟩
      refine bind_eq_ok_iff.2 ⟨obligations, collect_readObligation_eq_ok_iff.2
        ⟨h.readObligations, h.obligationIds, hobligationGoals⟩, ?_⟩
      exact bind_eq_ok_iff.2 ⟨(), (checkJoins_eq_ok_iff h.goalIds hrequirementGoals hobligationGoals
        h.obligationIds).2 ⟨h.correspondence, h.lineage, h.partition⟩, rfl⟩
  | _ =>
    simp only [validate_canonical_root_technical_approach, reduceCtorEq, false_iff, not_exists, not_and]
    intros
    contradiction

def normalizedProblem (parts : Parts) (requirements : List Requirement)
    (obligations : List Obligation) : Fields :=
  (parts.problem.set "deliverable_requirements"
    (.arr (requirements.map fun requirement => .obj requirement.fields))).set "production_obligations"
    (.arr (obligations.map fun obligation => .obj obligation.fields))

def normalizedParts (parts : Parts) (requirements : List Requirement)
    (obligations : List Obligation) : Parts where
  problem := normalizedProblem parts requirements obligations
  pointer := parts.pointer
  goals := parts.goals
  requirements := requirements.map fun requirement => .obj requirement.fields
  obligations := obligations.map fun obligation => .obj obligation.fields
  assignments := parts.assignments
  assignmentPointer := parts.pointer ++ "/patch_plan"

theorem lookup_normalizedProblem {key : String} (hrequirements : key ≠ "deliverable_requirements")
    (hobligations : key ≠ "production_obligations") :
    (normalizedProblem parts requirements obligations).lookup key = parts.problem.lookup key := by
  rw [normalizedProblem, Fields.lookup_set, if_neg hobligations, Fields.lookup_set,
    if_neg hrequirements]

theorem lookup_normalizedProblem_requirements :
    (normalizedProblem parts requirements obligations).lookup "deliverable_requirements" =
      some (.arr (requirements.map fun requirement => .obj requirement.fields)) := by
  rw [normalizedProblem, Fields.lookup_set, if_neg (by decide), Fields.lookup_set, if_pos rfl]

theorem lookup_normalizedProblem_obligations :
    (normalizedProblem parts requirements obligations).lookup "production_obligations" =
      some (.arr (obligations.map fun obligation => .obj obligation.fields)) := by
  rw [normalizedProblem, Fields.lookup_set, if_pos rfl]

theorem producer_problem_normalizedRoot (h : HasParts root parts) :
    _producer_problem (normalizedRoot root parts requirements obligations) =
      .ok (normalizedProblem parts requirements obligations, parts.pointer) := by
  obtain ⟨problem, hproblem, hother⟩ := h.problem
  unfold _producer_problem at hproblem
  split at hproblem
  · rename_i hnull
    obtain ⟨hroot, hpointer⟩ := Prod.mk.inj (Except.ok.inj hproblem)
    have hget : (normalizedProblem parts requirements obligations).get "problem" = .null := by
      rw [Fields.get, lookup_normalizedProblem (by decide) (by decide), hother _ (by decide), ← hroot]
      exact hnull
    have hself : normalizedRoot root parts requirements obligations =
        normalizedProblem parts requirements obligations := if_pos hpointer.symm
    rw [hself, _producer_problem, hget, hpointer]
  · obtain ⟨-, hpointer⟩ := Prod.mk.inj (Except.ok.inj hproblem)
    have hself : normalizedRoot root parts requirements obligations =
        root.set "problem" (.obj (normalizedProblem parts requirements obligations)) :=
      if_neg (by rw [← hpointer]; decide)
    rw [hself, _producer_problem, Fields.get_set_self, hpointer]
  · cases hproblem

theorem readParts_normalizedRoot (h : HasParts root parts) :
    readParts (normalizedRoot root parts requirements obligations) =
      .ok (normalizedParts parts requirements obligations) := by
  have hgoals : _require_preview_list (normalizedProblem parts requirements obligations) "goals"
      parts.pointer = .ok parts.goals :=
    require_preview_list_eq_ok_iff.2 ((lookup_normalizedProblem (by decide) (by decide)).trans h.goals)
  have hplan : (normalizedProblem parts requirements obligations).get "patch_plan" =
      .arr parts.assignments := by
    rw [Fields.get, lookup_normalizedProblem (by decide) (by decide)]
    exact h.assignments
  have hassignments : _root_patch_plan_assignments (normalizedProblem parts requirements obligations)
      parts.pointer = .ok (parts.assignments, parts.pointer ++ "/patch_plan",
        normalizedProblem parts requirements obligations) := by
    rw [_root_patch_plan_assignments, hplan]
  refine bind_eq_ok_iff.2 ⟨_, producer_problem_normalizedRoot h, bind_eq_ok_iff.2 ⟨_, hgoals, ?_⟩⟩
  refine bind_eq_ok_iff.2 ⟨_, require_preview_list_eq_ok_iff.2 lookup_normalizedProblem_requirements, ?_⟩
  refine bind_eq_ok_iff.2 ⟨_, require_preview_list_eq_ok_iff.2 lookup_normalizedProblem_obligations, ?_⟩
  exact map_eq_ok_iff.2 ⟨_, hassignments, rfl⟩

theorem normalizedProblem_again :
    normalizedProblem (normalizedParts parts requirements obligations) requirements obligations =
      normalizedProblem parts requirements obligations := by
  show (((normalizedProblem parts requirements obligations).set _ _).set _ _) = _
  rw [Fields.set_of_lookup lookup_normalizedProblem_requirements,
    Fields.set_of_lookup lookup_normalizedProblem_obligations]

theorem normalizedRoot_again :
    normalizedRoot (normalizedRoot root parts requirements obligations)
      (normalizedParts parts requirements obligations) requirements obligations =
    normalizedRoot root parts requirements obligations := by
  by_cases hpointer : parts.pointer = ""
  · show (if parts.pointer = "" then normalizedProblem (normalizedParts parts requirements obligations)
      requirements obligations else _) = if parts.pointer = "" then _ else _
    rw [if_pos hpointer, if_pos hpointer, normalizedProblem_again]
    rfl
  · have hself : normalizedRoot root parts requirements obligations =
        root.set "problem" (.obj (normalizedProblem parts requirements obligations)) := if_neg hpointer
    rw [hself]
    show (if parts.pointer = "" then _ else Fields.set _ "problem" (.obj (normalizedProblem
      (normalizedParts parts requirements obligations) requirements obligations))) = _
    rw [if_neg hpointer, normalizedProblem_again]
    exact Fields.set_of_lookup (by rw [Fields.lookup_set, if_pos rfl])

theorem Accepted.again (hnfc : Text.IsNormalForm nfc) {previous previous' : Option Fields}
    (h : Accepted py nfc parts previous goals requirements obligations)
    (hlineage : LineageHolds py nfc previous' requirements obligations) :
    Accepted py nfc (normalizedParts parts requirements obligations) previous' goals requirements
      obligations := by
  refine ⟨h.readGoals, h.goalsNonempty, h.goalIds, ?_, h.requirementIds, ?_, h.obligationIds,
    h.correspondence, hlineage, h.partition⟩
  · show Forall₂ _ (requirements.map _) requirements
    rw [forall₂_map_left_iff, forall₂_same]
    intro requirement hmem
    obtain ⟨value, -, hread⟩ := Traverse.exists_of_mem_right h.readRequirements hmem
    exact hread.again hnfc
  · show Forall₂ _ (obligations.map _) obligations
    rw [forall₂_map_left_iff, forall₂_same]
    intro obligation hmem
    obtain ⟨value, -, hread⟩ := Traverse.exists_of_mem_right h.readObligations hmem
    exact hread.again hnfc

theorem Accepted.lineage_self (hnfc : Text.IsNormalForm nfc) {previous : Option Fields}
    (h : Accepted py nfc parts previous goals requirements obligations) :
    LineageHolds py nfc (some (normalizedProblem parts requirements obligations)) requirements
      obligations := by
  refine lineageHolds_self h.obligationIds (h.correspondence.obligationGoals h.obligationIds)
    h.requirementIds (h.correspondence.requirementGoals h.requirementIds) ?_ ?_ ?_ ?_ ?_
  · intro obligation hmem
    obtain ⟨value, -, hread⟩ := Traverse.exists_of_mem_right h.readObligations hmem
    exact hread.again hnfc
  · intro requirement hmem
    obtain ⟨value, -, hread⟩ := Traverse.exists_of_mem_right h.readRequirements hmem
    exact hread.again hnfc
  · intro obligation hmem
    obtain ⟨goal, hgoal, hrequires, hid⟩ := h.correspondence.ofObligation obligation hmem
    obtain ⟨requirement, ⟨hrequirement, hsame⟩, -⟩ := h.correspondence.requirement goal hgoal hrequires
    exact ⟨requirement, hrequirement, hsame.trans hid⟩
  · rw [Fields.get, lookup_normalizedProblem_obligations, Option.getD_some]
  · rw [Fields.get, lookup_normalizedProblem_requirements, Option.getD_some]

theorem validate_again (hnfc : Text.IsNormalForm nfc) {candidate : Json} {previous : Option Json}
    {result : Fields}
    (h : validate_canonical_root_technical_approach py nfc candidate previous = .ok result) :
    validate_canonical_root_technical_approach py nfc (.obj result) previous = .ok result := by
  obtain ⟨root, parts, prev, goals, requirements, obligations, -, hparts, hprev, haccepted, rfl⟩ :=
    validate_eq_ok_iff.1 h
  exact validate_eq_ok_iff.2 ⟨_, _, prev, goals, requirements, obligations, rfl,
    readParts_normalizedRoot (hasParts_of_readParts hparts), hprev,
    haccepted.again hnfc haccepted.lineage, normalizedRoot_again.symm⟩

theorem validate_self (hnfc : Text.IsNormalForm nfc) {candidate : Json} {previous : Option Json}
    {result : Fields}
    (h : validate_canonical_root_technical_approach py nfc candidate previous = .ok result) :
    validate_canonical_root_technical_approach py nfc (.obj result) (some (.obj result)) =
      .ok result := by
  obtain ⟨root, parts, prev, goals, requirements, obligations, -, hparts, hprev, haccepted, rfl⟩ :=
    validate_eq_ok_iff.1 h
  have hproblem := @producer_problem_normalizedRoot _ _ requirements obligations
    (hasParts_of_readParts hparts)
  refine validate_eq_ok_iff.2 ⟨_, _, some (normalizedProblem parts requirements obligations), goals,
    requirements, obligations, rfl, readParts_normalizedRoot (hasParts_of_readParts hparts), ?_,
    haccepted.again hnfc (haccepted.lineage_self hnfc), normalizedRoot_again.symm⟩
  rw [previousProblem, hproblem]
  rfl

/-! ### The items of a plan -/

def ListsItems (root : Fields) : Prop :=
  ∃ problem pointer, _producer_problem root = .ok (problem, pointer) ∧
    ((∃ direct, problem.get "patch_plan" = .arr direct) ∨
      ∃ plan items, legacyPlan problem = .obj plan ∧ Fields.get plan "items" = .arr items)

theorem namesOf_eq {key : String} {α : Type} {name : α → String} {values : List Json} {xs : List α}
    (h : Forall₂ (fun value x => ∃ fields, value = .obj fields ∧
      Fields.get fields key = .str (name x)) values xs) :
    namesOf py key values = xs.map name := by
  induction h with
  | nil => rfl
  | cons hx _ ih =>
    obtain ⟨fields, rfl, hname⟩ := hx
    rw [map_cons, ← ih, ← PyLib.strOr_str py (name _), ← hname]
    rfl

theorem NonBlank.ne_empty {text : String} (h : NonBlank text) : text ≠ "" := by
  rintro rfl
  exact h (by decide)

theorem empty_notMem_itemIds {values : List Json} {items : List Assignment}
    (h : Forall₂ ReadsAssignment values items) : "" ∉ items.map (·.itemId) := by
  intro hmem
  obtain ⟨item, hitem, hid⟩ := mem_map.1 hmem
  obtain ⟨value, -, fields, -, -, -, hblank, -⟩ := Traverse.exists_of_mem_right h hitem
  exact hblank.ne_empty hid

theorem directItemIds_eq_some {problem : Fields} {direct : List Json} {items : List Assignment}
    (hplan : problem.get "patch_plan" = .arr direct) (h : Forall₂ ReadsAssignment direct items) :
    directItemIds py problem = some (items.map (·.itemId)) := by
  have hnames : namesOf py "item_id" direct = items.map (·.itemId) :=
    namesOf_eq (h.imp fun value item hread => by
      obtain ⟨fields, rfl, -, hid, -⟩ := hread
      exact ⟨fields, rfl, hid⟩)
  rw [directItemIds, hplan]
  dsimp only
  rw [hnames, length_map, if_pos ⟨h.length_eq.symm, empty_notMem_itemIds h⟩]

theorem projectGraphItem_ok {pointer : String} {seen : List Json} {index : ℕ}
    {value assignment : Json} (h : projectGraphItem pointer seen index value = .ok assignment) :
    ∃ fields id items, value = .obj fields ∧ Fields.get fields "id" = .str id ∧
      assignment = .obj [("item_id", .str id), ("production_obligation_ids", .arr items)] := by
  unfold projectGraphItem at h
  split at h
  · rename_i id hid
    cases value with
    | obj fields =>
      split at h
      · rename_i items _
        exact ⟨fields, id, items, rfl, hid, (Except.ok.inj h).symm⟩
      · cases h
    | _ => cases hid
  · cases h

theorem collect_projectGraphItem_ok {pointer : String} {seen : List Json} {index : ℕ}
    {values assignments : List Json} {items : List Assignment}
    (h : collect (projectGraphItem pointer) seen index values = .ok assignments)
    (hitems : Forall₂ ReadsAssignment assignments items) :
    Forall₂ (fun value item => ∃ fields, value = .obj fields ∧
      Fields.get fields "id" = .str (Assignment.itemId item)) values items := by
  induction values generalizing seen index assignments items with
  | nil =>
    cases h
    cases hitems
    exact .nil
  | cons value values ih =>
    obtain ⟨assignment, hassignment, h⟩ := bind_eq_ok_iff.1 h
    obtain ⟨assignments, hrest, rfl⟩ := map_eq_ok_iff.1 h
    cases hitems with
    | @cons _ item _ items hitem hitems =>
      obtain ⟨fields, id, list, rfl, hid, rfl⟩ := projectGraphItem_ok hassignment
      obtain ⟨_, heq, -, hitemId, -⟩ := hitem
      cases heq
      have hsame : id = item.itemId := Json.str.inj hitemId
      exact .cons ⟨fields, rfl, hsame ▸ hid⟩ (ih hrest hitems)

theorem item_ids_eq {items : List Assignment} (hparts : readParts root = .ok parts)
    (hlists : ListsItems root) (hitems : Forall₂ ReadsAssignment parts.assignments items)
    (hids : (items.map (·.itemId)).Nodup) :
    _canonical_patch_plan_item_ids py root = .ok (items.map (·.itemId)) := by
  obtain ⟨problem, pointer, hproblem, hplan⟩ := hlists
  obtain ⟨⟨problem', pointer'⟩, hproblem', h⟩ := bind_eq_ok_iff.1 hparts
  obtain ⟨rfl, rfl⟩ := Prod.mk.inj (Except.ok.inj (hproblem.symm.trans hproblem'))
  obtain ⟨_, -, h⟩ := bind_eq_ok_iff.1 h
  obtain ⟨_, -, h⟩ := bind_eq_ok_iff.1 h
  obtain ⟨_, -, h⟩ := bind_eq_ok_iff.1 h
  obtain ⟨⟨assignments, place, _⟩, hassignments, rfl⟩ := map_eq_ok_iff.1 h
  refine bind_eq_ok_iff.2 ⟨_, hproblem, ?_⟩
  dsimp only at hitems ⊢
  unfold _root_patch_plan_assignments at hassignments
  split at hassignments
  · rename_i direct hdirect
    cases hassignments
    rw [directItemIds_eq_some hdirect hitems]
  · rename_i hnot
    rcases hplan with ⟨direct, hdirect⟩ | ⟨plan, values, hlegacy, hvalues⟩
    · exact absurd hdirect (hnot direct)
    · obtain ⟨projection, hprojection, heq⟩ := map_eq_ok_iff.1 hassignments
      cases heq
      have hnone : directItemIds py problem = none := by
        unfold directItemIds
        split
        · rename_i direct hdirect
          exact absurd hdirect (hnot direct)
        · rfl
      rw [hlegacy, projectLegacy] at hprojection
      rw [hvalues] at hprojection
      have hnames := collect_projectGraphItem_ok hprojection hitems
      rw [hnone, hlegacy]
      dsimp only
      rw [plannedItemIds, hvalues]
      dsimp only
      rw [namesOf_eq hnames, length_map]
      exact require_bind_eq_ok_iff.2 ⟨⟨hnames.length_eq.symm, empty_notMem_itemIds hitems, hids⟩, rfl⟩

/-- A root is accepted exactly where its members fit together, follow from the previous root and are each
assigned once; where its plan lists items, they are assigned to these, in order; and what is left of an
accepted root is accepted as it is, after the same root and after itself. -/
theorem root_validation (hnfc : Text.IsNormalForm nfc) (candidate : Json) (previous : Option Json) :
    (∀ result, validate_canonical_root_technical_approach py nfc candidate previous = .ok result ↔
      ∃ root parts prev goals requirements obligations, candidate = .obj root ∧
        readParts root = .ok parts ∧ previousProblem previous = .ok prev ∧
        Accepted py nfc parts prev goals requirements obligations ∧
        result = normalizedRoot root parts requirements obligations) ∧
    (∀ root parts items, candidate = .obj root → readParts root = .ok parts → ListsItems root →
      Forall₂ ReadsAssignment parts.assignments items → (items.map (·.itemId)).Nodup →
      _canonical_patch_plan_item_ids py root = .ok (items.map (·.itemId))) ∧
    ∀ result, validate_canonical_root_technical_approach py nfc candidate previous = .ok result →
      validate_canonical_root_technical_approach py nfc (.obj result) previous = .ok result ∧
      validate_canonical_root_technical_approach py nfc (.obj result) (some (.obj result)) = .ok result := by
  refine ⟨fun result => validate_eq_ok_iff, ?_, ?_⟩
  · rintro root parts items - hparts hlists hitems hids
    exact item_ids_eq hparts hlists hitems hids
  · intro result h
    exact ⟨validate_again hnfc h, validate_self hnfc h⟩

section Example

/-- A root of one goal with its pair, and what it says of its plan. -/
def sampleRoot (plan : Fields) : Fields :=
  [("goals", .arr [.obj [("id", .str "goal:1"), ("actor", .str "reader"),
      ("capability", .obj [("action", .str "read"), ("preconditions", .arr [])]),
      ("requires_deliverable", .bool true), ("ux_trace", .str "screen"),
      ("verifiable_outcome", .obj [("evidence", .str "log"), ("expected_state", .str "read")]),
      ("verification", .obj [("check", .str "look"), ("method", .str "manual_check")])]]),
    ("deliverable_requirements", .arr [.obj [("id", .str "requirement"),
      ("referee_goal_id", .str "goal:1"), ("production_obligation_id", .str "obligation"),
      ("deliverable", .str " a  report ")]]),
    ("production_obligations", .arr [.obj [("id", .str "obligation"),
      ("referee_goal_id", .str "goal:1"), ("deliverable_requirement_id", .str "requirement"),
      ("deliverable", .str "a report"), ("eligibility_predicate", .str "can be read"),
      ("replacement_links", .arr [])]])] ++ plan

/-- The plan is a list of assignments. -/
def plannedRoot : Fields :=
  sampleRoot [("patch_plan", .arr [.obj [("item_id", .str "item"),
    ("production_obligation_ids", .arr [.str "obligation"])]])]

/-- The plan has a first proof moment, with an id of its own. -/
def legacyRoot : Fields :=
  sampleRoot [("question", .obj [("decision", .obj [("implementation", .obj [("patch_plan", .obj
    [("id", .str "plan"), ("first_proof_moment", .obj [("item_id", .str "elsewhere"),
      ("production_obligation_ids", .arr [.str "obligation"])]), ("follow_ups", .arr [])])])])])]

/-- The root is accepted with an assignment to an item that is not of the plan. -/
theorem unplanned_item_accepted : ∃ result parts,
    validate_canonical_root_technical_approach asciiLib id (.obj legacyRoot) none = .ok result ∧
    readParts legacyRoot = .ok parts ∧
    _canonical_patch_plan_item_ids asciiLib legacyRoot = .ok ["plan#first_proof_moment"] ∧
    ∀ items, Forall₂ ReadsAssignment parts.assignments items →
      items.map (·.itemId) = ["elsewhere"] := by
  have hrun : (validate_canonical_root_technical_approach asciiLib id (.obj legacyRoot) none).isOk =
      true := by decide +kernel
  have hids : _canonical_patch_plan_item_ids asciiLib legacyRoot = .ok ["plan#first_proof_moment"] := by
    decide +kernel
  rcases hresult : validate_canonical_root_technical_approach asciiLib id (.obj legacyRoot) none with
    error | result
  · rw [hresult] at hrun
    cases hrun
  · obtain ⟨_, parts, _, _, _, _, heq, hparts, -⟩ := validate_eq_ok_iff.1 hresult
    obtain rfl := Json.obj.inj heq
    refine ⟨result, parts, rfl, hparts, hids, fun items hitems => ?_⟩
    have hassignments : parts.assignments = [.obj [("item_id", .str "elsewhere"),
        ("production_obligation_ids", .arr [.str "obligation"])]] := by
      obtain rfl := Except.ok.inj hparts
      rfl
    rw [hassignments] at hitems
    obtain ⟨item, _, ⟨_, hfields, -, hid, -⟩, hnil, rfl⟩ := forall₂_cons_left_iff.1 hitems
    cases hnil
    cases hfields
    rw [map_cons, map_nil, ← Json.str.inj hid]

/-- The other root and its successors. -/
theorem root_validation_planned : ∃ result,
    validate_canonical_root_technical_approach asciiLib id (.obj plannedRoot) none = .ok result ∧
    validate_canonical_root_technical_approach asciiLib id (.obj result) none = .ok result ∧
    validate_canonical_root_technical_approach asciiLib id (.obj result) (some (.obj result)) =
      .ok result := by
  have hrun : (validate_canonical_root_technical_approach asciiLib id (.obj plannedRoot) none).isOk =
      true := by decide +kernel
  have hnfc : Text.IsNormalForm id := ⟨fun _ => rfl, fun _ _ => rfl, fun _ _ => rfl⟩
  rcases hresult : validate_canonical_root_technical_approach asciiLib id (.obj plannedRoot) none with
    error | result
  · rw [hresult] at hrun
    cases hrun
  · exact ⟨result, rfl, (root_validation hnfc (.obj plannedRoot) none).2.2 result hresult⟩

end Example

end Producer

end AiOrg
