import AiOrg.Producer.Carrier
import AiOrg.Proofs.ProducerRoot

/-!
# The reconstruction of the pairs

The identity that the reconstruction gives a pair (`Identified`), from what is known of the previous root
(`Known`): each goal is rewritten once, and no two claim one predecessor.
-/

namespace AiOrg

open List

namespace Producer

open Checks

variable {py : PyLib} {nfc : List Char → List Char}

/-- What is known of the pairs of the previous root: its records with what they are read as. Before the
first root there are none. -/
structure Known (py : PyLib) (nfc : List Char → List Char) (previous : Option Fields) (lineage : Lineage)
    (obligations : List (Fields × Obligation)) (requirements : List (Fields × Requirement)) : Prop where
  hasLineage : HasLineage py previous lineage
  initial : previous = none → obligations = []
  obligationsByGoal : lineage.obligations = obligations.map fun known => (known.2.goalId, known.1)
  requirementsByGoal : lineage.requirements = requirements.map fun known => (known.2.goalId, known.1)
  readObligation : ∀ known ∈ obligations, ReadsObligation nfc (.obj known.1) known.2
  readRequirement : ∀ known ∈ requirements, ReadsRequirement nfc (.obj known.1) known.2
  obligationIds : (obligations.map (·.2.id)).Nodup
  obligationGoals : (obligations.map (·.2.goalId)).Nodup
  requirementIds : (requirements.map (·.2.id)).Nodup
  requirementGoals : (requirements.map (·.2.goalId)).Nodup
  paired : ∀ obligation ∈ obligations, ∀ requirement ∈ requirements,
    requirement.2.goalId = obligation.2.goalId → requirement.2.deliverable = obligation.2.deliverable

def HasRecord (root : Fields) (field : String) (record : Fields) : Prop :=
  ∃ problem pointer records, _producer_problem root = .ok (problem, pointer) ∧
    problem.get field = .arr records ∧ .obj record ∈ records

theorem exists_records {α : Type} {P : Json → α → Prop} (hobj : ∀ value x, P value x → ∃ fields, value = .obj fields)
    {values : List Json} {xs : List α} (h : Forall₂ P values xs) :
    ∃ records : List (Fields × α), values = records.map (fun known => .obj known.1) ∧
      xs = records.map Prod.snd ∧ ∀ known ∈ records, P (.obj known.1) known.2 := by
  induction h with
  | nil => exact ⟨[], rfl, rfl, nofun⟩
  | @cons value x _ _ hx _ ih =>
    obtain ⟨records, hvalues, hxs, hread⟩ := ih
    obtain ⟨fields, rfl⟩ := hobj value x hx
    refine ⟨(fields, x) :: records, by rw [hvalues]; rfl, by rw [hxs]; rfl, ?_⟩
    exact forall_mem_cons.2 ⟨hx, hread⟩

theorem previousItems_eq {problem : Fields} {field : String} {items : List Json}
    (h : problem.lookup field = some (.arr items)) : previousItems problem field = .ok items := by
  rw [previousItems, Fields.getD, h]
  rfl

/-- An accepted root and what is known of its pairs. -/
theorem known_of_validate {previous result : Fields} {before : Option Json}
    (h : validate_canonical_root_technical_approach py nfc (.obj previous) before = .ok result) :
    ∃ problem pointer lineage obligations requirements,
      _producer_problem previous = .ok (problem, pointer) ∧
      previousPairs py (some previous) = .ok lineage ∧
      Known py nfc (some problem) lineage obligations requirements ∧
      (∀ known ∈ obligations, HasRecord previous "production_obligations" known.1) ∧
      ∀ known ∈ requirements, HasRecord previous "deliverable_requirements" known.1 := by
  obtain ⟨root, parts, prev, goals, requirements, obligations, heq, hparts, -, haccepted, -⟩ :=
    validate_eq_ok_iff.1 h
  obtain rfl := Json.obj.inj heq
  have hhas := hasParts_of_readParts hparts
  obtain ⟨problem, hproblem, hother⟩ := hhas.problem
  obtain ⟨os, hos, hosRead, hosAll⟩ := exists_records
    (fun _ _ hread => let ⟨fields, hfields, _⟩ := hread; ⟨fields, hfields⟩) haccepted.readObligations
  obtain ⟨rs, hrs, hrsRead, hrsAll⟩ := exists_records
    (fun _ _ hread => let ⟨fields, hfields, _⟩ := hread; ⟨fields, hfields⟩) haccepted.readRequirements
  have hobligations : problem.lookup "production_obligations" =
      some (.arr (os.map fun known => .obj known.1)) := by
    rw [← hother _ (by decide), hhas.obligations, hos]
  have hrequirements : problem.lookup "deliverable_requirements" =
      some (.arr (rs.map fun known => .obj known.1)) := by
    rw [← hother _ (by decide), hhas.requirements, hrs]
  have hgetObligations : problem.get "production_obligations" = .arr (os.map fun known => .obj known.1) := by
    rw [Fields.get, hobligations, Option.getD_some]
  have hgetRequirements : problem.get "deliverable_requirements" = .arr (rs.map fun known => .obj known.1) := by
    rw [Fields.get, hrequirements, Option.getD_some]
  have hobligationIds : (os.map (·.2.id)).Nodup := by
    have hids := haccepted.obligationIds
    rwa [hosRead, map_map] at hids
  have hobligationGoals : (os.map (·.2.goalId)).Nodup := by
    have hgoals := haccepted.correspondence.obligationGoals haccepted.obligationIds
    rwa [hosRead, map_map] at hgoals
  have hrequirementIds : (rs.map (·.2.id)).Nodup := by
    have hids := haccepted.requirementIds
    rwa [hrsRead, map_map] at hids
  have hrequirementGoals : (rs.map (·.2.goalId)).Nodup := by
    have hgoals := haccepted.correspondence.requirementGoals haccepted.requirementIds
    rwa [hrsRead, map_map] at hgoals
  refine ⟨problem, parts.pointer, ⟨byGoal py (os.map fun known => .obj known.1),
    byGoal py (rs.map fun known => .obj known.1)⟩, os, rs, hproblem, ?_, ⟨⟨_, _, hgetObligations,
      hgetRequirements, rfl⟩, (by simp), ?_, ?_, hosAll, hrsAll, hobligationIds, hobligationGoals,
      hrequirementIds, hrequirementGoals, ?_⟩, fun known hknown => ?_, fun known hknown => ?_⟩
  · rw [previousPairs, hproblem]
    refine bind_eq_ok_iff.2 ⟨problem, rfl, bind_eq_ok_iff.2 ⟨_, previousItems_eq hrequirements, ?_⟩⟩
    exact bind_eq_ok_iff.2 ⟨_, previousItems_eq hobligations, rfl⟩
  · refine byGoal_map hobligationGoals fun known hknown => ?_
    obtain ⟨fields, heq, -, -, -, hgoal, -⟩ := hosAll known hknown
    obtain rfl := Json.obj.inj heq
    exact hgoal
  · refine byGoal_map hrequirementGoals fun known hknown => ?_
    obtain ⟨fields, heq, -, -, -, hgoal, -⟩ := hrsAll known hknown
    obtain rfl := Json.obj.inj heq
    exact hgoal
  · intro obligation hobligation requirement hrequirement hgoal
    have hlinked := haccepted.correspondence.linked requirement.2
      (by rw [hrsRead]; exact mem_map_of_mem hrequirement) obligation.2
      (by rw [hosRead]; exact mem_map_of_mem hobligation) hgoal
    exact hlinked.2.2.symm
  · exact ⟨problem, parts.pointer, _, hproblem, hgetObligations, mem_map.2 ⟨known, hknown, rfl⟩⟩
  · exact ⟨problem, parts.pointer, _, hproblem, hgetRequirements, mem_map.2 ⟨known, hknown, rfl⟩⟩

theorem known_none : previousPairs py none = .ok ⟨[], []⟩ ∧ Known py nfc none ⟨[], []⟩ [] [] := by
  refine ⟨rfl, ⟨rfl, fun _ => rfl, rfl, rfl, nofun, nofun, ?_, ?_, ?_, ?_, nofun⟩⟩
  all_goals exact nodup_nil

section Lookups

variable {previous : Option Fields} {lineage : Lineage} {obligations : List (Fields × Obligation)}
  {requirements : List (Fields × Requirement)} (h : Known py nfc previous lineage obligations requirements)
include h

theorem Known.obligation_id {known : Fields × Obligation} (hknown : known ∈ obligations) :
    known.1.get "id" = .str known.2.id ∧ NonBlank known.2.id := by
  obtain ⟨fields, heq, -, hid, hblank, -⟩ := h.readObligation known hknown
  obtain rfl := Json.obj.inj heq
  exact ⟨hid, hblank⟩

theorem Known.obligation_goal {known : Fields × Obligation} (hknown : known ∈ obligations) :
    known.1.get "referee_goal_id" = .str known.2.goalId := by
  obtain ⟨fields, heq, -, -, -, hgoal, -⟩ := h.readObligation known hknown
  obtain rfl := Json.obj.inj heq
  exact hgoal

theorem Known.requirement_id {known : Fields × Requirement} (hknown : known ∈ requirements) :
    known.1.get "id" = .str known.2.id := by
  obtain ⟨fields, heq, -, hid, -⟩ := h.readRequirement known hknown
  obtain rfl := Json.obj.inj heq
  exact hid

theorem Known.lookup_obligation {goalId : String} {fields : Fields} :
    lineage.obligations.lookup goalId = some fields ↔
      ∃ known ∈ obligations, known.2.goalId = goalId ∧ known.1 = fields := by
  rw [h.obligationsByGoal]
  exact lookup_map_iff h.obligationGoals

theorem Known.lookup_requirement {goalId : String} {fields : Fields} :
    lineage.requirements.lookup goalId = some fields ↔
      ∃ known ∈ requirements, known.2.goalId = goalId ∧ known.1 = fields := by
  rw [h.requirementsByGoal]
  exact lookup_map_iff h.requirementGoals

theorem Known.owner {id goalId : String} :
    (goalOfId py lineage.obligations).lookup id = some goalId ↔
      ∃ known ∈ obligations, known.2.id = id ∧ known.2.goalId = goalId := by
  rw [h.obligationsByGoal, goalOfId_map h.obligationIds fun known hknown => (h.obligation_id hknown).1]
  exact lookup_map_iff h.obligationIds

theorem Known.requirementOwner {id goalId : String} :
    (goalOfId py lineage.requirements).lookup id = some goalId ↔
      ∃ known ∈ requirements, known.2.id = id ∧ known.2.goalId = goalId := by
  rw [h.requirementsByGoal, goalOfId_map h.requirementIds fun known hknown => h.requirement_id hknown]
  exact lookup_map_iff h.requirementIds

theorem Known.lookup_byId {id : String} {fields : Fields}
    (hlookup : (byId py lineage.obligations).lookup id = some fields) :
    ∃ known ∈ obligations, known.2.id = id ∧ known.1 = fields := by
  have hentries : lineage.obligations.map (fun item => (py.str (item.2.get "id"), item.2)) =
      obligations.map fun known => (known.2.id, known.1) := by
    rw [h.obligationsByGoal, map_map]
    refine map_congr_left fun known hknown => ?_
    simp only [Function.comp_apply, (h.obligation_id hknown).1, PyLib.str_str]
  rw [byId, hentries, dictOfEntries_eq_self (by rw [map_map]; exact h.obligationIds)] at hlookup
  obtain ⟨known, hknown, heq⟩ := mem_map.1 (mem_of_lookup hlookup)
  exact ⟨known, hknown, Prod.mk.inj heq⟩

end Lookups

/-! ### One pair -/

/-- The identity that a pair gets, and the predecessor that it claims: a new one without a predecessor, that
of its predecessor, or a new one that replaces its predecessor. -/
inductive Identified (py : PyLib) (nfc : List Char → List Char) (obligations : List (Fields × Obligation))
    (requirements : List (Fields × Requirement)) (candidateIds : List String) (goalId deliverable : String) :
    Rewrite → Option String → Prop
  | initial {digest : String}
      (hdigest : production_obligation_identity py nfc goalId (.str deliverable) = .ok digest)
      (hnew : ∀ known ∈ obligations, known.2.goalId ≠ goalId) :
      Identified py nfc obligations requirements candidateIds goalId deliverable
        ⟨"obligation:" ++ digest, "requirement:" ++ digest, .str "", .str ""⟩ none
  | retained {obligation : Fields × Obligation} {requirement : Fields × Requirement} {replaces reason : Json}
      (hobligation : obligation ∈ obligations) (hrequirement : requirement ∈ requirements)
      (hgoal : obligation.2.goalId = goalId) (hsame : requirement.2.goalId = goalId)
      (hdeliverable : obligation.2.deliverable = deliverable)
      (hreplaces : firstLink (obligation.1.getD "replacement_links" (.arr [])) "replaces_obligation_id" =
        .ok replaces)
      (hreason : firstLink (obligation.1.getD "replacement_links" (.arr [])) "replacement_reason" =
        .ok reason) :
      Identified py nfc obligations requirements candidateIds goalId deliverable
        ⟨obligation.2.id, requirement.2.id, replaces, reason⟩ (some obligation.2.id)
  | successor {obligation : Fields × Obligation} {requirement : Fields × Requirement} {digest reason : String}
      (hdigest : production_obligation_identity py nfc goalId (.str deliverable) = .ok digest)
      (hobligation : obligation ∈ obligations) (hrequirement : requirement ∈ requirements)
      (hgoal : obligation.2.goalId = goalId ∧ obligation.2.deliverable ≠ deliverable ∨
        (∀ known ∈ obligations, known.2.goalId ≠ goalId) ∧ obligation.2.goalId ∉ candidateIds)
      (hsame : requirement.2.goalId = obligation.2.goalId) (hreason : NonBlank reason) :
      Identified py nfc obligations requirements candidateIds goalId deliverable
        ⟨"obligation:" ++ digest, "requirement:" ++ digest, .str obligation.2.id, .str reason⟩
        (some obligation.2.id)

section Pair

variable {previous : Option Fields} {lineage : Lineage} {obligations : List (Fields × Obligation)}
  {requirements : List (Fields × Requirement)} (h : Known py nfc previous lineage obligations requirements)
  {candidateIds : List String} {goalId deliverable : String} {requirement obligation : Fields}
include h

theorem findPredecessor_ok {predecessor predecessorRequirement : Option Fields}
    (hfind : findPredecessor py lineage candidateIds goalId obligation =
      .ok (predecessor, predecessorRequirement)) :
    (predecessor = none ∧ ∀ known ∈ obligations, known.2.goalId ≠ goalId) ∨
    ∃ known ∈ obligations, predecessor = some known.1 ∧
      (known.2.goalId = goalId ∨
        (∀ known ∈ obligations, known.2.goalId ≠ goalId) ∧ known.2.goalId ∉ candidateIds) ∧
      predecessorRequirement = lineage.requirements.lookup known.2.goalId := by
  have hnew : lineage.obligations.lookup goalId = none →
      ∀ known ∈ obligations, known.2.goalId ≠ goalId := by
    rintro hnone known hknown rfl
    rw [h.lookup_obligation.2 ⟨known, hknown, rfl, rfl⟩] at hnone
    cases hnone
  unfold findPredecessor at hfind
  split at hfind
  · rename_i fields hlookup
    obtain ⟨known, hknown, rfl, rfl⟩ := h.lookup_obligation.1 hlookup
    cases hfind
    exact .inr ⟨known, hknown, rfl, .inl rfl, rfl⟩
  · rename_i hnone
    dsimp only at hfind
    split_ifs at hfind
    · cases hfind
      exact .inl ⟨rfl, hnew hnone⟩
    · split at hfind
      · cases hfind
      · rename_i fields hlookup
        obtain ⟨known, hknown, -, rfl⟩ := h.lookup_byId hlookup
        rw [h.obligation_goal hknown, PyLib.strOr_str] at hfind
        split_ifs at hfind with hgone
        cases hfind
        exact .inr ⟨known, hknown, rfl, .inr ⟨hnew hnone, hgone⟩, rfl⟩

theorem sameProjection_ok {known : Fields × Obligation} (hknown : known ∈ obligations) {same : Bool}
    (hsame : sameProjection nfc goalId deliverable (some known.1) = .ok same) :
    same = true ↔ known.2.goalId = goalId ∧ known.2.deliverable = deliverable := by
  obtain ⟨fields, heq, -, -, -, -, -, -, -, -, hnormalize, -⟩ := h.readObligation known hknown
  obtain rfl := Json.obj.inj heq
  rw [sameProjection, h.obligation_goal hknown, hnormalize] at hsame
  simp only [Json.str.injEq] at hsame
  split_ifs at hsame with hgoal
  · obtain rfl := Except.ok.inj hsame
    simp [hgoal]
  · obtain rfl := Except.ok.inj hsame
    simp [hgoal]

theorem retainIdentity_ok {known : Fields × Obligation} (hknown : known ∈ obligations)
    (hgoal : known.2.goalId = goalId) (hdeliverable : known.2.deliverable = deliverable) {rewrite : Rewrite}
    (hretain : retainIdentity py known.1 (lineage.requirements.lookup known.2.goalId) = .ok rewrite) :
    Identified py nfc obligations requirements candidateIds goalId deliverable rewrite
      (some known.2.id) := by
  generalize hlookup : lineage.requirements.lookup known.2.goalId = found at hretain
  cases found with
  | none => cases hretain
  | some fields =>
    obtain ⟨required, hrequired, hsame, rfl⟩ := h.lookup_requirement.1 hlookup
    obtain ⟨obligationId, hobligationId, hretain⟩ := bind_eq_ok_iff.1 hretain
    obtain ⟨requirementId, hrequirementId, hretain⟩ := bind_eq_ok_iff.1 hretain
    obtain ⟨replaces, hreplaces, hretain⟩ := bind_eq_ok_iff.1 hretain
    obtain ⟨reason, hreason, hretain⟩ := bind_eq_ok_iff.1 hretain
    obtain rfl := Except.ok.inj hretain
    have hid : ∀ {fields : Fields} {value : Json} {text : String}, item fields "id" = .ok value →
        fields.get "id" = .str text → py.str value = text := by
      intro fields value text hitem hget
      unfold item at hitem
      rw [Fields.get] at hget
      split at hitem
      · rename_i found hfound
        obtain rfl := Except.ok.inj hitem
        rw [hfound, Option.getD_some] at hget
        rw [hget, PyLib.str_str]
      · cases hitem
    rw [hid hobligationId (h.obligation_id hknown).1, hid hrequirementId (h.requirement_id hrequired)]
    exact .retained hknown hrequired hgoal (hsame.trans hgoal) hdeliverable hreplaces hreason

theorem mintIdentity_ok {predecessor predecessorRequirement : Option Fields} {rewrite : Rewrite}
    (hmint : mintIdentity py nfc goalId deliverable obligation predecessor predecessorRequirement =
      .ok rewrite)
    (hpredecessor : (predecessor = none ∧ ∀ known ∈ obligations, known.2.goalId ≠ goalId) ∨
      ∃ known ∈ obligations, predecessor = some known.1 ∧
        (known.2.goalId = goalId ∧ known.2.deliverable ≠ deliverable ∨
          (∀ known ∈ obligations, known.2.goalId ≠ goalId) ∧ known.2.goalId ∉ candidateIds) ∧
        predecessorRequirement = lineage.requirements.lookup known.2.goalId) :
    Identified py nfc obligations requirements candidateIds goalId deliverable rewrite
      (predecessor.map fun fields => py.strOr (Fields.get fields "id") "") := by
  obtain ⟨digest, hdigest, hmint⟩ := bind_eq_ok_iff.1 hmint
  replace hdigest : production_obligation_identity py nfc goalId (.str deliverable) = .ok digest := by
    cases hidentity : production_obligation_identity py nfc goalId (.str deliverable) with
    | error text =>
      rw [hidentity] at hdigest
      cases hdigest
    | ok other =>
      rw [hidentity] at hdigest
      exact congrArg _ (Except.ok.inj hdigest)
  rcases hpredecessor with ⟨rfl, hnew⟩ | ⟨known, hknown, rfl, hgoal, rfl⟩
  · obtain ⟨-, hmint⟩ := require_bind_eq_ok_iff.1 hmint
    obtain rfl := Except.ok.inj hmint
    exact .initial hdigest hnew
  · obtain ⟨hsome, hmint⟩ := require_bind_eq_ok_iff.1 hmint
    obtain ⟨reason, hreason, hmint⟩ := bind_eq_ok_iff.1 hmint
    obtain ⟨replaced, hreplaced, hmint⟩ := bind_eq_ok_iff.1 hmint
    obtain rfl := Except.ok.inj hmint
    obtain ⟨fields, hlookup⟩ := Option.isSome_iff_exists.1 hsome
    obtain ⟨required, hrequired, hsame, -⟩ := h.lookup_requirement.1 hlookup
    have hblank : NonBlank reason := by
      rcases htext : _preview_nonempty_string (obligation.get "replacement_reason") "" "" with error | text
      · rw [htext] at hreason
        cases hreason
      · rw [htext] at hreason
        obtain rfl := Except.ok.inj hreason
        exact (nonempty_string_eq_ok_iff.1 htext).2
    have hid : py.str replaced = known.2.id := by
      have hget := (h.obligation_id hknown).1
      unfold item at hreplaced
      rw [Fields.get] at hget
      split at hreplaced
      · rename_i found hfound
        obtain rfl := Except.ok.inj hreplaced
        rw [hfound, Option.getD_some] at hget
        rw [hget, PyLib.str_str]
      · cases hreplaced
    rw [hid, Option.map_some, (h.obligation_id hknown).1, PyLib.strOr_str]
    exact .successor hdigest hknown hrequired hgoal hsame hblank

theorem rebuildPair_ok {state state' : Rebuild}
    (hrebuild : rebuildPair py nfc lineage candidateIds state goalId requirement obligation = .ok state') :
    ∃ deliverable rewrite claim, normalize_deliverable nfc (obligation.get "deliverable") = .ok deliverable ∧
      Identified py nfc obligations requirements candidateIds goalId deliverable rewrite claim ∧
      (∀ id, claim = some id → id ∉ state.claimed) ∧
      state'.requirements = assign goalId (rewriteRequirement requirement rewrite deliverable)
        state.requirements ∧
      state'.obligations = assign goalId (rewriteObligation obligation rewrite deliverable)
        state.obligations ∧
      state'.claimed = claim.toList ++ state.claimed := by
  obtain ⟨deliverable, hdeliverable, hrebuild⟩ := bind_eq_ok_iff.1 hrebuild
  obtain ⟨⟨predecessor, predecessorRequirement⟩, hfind, hrebuild⟩ := bind_eq_ok_iff.1 hrebuild
  obtain ⟨claimed, hclaimed, hrebuild⟩ := bind_eq_ok_iff.1 hrebuild
  obtain ⟨same, hsame, hrebuild⟩ := bind_eq_ok_iff.1 hrebuild
  obtain ⟨rewrite, hrewrite, hrebuild⟩ := bind_eq_ok_iff.1 hrebuild
  obtain rfl := Except.ok.inj hrebuild
  have hnormal : normalize_deliverable nfc (obligation.get "deliverable") = .ok deliverable := by
    obtain ⟨_, -, hdeliverable⟩ := readDeliverable_bind_eq_ok_iff.1 hdeliverable
    obtain ⟨text, htext, hdeliverable⟩ := readDeliverable_bind_eq_ok_iff.1 hdeliverable
    obtain ⟨-, hdeliverable⟩ := require_bind_eq_ok_iff.1 hdeliverable
    exact htext.trans (congrArg _ (Except.ok.inj hdeliverable))
  have hclaim : (∀ id, predecessor.map (fun fields => py.strOr (Fields.get fields "id") "") = some id →
      id ∉ state.claimed) ∧
      claimed = (predecessor.map fun fields => py.strOr (Fields.get fields "id") "").toList ++
        state.claimed := by
    cases predecessor with
    | none =>
      obtain rfl := Except.ok.inj hclaimed
      exact ⟨nofun, rfl⟩
    | some fields =>
      obtain ⟨hfresh, hclaimed⟩ := require_bind_eq_ok_iff.1 hclaimed
      obtain rfl := Except.ok.inj hclaimed
      refine ⟨?_, rfl⟩
      rintro id heq
      rw [← Option.some.inj heq]
      exact hfresh
  refine ⟨deliverable, rewrite, _, hnormal, ?_, hclaim.1, rfl, rfl, hclaim.2⟩
  rcases findPredecessor_ok h hfind with ⟨rfl, hnew⟩ | ⟨known, hknown, rfl, hgoal, rfl⟩
  · have hmint : mintIdentity py nfc goalId deliverable obligation none predecessorRequirement =
        .ok rewrite := hrewrite
    exact mintIdentity_ok h hmint (.inl ⟨rfl, hnew⟩)
  · have hprojection := sameProjection_ok h hknown hsame
    cases same with
    | true =>
      obtain ⟨hsameGoal, hdeliverable⟩ := hprojection.1 rfl
      rw [Option.map_some, (h.obligation_id hknown).1, PyLib.strOr_str]
      exact retainIdentity_ok h hknown hsameGoal hdeliverable hrewrite
    | false =>
      refine mintIdentity_ok h hrewrite (.inr ⟨known, hknown, rfl, ?_, rfl⟩)
      refine hgoal.imp_left fun hsameGoal => ⟨hsameGoal, fun hdeliverable => ?_⟩
      cases hprojection.2 ⟨hsameGoal, hdeliverable⟩

abbrev nameOf (py : PyLib) (goal : Fields) : String := py.str (goal.get "id")

/-- Every record is for the goal that it is kept under. -/
def Keyed (py : PyLib) (records : List (String × Fields)) : Prop :=
  ∀ key fields, records.lookup key = some fields → py.strOr (Fields.get fields "referee_goal_id") "" = key

def RebuiltPair (py : PyLib) (nfc : List Char → List Char) (obligations : List (Fields × Obligation))
    (requirements : List (Fields × Requirement)) (candidateIds : List String) (state : Rebuild)
    (goalId : String) (claim : Option String) : Prop :=
  ∃ requirement obligation deliverable rewrite value,
    state.requirements.lookup goalId = some (rewriteRequirement requirement rewrite deliverable) ∧
    state.obligations.lookup goalId = some (rewriteObligation obligation rewrite deliverable) ∧
    normalize_deliverable nfc value = .ok deliverable ∧
    Identified py nfc obligations requirements candidateIds goalId deliverable rewrite claim

/-- What a goal comes to. -/
def GoalRebuilt (py : PyLib) (nfc : List Char → List Char) (obligations : List (Fields × Obligation))
    (requirements : List (Fields × Requirement)) (candidateIds : List String) (state : Rebuild)
    (goal : Fields) (claim : Option String) : Prop :=
  ((goal.get "requires_deliverable").truthy = false ∧ claim = none) ∨
  ((goal.get "requires_deliverable").truthy = true ∧
    RebuiltPair py nfc obligations requirements candidateIds state (nameOf py goal) claim)

omit h in
theorem get_rewriteRequirement (rewrite : Rewrite) :
    (rewriteRequirement requirement rewrite deliverable).get "referee_goal_id" =
      requirement.get "referee_goal_id" := by
  rw [rewriteRequirement, Fields.get_set_of_ne _ _ (by decide), Fields.get_set_of_ne _ _ (by decide),
    Fields.get_set_of_ne _ _ (by decide)]

omit h in
theorem get_rewriteObligation (rewrite : Rewrite) :
    (rewriteObligation obligation rewrite deliverable).get "referee_goal_id" =
      obligation.get "referee_goal_id" := by
  rw [rewriteObligation, Fields.get_set_of_ne _ _ (by decide), Fields.get_set_of_ne _ _ (by decide),
    Fields.get_set_of_ne _ _ (by decide), Fields.get_set_of_ne _ _ (by decide),
    Fields.get_set_of_ne _ _ (by decide)]

omit h in
theorem Keyed.assign {records : List (String × Fields)} {key : String} {fields fields' : Fields}
    (hkeyed : Keyed py records) (hlookup : records.lookup key = some fields)
    (hget : Fields.get fields' "referee_goal_id" = Fields.get fields "referee_goal_id") :
    Keyed py (AiOrg.assign key fields' records) := by
  intro k found hfound
  rw [lookup_assign] at hfound
  split_ifs at hfound with hk
  · obtain rfl := Option.some.inj hfound
    rw [hget, hkeyed key fields hlookup, hk]
  · exact hkeyed k found hfound

theorem rebuildGoal_ok {state state' : Rebuild} {goal : Fields}
    (hgoal : rebuildGoal py nfc lineage candidateIds state goal = .ok state') :
    ∃ claim, GoalRebuilt py nfc obligations requirements candidateIds state' goal claim ∧
      (∀ id, claim = some id → id ∉ state.claimed) ∧ state'.claimed = claim.toList ++ state.claimed ∧
      state'.requirements.map Prod.fst = state.requirements.map Prod.fst ∧
      state'.obligations.map Prod.fst = state.obligations.map Prod.fst ∧
      (∀ key ≠ nameOf py goal, state'.requirements.lookup key = state.requirements.lookup key ∧
        state'.obligations.lookup key = state.obligations.lookup key) ∧
      (Keyed py state.requirements → Keyed py state'.requirements) ∧
      (Keyed py state.obligations → Keyed py state'.obligations) := by
  unfold rebuildGoal at hgoal
  split_ifs at hgoal with hrequires
  · obtain rfl := Except.ok.inj hgoal
    exact ⟨none, .inl ⟨hrequires, rfl⟩, nofun, rfl, rfl, rfl, fun _ _ => ⟨rfl, rfl⟩, id, id⟩
  · dsimp only at hgoal
    split at hgoal
    · rename_i requirement obligation hrequirement hobligation
      obtain ⟨deliverable, rewrite, claim, hnormal, hidentified, hfresh, hrequirements, hobligations,
        hclaimed⟩ := rebuildPair_ok h hgoal
      have hsome : ∀ {records : List (String × Fields)} {fields : Fields},
          records.lookup (py.str (goal.get "id")) = some fields →
          (records.lookup (py.str (goal.get "id"))).isSome := fun hlookup => by rw [hlookup]; rfl
      refine ⟨claim, .inr ⟨eq_true_of_ne_false hrequires, requirement, obligation, deliverable, rewrite, _,
        ?_, ?_, hnormal, hidentified⟩, hfresh, hclaimed, ?_, ?_, fun key hkey => ⟨?_, ?_⟩, fun hkeyed => ?_,
        fun hkeyed => ?_⟩
      · rw [hrequirements, lookup_assign, if_pos rfl]
      · rw [hobligations, lookup_assign, if_pos rfl]
      · rw [hrequirements, keys_assign, if_pos (lookup_isSome_iff.1 (hsome hrequirement))]
      · rw [hobligations, keys_assign, if_pos (lookup_isSome_iff.1 (hsome hobligation))]
      · rw [hrequirements, lookup_assign, if_neg hkey]
      · rw [hobligations, lookup_assign, if_neg hkey]
      · rw [hrequirements]
        exact hkeyed.assign hrequirement (get_rewriteRequirement rewrite)
      · rw [hobligations]
        exact hkeyed.assign hobligation (get_rewriteObligation rewrite)
    · cases hgoal
    · cases hgoal

theorem rebuildGoals_ok {goals : List Fields} {state state' : Rebuild}
    (hgoals : (goals.map (nameOf py)).Nodup)
    (hrun : goals.foldlM (rebuildGoal py nfc lineage candidateIds) state = .ok state') :
    ∃ claims, Forall₂ (GoalRebuilt py nfc obligations requirements candidateIds state') goals claims ∧
      claims.Pairwise Unclaimed ∧ (∀ claim ∈ claims, ∀ id, claim = some id → id ∉ state.claimed) ∧
      state'.requirements.map Prod.fst = state.requirements.map Prod.fst ∧
      state'.obligations.map Prod.fst = state.obligations.map Prod.fst ∧
      (∀ key ∉ goals.map (nameOf py), state'.requirements.lookup key = state.requirements.lookup key ∧
        state'.obligations.lookup key = state.obligations.lookup key) ∧
      (Keyed py state.requirements → Keyed py state'.requirements) ∧
      (Keyed py state.obligations → Keyed py state'.obligations) := by
  induction goals generalizing state with
  | nil =>
    obtain rfl := Except.ok.inj hrun
    exact ⟨[], .nil, .nil, nofun, rfl, rfl, fun _ _ => ⟨rfl, rfl⟩, id, id⟩
  | cons goal goals ih =>
    rw [map_cons, nodup_cons] at hgoals
    rw [foldlM_cons] at hrun
    obtain ⟨middle, hgoal, hrun⟩ := bind_eq_ok_iff.1 hrun
    obtain ⟨claim, hrebuilt, hfresh, hclaimed, hrequirementKeys, hobligationKeys, hother, hkeyedRequirements,
      hkeyedObligations⟩ := rebuildGoal_ok h hgoal
    obtain ⟨claims, hall, hpairs, hfreshRest, hrequirementKeys', hobligationKeys', hother',
      hkeyedRequirements', hkeyedObligations'⟩ := ih hgoals.2 hrun
    refine ⟨claim :: claims, .cons ?_ hall, pairwise_cons.2 ⟨?_, hpairs⟩, ?_,
      hrequirementKeys'.trans hrequirementKeys, hobligationKeys'.trans hobligationKeys, ?_,
      hkeyedRequirements' ∘ hkeyedRequirements, hkeyedObligations' ∘ hkeyedObligations⟩
    · obtain ⟨hrequirement, hobligation⟩ := hother' _ hgoals.1
      refine hrebuilt.imp_right fun ⟨hrequires, r, o, deliverable, rewrite, value, hr, ho, hrest⟩ => ?_
      exact ⟨hrequires, r, o, deliverable, rewrite, value, hrequirement.trans hr, hobligation.trans ho, hrest⟩
    · -- what this goal claims is among what the later ones find claimed
      rintro other hmem id rfl heq
      refine hfreshRest other hmem id heq ?_
      rw [hclaimed]
      exact mem_append_left _ (Option.mem_toList.2 rfl)
    · refine forall_mem_cons.2 ⟨hfresh, fun other hmem id heq hseen => ?_⟩
      refine hfreshRest other hmem id heq ?_
      rw [hclaimed]
      exact mem_append_right _ hseen
    · intro key hkey
      rw [map_cons, mem_cons, not_or] at hkey
      obtain ⟨hrequirement, hobligation⟩ := hother' key hkey.2
      obtain ⟨hrequirement', hobligation'⟩ := hother key hkey.1
      exact ⟨hrequirement.trans hrequirement', hobligation.trans hobligation'⟩

end Pair

end Producer

end AiOrg
