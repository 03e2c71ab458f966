import AiOrg.Proofs.ProducerRebuild

/-!
# What is reconstructed is accepted

The pairs that the reconstruction makes correspond to the goals and follow from the previous root, so only
their assignment to the patch items is left for the validation to reject (`reconstruction_accepted`).
-/

namespace AiOrg

open List

namespace Producer

open Checks

variable {py : PyLib} {nfc : List Char → List Char} {carrier candidate rebuilt overlay : Fields}
  {itemIds : List String} {previous : Option Fields}

/-! ### What a reconstruction goes through -/

theorem checkDetermination_ok {index : ℕ} {value : Json} {goal : Fields}
    (h : checkDetermination py index value = .ok goal) : value = .obj goal := by
  cases value with
  | obj fields =>
    obtain ⟨-, h⟩ := require_bind_eq_ok_iff.1 h
    obtain ⟨-, h⟩ := require_bind_eq_ok_iff.1 h
    rw [Except.ok.inj h]
  | _ => cases h

theorem checkGoal_ok {candidateById : List (String × Fields)} {seen : List Fields} {index : ℕ} {value : Json}
    {goal : Fields} (h : checkGoal py candidateById seen index value = .ok goal) :
    value = .obj goal ∧ py.strOr (goal.get "id") "" ∈ candidateById.map Prod.fst := by
  obtain ⟨other, hother, h⟩ := bind_eq_ok_iff.1 h
  dsimp only at h
  split at h
  · cases h
  · rename_i supplied hsupplied
    obtain ⟨restored, -, h⟩ := bind_eq_ok_iff.1 h
    obtain ⟨-, h⟩ := require_bind_eq_ok_iff.1 h
    obtain rfl := Except.ok.inj h
    refine ⟨checkDetermination_ok hother, lookup_isSome_iff.1 ?_⟩
    rw [hsupplied]
    rfl

theorem collect_ok {α β : Type} {read : List β → ℕ → α → Except Raised β} {P : α → β → Prop}
    (hread : ∀ seen index x y, read seen index x = .ok y → P x y) {seen : List β} {index : ℕ} {xs : List α}
    {ys : List β} (h : collect read seen index xs = .ok ys) : Forall₂ P xs ys := by
  induction xs generalizing seen index ys with
  | nil =>
    obtain rfl := Except.ok.inj h
    exact .nil
  | cons x xs ih =>
    obtain ⟨y, hy, h⟩ := bind_eq_ok_iff.1 h
    obtain ⟨ys, hys, rfl⟩ := map_eq_ok_iff.1 h
    exact .cons (hread _ _ _ _ hy) (ih hys)

theorem carrierList_ok {field : String} {items : List Json} (h : carrierList carrier field = .ok items) :
    carrier.get field = .arr items := by
  unfold carrierList at h
  split at h
  · rename_i found hfound
    rw [hfound, Except.ok.inj h]
  · cases h

theorem one_record_per_goal_ok {values : List Json} {field : String} {records : List (String × Fields)}
    (h : _one_preview_record_per_goal py values field = .ok records) :
    (records.map Prod.fst).Nodup ∧ Keyed py records := by
  have hread : ∀ (seen : List (String × Fields)) index value record,
      readRecord py field seen index value = .ok record ↔
        (value = .obj record.2 ∧ py.strOr (Fields.get record.2 "referee_goal_id") "" = record.1) ∧
        ∀ other ∈ seen, other.1 ≠ record.1 := by
    intro seen index value record
    obtain ⟨goalId, fields⟩ := record
    cases value with
    | obj found =>
      simp only [readRecord, require_bind_eq_ok_iff, Except.ok.injEq, Prod.mk.injEq, Json.obj.injEq,
        mem_map, not_exists, not_and]
      constructor
      · rintro ⟨hfresh, rfl, rfl⟩
        exact ⟨⟨rfl, rfl⟩, hfresh⟩
      · rintro ⟨⟨rfl, rfl⟩, hfresh⟩
        exact ⟨hfresh, rfl, rfl⟩
    | _ => simp [readRecord]
  obtain ⟨hall, hpairs⟩ := (collect_nil_eq_ok_iff hread).1 h
  refine ⟨nodup_map_iff_pairwise.2 hpairs, fun key fields hlookup => ?_⟩
  obtain ⟨value, -, -, hkey⟩ := Traverse.exists_of_mem_right hall (mem_of_lookup hlookup)
  exact hkey

/-- The parts of a reconstruction. -/
structure Reconstruction (py : PyLib) (nfc : List Char → List Char) (carrier : Fields)
    (itemIds : List String) (previous : Option Fields) (rebuilt : Fields) where
  goals : List Fields
  candidateIds : List String
  lineage : Lineage
  start : Rebuild
  state : Rebuild
  assignments : List Json
  named : ∀ goal ∈ goals, py.strOr (goal.get "id") "" ∈ candidateIds
  pairs : previousPairs py previous = .ok lineage
  requirementKeys : (start.requirements.map Prod.fst).Nodup
  obligationKeys : (start.obligations.map Prod.fst).Nodup
  requirementsKeyed : Keyed py start.requirements
  obligationsKeyed : Keyed py start.obligations
  run : goals.foldlM (rebuildGoal py nfc lineage candidateIds) start = .ok state
  getGoals : rebuilt.get "goals" = .arr (goals.map .obj)
  getRequirements : rebuilt.get "deliverable_requirements" = .arr (state.requirements.map (.obj ·.2))
  getObligations : rebuilt.get "production_obligations" = .arr (state.obligations.map (.obj ·.2))
  getAssignments : rebuilt.get "patch_plan" = .arr assignments
  assigned : ∃ values, rebuildAssignments py values itemIds state.rewritten = .ok assignments
  exact : hasExactly carrier canonicalRootPreviewFields = true →
    hasExactly rebuilt canonicalRootPreviewFields = true

theorem reconstruct_ok
    (h : _reconstruct_producer_aware_carrier py nfc carrier candidate itemIds previous = .ok rebuilt) :
    Nonempty (Reconstruction py nfc carrier itemIds previous rebuilt) := by
  unfold _reconstruct_producer_aware_carrier at h
  obtain ⟨⟨problem, pointer⟩, -, h⟩ := bind_eq_ok_iff.1 h
  dsimp only at h
  split at h
  · rename_i candidateGoals carrierGoals _ hcarrier
    obtain ⟨goals, hgoals, h⟩ := bind_eq_ok_iff.1 h
    obtain ⟨requirementValues, -, h⟩ := bind_eq_ok_iff.1 h
    obtain ⟨obligationValues, -, h⟩ := bind_eq_ok_iff.1 h
    obtain ⟨assignmentValues, -, h⟩ := bind_eq_ok_iff.1 h
    obtain ⟨lineage, hpairs, h⟩ := bind_eq_ok_iff.1 h
    obtain ⟨requirements, hrequirements, h⟩ := bind_eq_ok_iff.1 h
    obtain ⟨obligations, hobligations, h⟩ := bind_eq_ok_iff.1 h
    obtain ⟨state, hrun, h⟩ := bind_eq_ok_iff.1 h
    obtain ⟨assignments, hassignments, hresult⟩ := bind_eq_ok_iff.1 h
    obtain ⟨-, hgoals⟩ := require_bind_eq_ok_iff.1 hgoals
    obtain ⟨-, -, hgoals⟩ := bind_eq_ok_iff.1 hgoals
    obtain ⟨read, hread, hgoals⟩ := bind_eq_ok_iff.1 hgoals
    obtain ⟨supplied, -, hgoals⟩ := bind_eq_ok_iff.1 hgoals
    obtain ⟨-, hgoals⟩ := require_bind_eq_ok_iff.1 hgoals
    obtain rfl := Except.ok.inj hgoals
    have hcheck : ∀ seen index value goal,
        checkGoal py (goalsById candidateGoals) seen index value = .ok goal →
        value = .obj goal ∧ py.strOr (goal.get "id") "" ∈ (goalsById candidateGoals).map Prod.fst :=
      fun _ _ _ _ => checkGoal_ok
    have hall := collect_ok hcheck hread
    obtain ⟨hrequirementKeys, hrequirementsKeyed⟩ := one_record_per_goal_ok hrequirements
    obtain ⟨hobligationKeys, hobligationsKeyed⟩ := one_record_per_goal_ok hobligations
    have hvalues : carrierGoals = read.map .obj := by
      rw [← forall₂_eq_eq_eq, forall₂_map_right_iff]
      exact hall.imp fun _ _ => And.left
    obtain rfl := Except.ok.inj hresult
    refine ⟨⟨read, _, lineage, _, state, assignments, fun goal hgoal => ?_, hpairs, hrequirementKeys,
      hobligationKeys, hrequirementsKeyed, hobligationsKeyed, hrun, ?_, ?_, ?_, Fields.get_set_self _ _ _,
      ⟨_, hassignments⟩, fun hexact => hasExactly_set (by decide) (hasExactly_set (by decide) (hasExactly_set (by decide) hexact))⟩⟩
    · obtain ⟨value, -, -, hnamed⟩ := Traverse.exists_of_mem_right hall hgoal
      exact hnamed
    · rw [Fields.get_set_of_ne _ _ (by decide), Fields.get_set_of_ne _ _ (by decide),
        Fields.get_set_of_ne _ _ (by decide), hcarrier, hvalues]
    · rw [Fields.get_set_of_ne _ _ (by decide), Fields.get_set_of_ne _ _ (by decide), Fields.get_set_self]
    · rw [Fields.get_set_of_ne _ _ (by decide), Fields.get_set_self]
  · cases h

theorem get_expandedObligation {obligation : Fields} {links : Json} {field : String}
    (hfield : field ∈ productionObligationFields) (hlinks : field ≠ "replacement_links") :
    Fields.get (((productionObligationFields.filter (· ≠ "replacement_links")).map fun field =>
      (field, Fields.get obligation field)) ++ [("replacement_links", links)]) field =
      obligation.get field := by
  simp only [productionObligationFields, mem_cons, not_mem_nil, or_false] at hfield
  rcases hfield with rfl | rfl | rfl | rfl | rfl | rfl
  · rfl
  · rfl
  · rfl
  · rfl
  · rfl
  · exact absurd rfl hlinks

theorem get_expandedLinks {obligation : Fields} {links : Json} :
    Fields.get (((productionObligationFields.filter (· ≠ "replacement_links")).map fun field =>
      (field, Fields.get obligation field)) ++ [("replacement_links", links)]) "replacement_links" = links :=
  rfl

/-- An obligation of the root against the one of the carrier that it is expanded from. -/
def Expands (py : PyLib) (value expanded : Json) : Prop :=
  ∃ obligation pointer links, value = .obj obligation ∧ expandLinks py obligation pointer = .ok links ∧
    expanded = .obj (((productionObligationFields.filter (· ≠ "replacement_links")).map fun field =>
      (field, Fields.get obligation field)) ++ [("replacement_links", links)])

theorem expandObligation_ok {seen : List Json} {index : ℕ} {value expanded : Json}
    (h : expandObligation py seen index value = .ok expanded) : Expands py value expanded := by
  cases value with
  | obj obligation =>
    obtain ⟨-, h⟩ := raise_preview_fields_bind_eq_ok_iff.1 h
    obtain ⟨links, hlinks, h⟩ := bind_eq_ok_iff.1 h
    exact ⟨obligation, _, links, rfl, hlinks, (Except.ok.inj h).symm⟩
  | _ => cases h

theorem expandGoal_ok {seen : List Json} {index : ℕ} {value expanded : Json}
    (h : expandGoal py seen index value = .ok expanded) :
    ∃ goal fields, value = .obj goal ∧ expanded = .obj fields ∧
      Fields.get fields "id" = Fields.get goal "id" ∧
      Fields.get fields "requires_deliverable" = Fields.get goal "requires_deliverable" := by
  obtain ⟨goal, hgoal, h⟩ := bind_eq_ok_iff.1 h
  obtain ⟨-, h⟩ := raise_preview_fields_bind_eq_ok_iff.1 h
  exact ⟨goal, _, checkDetermination_ok hgoal, (Except.ok.inj h).symm, rfl, rfl⟩

/-- The collections that a carrier is expanded to. -/
structure Expansion (py : PyLib) (value overlay : Fields) where
  goals : List Json
  expandedGoals : List Json
  obligations : List Json
  expandedObligations : List Json
  goalsOf : value.get "goals" = .arr goals
  obligationsOf : value.get "production_obligations" = .arr obligations
  readGoals : Forall₂ (fun value expanded => ∃ goal fields, value = .obj goal ∧ expanded = .obj fields ∧
    Fields.get fields "id" = Fields.get goal "id" ∧
    Fields.get fields "requires_deliverable" = Fields.get goal "requires_deliverable") goals expandedGoals
  readObligations : Forall₂ (Expands py) obligations expandedObligations
  result : overlay = [("goals", .arr expandedGoals),
    ("deliverable_requirements", value.get "deliverable_requirements"),
    ("production_obligations", .arr expandedObligations), ("patch_plan", value.get "patch_plan")]

theorem expand_ok {value : Fields} (h : _expand_canonical_root_preview_carrier py value = .ok overlay) :
    Nonempty (Expansion py value overlay) := by
  obtain ⟨goals, hgoals, h⟩ := bind_eq_ok_iff.1 h
  obtain ⟨expandedGoals, hexpandedGoals, h⟩ := bind_eq_ok_iff.1 h
  obtain ⟨obligations, hobligations, h⟩ := bind_eq_ok_iff.1 h
  obtain ⟨expandedObligations, hexpandedObligations, h⟩ := bind_eq_ok_iff.1 h
  have hread : ∀ seen index value expanded, expandObligation py seen index value = .ok expanded →
      Expands py value expanded := fun _ _ _ _ => expandObligation_ok
  have hreadGoal : ∀ seen index value expanded, expandGoal py seen index value = .ok expanded →
      ∃ goal fields, value = .obj goal ∧ expanded = .obj fields ∧
        Fields.get fields "id" = Fields.get goal "id" ∧
        Fields.get fields "requires_deliverable" = Fields.get goal "requires_deliverable" :=
    fun _ _ _ _ => expandGoal_ok
  exact ⟨⟨goals, expandedGoals, obligations, expandedObligations, carrierList_ok hgoals,
    carrierList_ok hobligations, collect_ok hreadGoal hexpandedGoals,
    collect_ok hread hexpandedObligations, (Except.ok.inj h).symm⟩⟩

theorem readsLinks_nil {links : List Link} (h : ReadsLinks (.arr []) links) : links = [] := by
  obtain ⟨items, heq, -, hall⟩ := h
  obtain rfl := Json.arr.inj heq
  exact forall₂_nil_left_iff.1 hall

theorem readsLinks_singleton {link : Fields} {replaces reason : String} {links : List Link}
    (hreplaces : link.get "replaces_obligation_id" = .str replaces)
    (hreason : link.get "replacement_reason" = .str reason) (h : ReadsLinks (.arr [.obj link]) links) :
    links = [⟨replaces, reason⟩] := by
  obtain ⟨items, heq, -, hall⟩ := h
  obtain rfl := Json.arr.inj heq
  obtain ⟨read, _, ⟨fields, hfields, -, hreplaces', -, hreason', -⟩, hnil, rfl⟩ :=
    forall₂_cons_left_iff.1 hall
  cases hnil
  obtain rfl := Json.obj.inj hfields
  rw [hreplaces] at hreplaces'
  rw [hreason] at hreason'
  rw [Json.str.inj hreplaces', Json.str.inj hreason']

theorem links_of_expand {record : Fields} {pointer : String} {value : Json} {links : List Link}
    (hexpand : expandLinks py record pointer = .ok value) (hread : ReadsLinks value links) :
    (record.get "replaces_obligation_id" = .str "" ∧ record.get "replacement_reason" = .str "" ∧ links = []) ∨
    ∃ replaces reason, record.get "replaces_obligation_id" = .str replaces ∧
      record.get "replacement_reason" = .str reason ∧ NonBlank replaces ∧ links = [⟨replaces, reason⟩] := by
  unfold expandLinks at hexpand
  dsimp only at hexpand
  split_ifs at hexpand with hempty
  · obtain rfl := Except.ok.inj hexpand
    exact .inl ⟨hempty.1, hempty.2, readsLinks_nil hread⟩
  · split at hexpand
    · rename_i replaces reason hreplaces hreason
      obtain ⟨hreplaces, hblank⟩ := nonempty_string_eq_ok_iff.1 hreplaces
      obtain ⟨hreason, -⟩ := nonempty_string_eq_ok_iff.1 hreason
      obtain rfl := Except.ok.inj hexpand
      refine .inr ⟨replaces, reason, hreplaces, hreason, hblank, ?_⟩
      rw [hreplaces, hreason] at hread
      exact readsLinks_singleton rfl rfl hread
    · cases hexpand
    · cases hexpand

theorem readsLinks_retained {predecessor record : Fields} {pointer : String} {value replaces reason : Json}
    {known links : List Link} (hknown : ReadsLinks (predecessor.get "replacement_links") known)
    (hreplaces : firstLink (predecessor.getD "replacement_links" (.arr [])) "replaces_obligation_id" =
      .ok replaces)
    (hreason : firstLink (predecessor.getD "replacement_links" (.arr [])) "replacement_reason" = .ok reason)
    (hrecord : record.get "replaces_obligation_id" = replaces)
    (hrecordReason : record.get "replacement_reason" = reason)
    (hexpand : expandLinks py record pointer = .ok value) (hread : ReadsLinks value links) :
    links = known := by
  obtain ⟨items, hitems, hlength, hall⟩ := hknown
  have hgetD : predecessor.getD "replacement_links" (.arr []) = .arr items := by
    rw [Fields.get] at hitems
    rw [Fields.getD]
    cases hlookup : predecessor.lookup "replacement_links" with
    | none =>
      rw [hlookup] at hitems
      cases hitems
    | some value =>
      rw [hlookup] at hitems
      exact hitems
  rw [hgetD] at hreplaces hreason
  cases hall with
  | nil =>
    obtain rfl := Except.ok.inj hreplaces
    rcases links_of_expand hexpand hread with ⟨-, -, hnil⟩ | ⟨text, -, htext, -, hblank, -⟩
    · exact hnil
    · rw [hrecord] at htext
      exact absurd (Json.str.inj htext).symm hblank.ne_empty
  | @cons item link items rest hlink hrest =>
    have hnil : items = [] := eq_nil_of_length_eq_zero (by simpa using hlength)
    subst hnil
    cases hrest
    obtain ⟨fields, rfl, -, hfieldReplaces, hblank, hfieldReason, -⟩ := hlink
    have hitem : ∀ {key text : String} {found : Json}, Fields.get fields key = .str text →
        item fields key = .ok found → found = .str text := by
      intro key text found hget hfound
      unfold item at hfound
      rw [Fields.get] at hget
      split at hfound
      · rename_i other hother
        rw [hother, Option.getD_some] at hget
        rw [← Except.ok.inj hfound, hget]
      · cases hfound
    rw [hitem hfieldReplaces hreplaces] at hrecord
    rw [hitem hfieldReason hreason] at hrecordReason
    rcases links_of_expand hexpand hread with ⟨hempty, -, -⟩ | ⟨text, text', htext, htext', -, hlinks⟩
    · rw [hrecord] at hempty
      exact absurd (Json.str.inj hempty) hblank.ne_empty
    · rw [hrecord] at htext
      rw [hrecordReason] at htext'
      rw [hlinks, ← Json.str.inj htext, ← Json.str.inj htext']

section Rule

variable {lineage : Lineage} {knownObligations : List (Fields × Obligation)}
  {knownRequirements : List (Fields × Requirement)}

/-- Of the previous pairs only one of the same goal and deliverable has the identity of a pair. -/
structure Apart (py : PyLib) (nfc : List Char → List Char) (knownObligations : List (Fields × Obligation))
    (knownRequirements : List (Fields × Requirement)) (obligation : Obligation) : Prop where
  ofObligation : ∀ known ∈ knownObligations, ∀ digest,
    production_obligation_identity py nfc obligation.goalId (.str obligation.deliverable) = .ok digest →
    known.2.id = "obligation:" ++ digest →
    known.2.goalId = obligation.goalId ∧ known.2.deliverable = obligation.deliverable
  ofRequirement : ∀ known ∈ knownRequirements, ∀ digest,
    production_obligation_identity py nfc obligation.goalId (.str obligation.deliverable) = .ok digest →
    known.2.id = "requirement:" ++ digest →
    known.2.goalId = obligation.goalId ∧ known.2.deliverable = obligation.deliverable

/-- A record of the carrier, rewritten, and the obligation that it is read as. -/
structure FromRecord (py : PyLib) (nfc : List Char → List Char) (record : Fields)
    (obligation : Obligation) : Prop where
  id : record.get "id" = .str obligation.id
  goal : record.get "referee_goal_id" = .str obligation.goalId
  requirement : record.get "deliverable_requirement_id" = .str obligation.requirementId
  deliverable : normalize_deliverable nfc (record.get "deliverable") = .ok obligation.deliverable
  links : ∃ pointer value, expandLinks py record pointer = .ok value ∧ ReadsLinks value obligation.links

theorem Identified.lineageRule (h : Known py nfc previous lineage knownObligations knownRequirements)
    {candidateIds currentGoals : List String} {rewrite : Rewrite} {claim : Option String}
    {requirement : Requirement} {obligation : Obligation} {record : Fields}
    (hidentified : Identified py nfc knownObligations knownRequirements candidateIds obligation.goalId
      obligation.deliverable rewrite claim)
    (hid : obligation.id = rewrite.obligationId) (hrequirement : requirement.id = rewrite.requirementId)
    (hreplaces : record.get "replaces_obligation_id" = rewrite.replaces)
    (hreason : record.get "replacement_reason" = rewrite.reason) (hrecord : FromRecord py nfc record obligation)
    (hcurrent : ∀ goalId ∈ currentGoals, goalId ∈ candidateIds)
    (hapart : Apart py nfc knownObligations knownRequirements obligation) :
    LineageRule py nfc previous.isNone lineage currentGoals requirement obligation claim := by
  obtain ⟨pointer, value, hexpand, hlinks⟩ := hrecord.links
  have hinitial : ∀ known ∈ knownObligations, previous.isNone = true → obligation.links = [] := by
    intro known hknown hnone
    rw [h.initial (Option.isNone_iff_eq_none.1 hnone)] at hknown
    cases hknown
  have hnone : (∀ known ∈ knownObligations, known.2.goalId ≠ obligation.goalId) →
      lineage.obligations.lookup obligation.goalId = none := by
    intro hnew
    cases hlookup : lineage.obligations.lookup obligation.goalId with
    | none => rfl
    | some fields =>
      obtain ⟨known, hknown, hgoal, -⟩ := h.lookup_obligation.1 hlookup
      exact absurd hgoal (hnew known hknown)
  cases hidentified with
  | @initial digest hdigest hnew =>
    have hempty : obligation.links = [] := by
      rcases links_of_expand hexpand hlinks with ⟨-, -, hempty⟩ | ⟨text, -, htext, -, hblank, -⟩
      · exact hempty
      · rw [hreplaces] at htext
        exact absurd (Json.str.inj htext).symm hblank.ne_empty
    refine ⟨fun _ => hempty, fun goalId howner => ?_, fun goalId howner => ?_, .inl ⟨rfl, hnone hnew, hempty⟩⟩
    · obtain ⟨known, hknown, hsame, rfl⟩ := h.owner.1 howner
      exact (hapart.ofObligation known hknown digest hdigest (hsame.trans hid)).1
    · obtain ⟨known, hknown, hsame, rfl⟩ := h.requirementOwner.1 howner
      exact (hapart.ofRequirement known hknown digest hdigest (hsame.trans hrequirement)).1
  | @retained known required replaces reason hknown hrequired hgoal hsame hdeliverable hfirst hfirstReason =>
    obtain ⟨fields, heq, -, -, -, -, -, -, -, -, hnormalize, hknownLinks, -⟩ := h.readObligation known hknown
    obtain rfl := Json.obj.inj heq
    have hretained := readsLinks_retained hknownLinks hfirst hfirstReason hreplaces hreason hexpand hlinks
    refine ⟨hinitial known hknown, fun goalId howner => ?_, fun goalId howner => ?_,
      .inr ⟨obligation.goalId, known.1, .retained (h.lookup_obligation.2 ⟨known, hknown, hgoal, rfl⟩), ?_,
        known.2.deliverable, required.1, hnormalize,
        h.lookup_requirement.2 ⟨required, hrequired, hsame, rfl⟩, ?_⟩⟩
    · obtain ⟨other, hother, hotherId, rfl⟩ := h.owner.1 howner
      have heq : other = known := inj_on_of_nodup_map h.obligationIds hother hknown (hotherId.trans hid)
      rw [heq, hgoal]
    · obtain ⟨other, hother, hotherId, rfl⟩ := h.requirementOwner.1 howner
      have heq : other = required :=
        inj_on_of_nodup_map h.requirementIds hother hrequired (hotherId.trans hrequirement)
      rw [heq, hsame]
    · rw [(h.obligation_id hknown).1, PyLib.strOr_str]
    · rw [if_pos ⟨rfl, hdeliverable⟩]
      refine ⟨?_, ?_, ?_⟩
      · rw [hid, (h.obligation_id hknown).1]
      · rw [hrequirement, h.requirement_id hrequired]
      · rw [hretained]
        exact sameLinks_of_reads hknownLinks
  | @successor known required digest reason hdigest hknown hrequired hgoal hsame hblank =>
    obtain ⟨fields, heq, -, -, -, -, -, -, -, -, hnormalize, -, -⟩ := h.readObligation known hknown
    obtain rfl := Json.obj.inj heq
    obtain ⟨hknownId, hknownBlank⟩ := h.obligation_id hknown
    have hone : obligation.links = [⟨known.2.id, reason⟩] := by
      rcases links_of_expand hexpand hlinks with ⟨hempty, -, -⟩ | ⟨text, text', htext, htext', -, hone⟩
      · rw [hreplaces] at hempty
        exact absurd (Json.str.inj hempty) hknownBlank.ne_empty
      · rw [hreplaces] at htext
        rw [hreason] at htext'
        rw [hone, ← Json.str.inj htext, ← Json.str.inj htext']
    have hchanged : ¬ (known.2.goalId = obligation.goalId ∧ known.2.deliverable = obligation.deliverable) := by
      rintro ⟨hsameGoal, hsameDeliverable⟩
      rcases hgoal with ⟨-, hne⟩ | ⟨hnew, -⟩
      · exact hne hsameDeliverable
      · exact hnew known hknown hsameGoal
    have hlookup : lineage.obligations.lookup known.2.goalId = some known.1 :=
      h.lookup_obligation.2 ⟨known, hknown, rfl, rfl⟩
    refine ⟨hinitial known hknown, fun goalId howner => ?_, fun goalId howner => ?_,
      .inr ⟨known.2.goalId, known.1, ?_, ?_, known.2.deliverable, required.1, hnormalize,
        h.lookup_requirement.2 ⟨required, hrequired, hsame, rfl⟩, ?_⟩⟩
    · obtain ⟨other, hother, hotherId, rfl⟩ := h.owner.1 howner
      exact (hapart.ofObligation other hother digest hdigest (hotherId.trans hid)).1
    · obtain ⟨other, hother, hotherId, rfl⟩ := h.requirementOwner.1 howner
      exact (hapart.ofRequirement other hother digest hdigest (hotherId.trans hrequirement)).1
    · rcases hgoal with ⟨hsameGoal, -⟩ | ⟨hnew, hgone⟩
      · rw [hsameGoal] at hlookup ⊢
        exact .retained hlookup
      · refine .replaced (hnone hnew) hone ?_ hlookup fun hmem => hgone (hcurrent _ hmem)
        rw [h.owner.2 ⟨known, hknown, rfl, rfl⟩, Option.getD_some]
    · rw [hknownId, PyLib.strOr_str]
    · rw [if_neg hchanged]
      refine ⟨?_, ?_, ?_, ?_⟩
      · rw [hknownId]
        intro heq
        exact hchanged (hapart.ofObligation known hknown digest hdigest ((Json.str.inj heq).symm.trans hid))
      · rw [h.requirement_id hrequired]
        intro heq
        obtain ⟨hgoal', hdeliverable'⟩ := hapart.ofRequirement required hrequired digest hdigest
          ((Json.str.inj heq).symm.trans hrequirement)
        exact hchanged ⟨hsame.symm.trans hgoal',
          (h.paired known hknown required hrequired hsame).symm.trans hdeliverable'⟩
      · rw [hone]
        rfl
      · rw [hone, hknownId]
        rfl

end Rule

theorem exists_function {α β κ : Type} [DecidableEq κ] [Inhabited β] {R : α → β → Prop} {S : β → β → Prop}
    (hsymm : ∀ a b, S a b → S b a) {key : α → κ} {xs : List α} {ys : List β}
    (hn : (xs.map key).Nodup) (h : Forall₂ R xs ys) (hpairs : ys.Pairwise S) :
    ∃ f : κ → β, (∀ x ∈ xs, R x (f (key x)) ∧ f (key x) ∈ ys) ∧
      ∀ a ∈ xs, ∀ b ∈ xs, key a ≠ key b → S (f (key a)) (f (key b)) := by
  induction h with
  | nil => exact ⟨fun _ => default, nofun, nofun⟩
  | @cons x y xs ys hxy _ ih =>
    rw [map_cons, nodup_cons] at hn
    rw [pairwise_cons] at hpairs
    obtain ⟨f, hf, happart⟩ := ih hn.2 hpairs.2
    have hne : ∀ a ∈ xs, key a ≠ key x := fun a ha heq => hn.1 (heq ▸ mem_map_of_mem ha)
    refine ⟨Function.update f (key x) y, ?_, ?_⟩
    · refine forall_mem_cons.2 ⟨?_, fun a ha => ?_⟩
      · rw [Function.update_self]
        exact ⟨hxy, mem_cons_self⟩
      · rw [Function.update_of_ne (hne a ha)]
        exact ⟨(hf a ha).1, mem_cons_of_mem _ (hf a ha).2⟩
    · intro a ha b hb hkey
      rcases mem_cons.1 ha with rfl | ha' <;> rcases mem_cons.1 hb with rfl | hb'
      · exact absurd rfl hkey
      · rw [Function.update_self, Function.update_of_ne (hne b hb')]
        exact hpairs.1 _ (hf b hb').2
      · rw [Function.update_self, Function.update_of_ne (hne a ha')]
        exact hsymm _ _ (hpairs.1 _ (hf a ha').2)
      · rw [Function.update_of_ne (hne a ha'), Function.update_of_ne (hne b hb')]
        exact happart a ha' b hb' hkey

theorem unclaimed_symm (a b : Option String) (h : Unclaimed a b) : Unclaimed b a :=
  fun id hb ha => h id ha hb

variable {goals : List Goal} {requirements : List Requirement} {obligations : List Obligation}

/-- What the collections of a carrier are read as. -/
structure ReadsOverlay (nfc : List Char → List Char) (overlay : Fields) (goals : List Goal)
    (requirements : List Requirement) (obligations : List Obligation) : Prop where
  readGoals : ∃ values, overlay.get "goals" = .arr values ∧ Forall₂ ReadsGoal values goals
  readRequirements : ∃ values, overlay.get "deliverable_requirements" = .arr values ∧
    Forall₂ (ReadsRequirement nfc) values requirements
  readObligations : ∃ values, overlay.get "production_obligations" = .arr values ∧
    Forall₂ (ReadsObligation nfc) values obligations
  goalIds : (goals.map (·.id)).Nodup

/-- There are records only for goals that require a deliverable. -/
structure OnlyRequired (goals : List Goal) (requirements : List Requirement)
    (obligations : List Obligation) : Prop where
  ofRequirement : ∀ requirement ∈ requirements,
    ∃ goal ∈ goals, goal.requires = true ∧ goal.id = requirement.goalId
  ofObligation : ∀ obligation ∈ obligations,
    ∃ goal ∈ goals, goal.requires = true ∧ goal.id = obligation.goalId

section Assembly

variable (R : Reconstruction py nfc carrier itemIds previous rebuilt)
  (hoverlay : _expand_canonical_root_preview_carrier py rebuilt = .ok overlay)
  (hreads : ReadsOverlay nfc overlay goals requirements obligations)
include hoverlay hreads

theorem goals_read : Forall₂ (fun fields goal => Fields.get fields "id" = .str (Goal.id goal) ∧
    Fields.get fields "requires_deliverable" = .bool goal.requires) R.goals goals := by
  obtain ⟨E⟩ := expand_ok hoverlay
  obtain ⟨values, hvalues, hall⟩ := hreads.readGoals
  have hexpanded : E.expandedGoals = values := by
    rw [E.result] at hvalues
    exact Json.arr.inj hvalues
  have hgoals : E.goals = R.goals.map .obj := Json.arr.inj (E.goalsOf.symm.trans R.getGoals)
  subst hexpanded
  have hcomp := Traverse.comp E.readGoals hall
  rw [hgoals, forall₂_map_left_iff] at hcomp
  refine hcomp.imp fun fields goal h => ?_
  obtain ⟨_, ⟨other, expanded, heq, rfl, hid, hrequires⟩, read, hread, -, -, hgoalId, -, hgoalRequires⟩ := h
  obtain rfl := Json.obj.inj heq
  obtain rfl := Json.obj.inj hread
  exact ⟨hid.symm.trans hgoalId, hrequires.symm.trans hgoalRequires⟩

theorem requirements_read (hkeyed : Keyed py R.state.requirements)
    (hkeys : (R.state.requirements.map Prod.fst).Nodup) :
    Forall₂ (fun entry requirement => entry.1 = Requirement.goalId requirement ∧
      ReadsRequirement nfc (.obj entry.2) requirement) R.state.requirements requirements := by
  obtain ⟨E⟩ := expand_ok hoverlay
  obtain ⟨values, hvalues, hall⟩ := hreads.readRequirements
  have hrecords : values = R.state.requirements.map (.obj ·.2) := by
    rw [E.result] at hvalues
    exact Json.arr.inj (hvalues.symm.trans R.getRequirements)
  rw [hrecords, forall₂_map_left_iff] at hall
  have hkey : ∀ entry ∈ R.state.requirements, py.strOr (Fields.get entry.2 "referee_goal_id") "" = entry.1 :=
    fun entry hentry => hkeyed entry.1 entry.2 (lookup_of_mem hkeys hentry)
  refine ((forall₂_and_left _ _).2 ⟨hkey, hall⟩).imp fun entry requirement h => ⟨?_, h.2⟩
  obtain ⟨hentry, fields, heq, -, -, -, hgoal, -⟩ := h
  obtain rfl := Json.obj.inj heq
  rw [← hentry, hgoal, PyLib.strOr_str]

theorem obligations_read (hkeyed : Keyed py R.state.obligations)
    (hkeys : (R.state.obligations.map Prod.fst).Nodup) :
    Forall₂ (fun entry obligation => entry.1 = Obligation.goalId obligation ∧
      FromRecord py nfc entry.2 obligation) R.state.obligations obligations := by
  obtain ⟨E⟩ := expand_ok hoverlay
  obtain ⟨values, hvalues, hall⟩ := hreads.readObligations
  have hexpanded : E.expandedObligations = values := by
    rw [E.result] at hvalues
    exact Json.arr.inj hvalues
  have hrecords : E.obligations = R.state.obligations.map (.obj ·.2) :=
    Json.arr.inj (E.obligationsOf.symm.trans R.getObligations)
  subst hexpanded
  have hcomp := Traverse.comp E.readObligations hall
  rw [hrecords, forall₂_map_left_iff] at hcomp
  have hkey : ∀ entry ∈ R.state.obligations, py.strOr (Fields.get entry.2 "referee_goal_id") "" = entry.1 :=
    fun entry hentry => hkeyed entry.1 entry.2 (lookup_of_mem hkeys hentry)
  refine ((forall₂_and_left _ _).2 ⟨hkey, hcomp⟩).imp fun entry obligation h => ?_
  obtain ⟨hentry, _, ⟨record, pointer, links, heq, hlinks, rfl⟩, fields, hfields, -, hid, -, hgoal, -,
    hrequirement, -, -, hdeliverable, hreadLinks, -⟩ := h
  obtain rfl := Json.obj.inj heq
  obtain rfl := Json.obj.inj hfields
  rw [get_expandedObligation (by decide) (by decide)] at hid hgoal hrequirement hdeliverable
  rw [get_expandedLinks] at hreadLinks
  refine ⟨?_, hid, hgoal, hrequirement, hdeliverable, pointer, links, hlinks, hreadLinks⟩
  rw [← hentry, hgoal, PyLib.strOr_str]

end Assembly

theorem Identified.origin {knownObligations : List (Fields × Obligation)}
    {knownRequirements : List (Fields × Requirement)} {candidateIds : List String}
    {goalId deliverable : String} {rewrite : Rewrite} {claim : Option String}
    (h : Identified py nfc knownObligations knownRequirements candidateIds goalId deliverable rewrite claim) :
    (∃ known ∈ knownObligations, ∃ required ∈ knownRequirements, known.2.goalId = goalId ∧
      required.2.goalId = goalId ∧ known.2.deliverable = deliverable ∧ rewrite.obligationId = known.2.id ∧
      rewrite.requirementId = required.2.id) ∨
    ∃ digest, production_obligation_identity py nfc goalId (.str deliverable) = .ok digest ∧
      rewrite.obligationId = "obligation:" ++ digest ∧ rewrite.requirementId = "requirement:" ++ digest := by
  cases h with
  | initial hdigest => exact .inr ⟨_, hdigest, rfl, rfl⟩
  | retained hknown hrequired hgoal hsame hdeliverable =>
    exact .inl ⟨_, hknown, _, hrequired, hgoal, hsame, hdeliverable, rfl, rfl⟩
  | successor hdigest => exact .inr ⟨_, hdigest, rfl, rfl⟩

theorem Identified.goal_eq {prev : Option Fields} {lineage : Lineage}
    {knownObligations : List (Fields × Obligation)} {knownRequirements : List (Fields × Requirement)}
    (hknown : Known py nfc prev lineage knownObligations knownRequirements) {candidateIds : List String}
    {a b : Obligation} {rewriteA rewriteB : Rewrite} {claimA claimB : Option String}
    (hcurrent : ∀ digest, production_obligation_identity py nfc a.goalId (.str a.deliverable) = .ok digest →
      production_obligation_identity py nfc b.goalId (.str b.deliverable) = .ok digest → a.goalId = b.goalId)
    (hapartA : Apart py nfc knownObligations knownRequirements a)
    (hapartB : Apart py nfc knownObligations knownRequirements b)
    (ha : Identified py nfc knownObligations knownRequirements candidateIds a.goalId a.deliverable rewriteA
      claimA)
    (hb : Identified py nfc knownObligations knownRequirements candidateIds b.goalId b.deliverable rewriteB
      claimB) :
    (rewriteA.obligationId = rewriteB.obligationId → a.goalId = b.goalId) ∧
    (rewriteA.requirementId = rewriteB.requirementId → a.goalId = b.goalId) := by
  rcases ha.origin with ⟨known, hmem, required, hmem', hgoal, hgoal', -, hkept, hkept'⟩ |
    ⟨digest, hdigest, hnew, hnew'⟩ <;>
  rcases hb.origin with ⟨other, hother, otherRequired, hother', hgoalB, hgoalB', -, hkeptB, hkeptB'⟩ |
    ⟨digestB, hdigestB, hnewB, hnewB'⟩
  · refine ⟨fun heq => ?_, fun heq => ?_⟩
    · rw [hkept, hkeptB] at heq
      rw [← hgoal, ← hgoalB, inj_on_of_nodup_map hknown.obligationIds hmem hother heq]
    · rw [hkept', hkeptB'] at heq
      rw [← hgoal', ← hgoalB', inj_on_of_nodup_map hknown.requirementIds hmem' hother' heq]
  · refine ⟨fun heq => ?_, fun heq => ?_⟩
    · rw [hkept, hnewB] at heq
      exact hgoal.symm.trans (hapartB.ofObligation known hmem digestB hdigestB heq).1
    · rw [hkept', hnewB'] at heq
      exact hgoal'.symm.trans (hapartB.ofRequirement required hmem' digestB hdigestB heq).1
  · refine ⟨fun heq => ?_, fun heq => ?_⟩
    · rw [hnew, hkeptB] at heq
      exact ((hapartA.ofObligation other hother digest hdigest heq.symm).1.symm.trans hgoalB)
    · rw [hnew', hkeptB'] at heq
      exact ((hapartA.ofRequirement otherRequired hother' digest hdigest heq.symm).1.symm.trans hgoalB')
  · refine ⟨fun heq => ?_, fun heq => ?_⟩
    · rw [hnew, hnewB] at heq
      obtain rfl := (String.append_right_inj _).1 heq
      exact hcurrent digest hdigest hdigestB
    · rw [hnew', hnewB'] at heq
      obtain rfl := (String.append_right_inj _).1 heq
      exact hcurrent digest hdigest hdigestB

/-- No pair has the identity of another: not of one beside it, and not of one of the previous root. -/
structure DistinctIdentities (py : PyLib) (nfc : List Char → List Char) (previous : Option Fields)
    (obligations : List Obligation) : Prop where
  current : ∀ a ∈ obligations, ∀ b ∈ obligations, ∀ digest,
    production_obligation_identity py nfc a.goalId (.str a.deliverable) = .ok digest →
    production_obligation_identity py nfc b.goalId (.str b.deliverable) = .ok digest → a.goalId = b.goalId
  previousObligation : ∀ root ∈ previous, ∀ record, HasRecord root "production_obligations" record →
    ∀ a ∈ obligations, ∀ digest,
      production_obligation_identity py nfc a.goalId (.str a.deliverable) = .ok digest →
      Fields.get record "id" = .str ("obligation:" ++ digest) →
      Fields.get record "referee_goal_id" = .str a.goalId ∧
        normalize_deliverable nfc (Fields.get record "deliverable") = .ok a.deliverable
  previousRequirement : ∀ root ∈ previous, ∀ record, HasRecord root "deliverable_requirements" record →
    ∀ a ∈ obligations, ∀ digest,
      production_obligation_identity py nfc a.goalId (.str a.deliverable) = .ok digest →
      Fields.get record "id" = .str ("requirement:" ++ digest) →
      Fields.get record "referee_goal_id" = .str a.goalId ∧
        normalize_deliverable nfc (Fields.get record "deliverable") = .ok a.deliverable

/-- The ids of a pair are those of the previous pair of the same goal and deliverable, or their content
identity. -/
def PairIdentity (py : PyLib) (nfc : List Char → List Char) (previous : Option Fields)
    (requirement : Requirement) (obligation : Obligation) : Prop :=
  (∃ root ∈ previous, ∃ record required, HasRecord root "production_obligations" record ∧
    HasRecord root "deliverable_requirements" required ∧
    Fields.get record "referee_goal_id" = .str obligation.goalId ∧
    Fields.get required "referee_goal_id" = .str obligation.goalId ∧
    normalize_deliverable nfc (Fields.get record "deliverable") = .ok obligation.deliverable ∧
    Fields.get record "id" = .str obligation.id ∧ Fields.get required "id" = .str requirement.id) ∨
  ∃ digest, production_obligation_identity py nfc obligation.goalId (.str obligation.deliverable) =
    .ok digest ∧ obligation.id = "obligation:" ++ digest ∧ requirement.id = "requirement:" ++ digest

def AcceptedBefore (py : PyLib) (nfc : List Char → List Char) (previous : Option Fields) : Prop :=
  ∀ root ∈ previous, ∃ before result,
    validate_canonical_root_technical_approach py nfc (.obj root) before = .ok result

theorem known_of_previous (hprevious : AcceptedBefore py nfc previous) :
    ∃ prev lineage knownObligations knownRequirements, previousProblem (previous.map .obj) = .ok prev ∧
      previousPairs py previous = .ok lineage ∧
      Known py nfc prev lineage knownObligations knownRequirements ∧
      (∀ known ∈ knownObligations, ∃ root ∈ previous, HasRecord root "production_obligations" known.1) ∧
      ∀ known ∈ knownRequirements, ∃ root ∈ previous, HasRecord root "deliverable_requirements" known.1 := by
  cases previous with
  | none => exact ⟨none, _, [], [], rfl, (@known_none py nfc).1, known_none.2, nofun, nofun⟩
  | some root =>
    obtain ⟨before, result, hvalidate⟩ := hprevious root rfl
    obtain ⟨problem, pointer, lineage, os, rs, hproblem, hpairs, hknown, hos, hrs⟩ :=
      known_of_validate hvalidate
    refine ⟨some problem, lineage, os, rs, ?_, hpairs, hknown, fun known hmem => ⟨root, rfl, hos known hmem⟩,
      fun known hmem => ⟨root, rfl, hrs known hmem⟩⟩
    rw [Option.map_some, previousProblem, hproblem]
    rfl

theorem distinct_apart {prev : Option Fields} {lineage : Lineage}
    {knownObligations : List (Fields × Obligation)} {knownRequirements : List (Fields × Requirement)}
    (hknown : Known py nfc prev lineage knownObligations knownRequirements)
    (hos : ∀ known ∈ knownObligations, ∃ root ∈ previous, HasRecord root "production_obligations" known.1)
    (hrs : ∀ known ∈ knownRequirements, ∃ root ∈ previous, HasRecord root "deliverable_requirements" known.1)
    (hdistinct : DistinctIdentities py nfc previous obligations) {obligation : Obligation}
    (hmem : obligation ∈ obligations) : Apart py nfc knownObligations knownRequirements obligation := by
  refine ⟨fun known hmem' digest hdigest hid => ?_, fun known hmem' digest hdigest hid => ?_⟩
  · obtain ⟨root, hroot, hrecord⟩ := hos known hmem'
    obtain ⟨fields, heq, -, hget, -, hgoal, -, -, -, -, hdeliverable, -⟩ := hknown.readObligation known hmem'
    obtain rfl := Json.obj.inj heq
    obtain ⟨hgoal', hdeliverable'⟩ := hdistinct.previousObligation root hroot known.1 hrecord obligation hmem
      digest hdigest (hget.trans (congrArg _ hid))
    exact ⟨Json.str.inj (hgoal.symm.trans hgoal'), Except.ok.inj (hdeliverable.symm.trans hdeliverable')⟩
  · obtain ⟨root, hroot, hrecord⟩ := hrs known hmem'
    obtain ⟨fields, heq, -, hget, -, hgoal, -, -, hdeliverable, -⟩ := hknown.readRequirement known hmem'
    obtain rfl := Json.obj.inj heq
    obtain ⟨hgoal', hdeliverable'⟩ := hdistinct.previousRequirement root hroot known.1 hrecord obligation hmem
      digest hdigest (hget.trans (congrArg _ hid))
    exact ⟨Json.str.inj (hgoal.symm.trans hgoal'), Except.ok.inj (hdeliverable.symm.trans hdeliverable')⟩

/-! ### All pairs -/

/-- A pair of the reconstruction as the validation reads it, with the identity that it got. -/
def RebuiltAs (py : PyLib) (nfc : List Char → List Char) (knownObligations : List (Fields × Obligation))
    (knownRequirements : List (Fields × Requirement)) (candidateIds : List String) (claim : Option String)
    (requirement : Requirement) (obligation : Obligation) : Prop :=
  ∃ rewrite record, Identified py nfc knownObligations knownRequirements candidateIds obligation.goalId
      obligation.deliverable rewrite claim ∧
    obligation.id = rewrite.obligationId ∧ requirement.id = rewrite.requirementId ∧
    Linked requirement obligation ∧ FromRecord py nfc record obligation ∧
    record.get "replaces_obligation_id" = rewrite.replaces ∧ record.get "replacement_reason" = rewrite.reason

section Assembled

variable (hnfc : Text.IsNormalForm nfc) (R : Reconstruction py nfc carrier itemIds previous rebuilt)
  (hoverlay : _expand_canonical_root_preview_carrier py rebuilt = .ok overlay)
  (hreads : ReadsOverlay nfc overlay goals requirements obligations)
  {knownObligations : List (Fields × Obligation)} {knownRequirements : List (Fields × Requirement)}
include hnfc R hoverlay hreads

theorem pair_of_goal (hrequirementsKeyed : Keyed py R.state.requirements)
    (hobligationsKeyed : Keyed py R.state.obligations)
    (hrequirementKeys : (R.state.requirements.map Prod.fst).Nodup)
    (hobligationKeys : (R.state.obligations.map Prod.fst).Nodup) {claimFor : String → Option String}
    (hclaims : ∀ goal ∈ R.goals, GoalRebuilt py nfc knownObligations knownRequirements R.candidateIds R.state
      goal (claimFor (nameOf py goal)))
    {goal : Goal} (hgoal : goal ∈ goals) (hrequires : goal.requires = true) :
    goal.id ∈ R.candidateIds ∧ ∃ requirement ∈ requirements, ∃ obligation ∈ obligations,
      requirement.goalId = goal.id ∧ obligation.goalId = goal.id ∧
      RebuiltAs py nfc knownObligations knownRequirements R.candidateIds (claimFor goal.id) requirement
        obligation := by
  obtain ⟨fields, hfields, hid, hbool⟩ := Traverse.exists_of_mem_right (goals_read R hoverlay hreads) hgoal
  have hname : nameOf py fields = goal.id := by rw [nameOf, hid, PyLib.str_str]
  have hnamed := R.named fields hfields
  rw [hid, PyLib.strOr_str] at hnamed
  refine ⟨hnamed, ?_⟩
  rcases hclaims fields hfields with ⟨hfalse, -⟩ | ⟨-, required, record, deliverable, rewrite, value,
    hrequirement, hobligation, hnormal, hidentified⟩
  · rw [hbool, hrequires] at hfalse
    cases hfalse
  rw [hname] at hrequirement hobligation hidentified
  obtain ⟨requirement, hmem, hkey, hread⟩ := Traverse.exists_of_mem_right
    (requirements_read R hoverlay hreads hrequirementsKeyed hrequirementKeys).flip (mem_of_lookup hrequirement)
  obtain ⟨obligation, hmem', hkey', hfrom⟩ := Traverse.exists_of_mem_right
    (obligations_read R hoverlay hreads hobligationsKeyed hobligationKeys).flip (mem_of_lookup hobligation)
  dsimp only at hkey hkey' hread hfrom
  have hagain := normalize_deliverable_again hnfc hnormal
  have hobligationDeliverable : obligation.deliverable = deliverable := by
    have hget := hfrom.deliverable
    rw [rewriteObligation, Fields.get_set_of_ne _ _ (by decide), Fields.get_set_of_ne _ _ (by decide),
      Fields.get_set_self] at hget
    exact Except.ok.inj (hget.symm.trans hagain)
  have hobligationId : obligation.id = rewrite.obligationId := by
    have hget := hfrom.id
    rw [rewriteObligation, Fields.get_set_of_ne _ _ (by decide), Fields.get_set_of_ne _ _ (by decide),
      Fields.get_set_of_ne _ _ (by decide), Fields.get_set_of_ne _ _ (by decide),
      Fields.get_set_self] at hget
    exact (Json.str.inj hget).symm
  have hrequirementOf : obligation.requirementId = rewrite.requirementId := by
    have hget := hfrom.requirement
    rw [rewriteObligation, Fields.get_set_of_ne _ _ (by decide), Fields.get_set_of_ne _ _ (by decide),
      Fields.get_set_of_ne _ _ (by decide), Fields.get_set_self] at hget
    exact (Json.str.inj hget).symm
  obtain ⟨fields', heq, -, hrequirementId, -, -, -, hobligationOf, hrequirementDeliverable, -⟩ := hread
  obtain rfl := Json.obj.inj heq
  rw [rewriteRequirement, Fields.get_set_self] at hrequirementDeliverable
  rw [rewriteRequirement, Fields.get_set_of_ne _ _ (by decide), Fields.get_set_self] at hobligationOf
  rw [rewriteRequirement, Fields.get_set_of_ne _ _ (by decide), Fields.get_set_of_ne _ _ (by decide),
    Fields.get_set_self] at hrequirementId
  have hsame : obligation.deliverable = requirement.deliverable :=
    hobligationDeliverable.trans (Except.ok.inj (hagain.symm.trans hrequirementDeliverable))
  refine ⟨requirement, hmem, obligation, hmem', hkey.symm, hkey'.symm, rewrite, _, ?_, hobligationId,
    (Json.str.inj hrequirementId).symm, ⟨hrequirementOf.trans (Json.str.inj hrequirementId), ?_, hsame⟩, hfrom,
    ?_, ?_⟩
  · rw [← hkey', hobligationDeliverable]
    exact hidentified
  · rw [← hobligationOf, hobligationId]
  · rw [rewriteObligation, Fields.get_set_of_ne _ _ (by decide), Fields.get_set_self]
  · rw [rewriteObligation, Fields.get_set_self]

/-- The pairs correspond to the goals and follow from the previous root. -/
theorem reconstructed_pairs (hprevious : AcceptedBefore py nfc previous)
    (honly : OnlyRequired goals requirements obligations)
    (hdistinct : DistinctIdentities py nfc previous obligations) :
    (requirements.map (·.id)).Nodup ∧ (obligations.map (·.id)).Nodup ∧
    Correspondence goals requirements obligations ∧
    (∃ prev, previousProblem (previous.map .obj) = .ok prev ∧
      LineageHolds py nfc prev requirements obligations) ∧
    ∀ requirement ∈ requirements, ∀ obligation ∈ obligations, requirement.goalId = obligation.goalId →
      PairIdentity py nfc previous requirement obligation := by
  obtain ⟨prev, lineage, knownObligations, knownRequirements, hprev, hpairs, hknown, hos, hrs⟩ :=
    known_of_previous hprevious
  have hlineage : lineage = R.lineage := Except.ok.inj (hpairs.symm.trans R.pairs)
  subst hlineage
  have hgoalsRead := goals_read R hoverlay hreads
  have hnames : (R.goals.map (nameOf py)).Nodup := by
    have heq : R.goals.map (nameOf py) = goals.map (·.id) := by
      rw [← forall₂_eq_eq_eq, forall₂_map_left_iff, forall₂_map_right_iff]
      refine hgoalsRead.imp fun fields goal h => ?_
      rw [nameOf, h.1, PyLib.str_str]
    rw [heq]
    exact hreads.goalIds
  obtain ⟨claims, hall, hunclaimed, -, hrequirementKeys, hobligationKeys, -, hrequirementsKeyed,
    hobligationsKeyed⟩ := rebuildGoals_ok hknown hnames R.run
  replace hrequirementsKeyed := hrequirementsKeyed R.requirementsKeyed
  replace hobligationsKeyed := hobligationsKeyed R.obligationsKeyed
  replace hrequirementKeys := hrequirementKeys ▸ R.requirementKeys
  replace hobligationKeys := hobligationKeys ▸ R.obligationKeys
  obtain ⟨claimFor, hclaims, happart⟩ := exists_function unclaimed_symm hnames hall hunclaimed
  have hrequirementGoals : (requirements.map (·.goalId)).Nodup := by
    have heq : R.state.requirements.map Prod.fst = requirements.map (·.goalId) := by
      rw [← forall₂_eq_eq_eq, forall₂_map_left_iff, forall₂_map_right_iff]
      exact (requirements_read R hoverlay hreads hrequirementsKeyed hrequirementKeys).imp fun _ _ => And.left
    exact heq ▸ hrequirementKeys
  have hobligationGoals : (obligations.map (·.goalId)).Nodup := by
    have heq : R.state.obligations.map Prod.fst = obligations.map (·.goalId) := by
      rw [← forall₂_eq_eq_eq, forall₂_map_left_iff, forall₂_map_right_iff]
      exact (obligations_read R hoverlay hreads hobligationsKeyed hobligationKeys).imp fun _ _ => And.left
    exact heq ▸ hobligationKeys
  have hpair := fun goal (hgoal : goal ∈ goals) (hrequires : goal.requires = true) =>
    pair_of_goal hnfc R hoverlay hreads hrequirementsKeyed hobligationsKeyed hrequirementKeys
      hobligationKeys (fun goal hgoal => (hclaims goal hgoal).1) hgoal hrequires
  -- the pair of an obligation is the one of its goal
  have hone : ∀ obligation ∈ obligations, obligation.goalId ∈ R.candidateIds ∧
      (∃ fields ∈ R.goals, nameOf py fields = obligation.goalId) ∧
      ∃ requirement ∈ requirements, requirement.goalId = obligation.goalId ∧
        RebuiltAs py nfc knownObligations knownRequirements R.candidateIds (claimFor obligation.goalId)
          requirement obligation := by
    intro obligation hmem
    obtain ⟨goal, hgoal, hrequires, hid⟩ := honly.ofObligation obligation hmem
    obtain ⟨hnamed, requirement, hrequirement, other, hother, hsame, hsame', hrebuilt⟩ :=
      hpair goal hgoal hrequires
    obtain rfl : other = obligation :=
      inj_on_of_nodup_map hobligationGoals hother hmem (hsame'.trans hid)
    obtain ⟨fields, hfields, hget, -⟩ := Traverse.exists_of_mem_right hgoalsRead hgoal
    refine ⟨hid ▸ hnamed, ⟨fields, hfields, ?_⟩, requirement, hrequirement, hsame.trans hid, hid ▸ hrebuilt⟩
    rw [nameOf, hget, PyLib.str_str, hid]
  have hapart : ∀ obligation ∈ obligations, Apart py nfc knownObligations knownRequirements obligation :=
    fun obligation hmem => distinct_apart hknown hos hrs hdistinct hmem
  have hlinked : ∀ requirement ∈ requirements, ∀ obligation ∈ obligations,
      requirement.goalId = obligation.goalId → RebuiltAs py nfc knownObligations knownRequirements
        R.candidateIds (claimFor obligation.goalId) requirement obligation := by
    intro requirement hrequirement obligation hobligation hsame
    obtain ⟨-, -, other, hother, hsame', hrebuilt⟩ := hone obligation hobligation
    obtain rfl : other = requirement :=
      inj_on_of_nodup_map hrequirementGoals hother hrequirement (hsame'.trans hsame.symm)
    exact hrebuilt
  refine ⟨?_, ?_, ⟨?_, ?_, honly.ofRequirement, honly.ofObligation, ?_⟩, ⟨prev, hprev, R.lineage,
    obligations.map (fun obligation => claimFor obligation.goalId), hknown.hasLineage, ?_, ?_⟩, ?_⟩
  · refine List.Nodup.map_on (fun a ha b hb hids => ?_) (List.Nodup.of_map _ hrequirementGoals)
    refine inj_on_of_nodup_map hrequirementGoals ha hb ?_
    obtain ⟨goal, hgoal, hrequires, hid⟩ := honly.ofRequirement a ha
    obtain ⟨goal', hgoal', hrequires', hid'⟩ := honly.ofRequirement b hb
    obtain ⟨-, _, -, x, hx, -, hsame, -⟩ := hpair goal hgoal hrequires
    obtain ⟨-, _, -, y, hy, -, hsame', -⟩ := hpair goal' hgoal' hrequires'
    obtain ⟨_, _, hx', -, hax, -⟩ := hlinked a ha x hx (hid.symm.trans hsame.symm)
    obtain ⟨_, _, hy', -, hby, -⟩ := hlinked b hb y hy (hid'.symm.trans hsame'.symm)
    rw [← hid, ← hid', ← hsame, ← hsame']
    exact (Identified.goal_eq hknown (hdistinct.current x hx y hy) (hapart x hx) (hapart y hy) hx' hy').2
      (hax.symm.trans (hids.trans hby))
  · refine List.Nodup.map_on (fun a ha b hb hids => ?_) (List.Nodup.of_map _ hobligationGoals)
    refine inj_on_of_nodup_map hobligationGoals ha hb ?_
    obtain ⟨-, -, _, -, -, _, _, ha', hida, -⟩ := hone a ha
    obtain ⟨-, -, _, -, -, _, _, hb', hidb, -⟩ := hone b hb
    exact (Identified.goal_eq hknown (hdistinct.current a ha b hb) (hapart a ha) (hapart b hb) ha' hb').1
      (hida.symm.trans (hids.trans hidb))
  · intro goal hgoal hrequires
    obtain ⟨-, requirement, hmem, -, -, hsame, -⟩ := hpair goal hgoal hrequires
    refine ⟨requirement, ⟨hmem, hsame⟩, fun other hother => ?_⟩
    exact inj_on_of_nodup_map hrequirementGoals hother.1 hmem (hother.2.trans hsame.symm)
  · intro goal hgoal hrequires
    obtain ⟨-, -, -, obligation, hmem, -, hsame, -⟩ := hpair goal hgoal hrequires
    refine ⟨obligation, ⟨hmem, hsame⟩, fun other hother => ?_⟩
    exact inj_on_of_nodup_map hobligationGoals hother.1 hmem (hother.2.trans hsame.symm)
  · intro requirement hrequirement obligation hobligation hsame
    obtain ⟨_, _, -, -, -, hlinks, -⟩ := hlinked requirement hrequirement obligation hobligation hsame
    exact hlinks
  · rw [pairwise_map]
    refine (nodup_map_iff_pairwise.1 hobligationGoals).imp_of_mem fun ha hb hne => ?_
    obtain ⟨-, ⟨fields, hfields, hname⟩, -⟩ := hone _ ha
    obtain ⟨-, ⟨fields', hfields', hname'⟩, -⟩ := hone _ hb
    rw [← hname, ← hname']
    exact happart fields hfields fields' hfields' (by rwa [hname, hname'])
  · rw [forall₂_map_right_iff, forall₂_same]
    intro obligation hmem
    obtain ⟨-, -, requirement, hrequirement, hsame, rewrite, record, hidentified, hid, hrequirementId, -,
      hfrom, hreplaces, hreason⟩ := hone obligation hmem
    refine ⟨requirement, hrequirement, hsame, hidentified.lineageRule hknown hid hrequirementId hreplaces
      hreason hfrom ?_ (hapart obligation hmem)⟩
    intro goalId hgoalId
    obtain ⟨other, hother, rfl⟩ := mem_map.1 hgoalId
    exact (hone other hother).1
  · intro requirement hrequirement obligation hobligation hsame
    obtain ⟨rewrite, record, hidentified, hid, hrequirementId, -⟩ :=
      hlinked requirement hrequirement obligation hobligation hsame
    rcases hidentified.origin with ⟨known, hmem, required, hmem', hgoal, hgoal', hdeliverable, hkept, hkept'⟩ |
      ⟨digest, hdigest, hnew, hnew'⟩
    · obtain ⟨root, hroot, hrecord⟩ := hos known hmem
      obtain ⟨root', hroot', hrequired⟩ := hrs required hmem'
      obtain rfl : root = root' := Option.eq_some_unique hroot hroot'
      obtain ⟨fields, heq, -, hget, -, hgetGoal, -, -, -, -, hnormal, -⟩ := hknown.readObligation known hmem
      obtain rfl := Json.obj.inj heq
      obtain ⟨fields', heq', -, hget', -, hgetGoal', -⟩ := hknown.readRequirement required hmem'
      obtain rfl := Json.obj.inj heq'
      refine .inl ⟨root, hroot, known.1, required.1, hrecord, hrequired, ?_, ?_, ?_, ?_, ?_⟩
      · rw [hgetGoal, hgoal]
      · rw [hgetGoal', hgoal']
      · rw [hnormal, hdeliverable]
      · rw [hget, hid, hkept]
      · rw [hget', hrequirementId, hkept']
    · exact .inr ⟨digest, hdigest, hid.trans hnew, hrequirementId.trans hnew'⟩

end Assembled

theorem producer_problem_withProblem {candidate problem problem' : Fields} {pointer : String}
    (h : _producer_problem candidate = .ok (problem, pointer))
    (hsame : problem'.get "problem" = problem.get "problem") :
    _producer_problem (withProblem candidate problem' pointer) = .ok (problem', pointer) := by
  unfold _producer_problem at h
  split at h
  · rename_i hnull
    obtain ⟨rfl, rfl⟩ := Prod.mk.inj (Except.ok.inj h)
    rw [withProblem, if_pos rfl, _producer_problem, hsame, hnull]
  · obtain ⟨rfl, rfl⟩ := Prod.mk.inj (Except.ok.inj h)
    rw [withProblem, if_neg (by decide), _producer_problem, Fields.get_set_self]
  · cases h

theorem lookup_merged (problem : Fields) (goals requirements obligations assignments : List Json)
    (key : String) :
    (update problem [("goals", .arr goals), ("deliverable_requirements", .arr requirements),
      ("production_obligations", .arr obligations), ("patch_plan", .arr assignments)]).lookup key =
      if key = "patch_plan" then some (.arr assignments)
      else if key = "production_obligations" then some (.arr obligations)
      else if key = "deliverable_requirements" then some (.arr requirements)
      else if key = "goals" then some (.arr goals) else problem.lookup key := by
  simp only [update, foldl_cons, foldl_nil, Fields.lookup_set]

theorem readParts_merged {problem : Fields} {pointer : String}
    {goals requirements obligations assignments : List Json}
    (hproblem : _producer_problem candidate = .ok (problem, pointer)) :
    readParts (withProblem candidate (update problem [("goals", .arr goals),
        ("deliverable_requirements", .arr requirements), ("production_obligations", .arr obligations),
        ("patch_plan", .arr assignments)]) pointer) =
      .ok ⟨update problem [("goals", .arr goals), ("deliverable_requirements", .arr requirements),
        ("production_obligations", .arr obligations), ("patch_plan", .arr assignments)], pointer, goals,
        requirements, obligations, assignments, pointer ++ "/patch_plan"⟩ := by
  have hlookup := lookup_merged problem goals requirements obligations assignments
  generalize update problem [("goals", .arr goals), ("deliverable_requirements", .arr requirements),
    ("production_obligations", .arr obligations), ("patch_plan", .arr assignments)] = updated at hlookup ⊢
  have hmerged : _producer_problem (withProblem candidate updated pointer) = .ok (updated, pointer) := by
    refine producer_problem_withProblem hproblem ?_
    rw [Fields.get, Fields.get, hlookup, if_neg (by decide), if_neg (by decide), if_neg (by decide),
      if_neg (by decide)]
  have hplan : _root_patch_plan_assignments updated pointer =
      .ok (assignments, pointer ++ "/patch_plan", updated) := by
    have hget : updated.get "patch_plan" = .arr assignments := by
      rw [Fields.get, hlookup, if_pos rfl, Option.getD_some]
    rw [_root_patch_plan_assignments, hget]
  refine bind_eq_ok_iff.2 ⟨_, hmerged, bind_eq_ok_iff.2 ⟨goals, ?_, bind_eq_ok_iff.2 ⟨requirements, ?_,
    bind_eq_ok_iff.2 ⟨obligations, ?_, map_eq_ok_iff.2 ⟨_, hplan, rfl⟩⟩⟩⟩⟩
  all_goals exact require_preview_list_eq_ok_iff.2 (hlookup _)

theorem obligation_ids_eq {values : List Json} {obligations' : List Obligation}
    (h : Forall₂ (ReadsObligation nfc) values obligations)
    (h' : Forall₂ (ReadsObligation nfc) values obligations') :
    obligations'.map (·.id) = obligations.map (·.id) := by
  induction h generalizing obligations' with
  | nil =>
    cases h'
    rfl
  | cons hread _ ih =>
    cases h' with
    | cons hread' hrest =>
      obtain ⟨fields, rfl, -, hid, -⟩ := hread
      obtain ⟨fields', heq, -, hid', -⟩ := hread'
      obtain rfl := Json.obj.inj heq
      rw [map_cons, map_cons, ih hrest, Json.str.inj (hid'.symm.trans hid)]

/-- What a carrier is reconstructed to corresponds to its goals and follows from the previous root; only the
assignment of the obligations to the patch items is left to be rejected. -/
theorem reconstruction_accepted (hnfc : Text.IsNormalForm nfc) (hprevious : AcceptedBefore py nfc previous)
    (hrebuilt : _reconstruct_producer_aware_carrier py nfc carrier candidate itemIds previous = .ok rebuilt)
    (hoverlay : _expand_canonical_root_preview_carrier py rebuilt = .ok overlay)
    (hreads : ReadsOverlay nfc overlay goals requirements obligations)
    (honly : OnlyRequired goals requirements obligations)
    (hdistinct : DistinctIdentities py nfc previous obligations) :
    (requirements.map (·.id)).Nodup ∧ (obligations.map (·.id)).Nodup ∧
    Correspondence goals requirements obligations ∧
    (∃ prev, previousProblem (previous.map .obj) = .ok prev ∧
      LineageHolds py nfc prev requirements obligations) ∧
    (∀ requirement ∈ requirements, ∀ obligation ∈ obligations, requirement.goalId = obligation.goalId →
      PairIdentity py nfc previous requirement obligation) ∧
    (goals ≠ [] → hasExactly carrier canonicalRootPreviewFields = true →
      ∃ assignments, rebuilt.get "patch_plan" = .arr assignments ∧
        ((∃ root, parse_canonical_root_preview py nfc rebuilt candidate previous = .ok root) ↔
          ∃ items, Forall₂ ReadsAssignment assignments items ∧
            Partitions items (obligations.map (·.id)))) := by
  obtain ⟨R⟩ := reconstruct_ok hrebuilt
  obtain ⟨hrequirementIds, hobligationIds, hcorrespondence, ⟨prev, hprev, hlineage⟩, hidentity⟩ :=
    reconstructed_pairs hnfc R hoverlay hreads hprevious honly hdistinct
  refine ⟨hrequirementIds, hobligationIds, hcorrespondence, ⟨prev, hprev, hlineage⟩, hidentity, ?_⟩
  intro hne hexact
  refine ⟨R.assignments, R.getAssignments, ?_⟩
  obtain ⟨⟨problem, pointer⟩, hproblem, -⟩ := bind_eq_ok_iff.1 hrebuilt
  obtain ⟨E⟩ := expand_ok hoverlay
  obtain ⟨goalValues, hgoalValues, hgoals⟩ := hreads.readGoals
  obtain ⟨requirementValues, hrequirementValues, hrequirements⟩ := hreads.readRequirements
  obtain ⟨obligationValues, hobligationValues, hobligations⟩ := hreads.readObligations
  have hshape : overlay = [("goals", .arr goalValues), ("deliverable_requirements", .arr requirementValues),
      ("production_obligations", .arr obligationValues), ("patch_plan", .arr R.assignments)] := by
    have hresult := E.result
    rw [hresult] at hgoalValues hrequirementValues hobligationValues
    have hgoal : Json.arr E.expandedGoals = .arr goalValues := hgoalValues
    have hrequirement : rebuilt.get "deliverable_requirements" = .arr requirementValues := hrequirementValues
    have hobligation : Json.arr E.expandedObligations = .arr obligationValues := hobligationValues
    rw [hresult, hgoal, hrequirement, hobligation, R.getAssignments]
  have hparts := @readParts_merged candidate problem pointer goalValues requirementValues obligationValues
    R.assignments hproblem
  rw [← hshape] at hparts
  constructor
  · rintro ⟨root, hparse⟩
    obtain ⟨-, hparse⟩ := raise_preview_fields_bind_eq_ok_iff.1 hparse
    obtain ⟨overlay', hoverlay', hparse⟩ := bind_eq_ok_iff.1 hparse
    obtain rfl := Except.ok.inj (hoverlay.symm.trans hoverlay')
    obtain ⟨⟨problem', pointer'⟩, hproblem', hparse⟩ := bind_eq_ok_iff.1 hparse
    obtain ⟨rfl, rfl⟩ := Prod.mk.inj (Except.ok.inj (hproblem.symm.trans hproblem'))
    obtain ⟨merged, parts, _, goals', requirements', obligations', hmerged, hparts', -, haccepted, -⟩ :=
      validate_eq_ok_iff.1 hparse
    obtain rfl := Json.obj.inj hmerged
    obtain rfl := Except.ok.inj (hparts.symm.trans hparts')
    obtain ⟨items, hitems, hpartition⟩ := haccepted.partition
    refine ⟨items, hitems, ?_⟩
    rw [← obligation_ids_eq hobligations haccepted.readObligations]
    exact hpartition
  · rintro ⟨items, hitems, hpartition⟩
    refine ⟨_, raise_preview_fields_bind_eq_ok_iff.2 ⟨R.exact hexact, bind_eq_ok_iff.2 ⟨overlay, hoverlay,
      bind_eq_ok_iff.2 ⟨_, hproblem, validate_eq_ok_iff.2 ⟨_, _, prev, goals, requirements, obligations, rfl,
        hparts, hprev, ?_, rfl⟩⟩⟩⟩⟩
    exact ⟨hgoals, hne, hreads.goalIds, hrequirements, hrequirementIds, hobligations, hobligationIds,
      hcorrespondence, hlineage, items, hitems, hpartition⟩

section Example

/-- A library whose digest is that of a certain pair. -/
def digestLib (digest : String) : PyLib := { asciiLib with sha256 := fun _ => digest }

/-- The digest of a report for the first goal. -/
def reportDigest : String := "4c50075f89c0b46f70bf5a958fdb7629f52f34fb74fc157509c29c2c6c0d20c0"

/-- The digest of a table for the second goal. -/
def tableDigest : String := "bd964f02d6a8587717e57ad708792f4b3e6ed0414667a29914970daeead314a0"

def rootGoal (id : String) (requires : Bool) : Json :=
  .obj [("id", .str id), ("requires_deliverable", .bool requires), ("actor", .str "reader"),
    ("capability", .obj [("action", .str "read"), ("preconditions", .arr [])]),
    ("verifiable_outcome", .obj [("expected_state", .str "read"), ("evidence", .str "log")]),
    ("verification", .obj [("method", .str "manual_check"), ("check", .str "look")]),
    ("ux_trace", .str "screen")]

def carrierGoal (id : String) (requires : Bool) : Json :=
  .obj [("id", .str id), ("requires_deliverable", .bool requires), ("actor", .str "reader"),
    ("capability_action", .str "read"), ("capability_preconditions", .arr []),
    ("outcome_expected_state", .str "read"), ("outcome_evidence", .str "log"),
    ("verification_method", .str "manual_check"), ("verification_check", .str "look"),
    ("ux_trace", .str "screen")]

/-- A carrier of one goal with a pair that is assigned to the one item. -/
def sampleCarrier (goalId : String) (requires : Bool) (requirementId obligationId deliverable : String) :
    Fields :=
  [("goals", .arr [carrierGoal goalId requires]),
    ("deliverable_requirements", .arr [.obj [("id", .str requirementId), ("referee_goal_id", .str goalId),
      ("production_obligation_id", .str obligationId), ("deliverable", .str deliverable)]]),
    ("production_obligations", .arr [.obj [("id", .str obligationId), ("referee_goal_id", .str goalId),
      ("deliverable_requirement_id", .str requirementId), ("deliverable", .str deliverable),
      ("eligibility_predicate", .str "can be read"), ("replaces_obligation_id", .str ""),
      ("replacement_reason", .str "")]]),
    ("patch_plan", .arr [.obj [("item_id", .str "item"),
      ("production_obligation_ids", .arr [.str obligationId])]])]

def pairedRoot (goalId requirementId obligationId deliverable : String) : Fields :=
  [("goals", .arr [rootGoal goalId true]),
    ("deliverable_requirements", .arr [.obj [("id", .str requirementId), ("referee_goal_id", .str goalId),
      ("production_obligation_id", .str obligationId), ("deliverable", .str deliverable)]]),
    ("production_obligations", .arr [.obj [("id", .str obligationId), ("referee_goal_id", .str goalId),
      ("deliverable_requirement_id", .str requirementId), ("deliverable", .str deliverable),
      ("eligibility_predicate", .str "can be read"), ("replacement_links", .arr [])]]),
    ("patch_plan", .arr [.obj [("item_id", .str "item"),
      ("production_obligation_ids", .arr [.str obligationId])]])]

/-- A pair of a goal that requires no deliverable is left in and rejected. So is a pair whose identity is
that of another goal's obligation in the previous root. -/
theorem reconstruction_rejected :
    (_reconstruct_producer_aware_carrier (digestLib reportDigest) id
        (sampleCarrier "goal:1" false "required" "owed" "a report")
        [("goals", .arr [rootGoal "goal:1" false])] ["item"] none =
      .ok (sampleCarrier "goal:1" false "required" "owed" "a report") ∧
    parse_canonical_root_preview (digestLib reportDigest) id
        (sampleCarrier "goal:1" false "required" "owed" "a report")
        [("goals", .arr [rootGoal "goal:1" false])] none =
      .error (raisePreview "producer-pair-forbidden" "deliverable_requirements" "/deliverable_requirements"
        "goal:1" "" "requires_deliverable false permits neither pair member")) ∧
    ((validate_canonical_root_technical_approach (digestLib tableDigest) id
        (.obj (pairedRoot "goal:1" "required" ("obligation:" ++ tableDigest) "a report")) none).isOk = true ∧
    _reconstruct_producer_aware_carrier (digestLib tableDigest) id
        (sampleCarrier "goal:2" true "required" "owed" "a table") [("goals", .arr [rootGoal "goal:2" true])]
        ["item"] (some (pairedRoot "goal:1" "required" ("obligation:" ++ tableDigest) "a report")) =
      .ok (sampleCarrier "goal:2" true ("requirement:" ++ tableDigest) ("obligation:" ++ tableDigest)
        "a table") ∧
    parse_canonical_root_preview (digestLib tableDigest) id
        (sampleCarrier "goal:2" true ("requirement:" ++ tableDigest) ("obligation:" ++ tableDigest) "a table")
        [("goals", .arr [rootGoal "goal:2" true])]
        (some (pairedRoot "goal:1" "required" ("obligation:" ++ tableDigest) "a report")) =
      .error (raisePreview "obligation-id-projection" "id" "/production_obligations" "goal:2"
        ("obligation:" ++ tableDigest) "identity already belongs to predecessor goal goal:1")) := by
  refine ⟨⟨?_, ?_⟩, ?_, ?_, ?_⟩
  all_goals decide +kernel

/-- The pair of the report as the validation reads it. -/
def reportRequirement : Requirement where
  id := "requirement:" ++ reportDigest
  goalId := "goal:1"
  obligationId := .str ("obligation:" ++ reportDigest)
  deliverable := "a report"
  fields := [("id", .str ("requirement:" ++ reportDigest)), ("referee_goal_id", .str "goal:1"),
    ("production_obligation_id", .str ("obligation:" ++ reportDigest)), ("deliverable", .str "a report")]

def reportObligation : Obligation where
  id := "obligation:" ++ reportDigest
  goalId := "goal:1"
  requirementId := "requirement:" ++ reportDigest
  deliverable := "a report"
  links := []
  fields := [("id", .str ("obligation:" ++ reportDigest)), ("referee_goal_id", .str "goal:1"),
    ("deliverable_requirement_id", .str ("requirement:" ++ reportDigest)), ("deliverable", .str "a report"),
    ("eligibility_predicate", .str "can be read"), ("replacement_links", .arr [])]

theorem reads_report : ReadsOverlay id
    (pairedRoot "goal:1" ("requirement:" ++ reportDigest) ("obligation:" ++ reportDigest) "a report")
    [⟨"goal:1", true⟩] [reportRequirement] [reportObligation] := by
  refine ⟨⟨_, rfl, .cons ?_ .nil⟩, ⟨_, rfl, .cons ?_ .nil⟩, ⟨_, rfl, .cons ?_ .nil⟩, nodup_singleton _⟩
  · refine ⟨_, rfl, ?_, ?_, rfl, ?_, rfl⟩
    all_goals (try unfold NonBlank); decide +kernel
  · refine ⟨_, rfl, ?_, rfl, ?_, rfl, ?_, rfl, ?_, rfl⟩
    all_goals (try unfold NonBlank); decide +kernel
  · refine ⟨_, rfl, ?_, rfl, ?_, rfl, ?_, rfl, ?_, ⟨_, rfl, ?_⟩, ?_, ⟨[], rfl, by decide, .nil⟩, rfl⟩
    all_goals (try unfold NonBlank); decide +kernel

/-- A report for a goal that requires it. -/
theorem reconstruction_accepted_report :
    Correspondence [⟨"goal:1", true⟩] [reportRequirement] [reportObligation] := by
  have hnfc : Text.IsNormalForm id := ⟨fun _ => rfl, fun _ _ => rfl, fun _ _ => rfl⟩
  have hrebuilt : _reconstruct_producer_aware_carrier (digestLib reportDigest) id
      (sampleCarrier "goal:1" true "required" "owed" "a report") [("goals", .arr [rootGoal "goal:1" true])]
      ["item"] none = .ok (sampleCarrier "goal:1" true ("requirement:" ++ reportDigest)
        ("obligation:" ++ reportDigest) "a report") := by decide +kernel
  have hoverlay : _expand_canonical_root_preview_carrier (digestLib reportDigest)
      (sampleCarrier "goal:1" true ("requirement:" ++ reportDigest) ("obligation:" ++ reportDigest)
        "a report") = .ok (pairedRoot "goal:1" ("requirement:" ++ reportDigest)
          ("obligation:" ++ reportDigest) "a report") := by decide +kernel
  have honly : OnlyRequired [⟨"goal:1", true⟩] [reportRequirement] [reportObligation] := by
    constructor
    all_goals
      intro record hmem
      rw [mem_singleton.1 hmem]
      exact ⟨_, mem_singleton_self _, rfl, rfl⟩
  have hdistinct : DistinctIdentities (digestLib reportDigest) id none [reportObligation] := by
    refine ⟨fun a ha b hb _ _ _ => ?_, nofun, nofun⟩
    rw [mem_singleton.1 ha, mem_singleton.1 hb]
  have hprevious : AcceptedBefore (digestLib reportDigest) id none := by
    intro root hroot
    cases hroot
  exact (reconstruction_accepted hnfc hprevious hrebuilt hoverlay reads_report honly hdistinct).2.2.1

end Example

end Producer

end AiOrg
