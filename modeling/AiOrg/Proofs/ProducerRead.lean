import AiOrg.Producer.Root
import AiOrg.Python.Mapping

/-!
# Reading the members of a root

What each reader of a root accepts, and what is left of it: a relation between a record and what it is read
as, besides which a reader only compares with what it read before. Normalized records are read as
themselves (`ReadsRequirement.again`, `ReadsObligation.again`).
-/

namespace AiOrg

open List

namespace Producer

open Checks

variable {py : PyLib} {nfc : List Char → List Char} {value : Json} {fields : Fields}

/-- A text with more than white space. -/
def NonBlank (text : String) : Prop := pyStrip text ≠ ""

theorem nonempty_string_eq_ok_iff {field pointer goalId obligationId text : String} :
    _preview_nonempty_string value field pointer goalId obligationId = .ok text ↔
      value = .str text ∧ NonBlank text := by
  unfold _preview_nonempty_string NonBlank
  cases value with
  | str other =>
    simp only [Json.str.injEq]
    split_ifs with h
    · simp only [false_iff, not_and, not_not]
      rintro rfl
      exact h
    · simp only [Except.ok.injEq]
      exact ⟨fun heq => ⟨heq, heq ▸ h⟩, And.left⟩
  | _ => simp

theorem nonempty_string_bind_eq_ok_iff {α : Type} {field pointer goalId obligationId : String}
    {f : String → Except Raised α} {a : α} :
    (_preview_nonempty_string value field pointer goalId obligationId >>= f) = .ok a ↔
      ∃ text, value = .str text ∧ NonBlank text ∧ f text = .ok a := by
  simp only [bind_eq_ok_iff, nonempty_string_eq_ok_iff, and_assoc]

theorem raise_preview_fields_bind_eq_ok_iff {α : Type} {expected : List String}
    {pointer ruleId goalId obligationId : String} {f : Unit → Except Raised α} {a : α} :
    (_raise_preview_fields py fields expected pointer ruleId goalId obligationId >>= f) = .ok a ↔
      hasExactly fields expected = true ∧ f () = .ok a := by
  unfold _raise_preview_fields
  split_ifs with h
  · simp [bind, Except.bind, h]
  · simp [bind, Except.bind, h]

theorem readDeliverable_bind_eq_ok_iff {α : Type} {pointer goalId obligationId : String}
    {f : String → Except Raised α} {a : α} :
    (readDeliverable nfc value pointer goalId obligationId >>= f) = .ok a ↔
      ∃ deliverable, normalize_deliverable nfc value = .ok deliverable ∧ f deliverable = .ok a := by
  rw [readDeliverable]
  cases normalize_deliverable nfc value <;> simp [Except.mapError, bind, Except.bind]

theorem normalize_deliverable_again (hnfc : Text.IsNormalForm nfc) {deliverable : String}
    (h : normalize_deliverable nfc value = .ok deliverable) :
    normalize_deliverable nfc (.str deliverable) = .ok deliverable := by
  cases value with
  | str text =>
    rw [normalize_deliverable] at h
    split_ifs at h with hne
    obtain rfl := Except.ok.inj h
    rw [normalize_deliverable, String.toList_ofList, Text.squeeze_squeeze hnfc, if_neg hne]
  | _ => cases h

theorem contains_of_hasExactly {expected : List String} {key : String}
    (h : hasExactly fields expected = true) (hkey : key ∈ expected) : fields.contains key = true := by
  simp only [hasExactly, Bool.and_eq_true, all_eq_true] at h
  exact h.1 key hkey

theorem not_contains_of_hasExactly {expected : List String} {key : String}
    (h : hasExactly fields expected = true) (hkey : key ∉ expected) : fields.contains key = false := by
  simp only [hasExactly, Bool.and_eq_true, all_eq_true, decide_eq_true_eq] at h
  rw [Fields.contains, Option.isSome_eq_false_iff, Option.isNone_iff_eq_none, Fields.lookup_eq_none_iff]
  intro hmem
  obtain ⟨entry, hentry, rfl⟩ := mem_map.1 hmem
  exact hkey (h.2 entry hentry)

theorem keys_set_subset {key : String} {value : Json} {entry : String × Json}
    (h : entry ∈ fields.set key value) : entry.1 = key ∨ entry.1 ∈ fields.map Prod.fst := by
  induction fields with
  | nil =>
    rw [Fields.set, mem_singleton] at h
    exact .inl (h ▸ rfl)
  | cons other fields ih =>
    obtain ⟨k, v⟩ := other
    rw [Fields.set] at h
    split_ifs at h with hk
    · rcases mem_cons.1 h with rfl | h
      · exact .inl hk
      · exact .inr (mem_cons_of_mem _ (mem_map.2 ⟨entry, h, rfl⟩))
    · rcases mem_cons.1 h with rfl | h
      · exact .inr mem_cons_self
      · exact (ih h).imp_right (mem_cons_of_mem _)

theorem hasExactly_set {expected : List String} {key : String} (hkey : key ∈ expected)
    (h : hasExactly fields expected = true) : hasExactly (fields.set key value) expected = true := by
  simp only [hasExactly, Bool.and_eq_true, all_eq_true, decide_eq_true_eq] at h ⊢
  constructor
  · intro other hother
    rw [Fields.contains, Fields.lookup_set]
    split_ifs
    · rfl
    · exact h.1 other hother
  · intro entry hentry
    rcases keys_set_subset hentry with heq | hmem
    · exact heq ▸ hkey
    · obtain ⟨other, hother, heq⟩ := mem_map.1 hmem
      exact heq ▸ h.2 other hother

theorem set_get {key : String} (h : fields.contains key = true) :
    fields.set key (fields.get key) = fields := by
  obtain ⟨value, hvalue⟩ := Option.isSome_iff_exists.1 h
  rw [Fields.get, hvalue, Option.getD_some]
  exact Fields.set_of_lookup hvalue

/-- A record of a goal. -/
def ReadsGoal (value : Json) (goal : Goal) : Prop :=
  ∃ fields, value = .obj fields ∧ hasExactly fields producerAwareGoalFields = true ∧
    isCriterion fields = true ∧ Fields.get fields "id" = .str goal.id ∧ NonBlank goal.id ∧
    Fields.get fields "requires_deliverable" = .bool goal.requires

theorem readGoal_eq_ok_iff {root : String} {seen : List Goal} {index : ℕ} {goal : Goal} :
    readGoal py root seen index value = .ok goal ↔
      ReadsGoal value goal ∧ ∀ other ∈ seen, other.id ≠ goal.id := by
  cases value with
  | obj fields =>
    have hfresh : (goal.id ∉ seen.map (·.id)) ↔ ∀ other ∈ seen, other.id ≠ goal.id := by
      simp [mem_map]
    simp only [readGoal, require_bind_eq_ok_iff, raise_preview_fields_bind_eq_ok_iff,
      nonempty_string_bind_eq_ok_iff, ← hfresh]
    constructor
    · rintro ⟨-, -, hexact, id, hid, hblank, hseen, h⟩
      split at h
      · rename_i requires hrequires
        obtain ⟨hcriterion, h⟩ := require_bind_eq_ok_iff.1 h
        obtain rfl := Except.ok.inj h
        exact ⟨⟨fields, rfl, hexact, hcriterion, hid, hblank, hrequires⟩, hseen⟩
      · cases h
    · rintro ⟨⟨other, hother, hexact, hcriterion, hid, hblank, hrequires⟩, hseen⟩
      obtain rfl := Json.obj.inj hother
      refine ⟨not_contains_of_hasExactly hexact (by decide), contains_of_hasExactly hexact (by decide),
        hexact, goal.id, hid, hblank, hseen, ?_⟩
      rw [hrequires]
      exact require_bind_eq_ok_iff.2 ⟨hcriterion, rfl⟩
  | _ => simp [readGoal, ReadsGoal]

/-- A record of a requirement, with what is left of it. -/
def ReadsRequirement (nfc : List Char → List Char) (value : Json) (requirement : Requirement) : Prop :=
  ∃ fields, value = .obj fields ∧ hasExactly fields deliverableRequirementFields = true ∧
    Fields.get fields "id" = .str requirement.id ∧ NonBlank requirement.id ∧
    Fields.get fields "referee_goal_id" = .str requirement.goalId ∧ NonBlank requirement.goalId ∧
    Fields.get fields "production_obligation_id" = requirement.obligationId ∧
    normalize_deliverable nfc (Fields.get fields "deliverable") = .ok requirement.deliverable ∧
    requirement.fields = Fields.set fields "deliverable" (.str requirement.deliverable)

/-- Two requirements of one root. -/
def Requirement.Apart (a b : Requirement) : Prop := a.id ≠ b.id ∧ a.goalId ≠ b.goalId

theorem readRequirement_eq_ok_iff {root : String} {seen : List Requirement} {index : ℕ}
    {requirement : Requirement} :
    readRequirement py nfc root seen index value = .ok requirement ↔
      ReadsRequirement nfc value requirement ∧ ∀ other ∈ seen, other.Apart requirement := by
  cases value with
  | obj fields =>
    have hfresh : (requirement.id ∉ seen.map (·.id) ∧ requirement.goalId ∉ seen.map (·.goalId)) ↔
        ∀ other ∈ seen, other.Apart requirement := by
      simp only [mem_map, not_exists, not_and, Requirement.Apart]
      exact ⟨fun h other hother => ⟨h.1 other hother, h.2 other hother⟩,
        fun h => ⟨fun other hother => (h other hother).1, fun other hother => (h other hother).2⟩⟩
    simp only [readRequirement, require_bind_eq_ok_iff, raise_preview_fields_bind_eq_ok_iff,
      nonempty_string_bind_eq_ok_iff, readDeliverable_bind_eq_ok_iff, ← hfresh]
    constructor
    · rintro ⟨hexact, id, hid, hblank, goalId, hgoal, hgoalBlank, hids, hgoals, deliverable,
        hdeliverable, h⟩
      obtain rfl := Except.ok.inj h
      exact ⟨⟨fields, rfl, hexact, hid, hblank, hgoal, hgoalBlank, rfl, hdeliverable, rfl⟩, hids, hgoals⟩
    · rintro ⟨⟨other, hother, hexact, hid, hblank, hgoal, hgoalBlank, hobligation, hdeliverable, hfields⟩,
        hids, hgoals⟩
      obtain rfl := Json.obj.inj hother
      refine ⟨hexact, requirement.id, hid, hblank, requirement.goalId, hgoal, hgoalBlank, hids, hgoals,
        requirement.deliverable, hdeliverable, ?_⟩
      rw [hobligation, ← hfields]
  | _ => simp [readRequirement, ReadsRequirement]

/-- A normalized record is read as itself. -/
theorem ReadsRequirement.again (hnfc : Text.IsNormalForm nfc) {requirement : Requirement}
    (h : ReadsRequirement nfc value requirement) :
    ReadsRequirement nfc (.obj requirement.fields) requirement := by
  obtain ⟨fields, -, hexact, hid, hblank, hgoal, hgoalBlank, hobligation, hdeliverable, hfields⟩ := h
  have hget : Fields.get requirement.fields "deliverable" = .str requirement.deliverable := by
    rw [hfields, Fields.get_set_self]
  have hexact' : hasExactly requirement.fields deliverableRequirementFields = true := by
    rw [hfields]
    exact hasExactly_set (by decide) hexact
  refine ⟨requirement.fields, rfl, hexact', ?_, hblank, ?_, hgoalBlank, ?_, ?_, ?_⟩
  · rw [hfields, Fields.get_set_of_ne _ _ (by decide), hid]
  · rw [hfields, Fields.get_set_of_ne _ _ (by decide), hgoal]
  · rw [hfields, Fields.get_set_of_ne _ _ (by decide), hobligation]
  · rw [hget]
    exact normalize_deliverable_again hnfc hdeliverable
  · rw [← hget]
    exact (set_get (contains_of_hasExactly hexact' (by decide))).symm

/-! ### Obligations -/

/-- A record of a replacement. -/
def ReadsLink (value : Json) (link : Link) : Prop :=
  ∃ fields, value = .obj fields ∧
    hasExactly fields ["replaces_obligation_id", "replacement_reason"] = true ∧
    Fields.get fields "replaces_obligation_id" = .str link.replacesObligationId ∧
    NonBlank link.replacesObligationId ∧
    Fields.get fields "replacement_reason" = .str link.replacementReason ∧ NonBlank link.replacementReason

/-- At most one replacement. -/
def ReadsLinks (value : Json) (links : List Link) : Prop :=
  ∃ items, value = .arr items ∧ items.length ≤ 1 ∧ Forall₂ ReadsLink items links

theorem readLink_eq_ok_iff {pointer goalId obligationId : String} {seen : List Link} {index : ℕ}
    {link : Link} : readLink py pointer goalId obligationId seen index value = .ok link ↔
      ReadsLink value link ∧ ∀ other ∈ seen, True := by
  cases value with
  | obj fields =>
    simp only [readLink, raise_preview_fields_bind_eq_ok_iff, nonempty_string_bind_eq_ok_iff,
      implies_true, and_true]
    constructor
    · rintro ⟨hexact, replaces, hreplaces, hblank, reason, hreason, hreasonBlank, h⟩
      obtain rfl := Except.ok.inj h
      exact ⟨fields, rfl, hexact, hreplaces, hblank, hreason, hreasonBlank⟩
    · rintro ⟨other, hother, hexact, hreplaces, hblank, hreason, hreasonBlank⟩
      obtain rfl := Json.obj.inj hother
      exact ⟨hexact, link.replacesObligationId, hreplaces, hblank, link.replacementReason, hreason,
        hreasonBlank, rfl⟩
  | _ => simp [readLink, ReadsLink]

theorem validate_replacement_links_eq_ok_iff {pointer goalId obligationId : String}
    {links : List Link} :
    _validate_replacement_links py value pointer goalId obligationId = .ok links ↔
      ReadsLinks value links := by
  cases value with
  | arr items =>
    have hread : ∀ (seen : List Link) index item link,
        readLink py pointer goalId obligationId seen index item = .ok link ↔
          ReadsLink item link ∧ ∀ other ∈ seen, True := fun _ _ _ _ => readLink_eq_ok_iff
    rw [_validate_replacement_links, require_bind_eq_ok_iff, collect_nil_eq_ok_iff hread]
    constructor
    · rintro ⟨hlength, hlinks, -⟩
      exact ⟨items, rfl, hlength, hlinks⟩
    · rintro ⟨other, hother, hlength, hlinks⟩
      obtain rfl := Json.arr.inj hother
      exact ⟨hlength, hlinks, pairwise_of_forall fun _ _ => trivial⟩
  | _ => simp [_validate_replacement_links, ReadsLinks]

/-- A record of an obligation, with what is left of it. -/
def ReadsObligation (nfc : List Char → List Char) (value : Json) (obligation : Obligation) : Prop :=
  ∃ fields, value = .obj fields ∧ hasExactly fields productionObligationFields = true ∧
    Fields.get fields "id" = .str obligation.id ∧ NonBlank obligation.id ∧
    Fields.get fields "referee_goal_id" = .str obligation.goalId ∧ NonBlank obligation.goalId ∧
    Fields.get fields "deliverable_requirement_id" = .str obligation.requirementId ∧
    NonBlank obligation.requirementId ∧
    (∃ predicate, Fields.get fields "eligibility_predicate" = .str predicate ∧ NonBlank predicate) ∧
    normalize_deliverable nfc (Fields.get fields "deliverable") = .ok obligation.deliverable ∧
    ReadsLinks (Fields.get fields "replacement_links") obligation.links ∧
    obligation.fields = Fields.set fields "deliverable" (.str obligation.deliverable)

/-- Two obligations of one root. -/
def Obligation.Apart (a b : Obligation) : Prop := a.id ≠ b.id ∧ a.goalId ≠ b.goalId

theorem readObligation_eq_ok_iff {root : String} {seen : List Obligation} {index : ℕ}
    {obligation : Obligation} :
    readObligation py nfc root seen index value = .ok obligation ↔
      ReadsObligation nfc value obligation ∧ ∀ other ∈ seen, other.Apart obligation := by
  cases value with
  | obj fields =>
    have hfresh : (obligation.id ∉ seen.map (·.id) ∧ obligation.goalId ∉ seen.map (·.goalId)) ↔
        ∀ other ∈ seen, other.Apart obligation := by
      simp only [mem_map, not_exists, not_and, Obligation.Apart]
      exact ⟨fun h other hother => ⟨h.1 other hother, h.2 other hother⟩,
        fun h => ⟨fun other hother => (h other hother).1, fun other hother => (h other hother).2⟩⟩
    simp only [readObligation, require_bind_eq_ok_iff, raise_preview_fields_bind_eq_ok_iff,
      nonempty_string_bind_eq_ok_iff, readDeliverable_bind_eq_ok_iff, ← hfresh]
    constructor
    · rintro ⟨hexact, id, hid, hblank, goalId, hgoal, hgoalBlank, requirementId, hrequirement,
        hrequirementBlank, predicate, hpredicate, hpredicateBlank, hids, hgoals, deliverable,
        hdeliverable, h⟩
      obtain ⟨links, hlinks, h⟩ := bind_eq_ok_iff.1 h
      obtain rfl := Except.ok.inj h
      exact ⟨⟨fields, rfl, hexact, hid, hblank, hgoal, hgoalBlank, hrequirement, hrequirementBlank,
        ⟨predicate, hpredicate, hpredicateBlank⟩, hdeliverable,
        validate_replacement_links_eq_ok_iff.1 hlinks, rfl⟩, hids, hgoals⟩
    · rintro ⟨⟨other, hother, hexact, hid, hblank, hgoal, hgoalBlank, hrequirement, hrequirementBlank,
        ⟨predicate, hpredicate, hpredicateBlank⟩, hdeliverable, hlinks, hfields⟩, hids, hgoals⟩
      obtain rfl := Json.obj.inj hother
      refine ⟨hexact, obligation.id, hid, hblank, obligation.goalId, hgoal, hgoalBlank,
        obligation.requirementId, hrequirement, hrequirementBlank, predicate, hpredicate,
        hpredicateBlank, hids, hgoals, obligation.deliverable, hdeliverable, ?_⟩
      refine bind_eq_ok_iff.2 ⟨obligation.links, validate_replacement_links_eq_ok_iff.2 hlinks, ?_⟩
      rw [← hfields]
  | _ => simp [readObligation, ReadsObligation]

/-- A normalized record is read as itself. -/
theorem ReadsObligation.again (hnfc : Text.IsNormalForm nfc) {obligation : Obligation}
    (h : ReadsObligation nfc value obligation) :
    ReadsObligation nfc (.obj obligation.fields) obligation := by
  obtain ⟨fields, -, hexact, hid, hblank, hgoal, hgoalBlank, hrequirement, hrequirementBlank, hpredicate,
    hdeliverable, hlinks, hfields⟩ := h
  have hget : Fields.get obligation.fields "deliverable" = .str obligation.deliverable := by
    rw [hfields, Fields.get_set_self]
  have hkeep : ∀ key, key ≠ "deliverable" → Fields.get obligation.fields key = Fields.get fields key := by
    intro key hkey
    rw [hfields, Fields.get_set_of_ne _ _ hkey]
  have hexact' : hasExactly obligation.fields productionObligationFields = true := by
    rw [hfields]
    exact hasExactly_set (by decide) hexact
  refine ⟨obligation.fields, rfl, hexact', ?_, hblank, ?_, hgoalBlank, ?_, hrequirementBlank, ?_, ?_, ?_, ?_⟩
  · rw [hkeep _ (by decide), hid]
  · rw [hkeep _ (by decide), hgoal]
  · rw [hkeep _ (by decide), hrequirement]
  · rw [hkeep _ (by decide)]
    exact hpredicate
  · rw [hget]
    exact normalize_deliverable_again hnfc hdeliverable
  · rw [hkeep _ (by decide)]
    exact hlinks
  · rw [← hget]
    exact (set_get (contains_of_hasExactly hexact' (by decide))).symm

/-- A record of an assignment. -/
def ReadsAssignment (value : Json) (assignment : Assignment) : Prop :=
  ∃ fields, value = .obj fields ∧ hasExactly fields rootPatchPlanAssignmentFields = true ∧
    Fields.get fields "item_id" = .str assignment.itemId ∧ NonBlank assignment.itemId ∧
    Fields.get fields "production_obligation_ids" = .arr (assignment.obligationIds.map .str) ∧
    (∀ id ∈ assignment.obligationIds, NonBlank id) ∧ assignment.obligationIds.Nodup

/-- Two assignments of one plan. -/
def Assignment.Apart (a b : Assignment) : Prop :=
  a.itemId ≠ b.itemId ∧ ∀ id ∈ b.obligationIds, id ∉ a.obligationIds

theorem nonblankTexts_eq_some_iff {items : List Json} {texts : List String} :
    nonblankTexts items = some texts ↔ items = texts.map .str ∧ ∀ text ∈ texts, NonBlank text := by
  induction items generalizing texts with
  | nil => cases texts <;> simp [nonblankTexts]
  | cons item items ih =>
    cases item with
    | str text =>
      rw [nonblankTexts]
      split_ifs with hblank
      · simp only [false_iff, not_and]
        rintro hitems hall
        cases texts with
        | nil => cases hitems
        | cons other texts =>
          rw [map_cons, List.cons.injEq, Json.str.injEq] at hitems
          exact hall other mem_cons_self (hitems.1 ▸ hblank)
      · rw [Option.map_eq_some_iff]
        constructor
        · rintro ⟨rest, hrest, rfl⟩
          obtain ⟨hitems, hall⟩ := ih.1 hrest
          exact ⟨by rw [map_cons, hitems], forall_mem_cons.2 ⟨hblank, hall⟩⟩
        · rintro ⟨hitems, hall⟩
          cases texts with
          | nil => cases hitems
          | cons other texts =>
            rw [map_cons, List.cons.injEq, Json.str.injEq] at hitems
            exact ⟨texts, ih.2 ⟨hitems.2, (forall_mem_cons.1 hall).2⟩, by rw [hitems.1]⟩
    | _ => cases texts <;> simp [nonblankTexts]

theorem missing_eq_empty {expected : List String} (h : hasExactly fields expected = true) :
    (expected.filter fun key => !fields.contains key).headD "" = "" := by
  have hnone : expected.filter (fun key => !fields.contains key) = [] := by
    rw [filter_eq_nil_iff]
    intro key hkey
    simp [contains_of_hasExactly h hkey]
  rw [hnone]
  rfl

theorem readAssignment_eq_ok_iff {root : String} {seen : List Assignment} {index : ℕ}
    {assignment : Assignment} :
    readAssignment py root seen index value = .ok assignment ↔
      ReadsAssignment value assignment ∧ ∀ other ∈ seen, other.Apart assignment := by
  cases value with
  | obj fields =>
    have hfresh : (assignment.itemId ∉ seen.map (·.itemId) ∧
        ∀ id ∈ assignment.obligationIds, id ∉ seen.flatMap (·.obligationIds)) ↔
        ∀ other ∈ seen, other.Apart assignment := by
      simp only [mem_map, mem_flatMap, not_exists, not_and, Assignment.Apart]
      exact ⟨fun h other hother => ⟨h.1 other hother, fun id hid => h.2 id hid other hother⟩,
        fun h => ⟨fun other hother => (h other hother).1,
          fun id hid other hother => (h other hother).2 id hid⟩⟩
    simp only [readAssignment, require_bind_eq_ok_iff, raise_preview_fields_bind_eq_ok_iff,
      nonempty_string_bind_eq_ok_iff, ← hfresh]
    constructor
    · rintro ⟨-, hexact, itemId, hitem, hblank, hids, h⟩
      split at h
      · rename_i items hitems
        split at h
        · cases h
        · rename_i ids htexts
          obtain ⟨hnodup, h⟩ := require_bind_eq_ok_iff.1 h
          obtain ⟨hassigned, h⟩ := require_bind_eq_ok_iff.1 h
          obtain rfl := Except.ok.inj h
          obtain ⟨rfl, hall⟩ := nonblankTexts_eq_some_iff.1 htexts
          exact ⟨⟨fields, rfl, hexact, hitem, hblank, hitems, hall, hnodup⟩, hids, hassigned⟩
      · cases h
    · rintro ⟨⟨other, hother, hexact, hitem, hblank, hitems, hall, hnodup⟩, hids, hassigned⟩
      obtain rfl := Json.obj.inj hother
      refine ⟨missing_eq_empty hexact, hexact, assignment.itemId, hitem, hblank, hids, ?_⟩
      rw [hitems]
      dsimp only
      rw [nonblankTexts_eq_some_iff.2 ⟨rfl, hall⟩]
      exact require_bind_eq_ok_iff.2 ⟨hnodup, require_bind_eq_ok_iff.2 ⟨hassigned, rfl⟩⟩
  | _ => simp [readAssignment, ReadsAssignment]

end Producer

end AiOrg
