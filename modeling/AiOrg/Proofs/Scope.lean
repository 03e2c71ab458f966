import AiOrg.Series.Scope

/-!
# What the projection of a scope reads

Each reader has a relation that says what it reads, and the checks before the obligations together read one ledger and
one root (`Reads`). An obligation is projected where it is due and its patch-plan item names a row (`Projects`); only
the ordinal of that item can raise what is not typed (`raises_project_iff`).
-/

namespace AiOrg

open List

namespace Scope

open Checks

/-- The error of the projection, at a coordinate. -/
def Typed (e : Raised) : Prop :=
  ∃ rule_id coordinate detail, e = .SeriesScopeDecompositionError rule_id coordinate detail ∧ coordinate ≠ ""

theorem typed_refused {rule_id coordinate : String} (h : coordinate ≠ "") : Typed (refused rule_id coordinate) :=
  ⟨rule_id, coordinate, "", rfl, h⟩

theorem typed_detailed {rule_id coordinate detail : String} (h : coordinate ≠ "") :
    Typed (.SeriesScopeDecompositionError rule_id coordinate detail) :=
  ⟨rule_id, coordinate, detail, rfl, h⟩

theorem not_typed_valueError : ¬Typed .ValueError := by
  rintro ⟨_, _, _, h, _⟩
  cases h

theorem append_ne_empty {a b : String} (h : a ≠ "") : a ++ b ≠ "" := by
  intro heq
  exact h (String.append_eq_empty_iff.1 heq).1

variable {error : Raised} {value : Json}

theorem mapping_eq_ok_iff {fields : Fields} : mapping error value = .ok fields ↔ value = .obj fields := by
  cases value <;> simp [mapping]

theorem items_eq_ok_iff {xs : List Json} : items error value = .ok xs ↔ value = .arr xs := by
  cases value <;> simp [items]

theorem boolean_eq_ok_iff {b : Bool} : boolean error value = .ok b ↔ value = .bool b := by
  cases value <;> simp [boolean]

theorem string_eq_ok_iff {t : String} : string error value = .ok t ↔ value = .str t := by
  cases value <;> simp [string]

theorem text_eq_ok_iff {t : String} : text error value = .ok t ↔ value = .str t ∧ t ≠ "" := by
  cases value with
  | str s =>
    rw [text]
    split_ifs with h
    · simp only [Json.str.injEq, false_iff]
      rintro ⟨rfl, hne⟩
      exact hne h
    · simp only [Except.ok.injEq, Json.str.injEq]
      exact ⟨fun heq => ⟨heq, heq ▸ h⟩, And.left⟩
  | _ => simp [text]

theorem positive_eq_ok_iff {n : ℤ} : positive error value = .ok n ↔ value = .int n ∧ 1 ≤ n := by
  cases value with
  | int k =>
    rw [positive]
    split_ifs with h
    · simp only [Json.int.injEq, false_iff]
      omega
    · simp only [Except.ok.injEq, Json.int.injEq]
      omega
  | _ => simp [positive]

theorem present_eq_ok_iff {α : Type} {o : Option α} {a : α} : present error o = .ok a ↔ o = some a := by
  cases o <;> simp [present]

theorem refuseFirst_eq_ok_iff {refuse : String → Raised} {names : List String} {u : Unit} :
    refuseFirst refuse names = .ok u ↔ names = [] := by
  have hlength := length_sorted names
  rw [refuseFirst]
  cases h : sorted names with
  | nil =>
    rw [h, length_nil] at hlength
    simp [eq_nil_of_length_eq_zero hlength.symm]
  | cons name rest =>
    rw [h, length_cons] at hlength
    simp only [reduceCtorEq, false_iff]
    rintro rfl
    cases hlength

section Raising

variable (h : Typed error)

include h

theorem raises_mapping : Raises Typed (mapping error value) := by
  cases value <;> simp [mapping, h]

theorem raises_items : Raises Typed (items error value) := by
  cases value <;> simp [items, h]

theorem raises_boolean : Raises Typed (boolean error value) := by
  cases value <;> simp [boolean, h]

theorem raises_string : Raises Typed (string error value) := by
  cases value <;> simp [string, h]

theorem raises_text : Raises Typed (text error value) := by
  cases value with
  | str s =>
    rw [text]
    split_ifs <;> simp [h]
  | _ => simp [text, h]

theorem raises_positive : Raises Typed (positive error value) := by
  cases value with
  | int n =>
    rw [positive]
    split_ifs <;> simp [h]
  | _ => simp [positive, h]

theorem raises_present {α : Type} {o : Option α} : Raises Typed (present error o) := by
  cases o <;> simp [present, h]

end Raising

theorem raises_refuseFirst {rule_id : String} {names : List String} (h : ∀ name ∈ names, name ≠ "") :
    Raises Typed (refuseFirst (refused rule_id) names) := by
  rw [refuseFirst]
  cases heq : sorted names with
  | nil => exact raises_ok
  | cons name rest =>
    have hname : name ∈ names := mem_sorted.1 (heq ▸ mem_cons_self)
    exact raises_error.2 (typed_refused (h name hname))

structure ReadsScopeRow (item : Json) (row : ScopeRow) : Prop where
  fields : ∃ fields : Fields, item = .obj fields ∧ SameMembers (keys fields) ["id", "kind", "text"] ∧
    fields.get "id" = .str row.id ∧ fields.get "kind" = .str row.kind ∧ fields.get "text" = .str row.text
  id : row.id ≠ ""
  kind : row.kind ∈ ESTABLISHED_SERIES_SCOPE_CATEGORIES
  text : row.text ≠ ""

theorem kind_ne_empty {kind : String} (h : kind ∈ ESTABLISHED_SERIES_SCOPE_CATEGORIES) : kind ≠ "" := by
  rintro rfl
  exact absurd h (by decide)

theorem readScopeRow_eq_ok_iff (seen : List ScopeRow) (index : ℕ) (item : Json) (row : ScopeRow) :
    readScopeRow seen index item = .ok row ↔ ReadsScopeRow item row ∧ ∀ z ∈ seen, z.id ≠ row.id := by
  simp only [readScopeRow, bind_eq_ok_iff, require_eq_ok_iff, exists_const, mapping_eq_ok_iff, text_eq_ok_iff, pure, Except.pure,
    Except.ok.injEq]
  constructor
  · rintro ⟨fields, rfl, hkeys, id, ⟨hid, hid'⟩, kind, ⟨hkind, -⟩, words, ⟨hwords, hwords'⟩, hmem, hseen, rfl⟩
    refine ⟨⟨⟨fields, rfl, hkeys, hid, hkind, hwords⟩, hid', hmem, hwords'⟩, ?_⟩
    intro z hz heq
    exact hseen (mem_map.2 ⟨z, hz, heq⟩)
  · rintro ⟨⟨⟨fields, rfl, hkeys, hid, hkind, hwords⟩, hid', hmem, hwords'⟩, hseen⟩
    refine ⟨fields, rfl, hkeys, row.id, ⟨hid, hid'⟩, row.kind, ⟨hkind, kind_ne_empty hmem⟩, row.text,
      ⟨hwords, hwords'⟩, hmem, ?_, rfl⟩
    intro h
    obtain ⟨z, hz, heq⟩ := mem_map.1 h
    exact hseen z hz heq

theorem raises_readScopeRow (seen : List ScopeRow) (index : ℕ) (item : Json) :
    Raises Typed (readScopeRow seen index item) := by
  have hcoordinate : ledgerPath ++ "/scope_items/" ++ toString index ≠ "" := append_ne_empty (by decide)
  have hrefused : ∀ rule, Typed (refused rule (ledgerPath ++ "/scope_items/" ++ toString index)) := fun _ =>
    typed_refused hcoordinate
  refine (raises_mapping (hrefused _)).bind fun fields _ => (raises_require (hrefused _)).bind fun _ _ => ?_
  refine (raises_text (hrefused _)).bind fun id _ => (raises_text (hrefused _)).bind fun kind _ => ?_
  refine (raises_text (hrefused _)).bind fun words _ => (raises_require (hrefused _)).bind fun _ _ => ?_
  exact (raises_require (hrefused _)).bind fun _ _ => raises_pure

structure ReadsOwnerRow (rows : List ScopeRow) (item : Json) (row : OwnerRow) : Prop where
  fields : ∃ fields : Fields, item = .obj fields ∧
    SameMembers (keys fields) ["scope_item_id", "owner", "owner_node_path"] ∧
    fields.get "scope_item_id" = .str row.scope_item_id ∧ fields.get "owner" = .str row.owner ∧
    fields.get "owner_node_path" = .str row.owner_node_path
  scope_item_id : row.scope_item_id ≠ ""
  owner : row.owner ≠ ""
  owner_node_path : row.owner_node_path ≠ ""
  known : row.scope_item_id ∈ rows.map (·.id)

theorem readOwnerRow_eq_ok_iff (rows : List ScopeRow) (seen : List OwnerRow) (index : ℕ) (item : Json)
    (row : OwnerRow) : readOwnerRow rows seen index item = .ok row ↔
      ReadsOwnerRow rows item row ∧ ∀ z ∈ seen, z.scope_item_id ≠ row.scope_item_id := by
  simp only [readOwnerRow, bind_eq_ok_iff, require_eq_ok_iff, exists_const, mapping_eq_ok_iff, text_eq_ok_iff, pure, Except.pure,
    Except.ok.injEq]
  constructor
  · rintro ⟨fields, rfl, hkeys, id, ⟨hid, hid'⟩, owner, ⟨howner, howner'⟩, path, ⟨hpath, hpath'⟩, hmem, hseen, rfl⟩
    refine ⟨⟨⟨fields, rfl, hkeys, hid, howner, hpath⟩, hid', howner', hpath', hmem⟩, ?_⟩
    intro z hz heq
    exact hseen (mem_map.2 ⟨z, hz, heq⟩)
  · rintro ⟨⟨⟨fields, rfl, hkeys, hid, howner, hpath⟩, hid', howner', hpath', hmem⟩, hseen⟩
    refine ⟨fields, rfl, hkeys, row.scope_item_id, ⟨hid, hid'⟩, row.owner, ⟨howner, howner'⟩, row.owner_node_path,
      ⟨hpath, hpath'⟩, hmem, ?_, rfl⟩
    intro h
    obtain ⟨z, hz, heq⟩ := mem_map.1 h
    exact hseen z hz heq

theorem raises_readOwnerRow (rows : List ScopeRow) (seen : List OwnerRow) (index : ℕ) (item : Json) :
    Raises Typed (readOwnerRow rows seen index item) := by
  have hrefused : ∀ rule, Typed (refused rule (ledgerPath ++ "/coverage/" ++ toString index)) := fun _ =>
    typed_refused (append_ne_empty (by decide))
  refine (raises_mapping (hrefused _)).bind fun fields _ => (raises_require (hrefused _)).bind fun _ _ => ?_
  refine (raises_text (hrefused _)).bind fun id _ => (raises_text (hrefused _)).bind fun owner _ => ?_
  refine (raises_text (hrefused _)).bind fun path _ => (raises_require (hrefused _)).bind fun _ _ => ?_
  exact (raises_require (hrefused _)).bind fun _ _ => raises_pure

/-! ### The root -/

structure ReadsGoal (rows : List ScopeRow) (item : Json) (goal : Goal) : Prop where
  fields : ∃ fields : Fields, item = .obj fields ∧ fields.get "id" = .str goal.id ∧
    fields.get "requires_deliverable" = .bool goal.requires_deliverable
  id : goal.id ≠ ""
  retained : goal.requires_deliverable = true →
    kindOf rows goal.id = some "referee_goal" ∨ kindOf rows goal.id = some "goal"

theorem readGoal_eq_ok_iff (rows : List ScopeRow) (seen : List Goal) (index : ℕ) (item : Json) (goal : Goal) :
    readGoal rows seen index item = .ok goal ↔ ReadsGoal rows item goal ∧ ∀ z ∈ seen, z.id ≠ goal.id := by
  simp only [readGoal, bind_eq_ok_iff, require_eq_ok_iff, exists_const, mapping_eq_ok_iff, text_eq_ok_iff, boolean_eq_ok_iff,
    pure, Except.pure, Except.ok.injEq]
  constructor
  · rintro ⟨fields, rfl, id, ⟨hid, hid'⟩, hseen, requires, hrequires, hretained, rfl⟩
    refine ⟨⟨⟨fields, rfl, hid, hrequires⟩, hid', hretained⟩, ?_⟩
    intro z hz heq
    exact hseen (mem_map.2 ⟨z, hz, heq⟩)
  · rintro ⟨⟨⟨fields, rfl, hid, hrequires⟩, hid', hretained⟩, hseen⟩
    refine ⟨fields, rfl, goal.id, ⟨hid, hid'⟩, ?_, goal.requires_deliverable, hrequires, hretained, rfl⟩
    intro h
    obtain ⟨z, hz, heq⟩ := mem_map.1 h
    exact hseen z hz heq

theorem raises_readGoal (rows : List ScopeRow) (seen : List Goal) (index : ℕ) (item : Json) :
    Raises Typed (readGoal rows seen index item) := by
  have hcoordinate : "root/problem/goals/" ++ toString index ≠ "" := append_ne_empty (by decide)
  refine (raises_mapping (typed_refused hcoordinate)).bind fun fields _ => ?_
  refine (raises_text (typed_refused hcoordinate)).bind fun id _ => ?_
  refine (raises_require (typed_refused hcoordinate)).bind fun _ _ => ?_
  refine (raises_boolean (typed_refused hcoordinate)).bind fun requires _ => ?_
  exact (raises_require (typed_detailed hcoordinate)).bind fun _ _ => raises_pure

structure ReadsRequirement (item : Json) (requirement : Requirement) : Prop where
  fields : item = .obj requirement.fields
  keys : SameMembers (keys requirement.fields) ROOT_DELIVERABLE_REQUIREMENT_FIELDS
  named : requirement.fields.get "id" = .str requirement.id
  id : requirement.id ≠ ""

theorem readRequirement_eq_ok_iff (seen : List Requirement) (index : ℕ) (item : Json) (requirement : Requirement) :
    readRequirement seen index item = .ok requirement ↔
      ReadsRequirement item requirement ∧ ∀ z ∈ seen, z.id ≠ requirement.id := by
  simp only [readRequirement, bind_eq_ok_iff, require_eq_ok_iff, exists_const, mapping_eq_ok_iff, text_eq_ok_iff, pure,
    Except.pure, Except.ok.injEq]
  constructor
  · rintro ⟨fields, rfl, hkeys, id, ⟨hid, hid'⟩, hseen, rfl⟩
    refine ⟨⟨rfl, hkeys, hid, hid'⟩, ?_⟩
    intro z hz heq
    exact hseen (mem_map.2 ⟨z, hz, heq⟩)
  · rintro ⟨⟨rfl, hkeys, hid, hid'⟩, hseen⟩
    refine ⟨requirement.fields, rfl, hkeys, requirement.id, ⟨hid, hid'⟩, ?_, rfl⟩
    intro h
    obtain ⟨z, hz, heq⟩ := mem_map.1 h
    exact hseen z hz heq

theorem raises_readRequirement (seen : List Requirement) (index : ℕ) (item : Json) :
    Raises Typed (readRequirement seen index item) := by
  have hrefused : ∀ rule, Typed (refused rule ("root/problem/deliverable_requirements/" ++ toString index)) := fun _ =>
    typed_refused (append_ne_empty (by decide))
  refine (raises_mapping (hrefused _)).bind fun fields _ => (raises_require (hrefused _)).bind fun _ _ => ?_
  refine (raises_text (hrefused _)).bind fun id _ => ?_
  exact (raises_require (hrefused _)).bind fun _ _ => raises_pure

/-- The obligations of a patch-plan item. -/
structure ReadsAssignment (item_id : String) (value : Json) (assignment : Assignment) : Prop where
  obligation : value = .str assignment.obligation_id
  item : assignment.item_id = item_id
  id : assignment.obligation_id ≠ ""

theorem readAssignment_eq_ok_iff (coordinate item_id : String) (seen : List Assignment) (index : ℕ) (value : Json)
    (assignment : Assignment) : readAssignment coordinate item_id seen index value = .ok assignment ↔
      ReadsAssignment item_id value assignment ∧ ∀ z ∈ seen, z.obligation_id ≠ assignment.obligation_id := by
  simp only [readAssignment, bind_eq_ok_iff, require_eq_ok_iff, exists_const, text_eq_ok_iff, pure, Except.pure,
    Except.ok.injEq]
  constructor
  · rintro ⟨id, ⟨rfl, hid⟩, hseen, rfl⟩
    refine ⟨⟨rfl, rfl, hid⟩, ?_⟩
    intro z hz heq
    exact hseen (mem_map.2 ⟨z, hz, heq⟩)
  · rintro ⟨⟨rfl, rfl, hid⟩, hseen⟩
    refine ⟨assignment.obligation_id, ⟨rfl, hid⟩, ?_, rfl⟩
    intro h
    obtain ⟨z, hz, heq⟩ := mem_map.1 h
    exact hseen z hz heq

/-- The rows of assignments are of different obligations. -/
def Assignment.Apart (a b : Assignment) : Prop := a.obligation_id ≠ b.obligation_id

structure ReadsPlanItem (item : Json) (assignments : List Assignment) : Prop where
  fields : ∃ (fields : Fields) (item_id : String) (ids : List Json), item = .obj fields ∧
    SameMembers (keys fields) ROOT_PATCH_PLAN_ASSIGNMENT_FIELDS ∧ fields.get "item_id" = .str item_id ∧ item_id ≠ "" ∧
    fields.get "production_obligation_ids" = .arr ids ∧ Forall₂ (ReadsAssignment item_id) ids assignments
  apart : assignments.Pairwise Assignment.Apart

theorem readPlanItem_eq_ok_iff (seen : List (List Assignment)) (index : ℕ) (item : Json)
    (assignments : List Assignment) : readPlanItem seen index item = .ok assignments ↔
      ReadsPlanItem item assignments ∧ ∀ zs ∈ seen, ∀ z ∈ zs, ∀ a ∈ assignments, Assignment.Apart z a := by
  have hcollect := fun coordinate item_id => @collect_eq_ok_iff _ _ _ (readAssignment coordinate item_id)
    (ReadsAssignment item_id) Assignment.Apart (readAssignment_eq_ok_iff coordinate item_id)
  simp only [readPlanItem, bind_eq_ok_iff, require_eq_ok_iff, exists_const, mapping_eq_ok_iff, text_eq_ok_iff,
    items_eq_ok_iff, hcollect]
  constructor
  · rintro ⟨fields, rfl, hkeys, item_id, ⟨hitem, hitem'⟩, ids, hids, hreads, hpairs, hseen⟩
    refine ⟨⟨⟨fields, item_id, ids, rfl, hkeys, hitem, hitem', hids, hreads⟩, hpairs⟩, ?_⟩
    intro zs hzs z hz
    exact hseen z (mem_flatten.2 ⟨zs, hzs, hz⟩)
  · rintro ⟨⟨⟨fields, item_id, ids, rfl, hkeys, hitem, hitem', hids, hreads⟩, hpairs⟩, hseen⟩
    refine ⟨fields, rfl, hkeys, item_id, ⟨hitem, hitem'⟩, ids, hids, hreads, hpairs, ?_⟩
    intro z hz
    obtain ⟨zs, hzs, hz⟩ := mem_flatten.1 hz
    exact hseen zs hzs z hz

theorem raises_readPlanItem (seen : List (List Assignment)) (index : ℕ) (item : Json) :
    Raises Typed (readPlanItem seen index item) := by
  have hrefused : ∀ rule, Typed (refused rule ("root/problem/patch_plan/" ++ toString index)) := fun _ =>
    typed_refused (append_ne_empty (by decide))
  refine (raises_mapping (hrefused _)).bind fun fields _ => (raises_require (hrefused _)).bind fun _ _ => ?_
  refine (raises_text (hrefused _)).bind fun id _ => (raises_items (hrefused _)).bind fun ids _ => ?_
  refine raises_collect fun _ _ _ => ?_
  refine (raises_text (hrefused _)).bind fun _ _ => ?_
  exact (raises_require (hrefused _)).bind fun _ _ => raises_pure

structure Reads (frozen_oid root_sha256 : String) (root ledger : Fields) (inputs : Inputs) : Prop where
  oid : isHex 40 frozen_oid = true
  digest : isHex 64 root_sha256 = true
  schema : ledger.get "schema" = .str "series-coverage-ledger-v1"
  scope : ∃ scope coverage : List Json, ledger.get "scope_items" = .arr scope ∧ ledger.get "coverage" = .arr coverage ∧
    Forall₂ ReadsScopeRow scope inputs.rows ∧ Forall₂ (ReadsOwnerRow inputs.rows) coverage inputs.owners
  rows : inputs.rows.Pairwise fun a b => a.id ≠ b.id
  owners : inputs.owners.Pairwise fun a b => a.scope_item_id ≠ b.scope_item_id
  owned : ∀ id ∈ inputs.rows.map (·.id), id ∈ inputs.owners.map (·.scope_item_id)
  problem : ∃ (problem : Fields) (goals requirements plan : List Json), root.get "problem" = .obj problem ∧
    problem.get "goals" = .arr goals ∧ problem.get "deliverable_requirements" = .arr requirements ∧
    problem.get "production_obligations" = .arr inputs.obligations ∧ problem.get "patch_plan" = .arr plan ∧
    Forall₂ (ReadsGoal inputs.rows) goals inputs.goals ∧
    Forall₂ ReadsRequirement requirements inputs.requirements ∧
    ∃ assignments, Forall₂ ReadsPlanItem plan assignments ∧ inputs.assignments = assignments.flatten
  goals : inputs.goals.Pairwise fun a b => a.id ≠ b.id
  requirements : inputs.requirements.Pairwise fun a b => a.id ≠ b.id
  assignments : inputs.assignments.Pairwise Assignment.Apart

theorem collect_scopeRows_iff {xs : List Json} {rows : List ScopeRow} :
    collect readScopeRow [] 0 xs = .ok rows ↔
      Forall₂ ReadsScopeRow xs rows ∧ rows.Pairwise fun a b => a.id ≠ b.id :=
  collect_nil_eq_ok_iff readScopeRow_eq_ok_iff

theorem collect_ownerRows_iff {rows : List ScopeRow} {xs : List Json} {owners : List OwnerRow} :
    collect (readOwnerRow rows) [] 0 xs = .ok owners ↔
      Forall₂ (ReadsOwnerRow rows) xs owners ∧ owners.Pairwise fun a b => a.scope_item_id ≠ b.scope_item_id :=
  collect_nil_eq_ok_iff (readOwnerRow_eq_ok_iff rows)

theorem collect_goals_iff {rows : List ScopeRow} {xs : List Json} {goals : List Goal} :
    collect (readGoal rows) [] 0 xs = .ok goals ↔
      Forall₂ (ReadsGoal rows) xs goals ∧ goals.Pairwise fun a b => a.id ≠ b.id :=
  collect_nil_eq_ok_iff (readGoal_eq_ok_iff rows)

theorem collect_requirements_iff {xs : List Json} {requirements : List Requirement} :
    collect readRequirement [] 0 xs = .ok requirements ↔
      Forall₂ ReadsRequirement xs requirements ∧ requirements.Pairwise fun a b => a.id ≠ b.id :=
  collect_nil_eq_ok_iff readRequirement_eq_ok_iff

theorem collect_plan_iff {xs : List Json} {assignments : List (List Assignment)} :
    collect readPlanItem [] 0 xs = .ok assignments ↔
      Forall₂ ReadsPlanItem xs assignments ∧ assignments.flatten.Pairwise Assignment.Apart := by
  rw [collect_nil_eq_ok_iff readPlanItem_eq_ok_iff, pairwise_flatten]
  constructor
  · rintro ⟨hreads, hpairs⟩
    refine ⟨hreads, ?_, hpairs⟩
    intro row hrow
    obtain ⟨item, -, hitem⟩ := Traverse.exists_of_mem_right hreads hrow
    exact hitem.apart
  · rintro ⟨hreads, -, hpairs⟩
    exact ⟨hreads, hpairs⟩

theorem missing_owners_iff {rows : List ScopeRow} {owners : List OwnerRow} :
    ((rows.map (·.id)).filter fun id => id ∉ owners.map (·.scope_item_id)) = [] ↔
      ∀ id ∈ rows.map (·.id), id ∈ owners.map (·.scope_item_id) := by
  rw [filter_eq_nil_iff]
  simp

theorem scopeInputs_eq_ok_iff {frozen_oid root_sha256 : String} {root ledger : Fields} {inputs : Inputs} :
    scopeInputs frozen_oid root_sha256 root ledger = .ok inputs ↔ Reads frozen_oid root_sha256 root ledger inputs := by
  simp only [scopeInputs, bind_eq_ok_iff, require_eq_ok_iff, exists_const, refuseFirst_eq_ok_iff, mapping_eq_ok_iff,
    items_eq_ok_iff, collect_scopeRows_iff, collect_ownerRows_iff, collect_goals_iff, collect_requirements_iff,
    collect_plan_iff, missing_owners_iff, pure, Except.pure, Except.ok.injEq]
  constructor
  · rintro ⟨hoid, hdigest, hschema, scope, hscope, coverage, hcoverage, rows, ⟨hrows, hrows'⟩, owners,
      ⟨howners, howners'⟩, howned, problem, hproblem, goals, hgoals, requirements, hrequirements, obligations,
      hobligations, plan, hplan, gs, ⟨hgs, hgs'⟩, rs, ⟨hrs, hrs'⟩, assignments, ⟨hassignments, hassignments'⟩, rfl⟩
    exact ⟨hoid, hdigest, hschema, ⟨scope, coverage, hscope, hcoverage, hrows, howners⟩, hrows', howners', howned,
      ⟨problem, goals, requirements, plan, hproblem, hgoals, hrequirements, hobligations, hplan, hgs, hrs, assignments,
        hassignments, rfl⟩, hgs', hrs', hassignments'⟩
  · rintro ⟨hoid, hdigest, hschema, ⟨scope, coverage, hscope, hcoverage, hrows, howners⟩, hrows', howners', howned,
      ⟨problem, goals, requirements, plan, hproblem, hgoals, hrequirements, hobligations, hplan, hgs, hrs, assignments,
        hassignments, hflat⟩, hgs', hrs', hassignments'⟩
    rw [hflat] at hassignments'
    refine ⟨hoid, hdigest, hschema, scope, hscope, coverage, hcoverage, inputs.rows, ⟨hrows, hrows'⟩, inputs.owners,
      ⟨howners, howners'⟩, howned, problem, hproblem, goals, hgoals, requirements, hrequirements, inputs.obligations,
      hobligations, plan, hplan, inputs.goals, ⟨hgs, hgs'⟩, inputs.requirements, ⟨hrs, hrs'⟩, assignments,
      ⟨hassignments, hassignments'⟩, ?_⟩
    rw [← hflat]

theorem raises_scopeInputs (frozen_oid root_sha256 : String) (root ledger : Fields) :
    Raises Typed (scopeInputs frozen_oid root_sha256 root ledger) := by
  refine (raises_require (typed_refused (by decide))).bind fun _ _ => ?_
  refine (raises_require (typed_refused (by decide))).bind fun _ _ => ?_
  refine (raises_require (typed_refused (by decide))).bind fun _ _ => ?_
  refine (raises_items (typed_refused (by decide))).bind fun scope _ => ?_
  refine (raises_items (typed_refused (by decide))).bind fun coverage _ => ?_
  refine (raises_collect raises_readScopeRow).bind fun rows hrows => ?_
  refine (raises_collect (raises_readOwnerRow rows)).bind fun owners _ => ?_
  have hids : ∀ name ∈ (rows.map (·.id)).filter fun id => id ∉ owners.map (·.scope_item_id), name ≠ "" := by
    intro name hname
    obtain ⟨row, hrow, rfl⟩ := mem_map.1 (mem_filter.1 hname).1
    obtain ⟨item, -, hitem⟩ := Traverse.exists_of_mem_right (collect_scopeRows_iff.1 hrows).1 hrow
    exact hitem.id
  refine (raises_refuseFirst hids).bind fun _ _ => ?_
  refine (raises_mapping (typed_refused (by decide))).bind fun problem _ => ?_
  refine (raises_items (typed_refused (by decide))).bind fun goals _ => ?_
  refine (raises_items (typed_refused (by decide))).bind fun requirements _ => ?_
  refine (raises_items (typed_refused (by decide))).bind fun obligations _ => ?_
  refine (raises_items (typed_refused (by decide))).bind fun plan _ => ?_
  refine (raises_collect (raises_readGoal rows)).bind fun goals _ => ?_
  refine (raises_collect raises_readRequirement).bind fun requirements _ => ?_
  exact (raises_collect raises_readPlanItem).bind fun assignments _ => raises_pure

section Resolution

variable {py : PyLib}

/-- What `int` can read of the digits that end the name of a numbered item. -/
def Readable (py : PyLib) (item_id : String) : Prop :=
  ∀ digits, (normalizedSuffix py item_id = "follow_up_".toList ++ digits ∨
    normalizedSuffix py item_id = "deferred_".toList ++ digits) → Text.isdigit digits = true →
      (∀ c ∈ digits, Text.isDecimal c = true) ∧ digits.length ≤ 4300

/-- A numeral: decimal digits of any script. -/
def IsOrdinal (digits : List Char) : Prop := digits ≠ [] ∧ ∀ c ∈ digits, Text.isDecimal c = true

theorem IsOrdinal.isdigit {digits : List Char} (h : IsOrdinal digits) : Text.isdigit digits = true := by
  simp only [Text.isdigit, Bool.and_eq_true, Bool.not_eq_true', isEmpty_eq_false_iff, all_eq_true]
  exact ⟨h.1, fun c hc => Text.isDigitChar_of_isDecimal (h.2 c hc)⟩

theorem ne_nil_of_isdigit {digits : List Char} (h : Text.isdigit digits = true) : digits ≠ [] := by
  rintro rfl
  cases h

/-- The coordinate that the name of an item stands for in a ledger. -/
inductive Names (py : PyLib) (item_id : String) : String → Prop
  | first (h : normalizedSuffix py item_id = "first_proof_moment".toList ∨
      normalizedSuffix py item_id = "first_proof".toList) : Names py item_id "patch_plan:first_proof_moment"
  | followUp {digits : List Char} (h : normalizedSuffix py item_id = "follow_up_".toList ++ digits)
      (hdigits : IsOrdinal digits) :
      Names py item_id ("patch_plan:follow_up:" ++ toString (Text.intOf digits : ℤ))
  | deferred {digits : List Char} (h : normalizedSuffix py item_id = "deferred_".toList ++ digits)
      (hdigits : IsOrdinal digits) :
      Names py item_id ("patch_plan:deferred:" ++ toString (Text.intOf digits : ℤ))

/-- The coordinate of an item among those that are owned. -/
def Resolves (py : PyLib) (owned : List String) (item_id scope_id : String) : Prop :=
  scope_id ∈ owned ∧ (scope_id = item_id ∨ item_id ∉ owned ∧ Names py item_id scope_id)

theorem Names.unique {item_id a b : String} (ha : Names py item_id a) (hb : Names py item_id b) : a = b := by
  cases ha with
  | first h =>
    cases hb with
    | first => rfl
    | followUp h' => rcases h with h | h <;> rw [h] at h' <;> simp at h'
    | deferred h' => rcases h with h | h <;> rw [h] at h' <;> simp at h'
  | followUp h =>
    cases hb with
    | first h' => rcases h' with h' | h' <;> rw [h] at h' <;> simp at h'
    | followUp h' => rw [append_cancel_left (h.symm.trans h')]
    | deferred h' => rw [h] at h'; simp at h'
  | deferred h =>
    cases hb with
    | first h' => rcases h' with h' | h' <;> rw [h] at h' <;> simp at h'
    | followUp h' => rw [h] at h'; simp at h'
    | deferred h' => rw [append_cancel_left (h.symm.trans h')]

theorem removePrefix_append (marker digits : List Char) : Text.removePrefix marker (marker ++ digits) = digits := by
  rw [Text.removePrefix, if_pos (prefix_append marker digits), drop_left]

theorem numberedCandidate_of_readable {normalized : List Char} {marker label : String}
    (h : ∀ digits, normalized = marker.toList ++ digits → Text.isdigit digits = true →
      (∀ c ∈ digits, Text.isDecimal c = true) ∧ digits.length ≤ 4300) :
    ∃ found, numberedCandidate normalized marker label = .ok found ∧ ∀ c, c ∈ found ↔
      ∃ digits, normalized = marker.toList ++ digits ∧ IsOrdinal digits ∧
        c = label ++ toString (Text.intOf digits : ℤ) := by
  rw [numberedCandidate]
  split_ifs with hmarker
  · obtain ⟨⟨digits, rfl⟩, hdigits⟩ := hmarker
    rw [removePrefix_append] at hdigits ⊢
    rw [Text.pyInt_isdigit hdigits, if_pos (h digits rfl hdigits)]
    refine ⟨_, rfl, fun c => ?_⟩
    rw [mem_singleton]
    constructor
    · rintro rfl
      exact ⟨digits, rfl, ⟨ne_nil_of_isdigit hdigits, (h digits rfl hdigits).1⟩, rfl⟩
    · rintro ⟨digits', heq, -, rfl⟩
      rw [append_cancel_left heq]
  · refine ⟨[], rfl, fun c => ?_⟩
    simp only [not_mem_nil, false_iff]
    rintro ⟨digits, rfl, hdigits, -⟩
    rw [removePrefix_append] at hmarker
    exact hmarker ⟨prefix_append _ _, hdigits.isdigit⟩

theorem numberedCandidate_of_unreadable {digits : List Char} {marker label : String}
    (hdigits : Text.isdigit digits = true)
    (h : ¬((∀ c ∈ digits, Text.isDecimal c = true) ∧ digits.length ≤ 4300)) :
    numberedCandidate (marker.toList ++ digits) marker label = .error .ValueError := by
  rw [numberedCandidate]
  simp only [removePrefix_append]
  rw [if_pos ⟨prefix_append _ _, hdigits⟩, Text.pyInt_isdigit hdigits, if_neg h]

theorem planCandidates_of_readable {item_id : String} (h : Readable py item_id) :
    ∃ aliases, planCandidates py item_id = .ok (item_id :: aliases) ∧ ∀ c, c ∈ aliases ↔ Names py item_id c := by
  obtain ⟨followUps, hfollow, hfollow'⟩ := @numberedCandidate_of_readable (normalizedSuffix py item_id) "follow_up_"
    "patch_plan:follow_up:" fun digits heq => h digits (.inl heq)
  obtain ⟨deferred, hdeferred, hdeferred'⟩ := @numberedCandidate_of_readable (normalizedSuffix py item_id) "deferred_"
    "patch_plan:deferred:" fun digits heq => h digits (.inr heq)
  have hcandidates : planCandidates py item_id = .ok (item_id ::
      ((if normalizedSuffix py item_id = "first_proof_moment".toList ∨
          normalizedSuffix py item_id = "first_proof".toList then ["patch_plan:first_proof_moment"] else []) ++
        followUps ++ deferred)) := by
    simp only [planCandidates, hfollow, hdeferred, bind, Except.bind, pure, Except.pure]
  refine ⟨_, hcandidates, fun c => ?_⟩
  rw [append_assoc, mem_append, mem_append, hfollow', hdeferred']
  constructor
  · rintro (hfirst | ⟨digits, heq, hdigits, rfl⟩ | ⟨digits, heq, hdigits, rfl⟩)
    · split_ifs at hfirst with hname
      · rw [mem_singleton.1 hfirst]
        exact .first hname
      · cases hfirst
    · exact .followUp heq hdigits
    · exact .deferred heq hdigits
  · intro hname
    cases hname with
    | first h => exact .inl (by rw [if_pos h]; exact mem_singleton_self _)
    | followUp heq hdigits => exact .inr (.inl ⟨_, heq, hdigits, rfl⟩)
    | deferred heq hdigits => exact .inr (.inr ⟨_, heq, hdigits, rfl⟩)

theorem planCandidates_of_unreadable {item_id : String} (h : ¬Readable py item_id) :
    planCandidates py item_id = .error .ValueError := by
  simp only [Readable, not_forall] at h
  obtain ⟨digits, heq | heq, hdigits, hnot⟩ := h
  · simp only [planCandidates, heq, numberedCandidate_of_unreadable hdigits hnot, bind, Except.bind]
  · have hother : numberedCandidate ("deferred_".toList ++ digits) "follow_up_" "patch_plan:follow_up:" = .ok [] := by
      rw [numberedCandidate]
      exact if_neg fun hmarker => absurd hmarker.1 (by simp)
    simp only [planCandidates, heq, hother, numberedCandidate_of_unreadable hdigits hnot, bind, Except.bind]

theorem resolve_of_unreadable {item_id : String} (h : ¬Readable py item_id) (owned : List String) :
    _historical_patch_plan_scope_id py item_id owned = .error .ValueError := by
  rw [_historical_patch_plan_scope_id, planCandidates_of_unreadable h]
  rfl

theorem resolve_of_readable {item_id : String} (h : Readable py item_id) (owned : List String) :
    ∃ found, _historical_patch_plan_scope_id py item_id owned = .ok found ∧
      ∀ scope_id, found = some scope_id ↔ Resolves py owned item_id scope_id := by
  obtain ⟨aliases, hcandidates, haliases⟩ := planCandidates_of_readable h
  have hresolve : _historical_patch_plan_scope_id py item_id owned =
      .ok ((item_id :: aliases).find? fun candidate => candidate ∈ owned) := by
    rw [_historical_patch_plan_scope_id, hcandidates]
    rfl
  refine ⟨_, hresolve, fun scope_id => ?_⟩
  by_cases hitem : item_id ∈ owned
  · rw [find?_cons_of_pos (by simpa using hitem), Option.some.injEq]
    constructor
    · rintro rfl
      exact ⟨hitem, .inl rfl⟩
    · rintro ⟨-, rfl | ⟨hnot, -⟩⟩
      · rfl
      · exact absurd hitem hnot
  · rw [find?_cons_of_neg (by simpa using hitem)]
    constructor
    · intro hfind
      exact ⟨by simpa using find?_some hfind, .inr ⟨hitem, (haliases _).1 (mem_of_find?_eq_some hfind)⟩⟩
    · rintro ⟨howned, rfl | ⟨-, hnames⟩⟩
      · exact absurd howned hitem
      · obtain ⟨found, hfound⟩ := Option.isSome_iff_exists.1
          ((find?_isSome (p := fun candidate => decide (candidate ∈ owned))).2 ⟨scope_id, (haliases scope_id).2 hnames,
            decide_eq_true howned⟩)
        rw [hfound, hnames.unique ((haliases _).1 (mem_of_find?_eq_some hfound))]

end Resolution

/-! ### The obligations -/

structure ReadsObligation (item : Json) (obligation : Obligation) : Prop where
  fields : ∃ fields : Fields, item = .obj fields ∧
    (∀ key ∈ ROOT_PRODUCTION_OBLIGATION_REQUIRED_FIELDS, key ∈ keys fields) ∧
    (∀ key ∈ keys fields, key ∈ ROOT_PRODUCTION_OBLIGATION_FIELDS) ∧
    fields.get "id" = .str obligation.id ∧ fields.get "referee_goal_id" = .str obligation.referee_goal_id ∧
    fields.get "deliverable_requirement_id" = .str obligation.deliverable_requirement_id ∧
    fields.get "deliverable" = .str obligation.deliverable ∧
    fields.get "eligibility_predicate" = .str obligation.eligibility_predicate
  id : obligation.id ≠ ""
  referee_goal_id : obligation.referee_goal_id ≠ ""
  deliverable_requirement_id : obligation.deliverable_requirement_id ≠ ""
  deliverable : obligation.deliverable ≠ ""
  eligibility_predicate : obligation.eligibility_predicate ≠ ""

theorem readObligation_eq_ok_iff {coordinate : String} {item : Json} {obligation : Obligation} :
    readObligation coordinate item = .ok obligation ↔ ReadsObligation item obligation := by
  simp only [readObligation, bind_eq_ok_iff, require_eq_ok_iff, exists_const, mapping_eq_ok_iff, text_eq_ok_iff, pure,
    Except.pure, Except.ok.injEq]
  constructor
  · rintro ⟨fields, rfl, ⟨hkeys, hkeys'⟩, id, ⟨hid, hid'⟩, goal, ⟨hgoal, hgoal'⟩, requirement, ⟨hrequirement,
      hrequirement'⟩, deliverable, ⟨hdeliverable, hdeliverable'⟩, predicate, ⟨hpredicate, hpredicate'⟩, rfl⟩
    exact ⟨⟨fields, rfl, hkeys, hkeys', hid, hgoal, hrequirement, hdeliverable, hpredicate⟩, hid', hgoal',
      hrequirement', hdeliverable', hpredicate'⟩
  · rintro ⟨⟨fields, rfl, hkeys, hkeys', hid, hgoal, hrequirement, hdeliverable, hpredicate⟩, hid', hgoal',
      hrequirement', hdeliverable', hpredicate'⟩
    exact ⟨fields, rfl, ⟨hkeys, hkeys'⟩, _, ⟨hid, hid'⟩, _, ⟨hgoal, hgoal'⟩, _, ⟨hrequirement, hrequirement'⟩, _,
      ⟨hdeliverable, hdeliverable'⟩, _, ⟨hpredicate, hpredicate'⟩, rfl⟩

theorem raises_readObligation {coordinate : String} (h : coordinate ≠ "") (item : Json) :
    Raises Typed (readObligation coordinate item) := by
  refine (raises_mapping (typed_refused h)).bind fun fields _ => ?_
  refine (raises_require (typed_refused h)).bind fun _ _ => (raises_text (typed_refused h)).bind fun id _ => ?_
  refine (raises_text (typed_refused h)).bind fun goal _ => (raises_text (typed_refused h)).bind fun _ _ => ?_
  refine (raises_text (typed_refused h)).bind fun _ _ => (raises_text (typed_refused h)).bind fun _ _ => ?_
  exact raises_pure

/-- The row of a requirement that an obligation and its goal name, with the same deliverable. -/
def Links (requirement : Requirement) (obligation : Obligation) : Prop :=
  requirement.id = obligation.deliverable_requirement_id ∧
    requirement.fields.get "referee_goal_id" = .str obligation.referee_goal_id ∧
    requirement.fields.get "production_obligation_id" = .str obligation.id ∧
    requirement.fields.get "deliverable" = .str obligation.deliverable

theorem find?_eq_some_iff_mem {α : Type} {key : α → String} {xs : List α}
    (hxs : xs.Pairwise fun a b => key a ≠ key b) {k : String} {x : α} :
    (xs.find? fun a => key a = k) = some x ↔ x ∈ xs ∧ key x = k := by
  induction xs with
  | nil => simp
  | cons a xs ih =>
    obtain ⟨ha, hxs⟩ := pairwise_cons.1 hxs
    by_cases hk : key a = k
    · rw [find?_cons_of_pos (by simpa using hk), Option.some.injEq]
      constructor
      · rintro rfl
        exact ⟨mem_cons_self, hk⟩
      · rintro ⟨hmem, hx⟩
        rcases mem_cons.1 hmem with rfl | hmem
        · rfl
        · exact absurd (hk.trans hx.symm) (ha x hmem)
    · rw [find?_cons_of_neg (by simpa using hk), ih hxs, mem_cons]
      constructor
      · rintro ⟨hmem, hx⟩
        exact ⟨.inr hmem, hx⟩
      · rintro ⟨rfl | hmem, hx⟩
        · exact absurd hx hk
        · exact ⟨hmem, hx⟩

/-- An obligation that passes its checks, up to the item it is assigned to. -/
structure Due (inputs : Inputs) (item : Json) (obligation : Obligation) (patch_item_id : String) : Prop where
  reads : ReadsObligation item obligation
  goal : obligation.referee_goal_id ∈ inputs.referee_goals
  requirement : ∃ requirement ∈ inputs.requirements, Links requirement obligation
  assigned : ⟨obligation.id, patch_item_id⟩ ∈ inputs.assignments
  fresh : obligation.id ∉ inputs.rows.map (·.id)

/-- The obligation is about another goal and another requirement, and it is another one. -/
def Obligation.Apart (a b : Obligation) : Prop :=
  a.referee_goal_id ≠ b.referee_goal_id ∧ a.deliverable_requirement_id ≠ b.deliverable_requirement_id ∧ a.id ≠ b.id

/-- The row of an obligation, when the rows before it are left out of account. -/
structure Projects (py : PyLib) (inputs : Inputs) (item : Json) (row : Projection) : Prop where
  due : Due inputs item row.obligation row.patch_plan_item_id
  readable : Readable py row.patch_plan_item_id
  resolves : Resolves py (inputs.owners.map (·.scope_item_id)) row.patch_plan_item_id row.owner.scope_item_id
  owner : row.owner ∈ inputs.owners
  kind : kindOf inputs.rows row.owner.scope_item_id = some "patch_plan"

/-- Two rows, where the item of the second one is not taken for the first. -/
def Projection.Apart (a b : Projection) : Prop :=
  a.obligation.Apart b.obligation ∧ (a.id = b.patch_plan_item_id → b.owner.scope_item_id = b.patch_plan_item_id)

theorem mem_rows_of_kindOf {rows : List ScopeRow} {id kind : String} (h : kindOf rows id = some kind) :
    id ∈ rows.map (·.id) := by
  obtain ⟨row, hrow, -⟩ := Option.map_eq_some_iff.1 h
  exact mem_map.2 ⟨row, mem_of_find?_eq_some hrow, by simpa using find?_some hrow⟩

theorem ownerRow_ids (inputs : Inputs) (seen : List Projection) :
    (inputs.owners ++ seen.map (·.ownerRow)).map (·.scope_item_id) =
      inputs.owners.map (·.scope_item_id) ++ seen.map (·.id) := by
  rw [map_append, map_map]
  rfl

section Project

variable {py : PyLib} {frozen_oid root_sha256 : String} {root ledger : Fields} {inputs : Inputs}
  (hreads : Reads frozen_oid root_sha256 root ledger inputs)

include hreads

theorem associated_iff {seen : List Projection} {obligation : Obligation} :
    Associated inputs seen obligation ↔ obligation.referee_goal_id ∈ inputs.referee_goals ∧
      (∀ z ∈ seen, z.obligation.referee_goal_id ≠ obligation.referee_goal_id) ∧
      (∀ z ∈ seen, z.obligation.deliverable_requirement_id ≠ obligation.deliverable_requirement_id) ∧
      ∃ requirement ∈ inputs.requirements, Links requirement obligation := by
  simp only [Associated, Option.mem_def, find?_eq_some_iff_mem hreads.requirements, mem_map, not_exists, not_and,
    Links]
  refine and_congr_right fun _ => and_congr_right fun _ => and_congr_right fun _ => ?_
  exact exists_congr fun requirement => ⟨fun ⟨⟨hmem, hid⟩, h⟩ => ⟨hmem, hid, h⟩, fun ⟨hmem, hid, h⟩ => ⟨⟨hmem, hid⟩, h⟩⟩

theorem assigned_iff {seen : List Projection} {id : String} {assignment : Assignment} :
    ((inputs.assignments.filter fun a => a.obligation_id ∉ seen.map (·.id)).find? fun a => a.obligation_id = id) =
      some assignment ↔
      assignment ∈ inputs.assignments ∧ assignment.obligation_id = id ∧ ∀ z ∈ seen, z.id ≠ id := by
  rw [find?_eq_some_iff_mem (hreads.assignments.filter _), mem_filter]
  simp only [decide_eq_true_eq, mem_map, not_exists, not_and]
  constructor
  · rintro ⟨⟨hmem, hseen⟩, rfl⟩
    exact ⟨hmem, rfl, hseen⟩
  · rintro ⟨hmem, rfl, hseen⟩
    exact ⟨⟨hmem, hseen⟩, rfl⟩

theorem ownership_find?_iff {later : List OwnerRow} {id kind : String} {owner : OwnerRow}
    (hkind : kindOf inputs.rows id = some kind) :
    ((inputs.owners ++ later).find? fun owner => owner.scope_item_id = id) = some owner ↔
      owner ∈ inputs.owners ∧ owner.scope_item_id = id := by
  have howned := hreads.owned id (mem_rows_of_kindOf hkind)
  obtain ⟨known, hknown, hid⟩ := mem_map.1 howned
  rw [find?_append, (find?_eq_some_iff_mem hreads.owners).2 ⟨hknown, hid⟩, Option.some_or,
    ← find?_eq_some_iff_mem hreads.owners, (find?_eq_some_iff_mem hreads.owners).2 ⟨hknown, hid⟩]

theorem resolves_append_iff {later : List String} {item_id scope_id kind : String}
    (hkind : kindOf inputs.rows scope_id = some kind) :
    Resolves py (inputs.owners.map (·.scope_item_id) ++ later) item_id scope_id ↔
      Resolves py (inputs.owners.map (·.scope_item_id)) item_id scope_id ∧ (item_id ∈ later → scope_id = item_id) := by
  have howned := hreads.owned scope_id (mem_rows_of_kindOf hkind)
  simp only [Resolves, mem_append, not_or]
  constructor
  · rintro ⟨-, rfl | ⟨⟨hitem, hlater⟩, hnames⟩⟩
    · exact ⟨⟨howned, .inl rfl⟩, fun _ => rfl⟩
    · exact ⟨⟨howned, .inr ⟨hitem, hnames⟩⟩, fun h => absurd h hlater⟩
  · rintro ⟨⟨-, rfl | ⟨hitem, hnames⟩⟩, hlater⟩
    · exact ⟨.inl howned, .inl rfl⟩
    · by_cases h : item_id ∈ later
      · exact ⟨.inl howned, .inl (hlater h)⟩
      · exact ⟨.inl howned, .inr ⟨⟨hitem, h⟩, hnames⟩⟩

theorem project_eq_ok_iff (seen : List Projection) (index : ℕ) (item : Json) (row : Projection) :
    project py inputs seen index item = .ok row ↔ Projects py inputs item row ∧ ∀ z ∈ seen, z.Apart row := by
  simp only [project, bind_eq_ok_iff, require_eq_ok_iff, exists_const, readObligation_eq_ok_iff, associated_iff hreads,
    present_eq_ok_iff, assigned_iff hreads, ownerRow_ids, pure, Except.pure, Except.ok.injEq,
    Option.bind_eq_some_iff, Option.filter_eq_some_iff, decide_eq_true_eq]
  constructor
  · rintro ⟨obligation, hobligation, ⟨hgoal, hgoals, hrequirements, hrequirement⟩, ⟨_, item_id⟩, ⟨hmem, hid, hids⟩, hfresh,
      found, hfound, owner, ⟨scope_id, ⟨hscope, hkind⟩, howner⟩, rfl⟩
    cases hid
    have hreadable : Readable py item_id := by
      by_contra hnot
      rw [resolve_of_unreadable hnot] at hfound
      cases hfound
    obtain ⟨found', hfound', hresolves⟩ := resolve_of_readable hreadable
      (inputs.owners.map (·.scope_item_id) ++ seen.map (·.id))
    obtain rfl : found' = found := Except.ok.inj (hfound'.symm.trans hfound)
    obtain ⟨howned, rfl⟩ := (ownership_find?_iff hreads hkind).1 howner
    obtain ⟨hresolved, hlater⟩ := (resolves_append_iff hreads hkind).1 ((hresolves _).1 hscope)
    refine ⟨⟨⟨hobligation, hgoal, hrequirement, hmem, fun h => hfresh (mem_append_left _ h)⟩, hreadable, hresolved,
      howned, hkind⟩, fun z hz => ⟨⟨hgoals z hz, hrequirements z hz, hids z hz⟩, fun heq => ?_⟩⟩
    exact hlater (mem_map.2 ⟨z, hz, heq⟩)
  · rintro ⟨⟨⟨hobligation, hgoal, hrequirement, hassigned, hfresh⟩, hreadable, hresolved, howned, hkind⟩, hapart⟩
    obtain ⟨found, hfound, hresolves⟩ := resolve_of_readable hreadable
      (inputs.owners.map (·.scope_item_id) ++ seen.map (·.id))
    have hscope : found = some row.owner.scope_item_id := by
      refine (hresolves _).2 ((resolves_append_iff hreads hkind).2 ⟨hresolved, fun h => ?_⟩)
      obtain ⟨z, hz, heq⟩ := mem_map.1 h
      exact (hapart z hz).2 heq
    refine ⟨row.obligation, hobligation, ⟨hgoal, fun z hz => (hapart z hz).1.1, fun z hz => (hapart z hz).1.2.1,
      hrequirement⟩, ⟨row.obligation.id, row.patch_plan_item_id⟩, ⟨hassigned, rfl, fun z hz => (hapart z hz).1.2.2⟩,
      ?_, found, hfound, row.owner, ⟨_, ⟨hscope, hkind⟩, (ownership_find?_iff hreads hkind).2 ⟨howned, rfl⟩⟩, rfl⟩
    intro h
    rcases mem_append.1 h with h | h
    · exact hfresh h
    · obtain ⟨z, hz, heq⟩ := mem_map.1 h
      exact (hapart z hz).1.2.2 heq

theorem collect_project_iff {xs : List Json} {rows : List Projection} :
    collect (project py inputs) [] 0 xs = .ok rows ↔
      Forall₂ (Projects py inputs) xs rows ∧ rows.Pairwise Projection.Apart :=
  collect_nil_eq_ok_iff (project_eq_ok_iff hreads)

theorem assignment_ne_empty : ∀ a ∈ inputs.assignments, a.item_id ≠ "" ∧ a.obligation_id ≠ "" := by
  intro a ha
  obtain ⟨-, -, -, plan, -, -, -, -, -, -, -, assignments, hplan, hflat⟩ := hreads.problem
  rw [hflat] at ha
  obtain ⟨row, hrow, ha⟩ := mem_flatten.1 ha
  obtain ⟨item, -, hitem⟩ := Traverse.exists_of_mem_right hplan hrow
  obtain ⟨-, item_id, ids, -, -, -, hitem_id, -, hids⟩ := hitem.fields
  obtain ⟨value, -, hvalue⟩ := Traverse.exists_of_mem_right hids ha
  exact ⟨hvalue.item ▸ hitem_id, hvalue.id⟩

/-- Only the ordinal of the item an obligation is assigned to raises what is not typed. -/
theorem raises_project_iff {seen : List Projection} {index : ℕ} {item : Json} :
    Raises Typed (project py inputs seen index item) ↔ ∀ obligation patch_item_id,
      Due inputs item obligation patch_item_id → (∀ z ∈ seen, z.obligation.Apart obligation) →
        Readable py patch_item_id := by
  have hcoordinate : "root/problem/production_obligations/" ++ toString index ≠ "" := append_ne_empty (by decide)
  constructor
  · intro h obligation item_id hdue hapart
    by_contra hnot
    have hraised : project py inputs seen index item = .error .ValueError := by
      have hassociated := (associated_iff hreads).2 ⟨hdue.goal, fun z hz => (hapart z hz).1,
        fun z hz => (hapart z hz).2.1, hdue.requirement⟩
      have hassigned := (@assigned_iff _ _ _ _ _ hreads seen obligation.id ⟨obligation.id, item_id⟩).2
        ⟨hdue.assigned, rfl, fun z hz => (hapart z hz).2.2⟩
      have hfresh : obligation.id ∉ inputs.rows.map (·.id) ++ seen.map (·.id) := by
        intro h
        rcases mem_append.1 h with h | h
        · exact hdue.fresh h
        · obtain ⟨z, hz, heq⟩ := mem_map.1 h
          exact (hapart z hz).2.2 heq
      simp only [project, readObligation_eq_ok_iff.2 hdue.reads, require, if_pos hassociated, hassigned, present,
        if_pos hfresh, resolve_of_unreadable hnot, bind, Except.bind]
    exact not_typed_valueError (h _ hraised)
  · intro h
    refine (raises_readObligation hcoordinate item).bind fun obligation hobligation => ?_
    refine (raises_require (typed_refused hcoordinate)).bind fun _ hassociated => ?_
    refine (raises_present (typed_refused hcoordinate)).bind fun assignment hassigned => ?_
    refine (raises_require (typed_refused hcoordinate)).bind fun _ hfresh => ?_
    obtain ⟨hgoal, hgoals, hrequirements, hrequirement⟩ := (associated_iff hreads).1 (require_eq_ok_iff.1 hassociated)
    obtain ⟨hmem, hid, hids⟩ := (assigned_iff hreads).1 (present_eq_ok_iff.1 hassigned)
    have hdue : Due inputs item obligation assignment.item_id := by
      refine ⟨readObligation_eq_ok_iff.1 hobligation, hgoal, hrequirement, ?_,
        fun h => require_eq_ok_iff.1 hfresh (mem_append_left _ h)⟩
      rw [← hid]
      exact hmem
    have hreadable := h obligation assignment.item_id hdue fun z hz => ⟨hgoals z hz, hrequirements z hz, hids z hz⟩
    obtain ⟨found, hfound, -⟩ := resolve_of_readable hreadable
      ((inputs.owners ++ seen.map (·.ownerRow)).map (·.scope_item_id))
    refine Raises.bind ?_ fun _ _ => ?_
    · rw [hfound]
      exact raises_ok
    exact (raises_present (typed_detailed (assignment_ne_empty hreads _ hmem).1)).bind fun _ _ => raises_pure

end Project

end Scope

end AiOrg
