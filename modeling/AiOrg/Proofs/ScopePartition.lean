import AiOrg.Proofs.Scope
import AiOrg.Python.Base64

/-!
# Scope decomposition is typed, and a partition

A scope decomposition raises what is not typed only where the patch-plan item of an obligation that is due, after rows
that are projected, ends in digits that `int` refuses (`typed_iff`).
-/

namespace AiOrg

open List

namespace Scope

open Checks

variable {py : PyLib} {frozen_oid root_sha256 : String} {root ledger : Fields} {inputs : Inputs}

/-- No assignment is left, and every goal that requires a deliverable and every requirement has its obligation. -/
structure Closed (inputs : Inputs) (rows : List Projection) : Prop where
  assignments : ∀ a ∈ inputs.assignments, a.obligation_id ∈ rows.map (·.id)
  goals : SameMembers (rows.map (·.obligation.referee_goal_id)) inputs.referee_goals
  requirements : SameMembers (rows.map (·.obligation.deliverable_requirement_id)) (inputs.requirements.map (·.id))

theorem closeObligations_eq_ok_iff {rows : List Projection} {u : Unit} :
    closeObligations inputs rows = .ok u ↔ Closed inputs rows := by
  simp only [closeObligations, bind_eq_ok_iff, refuseFirst_eq_ok_iff, exists_const, require_eq_ok_iff,
    map_eq_nil_iff, filter_eq_nil_iff, decide_eq_true_eq, not_not]
  constructor
  · rintro ⟨hassignments, hgoals, hrequirements⟩
    exact ⟨hassignments, hgoals, hrequirements⟩
  · intro h
    exact ⟨h.assignments, h.goals, h.requirements⟩

theorem raises_closeObligations (hreads : Reads frozen_oid root_sha256 root ledger inputs) (rows : List Projection) :
    Raises Typed (closeObligations inputs rows) := by
  refine (raises_refuseFirst ?_).bind fun _ _ => raises_require (typed_detailed (by decide))
  intro name hname
  obtain ⟨a, ha, rfl⟩ := mem_map.1 hname
  exact (assignment_ne_empty hreads a (mem_filter.1 ha).1).2

theorem raises_closed_escalation (value : Json) : Raises Typed (_closed_escalation_consumption value) := by
  have herror : Typed escalationError := typed_refused (by decide)
  rw [_closed_escalation_consumption]
  refine (raises_mapping herror).bind fun fields _ => ?_
  split_ifs
  · exact raises_pure
  · refine (raises_require (typed_detailed (by decide))).bind fun _ _ => ?_
    refine (raises_positive herror).bind fun round _ => (raises_text herror).bind fun branch _ => ?_
    refine (raises_text herror).bind fun commit _ => (raises_require herror).bind fun _ _ => ?_
    exact (raises_require herror).bind fun _ _ => raises_pure

theorem raises_readLineage (ledger : Fields) (scope_ids : List String) :
    Raises Typed (readLineage ledger scope_ids) := by
  refine (raises_positive (typed_refused (by decide))).bind fun revision _ => ?_
  refine (raises_string (typed_refused (by decide))).bind fun supersedes _ => ?_
  refine (raises_require (typed_refused (by decide))).bind fun _ _ => ?_
  refine (raises_require (typed_detailed (by decide))).bind fun _ _ => ?_
  refine (raises_closed_escalation _).bind fun escalation _ => ?_
  refine (raises_items (typed_refused (by decide))).bind fun retained _ => ?_
  refine (raises_collect fun _ index _ => ?_).bind fun retained _ => raises_pure
  have hcoordinate : ledgerPath ++ "/parent_retained_scope_ids/" ++ toString index ≠ "" := append_ne_empty (by decide)
  refine (raises_string (typed_refused hcoordinate)).bind fun _ _ => ?_
  refine (raises_require (typed_refused hcoordinate)).bind fun _ _ => ?_
  exact (raises_require (typed_refused hcoordinate)).bind fun _ _ => raises_pure

/-! ### What is raised -/

/-- The items of the obligations that are due can be read, as long as the rows before them are projected. -/
def OrdinalsReadable (py : PyLib) (inputs : Inputs) : Prop :=
  ∀ front item rest, inputs.obligations = front ++ item :: rest → ∀ rows,
    Forall₂ (Projects py inputs) front rows → rows.Pairwise Projection.Apart → ∀ obligation patch_item_id,
      Due inputs item obligation patch_item_id → (∀ z ∈ rows, z.obligation.Apart obligation) →
        Readable py patch_item_id

theorem raises_collect_project_iff (hreads : Reads frozen_oid root_sha256 root ledger inputs) :
    Raises Typed (collect (project py inputs) [] 0 inputs.obligations) ↔ OrdinalsReadable py inputs := by
  rw [raises_collect_iff]
  simp only [collect_project_iff hreads, raises_project_iff hreads, append_nil, mem_reverse, and_imp,
    OrdinalsReadable]

theorem raises_body_iff : Raises Typed (_series_scope_decomposition_body py frozen_oid root_sha256 root ledger) ↔
    ∀ inputs, Reads frozen_oid root_sha256 root ledger inputs → OrdinalsReadable py inputs := by
  rw [_series_scope_decomposition_body, raises_bind_iff, and_iff_right (raises_scopeInputs _ _ _ _)]
  simp only [scopeInputs_eq_ok_iff]
  refine forall₂_congr fun inputs hreads => ?_
  rw [raises_bind_iff, raises_collect_project_iff hreads, and_iff_left_iff_imp]
  intro _ rows _
  refine (raises_closeObligations hreads rows).bind fun _ _ => ?_
  refine (raises_require (typed_refused (by decide))).bind fun _ _ => ?_
  refine (raises_require (typed_refused (by decide))).bind fun _ _ => ?_
  exact (raises_readLineage _ _).bind fun _ _ => raises_pure

/-- A decomposition returns a body or raises its own error at a coordinate if and only if no ordinal that it comes to
is one that `int` refuses. -/
theorem typed_iff (py : PyLib) (frozen_oid root_sha256 : String) (root ledger : Fields) :
    ((∃ body, _series_scope_decomposition_body py frozen_oid root_sha256 root ledger = .ok body) ∨
      ∃ rule_id coordinate detail, coordinate ≠ "" ∧
        _series_scope_decomposition_body py frozen_oid root_sha256 root ledger =
          .error (.SeriesScopeDecompositionError rule_id coordinate detail)) ↔
      ∀ inputs, Reads frozen_oid root_sha256 root ledger inputs → OrdinalsReadable py inputs := by
  rw [← raises_body_iff]
  constructor
  · rintro (⟨body, hbody⟩ | ⟨rule_id, coordinate, detail, hcoordinate, herror⟩)
    · rw [hbody]
      exact raises_ok
    · rw [herror]
      exact raises_error.2 ⟨rule_id, coordinate, detail, rfl, hcoordinate⟩
  · intro h
    cases hbody : _series_scope_decomposition_body py frozen_oid root_sha256 root ledger with
    | ok body => exact .inl ⟨body, rfl⟩
    | error e =>
      obtain ⟨rule_id, coordinate, detail, rfl, hcoordinate⟩ := h e hbody
      exact .inr ⟨rule_id, coordinate, detail, hcoordinate, rfl⟩

section Superscript

/-- The plan item of a root whose name ends in a superscript digit. -/
def superscriptItem : String := "deferred_²"

def superscriptRoot : Fields :=
  [("problem", .obj [
    ("goals", .arr [.obj [("id", .str "goal-1"), ("requires_deliverable", .bool true)]]),
    ("deliverable_requirements", .arr [.obj [("id", .str "requirement-1"), ("referee_goal_id", .str "goal-1"),
      ("production_obligation_id", .str "obligation-1"), ("deliverable", .str "report")]]),
    ("production_obligations", .arr [.obj [("id", .str "obligation-1"), ("referee_goal_id", .str "goal-1"),
      ("deliverable_requirement_id", .str "requirement-1"), ("deliverable", .str "report"),
      ("eligibility_predicate", .str "always")]]),
    ("patch_plan", .arr [.obj [("item_id", .str superscriptItem),
      ("production_obligation_ids", .arr [.str "obligation-1"])]])])]

def superscriptLedger : Fields :=
  [("schema", .str "series-coverage-ledger-v1"),
    ("scope_items", .arr [
      .obj [("id", .str "goal-1"), ("kind", .str "referee_goal"), ("text", .str "The report is published.")],
      .obj [("id", .str superscriptItem), ("kind", .str "patch_plan"), ("text", .str "Publish the report.")]]),
    ("coverage", .arr [
      .obj [("scope_item_id", .str "goal-1"), ("owner", .str "parent"), ("owner_node_path", .str "root")],
      .obj [("scope_item_id", .str superscriptItem), ("owner", .str "child"), ("owner_node_path", .str "root/child")]]),
    ("ledger_revision", .int 1), ("supersedes_ledger_commit", .str ""), ("rebaselined_from_escalation", .obj []),
    ("parent_retained_scope_ids", .arr [])]

def sampleOid : String := "0123456789abcdef0123456789abcdef01234567"

def sampleDigest : String := "0123456789abcdef0123456789abcdef0123456789abcdef0123456789abcdef"

/-- A superscript digit counts for `isdigit`, and `int` refuses it. -/
theorem superscript_raises : ¬((∃ body, _series_scope_decomposition_body asciiLib sampleOid sampleDigest
      superscriptRoot superscriptLedger = .ok body) ∨
    ∃ rule_id coordinate detail, coordinate ≠ "" ∧ _series_scope_decomposition_body asciiLib sampleOid sampleDigest
      superscriptRoot superscriptLedger = .error (.SeriesScopeDecompositionError rule_id coordinate detail)) := by
  have hraised : _series_scope_decomposition_body asciiLib sampleOid sampleDigest superscriptRoot superscriptLedger =
      .error .ValueError := by decide +kernel
  rw [hraised]
  rintro (⟨body, h⟩ | ⟨_, _, _, _, h⟩) <;> cases h

end Superscript

end Scope

end AiOrg

/-!
## Scope decomposition is a partition

A body that is returned divides the scope: the rows of the ledger and one row for each obligation, with one owner each,
and obligations, requirements, goals and assignments that correspond (`Partition`). What divides the scope so is
accepted where its items can be read and none of them has the name of an earlier obligation (`partition_iff`).
-/

namespace AiOrg

open List

namespace Scope

open Checks

variable {py : PyLib} {frozen_oid root_sha256 : String} {root ledger : Fields} {inputs : Inputs}

def ReadsEscalation (value : Json) (consumed : Fields) : Prop :=
  (value = .obj [] ∧ consumed = []) ∨ ∃ (fields : Fields) (review_round : ℤ) (child_branch result_commit : String),
    value = .obj fields ∧ (SameMembers (keys fields) ESCALATION_CONSUMPTION_FIELDS ∨
      SameMembers (keys fields) HISTORICAL_ESCALATION_CONSUMPTION_FIELDS) ∧
    fields.get "review_round" = .int review_round ∧ 1 ≤ review_round ∧
    fields.get "child_branch" = .str child_branch ∧ child_branch ≠ "" ∧
    fields.get "git_result_commit" = .str result_commit ∧ isHex 40 result_commit = true ∧
    legacyRecord review_round fields ∧
    consumed = [("review_round", .int review_round), ("child_branch", .str child_branch),
      ("git_result_commit", .str result_commit)]

theorem ne_empty_of_isHex {length : ℕ} {text : String} (h : isHex (length + 1) text = true) : text ≠ "" := by
  rintro rfl
  simp [isHex] at h

theorem closed_escalation_eq_ok_iff {value : Json} {consumed : Fields} :
    _closed_escalation_consumption value = .ok consumed ↔ ReadsEscalation value consumed := by
  rw [_closed_escalation_consumption, bind_eq_ok_iff]
  simp only [mapping_eq_ok_iff, ReadsEscalation]
  constructor
  · rintro ⟨fields, rfl, h⟩
    split_ifs at h with hempty
    · subst hempty
      exact .inl ⟨rfl, (Except.ok.inj h).symm⟩
    · simp only [bind_eq_ok_iff, require_eq_ok_iff, exists_const, positive_eq_ok_iff, text_eq_ok_iff, pure, Except.pure,
        Except.ok.injEq] at h
      obtain ⟨hkeys, round, ⟨hround, hround'⟩, branch, ⟨hbranch, hbranch'⟩, commit, ⟨hcommit, -⟩, hhex, hrecord, rfl⟩ := h
      exact .inr ⟨fields, round, branch, commit, rfl, hkeys, hround, hround', hbranch, hbranch', hcommit, hhex, hrecord,
        rfl⟩
  · rintro (⟨rfl, rfl⟩ | ⟨fields, round, branch, commit, rfl, hkeys, hround, hround', hbranch, hbranch', hcommit, hhex,
      hrecord, rfl⟩)
    · exact ⟨[], rfl, rfl⟩
    · refine ⟨fields, rfl, ?_⟩
      have hne : fields ≠ [] := by
        rintro rfl
        rcases hkeys with hkeys | hkeys <;> exact absurd (hkeys.2 "review_round" (by decide)) not_mem_nil
      rw [if_neg hne]
      simp only [bind_eq_ok_iff, require_eq_ok_iff, exists_const, positive_eq_ok_iff, text_eq_ok_iff, pure, Except.pure]
      exact ⟨hkeys, round, ⟨hround, hround'⟩, branch, ⟨hbranch, hbranch'⟩, commit, ⟨hcommit, ne_empty_of_isHex hhex⟩, hhex,
        hrecord, rfl⟩

/-- What the ledger says of its own history. -/
structure ReadsLineage (ledger : Fields) (scope_ids : List String) (lineage : Lineage) : Prop where
  revision : ledger.get "ledger_revision" = .int lineage.ledger_revision ∧ 1 ≤ lineage.ledger_revision
  supersedes : ledger.get "supersedes_ledger_commit" = .str lineage.supersedes_ledger_commit
  oid : lineage.supersedes_ledger_commit = "" ∨ isHex 40 lineage.supersedes_ledger_commit = true
  first : (lineage.ledger_revision = 1 → lineage.supersedes_ledger_commit = "") ∧
    (1 < lineage.ledger_revision → lineage.supersedes_ledger_commit ≠ "")
  escalation : ReadsEscalation (ledger.get "rebaselined_from_escalation") lineage.rebaselined_from_escalation
  retained : ∃ retained : List Json, ledger.get "parent_retained_scope_ids" = .arr retained ∧
    Forall₂ (fun item id => item = .str id ∧ id ∈ scope_ids) retained lineage.parent_retained_scope_ids
  distinct : lineage.parent_retained_scope_ids.Nodup

theorem readRetained_eq_ok_iff (scope_ids seen : List String) (index : ℕ) (item : Json) (id : String) :
    readRetained scope_ids seen index item = .ok id ↔ (item = .str id ∧ id ∈ scope_ids) ∧ ∀ z ∈ seen, z ≠ id := by
  simp only [readRetained, bind_eq_ok_iff, require_eq_ok_iff, exists_const, string_eq_ok_iff, pure, Except.pure,
    Except.ok.injEq]
  constructor
  · rintro ⟨id, rfl, hmem, hseen, rfl⟩
    exact ⟨⟨rfl, hmem⟩, fun z hz heq => hseen (heq ▸ hz)⟩
  · rintro ⟨⟨rfl, hmem⟩, hseen⟩
    exact ⟨id, rfl, hmem, fun h => hseen id h rfl, rfl⟩

theorem readLineage_eq_ok_iff {scope_ids : List String} {lineage : Lineage} :
    readLineage ledger scope_ids = .ok lineage ↔ ReadsLineage ledger scope_ids lineage := by
  simp only [readLineage, bind_eq_ok_iff, require_eq_ok_iff, exists_const, positive_eq_ok_iff, string_eq_ok_iff,
    closed_escalation_eq_ok_iff, items_eq_ok_iff, collect_nil_eq_ok_iff (readRetained_eq_ok_iff scope_ids), pure,
    Except.pure, Except.ok.injEq]
  constructor
  · rintro ⟨revision, hrevision, supersedes, hsupersedes, hoid, hfirst, escalation, hescalation, retained, hretained, ids,
      ⟨hids, hdistinct⟩, rfl⟩
    exact ⟨hrevision, hsupersedes, hoid, hfirst, hescalation, ⟨retained, hretained, hids⟩, hdistinct⟩
  · rintro ⟨hrevision, hsupersedes, hoid, hfirst, hescalation, ⟨retained, hretained, hids⟩, hdistinct⟩
    exact ⟨_, hrevision, _, hsupersedes, hoid, hfirst, _, hescalation, retained, hretained, _, ⟨hids, hdistinct⟩, rfl⟩

def bodyOf (frozen_oid root_sha256 : String) (inputs : Inputs) (rows : List Projection) (lineage : Lineage) : Fields :=
  [("schema", .str "series-scope-decomposition-v1"), ("frozen_root_oid", .str frozen_oid),
    ("canonical_root_sha256", .str root_sha256), ("historical_ledger_schema", .str "series-coverage-ledger-v1"),
    ("ledger_revision", .int lineage.ledger_revision),
    ("supersedes_ledger_commit", .str lineage.supersedes_ledger_commit),
    ("rebaselined_from_escalation", .obj lineage.rebaselined_from_escalation),
    ("scope_items", .arr (inputs.rows.map ScopeRow.json ++ rows.map Projection.json)),
    ("ownership", .arr ((inputs.owners ++ rows.map (·.ownerRow)).map OwnerRow.json)),
    ("parent_retained_scope_ids", .arr (lineage.parent_retained_scope_ids.map Json.str))]

theorem foldl_assign_fresh {entries : List (String × OwnerRow)} {rows : List Projection}
    (hfresh : ∀ row ∈ rows, row.id ∉ entries.map Prod.fst) (hrows : rows.Pairwise fun a b => a.id ≠ b.id) :
    rows.foldl (fun entries row => assign row.id row.ownerRow entries) entries =
      entries ++ rows.map fun row => (row.id, row.ownerRow) := by
  induction rows generalizing entries with
  | nil => simp
  | cons row rows ih =>
    obtain ⟨hrow, hrows⟩ := pairwise_cons.1 hrows
    rw [foldl_cons, assign_of_absent (hfresh row mem_cons_self), ih ?_ hrows, map_cons,
      append_assoc, singleton_append]
    intro next hnext h
    rw [map_append, mem_append] at h
    rcases h with h | h
    · exact hfresh next (mem_cons_of_mem _ hnext) h
    · exact hrow next hnext (mem_singleton.1 h).symm

section Rows

variable (hreads : Reads frozen_oid root_sha256 root ledger inputs)

include hreads

theorem owner_mem_rows {owner : OwnerRow} (h : owner ∈ inputs.owners) : owner.scope_item_id ∈ inputs.rows.map (·.id) := by
  obtain ⟨scope, coverage, -, -, -, howners⟩ := hreads.scope
  obtain ⟨item, -, hitem⟩ := Traverse.exists_of_mem_right howners h
  exact hitem.known

theorem ownershipRows_eq {rows : List Projection} (hfresh : ∀ row ∈ rows, row.id ∉ inputs.rows.map (·.id))
    (hrows : rows.Pairwise fun a b => a.id ≠ b.id) :
    ownershipRows inputs rows = inputs.owners ++ rows.map (·.ownerRow) := by
  rw [ownershipRows, foldl_assign_fresh ?_ hrows, map_append, map_map, map_map]
  · simp [Function.comp_def]
  · intro row hrow h
    rw [map_map] at h
    obtain ⟨owner, howner, heq⟩ := mem_map.1 h
    exact hfresh row hrow (heq ▸ owner_mem_rows hreads howner)

end Rows

theorem body_eq_ok_iff {body : Fields} :
    _series_scope_decomposition_body py frozen_oid root_sha256 root ledger = .ok body ↔
      ∃ inputs rows lineage, Reads frozen_oid root_sha256 root ledger inputs ∧
        Forall₂ (Projects py inputs) inputs.obligations rows ∧ rows.Pairwise Projection.Apart ∧
        Closed inputs rows ∧ ReadsLineage ledger (inputs.rows.map (·.id) ++ rows.map (·.id)) lineage ∧
        body = bodyOf frozen_oid root_sha256 inputs rows lineage := by
  simp only [_series_scope_decomposition_body, bind_eq_ok_iff, scopeInputs_eq_ok_iff, exists_const,
    closeObligations_eq_ok_iff, require_eq_ok_iff, readLineage_eq_ok_iff, pure, Except.pure, Except.ok.injEq]
  constructor
  · rintro ⟨inputs, hreads, rows, hrows, hclosed, -, -, lineage, hlineage, rfl⟩
    obtain ⟨hall, hpairs⟩ := (collect_project_iff hreads).1 hrows
    refine ⟨inputs, rows, lineage, hreads, hall, hpairs, hclosed, hlineage, ?_⟩
    rw [bodyOf, ownershipRows_eq hreads ?_ (hpairs.imp fun h => h.1.2.2)]
    intro row hrow
    obtain ⟨item, -, hitem⟩ := Traverse.exists_of_mem_right hall hrow
    exact hitem.due.fresh
  · rintro ⟨inputs, rows, lineage, hreads, hall, hpairs, hclosed, hlineage, rfl⟩
    have hownership : ownershipRows inputs rows = inputs.owners ++ rows.map (·.ownerRow) := by
      refine ownershipRows_eq hreads ?_ (hpairs.imp fun h => h.1.2.2)
      intro row hrow
      obtain ⟨item, -, hitem⟩ := Traverse.exists_of_mem_right hall hrow
      exact hitem.due.fresh
    refine ⟨inputs, hreads, rows, (collect_project_iff hreads).2 ⟨hall, hpairs⟩, hclosed, ?_, ?_, lineage, hlineage, ?_⟩
    · simp [hall.length_eq]
    · simp [hownership, hall.length_eq]
    · rw [bodyOf, hownership]

def Projection.assignment (row : Projection) : Assignment := ⟨row.id, row.patch_plan_item_id⟩

/-- The scope is divided into the rows of the ledger and one row for each obligation, every one with an owner, and the
obligations go with the goals that require a deliverable, the requirements and the assignments, one to one. -/
structure Partition (py : PyLib) (inputs : Inputs) (rows : List Projection) : Prop where
  obligations : Forall₂ ReadsObligation inputs.obligations (rows.map (·.obligation))
  scope_ids : (inputs.rows.map (·.id) ++ rows.map (·.id)).Nodup
  ownership : ((inputs.owners ++ rows.map (·.ownerRow)).map (·.scope_item_id)).Perm
    (inputs.rows.map (·.id) ++ rows.map (·.id))
  owners : ∀ row ∈ rows, row.owner ∈ inputs.owners ∧
    kindOf inputs.rows row.owner.scope_item_id = some "patch_plan" ∧
    Resolves py (inputs.owners.map (·.scope_item_id)) row.patch_plan_item_id row.owner.scope_item_id
  goals : (rows.map (·.obligation.referee_goal_id)).Perm inputs.referee_goals
  requirements : (rows.map (·.obligation.deliverable_requirement_id)).Perm (inputs.requirements.map (·.id))
  links : ∀ row ∈ rows, ∃ requirement ∈ inputs.requirements, Links requirement row.obligation
  assignments : (rows.map Projection.assignment).Perm inputs.assignments

theorem forall₂_and_right {α β : Type} {R : α → β → Prop} {Q : β → Prop} {xs : List α} {ys : List β}
    (h : Forall₂ R xs ys) (hQ : ∀ y ∈ ys, Q y) : Forall₂ (fun x y => R x y ∧ Q y) xs ys := by
  induction h with
  | nil => exact .nil
  | cons hxy _ ih =>
    obtain ⟨hy, hys⟩ := forall_mem_cons.1 hQ
    exact .cons ⟨hxy, hy⟩ (ih hys)

theorem SameMembers.perm {xs ys : List String} (h : SameMembers xs ys) (hxs : xs.Nodup) (hys : ys.Nodup) :
    xs.Perm ys :=
  (perm_ext_iff_of_nodup hxs hys).2 fun x => ⟨h.1 x, h.2 x⟩

theorem sameMembers_of_perm {xs ys : List String} (h : xs.Perm ys) : SameMembers xs ys :=
  ⟨fun _ hx => h.mem_iff.1 hx, fun _ hy => h.mem_iff.2 hy⟩

section Divided

variable (hreads : Reads frozen_oid root_sha256 root ledger inputs) {rows : List Projection}

include hreads

theorem referee_goals_nodup : inputs.referee_goals.Nodup :=
  pairwise_map.2 (hreads.goals.filter _)

theorem owners_perm : (inputs.owners.map (·.scope_item_id)).Perm (inputs.rows.map (·.id)) := by
  refine SameMembers.perm ⟨?_, hreads.owned⟩ (pairwise_map.2 hreads.owners) (pairwise_map.2 hreads.rows)
  intro id hid
  obtain ⟨owner, howner, rfl⟩ := mem_map.1 hid
  exact owner_mem_rows hreads howner

theorem assignments_perm (hall : ∀ row ∈ rows, row.assignment ∈ inputs.assignments)
    (hpairs : rows.Pairwise fun a b => a.id ≠ b.id) (hclosed : ∀ a ∈ inputs.assignments, a.obligation_id ∈ rows.map (·.id)) :
    (rows.map Projection.assignment).Perm inputs.assignments := by
  have hrows : (rows.map Projection.assignment).Nodup := by
    refine pairwise_map.2 (hpairs.imp fun hne heq => hne ?_)
    exact congrArg Assignment.obligation_id heq
  have hassignments : inputs.assignments.Nodup := hreads.assignments.imp fun hne heq => hne (by rw [heq])
  refine (perm_ext_iff_of_nodup hrows hassignments).2 fun a => ⟨fun ha => ?_, fun ha => ?_⟩
  · obtain ⟨row, hrow, rfl⟩ := mem_map.1 ha
    exact hall row hrow
  · obtain ⟨row, hrow, hid⟩ := mem_map.1 (hclosed a ha)
    exact mem_map.2 ⟨row, hrow, inj_on_of_nodup_map (pairwise_map.2 hreads.assignments) (hall row hrow) ha
      hid⟩

theorem partition_of_projects (hall : Forall₂ (Projects py inputs) inputs.obligations rows)
    (hpairs : rows.Pairwise Projection.Apart) (hclosed : Closed inputs rows) : Partition py inputs rows := by
  have hmem : ∀ row ∈ rows, ∃ item ∈ inputs.obligations, Projects py inputs item row := fun row hrow =>
    Traverse.exists_of_mem_right hall hrow
  have hids : rows.Pairwise fun a b => a.id ≠ b.id := hpairs.imp fun h => h.1.2.2
  refine ⟨?_, ?_, ?_, ?_, ?_, ?_, ?_, ?_⟩
  · exact forall₂_map_right_iff.2 (hall.imp fun _ _ h => h.due.reads)
  · refine nodup_append.2 ⟨pairwise_map.2 hreads.rows, pairwise_map.2 hids, ?_⟩
    rintro id hid _ hid' rfl
    obtain ⟨row, hrow, rfl⟩ := mem_map.1 hid'
    obtain ⟨item, -, hitem⟩ := hmem row hrow
    exact hitem.due.fresh hid
  · rw [ownerRow_ids]
    exact (owners_perm hreads).append_right _
  · intro row hrow
    obtain ⟨item, -, hitem⟩ := hmem row hrow
    exact ⟨hitem.owner, hitem.kind, hitem.resolves⟩
  · exact hclosed.goals.perm (pairwise_map.2 (hpairs.imp fun h => h.1.1)) (referee_goals_nodup hreads)
  · exact hclosed.requirements.perm (pairwise_map.2 (hpairs.imp fun h => h.1.2.1))
      (pairwise_map.2 hreads.requirements)
  · intro row hrow
    obtain ⟨item, -, hitem⟩ := hmem row hrow
    exact hitem.due.requirement
  · refine assignments_perm hreads ?_ hids hclosed.assignments
    intro row hrow
    obtain ⟨item, -, hitem⟩ := hmem row hrow
    exact hitem.due.assigned

/-- No item has the name of an earlier obligation, unless that is the name of the row it resolves to. -/
def Ordered (rows : List Projection) : Prop :=
  rows.Pairwise fun a b => a.id = b.patch_plan_item_id → b.owner.scope_item_id = b.patch_plan_item_id

omit hreads in
theorem Partition.apart (h : Partition py inputs rows)
    (hreads : Reads frozen_oid root_sha256 root ledger inputs) : rows.Pairwise fun a b => a.obligation.Apart b.obligation := by
  have hgoals : (rows.map (·.obligation.referee_goal_id)).Nodup := h.goals.nodup_iff.2 (referee_goals_nodup hreads)
  have hrequirements : (rows.map (·.obligation.deliverable_requirement_id)).Nodup :=
    h.requirements.nodup_iff.2 (pairwise_map.2 hreads.requirements)
  have hids : (rows.map (·.id)).Nodup := (nodup_append.1 h.scope_ids).2.1
  have hboth := (pairwise_map.1 hgoals).and ((pairwise_map.1 hrequirements).and (pairwise_map.1 hids))
  exact hboth.imp fun h => ⟨h.1, h.2.1, h.2.2⟩

omit hreads in
theorem Partition.closed (h : Partition py inputs rows) : Closed inputs rows := by
  refine ⟨fun a ha => ?_, sameMembers_of_perm h.goals, sameMembers_of_perm h.requirements⟩
  obtain ⟨row, hrow, rfl⟩ := mem_map.1 (h.assignments.mem_iff.2 ha)
  exact mem_map.2 ⟨row, hrow, rfl⟩

omit hreads in
theorem Partition.projects (h : Partition py inputs rows) (hreadable : ∀ row ∈ rows, Readable py row.patch_plan_item_id) :
    Forall₂ (Projects py inputs) inputs.obligations rows := by
  have hdue : ∀ row ∈ rows, (row.obligation.referee_goal_id ∈ inputs.referee_goals ∧
      row.assignment ∈ inputs.assignments ∧ row.id ∉ inputs.rows.map (·.id)) ∧ row ∈ rows := by
    intro row hrow
    refine ⟨⟨h.goals.mem_iff.1 (mem_map_of_mem hrow), h.assignments.mem_iff.1 (mem_map_of_mem hrow), ?_⟩, hrow⟩
    intro hmem
    exact (nodup_append.1 h.scope_ids).2.2 _ hmem _ (mem_map_of_mem hrow) rfl
  refine (forall₂_and_right (forall₂_map_right_iff.1 h.obligations) hdue).imp ?_
  rintro item row ⟨hobligation, ⟨hgoal, hassigned, hfresh⟩, hrow⟩
  obtain ⟨howner, hkind, hresolves⟩ := h.owners row hrow
  exact ⟨⟨hobligation, hgoal, h.links row hrow, hassigned, hfresh⟩, hreadable row hrow, hresolves, howner, hkind⟩

end Divided

structure Meets (py : PyLib) (frozen_oid root_sha256 : String) (root ledger : Fields) (inputs : Inputs)
    (rows : List Projection) (lineage : Lineage) : Prop where
  reads : Reads frozen_oid root_sha256 root ledger inputs
  partition : Partition py inputs rows
  lineage : ReadsLineage ledger (inputs.rows.map (·.id) ++ rows.map (·.id)) lineage

theorem returned_iff {body : Fields} :
    _series_scope_decomposition_body py frozen_oid root_sha256 root ledger = .ok body ↔
      ∃ inputs rows lineage, Meets py frozen_oid root_sha256 root ledger inputs rows lineage ∧ Ordered rows ∧
        (∀ row ∈ rows, Readable py row.patch_plan_item_id) ∧
        body = bodyOf frozen_oid root_sha256 inputs rows lineage := by
  rw [body_eq_ok_iff]
  constructor
  · rintro ⟨inputs, rows, lineage, hreads, hall, hpairs, hclosed, hlineage, rfl⟩
    refine ⟨inputs, rows, lineage, ⟨hreads, partition_of_projects hreads hall hpairs hclosed, hlineage⟩,
      hpairs.imp fun h => h.2, fun row hrow => ?_, rfl⟩
    obtain ⟨item, -, hitem⟩ := Traverse.exists_of_mem_right hall hrow
    exact hitem.readable
  · rintro ⟨inputs, rows, lineage, ⟨hreads, hpartition, hlineage⟩, hordered, hreadable, rfl⟩
    exact ⟨inputs, rows, lineage, hreads, hpartition.projects hreadable,
      ((hpartition.apart hreads).and hordered).imp fun h => ⟨h.1, h.2⟩, hpartition.closed, hlineage, rfl⟩

theorem ReadsObligation.unique {item : Json} {a b : Obligation} (ha : ReadsObligation item a)
    (hb : ReadsObligation item b) : a = b := by
  obtain ⟨fields, rfl, -, -, hid, hgoal, hrequirement, hdeliverable, hpredicate⟩ := ha.fields
  obtain ⟨_, hfields, -, -, hid', hgoal', hrequirement', hdeliverable', hpredicate'⟩ := hb.fields
  cases hfields
  have hfields : a.id = b.id ∧ a.referee_goal_id = b.referee_goal_id ∧
      a.deliverable_requirement_id = b.deliverable_requirement_id ∧ a.deliverable = b.deliverable ∧
      a.eligibility_predicate = b.eligibility_predicate :=
    ⟨Json.str.inj (hid.symm.trans hid'), Json.str.inj (hgoal.symm.trans hgoal'),
      Json.str.inj (hrequirement.symm.trans hrequirement'), Json.str.inj (hdeliverable.symm.trans hdeliverable'),
      Json.str.inj (hpredicate.symm.trans hpredicate')⟩
  cases a
  cases b
  simpa using hfields

theorem Resolves.unique {owned : List String} {item_id a b : String} (ha : Resolves py owned item_id a)
    (hb : Resolves py owned item_id b) : a = b := by
  obtain ⟨hmem, rfl | ⟨hitem, hnames⟩⟩ := ha <;> obtain ⟨hmem', rfl | ⟨hitem', hnames'⟩⟩ := hb
  · rfl
  · exact absurd hmem hitem'
  · exact absurd hmem' hitem
  · exact hnames.unique hnames'

structure RowOf (py : PyLib) (inputs : Inputs) (item : Json) (row : Projection) : Prop where
  reads : ReadsObligation item row.obligation
  assigned : row.assignment ∈ inputs.assignments
  owner : row.owner ∈ inputs.owners
  resolves : Resolves py (inputs.owners.map (·.scope_item_id)) row.patch_plan_item_id row.owner.scope_item_id

theorem Partition.rowOf {rows : List Projection} (h : Partition py inputs rows) :
    Forall₂ (RowOf py inputs) inputs.obligations rows := by
  have hrow : ∀ row ∈ rows, row.assignment ∈ inputs.assignments ∧ row ∈ rows := fun row hrow =>
    ⟨h.assignments.mem_iff.1 (mem_map_of_mem hrow), hrow⟩
  refine (forall₂_and_right (forall₂_map_right_iff.1 h.obligations) hrow).imp ?_
  rintro item row ⟨hreads, hassigned, hrow⟩
  obtain ⟨howner, -, hresolves⟩ := h.owners row hrow
  exact ⟨hreads, hassigned, howner, hresolves⟩

theorem rowOf_unique (hreads : Reads frozen_oid root_sha256 root ledger inputs) :
    Relator.RightUnique (RowOf py inputs) := by
  intro item a b ha hb
  obtain ⟨obligation, item_id, owner⟩ := a
  obtain ⟨obligation', item_id', owner'⟩ := b
  obtain rfl : obligation = obligation' := ha.reads.unique hb.reads
  have hassigned := inj_on_of_nodup_map (pairwise_map.2 hreads.assignments) ha.assigned hb.assigned rfl
  obtain rfl : item_id = item_id' := congrArg Assignment.item_id hassigned
  have howner := inj_on_of_nodup_map (pairwise_map.2 hreads.owners) ha.owner hb.owner
    (ha.resolves.unique hb.resolves)
  obtain rfl : owner = owner' := howner
  rfl

theorem Meets.unique {inputs inputs' : Inputs} {rows rows' : List Projection} {lineage lineage' : Lineage}
    (h : Meets py frozen_oid root_sha256 root ledger inputs rows lineage)
    (h' : Meets py frozen_oid root_sha256 root ledger inputs' rows' lineage') : rows = rows' := by
  have hinputs : inputs = inputs' := Except.ok.inj ((scopeInputs_eq_ok_iff.2 h.reads).symm.trans
    (scopeInputs_eq_ok_iff.2 h'.reads))
  subst hinputs
  exact right_unique_forall₂' (rowOf_unique h.reads) h.partition.rowOf h'.partition.rowOf

/-- A body that is returned is the partition of a root and a ledger, and every root and ledger with a partition are
accepted, if and only if in every partition the items can be read and none has the name of an earlier obligation. -/
theorem partition_iff (py : PyLib) (frozen_oid root_sha256 : String) (root ledger : Fields) :
    ((∀ body, _series_scope_decomposition_body py frozen_oid root_sha256 root ledger = .ok body →
        ∃ inputs rows lineage, Meets py frozen_oid root_sha256 root ledger inputs rows lineage ∧
          body = bodyOf frozen_oid root_sha256 inputs rows lineage) ∧
      ∀ inputs rows lineage, Meets py frozen_oid root_sha256 root ledger inputs rows lineage →
        ∃ body, _series_scope_decomposition_body py frozen_oid root_sha256 root ledger = .ok body) ↔
      ∀ inputs rows lineage, Meets py frozen_oid root_sha256 root ledger inputs rows lineage →
        Ordered rows ∧ ∀ row ∈ rows, Readable py row.patch_plan_item_id := by
  constructor
  · rintro ⟨-, haccepted⟩ inputs rows lineage hmeets
    obtain ⟨body, hbody⟩ := haccepted inputs rows lineage hmeets
    obtain ⟨inputs', rows', lineage', hmeets', hordered, hreadable, -⟩ := returned_iff.1 hbody
    rw [hmeets.unique hmeets']
    exact ⟨hordered, hreadable⟩
  · intro h
    refine ⟨fun body hbody => ?_, fun inputs rows lineage hmeets => ?_⟩
    · obtain ⟨inputs, rows, lineage, hmeets, -, -, heq⟩ := returned_iff.1 hbody
      exact ⟨inputs, rows, lineage, hmeets, heq⟩
    · obtain ⟨hordered, hreadable⟩ := h inputs rows lineage hmeets
      exact ⟨_, returned_iff.2 ⟨inputs, rows, lineage, hmeets, hordered, hreadable, rfl⟩⟩

section Collision

/-- The JSON of an obligation, of the requirement and the goal that go with it, and of the item it is assigned to. -/
def sampleObligation (id goal requirement : String) : Json :=
  .obj [("id", .str id), ("referee_goal_id", .str goal), ("deliverable_requirement_id", .str requirement),
    ("deliverable", .str "report"), ("eligibility_predicate", .str "always")]

def sampleRequirement (id goal obligation : String) : Fields :=
  [("id", .str id), ("referee_goal_id", .str goal), ("production_obligation_id", .str obligation),
    ("deliverable", .str "report")]

def sampleGoal (id : String) : Json := .obj [("id", .str id), ("requires_deliverable", .bool true)]

def sampleItem (item_id obligation : String) : Json :=
  .obj [("item_id", .str item_id), ("production_obligation_ids", .arr [.str obligation])]

/-- The first obligation has the name of the item of the second one. -/
def collidingRoot : Fields :=
  [("problem", .obj [("goals", .arr [sampleGoal "goal-1", sampleGoal "goal-2"]),
    ("deliverable_requirements", .arr [.obj (sampleRequirement "requirement-1" "goal-1" "deferred_1"),
      .obj (sampleRequirement "requirement-2" "goal-2" "obligation-2")]),
    ("production_obligations", .arr [sampleObligation "deferred_1" "goal-1" "requirement-1",
      sampleObligation "obligation-2" "goal-2" "requirement-2"]),
    ("patch_plan", .arr [sampleItem "first_proof" "deferred_1", sampleItem "deferred_1" "obligation-2"])])]

def sampleRows : List ScopeRow :=
  [⟨"goal-1", "referee_goal", "one"⟩, ⟨"goal-2", "referee_goal", "two"⟩,
    ⟨"patch_plan:first_proof_moment", "patch_plan", "first"⟩, ⟨"patch_plan:deferred:1", "patch_plan", "later"⟩]

def sampleOwners : List OwnerRow := sampleRows.map fun row => ⟨row.id, "child", "root/child"⟩

def collidingLedger : Fields :=
  [("schema", .str "series-coverage-ledger-v1"), ("scope_items", .arr (sampleRows.map ScopeRow.json)),
    ("coverage", .arr (sampleOwners.map OwnerRow.json)), ("ledger_revision", .int 1),
    ("supersedes_ledger_commit", .str ""), ("rebaselined_from_escalation", .obj []),
    ("parent_retained_scope_ids", .arr [])]

def collidingInputs : Inputs where
  rows := sampleRows
  owners := sampleOwners
  goals := [⟨"goal-1", true⟩, ⟨"goal-2", true⟩]
  requirements := [⟨"requirement-1", sampleRequirement "requirement-1" "goal-1" "deferred_1"⟩,
    ⟨"requirement-2", sampleRequirement "requirement-2" "goal-2" "obligation-2"⟩]
  assignments := [⟨"deferred_1", "first_proof"⟩, ⟨"obligation-2", "deferred_1"⟩]
  obligations := [sampleObligation "deferred_1" "goal-1" "requirement-1",
    sampleObligation "obligation-2" "goal-2" "requirement-2"]

def collidingRows : List Projection :=
  [⟨⟨"deferred_1", "goal-1", "requirement-1", "report", "always"⟩, "first_proof",
      ⟨"patch_plan:first_proof_moment", "child", "root/child"⟩⟩,
    ⟨⟨"obligation-2", "goal-2", "requirement-2", "report", "always"⟩, "deferred_1",
      ⟨"patch_plan:deferred:1", "child", "root/child"⟩⟩]

theorem colliding_resolves : ∀ row ∈ collidingRows, Resolves asciiLib (sampleOwners.map (·.scope_item_id))
    row.patch_plan_item_id row.owner.scope_item_id := by
  intro row hrow
  simp only [collidingRows, mem_cons, not_mem_nil, or_false] at hrow
  rcases hrow with rfl | rfl
  · exact ⟨by decide, .inr ⟨by decide, .first (.inr (by decide +kernel))⟩⟩
  · have hdigits : IsOrdinal ['1'] := by
      refine ⟨by decide, fun c hc => ?_⟩
      rw [mem_singleton.1 hc]
      exact Text.isDecimal_of_isDigit (by decide)
    exact ⟨by decide, .inr ⟨by decide, @Names.deferred asciiLib "deferred_1" ['1'] (by decide +kernel) hdigits⟩⟩

theorem colliding_partition : Partition asciiLib collidingInputs collidingRows where
  obligations := .cons (@readObligation_eq_ok_iff "" _ _ |>.1 (by decide +kernel))
    (.cons (@readObligation_eq_ok_iff "" _ _ |>.1 (by decide +kernel)) .nil)
  scope_ids := by decide
  ownership := by decide
  owners := fun row hrow => by
    refine ⟨?_, ?_, colliding_resolves row hrow⟩
    all_goals
      simp only [collidingRows, mem_cons, not_mem_nil, or_false] at hrow
      rcases hrow with rfl | rfl <;> decide
  goals := by decide
  requirements := by decide
  links := fun row hrow => by
    simp only [collidingRows, mem_cons, not_mem_nil, or_false] at hrow
    rcases hrow with rfl | rfl
    · exact ⟨_, mem_cons_self, by decide, by decide, by decide, by decide⟩
    · exact ⟨_, mem_cons_of_mem _ mem_cons_self, by decide, by decide, by decide, by decide⟩
  assignments := .refl _

/-- The second item resolves to a row of the ledger, and the name of the first obligation hides it. -/
theorem colliding_refused : ¬((∀ body, _series_scope_decomposition_body asciiLib sampleOid sampleDigest collidingRoot
      collidingLedger = .ok body → ∃ inputs rows lineage,
        Meets asciiLib sampleOid sampleDigest collidingRoot collidingLedger inputs rows lineage ∧
          body = bodyOf sampleOid sampleDigest inputs rows lineage) ∧
    ∀ inputs rows lineage, Meets asciiLib sampleOid sampleDigest collidingRoot collidingLedger inputs rows lineage →
      ∃ body, _series_scope_decomposition_body asciiLib sampleOid sampleDigest collidingRoot collidingLedger =
        .ok body) := by
  rintro ⟨-, haccepted⟩
  have hreads : Reads sampleOid sampleDigest collidingRoot collidingLedger collidingInputs :=
    scopeInputs_eq_ok_iff.1 (by decide +kernel)
  have hlineage : ReadsLineage collidingLedger (collidingInputs.rows.map (·.id) ++ collidingRows.map (·.id))
      ⟨1, "", [], []⟩ := readLineage_eq_ok_iff.1 (by decide +kernel)
  obtain ⟨body, hbody⟩ := haccepted _ _ _ ⟨hreads, colliding_partition, hlineage⟩
  have hrefused : _series_scope_decomposition_body asciiLib sampleOid sampleDigest collidingRoot collidingLedger =
      .error (.SeriesScopeDecompositionError "patch-plan-owner" "deferred_1"
        "assigned patch item has no historical ownership row") := by decide +kernel
  rw [hrefused] at hbody
  cases hbody

end Collision

end Scope

end AiOrg
