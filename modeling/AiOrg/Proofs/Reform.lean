import AiOrg.Proofs.Continuity
import AiOrg.Reform.Commit
import AiOrg.Run.Traverse

/-!
# What a reform commits

The root cohort is taken from the producer preparation, before the reconciliation; the gate and the ledger
look at the tree after it. The committed tree is the one that was checked when there was nothing to
reconcile (`committed_iff`).
-/

namespace AiOrg

open List

namespace Reform

variable {py : PyLib} {canonical : Json → String} {preflight : Preflight} {calls : Calls}
  {source : Source} {files others output : Files} {path : String} {content : Content} {body : Json}

theorem lookup_file (path key : String) (content : Content) (files : Files) :
    List.lookup key ((path, content) :: files) = if key = path then some content else files.lookup key := by
  rw [lookup_cons]
  by_cases h : key = path
  · simp [h]
  · rw [beq_eq_false_iff_ne.2 h, if_neg h]

theorem lookup_put (files : Files) (path key : String) (content : Content) :
    (put files path content).lookup key = if key = path then some content else files.lookup key := by
  induction files with
  | nil => rw [put, lookup_file]
  | cons file files ih =>
    obtain ⟨k, c⟩ := file
    rw [put]
    by_cases hk : k = path
    · rw [if_pos hk, lookup_file, lookup_file, hk]
      by_cases h : key = path
      · rw [if_pos h, if_pos h]
      · rw [if_neg h, if_neg h, if_neg h]
    · rw [if_neg hk, lookup_file, lookup_file, ih]
      by_cases h : key = path
      · have hne : key ≠ k := fun heq => hk (heq ▸ h)
        rw [if_pos h, if_neg hne, if_pos h]
      · rw [if_neg h, if_neg h]

theorem lookup_update_of_absent (hpath : path ∉ others.map Prod.fst) (files : Files) :
    (update files others).lookup path = files.lookup path := by
  induction others generalizing files with
  | nil => rfl
  | cons other others ih =>
    rw [map_cons, mem_cons, not_or] at hpath
    rw [update, foldl_cons]
    exact (ih hpath.2 _).trans (by rw [lookup_put, if_neg hpath.1])

theorem lookup_update {files : Files} (hothers : (others.map Prod.fst).Nodup)
    (h : (path, content) ∈ others) : (update files others).lookup path = some content := by
  induction others generalizing files with
  | nil => cases h
  | cons file others ih =>
    rw [map_cons, nodup_cons] at hothers
    rw [update, foldl_cons]
    rcases mem_cons.1 h with rfl | h
    · exact (lookup_update_of_absent hothers.1 _).trans (by rw [lookup_put, if_pos rfl])
    · exact ih hothers.2 h

theorem lookup_prepared {prepared : Content}
    (h : prepare_immutable_tree preflight files = some output) (hfile : files.lookup path = some content)
    (hprepare : ∀ file, prepareFile preflight (path, content) = some file → file = (path, prepared)) :
    output.lookup path = some prepared := by
  rw [prepare_immutable_tree] at h
  obtain ⟨members, hmembers, h⟩ := Option.bind_eq_some_iff.1 h
  split_ifs at h with hnodup
  obtain rfl := Option.some.inj h
  obtain ⟨file, hmem, hfile'⟩ :=
    Traverse.exists_of_mem_left (Traverse.forall₂_of_mapM_some hmembers) (mem_of_lookup hfile)
  rw [hprepare file hfile'] at hmem
  exact lookup_of_mem hnodup hmem

theorem endsWith_iff {text : String} {ends : List String} :
    endsWith text ends = true ↔ ∃ back ∈ ends, back.toList <:+ text.toList := by
  simp only [endsWith, any_eq_true, isSuffixOf_iff_suffix]

theorem author_response_record_path_ne (round version : ℤ) (hpath : path.toList.head? ≠ some 'p') :
    path ≠ author_response_record_path round version := by
  rintro rfl
  unfold author_response_record_path at hpath
  simp only [String.toList_append] at hpath
  simp at hpath

theorem revision_delta_record_path_ne (round : ℤ) (hpath : path.toList.head? ≠ some 'p') :
    path ≠ revision_delta_record_path round := by
  rintro rfl
  unfold revision_delta_record_path at hpath
  simp only [String.toList_append] at hpath
  simp at hpath

theorem head_root_path : ROOT_APPROACH_PATH.toList.head? ≠ some 'p' := by
  unfold ROOT_APPROACH_PATH
  simp

theorem revision_delta_suffix (round : ℤ) :
    "-revision-delta.cue".toList <:+ (revision_delta_record_path round).toList := by
  unfold revision_delta_record_path
  rw [String.toList_append]
  exact suffix_append _ _

theorem is_review_record_delta (round : ℤ) :
    _is_review_record_path (revision_delta_record_path round) = true :=
  endsWith_iff.2 ⟨"-revision-delta.cue", by simp, revision_delta_suffix round⟩

theorem canonical_path_delta (round : ℤ) :
    canonical_path (revision_delta_record_path round) = revision_delta_record_path round := by
  rw [canonical_path, if_neg]
  rw [endsWith_iff]
  rintro ⟨back, hback, hsuffix⟩
  rw [mem_singleton] at hback
  subst hback
  have hlonger : ".json".toList <:+ "-revision-delta.cue".toList :=
    suffix_of_suffix_length_le hsuffix (revision_delta_suffix round) (by simp)
  revert hlonger
  decide +kernel

def Committed.root (committed : Committed) : Option Json :=
  match committed.files.lookup ROOT_APPROACH_PATH with
  | some (.canonical root) => some root
  | _ => none

/-- The revision delta ledger that a commit holds. -/
def Committed.ledger (committed : Committed) : Option Json :=
  match committed.files.lookup committed.revisionDeltaPath with
  | some (.canonical ledger) => some ledger
  | _ => none

theorem prepareFile_root {file : String × Content}
    (h : prepareFile preflight (ROOT_APPROACH_PATH, .canonical body) = some file) :
    file = (ROOT_APPROACH_PATH, .canonical body) := by
  have hround : _is_review_record_path ROOT_APPROACH_PATH = false := by decide +kernel
  simp only [prepareFile, hround, Bool.false_eq_true, ↓reduceIte] at h
  split_ifs at h <;> exact (Option.some.inj h).symm

theorem prepareFile_delta {round : ℤ} {file : String × Content}
    (h : prepareFile preflight (revision_delta_record_path round, .value body) = some file) :
    file = (revision_delta_record_path round, .canonical body) := by
  simp only [prepareFile, is_review_record_delta, ↓reduceIte, canonical_path_delta] at h
  split_ifs at h
  exact (Option.some.inj h).symm

theorem reformFiles_root (reviewRound : ℤ) (previous : Fields) (revision : Revision)
    (coverLetter provenance normalized revised : Fields) (noSuccessor : List (String × String))
    (changed : Bool) (changedNodes : List String) :
    (reformFiles py canonical calls source reviewRound previous revision
      (preview_canonical_root_technical_approach coverLetter provenance normalized) revised noSuccessor
      changed changedNodes).lookup ROOT_APPROACH_PATH = some (.canonical (.obj normalized)) := by
  have hquestions : ROOT_APPROACH_PATH ≠ PATCH_MUST_ANSWER_QUESTIONS_PATH := by decide
  have hexperience : ROOT_APPROACH_PATH ≠ IMPLEMENTATION_EXPERIENCE_REPORT_PATH := by decide
  have hcohort : ∀ files : Files, (update files (preview_canonical_root_technical_approach coverLetter
      provenance normalized).cohortFiles).lookup ROOT_APPROACH_PATH =
        some (.canonical (.obj normalized)) :=
    fun files => lookup_update (by
      show [COVER_PATH, PROVENANCE_PATH, ROOT_APPROACH_PATH].Nodup
      decide) (by simp [preview_canonical_root_technical_approach])
  rw [reformFiles, lookup_put, if_neg (revision_delta_record_path_ne _ head_root_path)]
  split_ifs <;>
    simp only [lookup_put, if_neg hquestions, if_neg hexperience,
      if_neg (author_response_record_path_ne _ _ head_root_path), hcohort]

theorem commitRoot_ok {reviewRound : ℤ} {patchSeriesView previous patchSeries normalized : Fields}
    {revision : Revision} {committed : Committed}
    (h : commitRoot py canonical preflight calls source reviewRound patchSeriesView previous revision
      patchSeries (preview_canonical_root_technical_approach patchSeries calls.provenance normalized) =
        .ok committed) :
    let gate := throughGate py calls previous normalized source.openBlocking
    gate.2.2 = [] ∧ committed.root = some (.obj normalized) ∧
      ∃ next prose noSuccessor, committed.ledger = some (.obj (_revision_delta_record py canonical
        source.patchSeriesId reviewRound next (.obj previous) (.obj gate.1) source.openBlocking prose
        ⟨noSuccessor, revision.deferralProposals, revision.closedQuestions, revision.defenses⟩)) := by
  intro gate
  have htree : (preview_canonical_root_technical_approach patchSeries calls.provenance
    normalized).technicalApproach = normalized := rfl
  rw [commitRoot] at h
  dsimp only at h
  rw [htree] at h
  by_cases hviolations : gate.2.2 = []
  swap
  · rw [if_pos (by simpa [gate] using hviolations)] at h
    cases h
  rw [if_neg (by simpa [gate] using hviolations), if_neg (by
    show ¬ (!decide ([COVER_PATH, PROVENANCE_PATH, ROOT_APPROACH_PATH] = rootCohortV2Paths)) = true
    decide)] at h
  split at h
  · cases h
  rename_i output hprepare
  obtain rfl := Except.ok.inj h
  refine ⟨hviolations, ?_, ?_⟩
  · rw [Committed.root, lookup_prepared hprepare (reformFiles_root _ _ _ _ _ _ _ _ _ _)
      fun file => prepareFile_root]
  · refine ⟨reviewRound + 1, calls.prose (.obj gate.1), gate.2.1, ?_⟩
    have hledger := @lookup_prepared _ _ _ (revision_delta_record_path reviewRound) _ _ hprepare
      (by rw [reformFiles, lookup_put, if_pos rfl]) fun _ => prepareFile_delta
    rw [Committed.ledger, hledger]

/-- A ledger that says what lies between two trees. -/
structure IsLedger (py : PyLib) (canonical : Json → String) (previous root : Json) (ledger : Fields)
    (delta : Delta) : Prop where
  exact : IsDelta canonical previous root delta
  added : ledger.get "added_node_ids" = textItems delta.added
  changed : ledger.get "changed_node_ids" = textItems delta.changed
  pruned : ledger.get "pruned_node_ids" = textItems delta.pruned
  replacements : ledger.get "node_replacements" =
    .arr ((_revision_replacements py previous root).map Replacement.toJson)

/-- A commit of the tree that was checked, with its ledger, in which everything resolves. -/
structure CommitsChecked (py : PyLib) (canonical : Json → String) (previous checked : Json)
    (objections : List Fields) (root : Json) (ledger : Fields) : Prop where
  same : root = checked
  clean : _revision_continuity_violations py previous root objections = []
  diff : ∃ delta, IsLedger py canonical previous root ledger delta
  references : ∀ reference ∈ _id_typed_tree_references root,
    Resolves py previous root reference.reference
  anchors : ∀ objection ∈ objections, ∀ anchor ∈ anchors objection, Resolves py previous root anchor

theorem isLedger_record (patchSeriesId : String) (reviewRound next : ℤ) (previous root : Json)
    (objections : List Fields) (prose : List String) (book : Bookkeeping) :
    IsLedger py canonical previous root (_revision_delta_record py canonical patchSeriesId reviewRound
      next previous root objections prose book) (delta canonical previous root) where
  exact := delta_exact
  added := by simp [_revision_delta_record, Fields.get, lookup_cons]
  changed := by simp [_revision_delta_record, Fields.get, lookup_cons]
  pruned := by simp [_revision_delta_record, Fields.get, lookup_cons]
  replacements := by simp [_revision_delta_record, Fields.get, lookup_cons]

theorem throughGate_of_clean {previous revised : Fields} {objections : List Fields}
    (h : _revision_continuity_violations py (.obj previous) (.obj revised) objections = []) :
    throughGate py calls previous revised objections = (revised, [], []) := by
  rw [throughGate, h]
  rfl

theorem reform_ok {view previous normalized : Fields} {revision : Revision} {committed : Committed}
    (hview : source.coverLetter = .obj view) (hprevious : source.technicalApproach = .obj previous)
    (hrevise : calls.revise source view previous = .ok revision)
    (hprepare : calls.prepare (_remap_root_reference_ids py (.obj previous) revision.technicalApproach)
      previous = .ok normalized)
    (h : reform_patch_series py canonical preflight calls source = .ok committed) :
    let gate := throughGate py calls previous normalized source.openBlocking
    gate.2.2 = [] ∧ committed.root = some (.obj normalized) ∧
      ∃ ledger, committed.ledger = some (.obj ledger) ∧
        IsLedger py canonical (.obj previous) (.obj gate.1) ledger
          (delta canonical (.obj previous) (.obj gate.1)) := by
  rw [reform_patch_series, hview, hprevious] at h
  dsimp only at h
  split at h
  · cases h
  split at h
  · cases h
  split_ifs at h
  simp only [hrevise, hprepare, Except.mapError, bind, Except.bind] at h
  obtain ⟨hgate, hroot, next, prose, noSuccessor, hledger⟩ := commitRoot_ok h
  exact ⟨hgate, hroot, _, hledger, isLedger_record _ _ _ _ _ _ _ _⟩

/-- A reform commits what it checked exactly when the root of the producer preparation was clean, so that
there was nothing to reconcile, and no anchor was lost that the gate lets go since it is indexed anew. -/
theorem committed_iff (source : Source) {view previous normalized : Fields} {revision : Revision}
    {committed : Committed} (hview : source.coverLetter = .obj view)
    (hprevious : source.technicalApproach = .obj previous)
    (hrevise : calls.revise source view previous = .ok revision)
    (hprepare : calls.prepare (_remap_root_reference_ids py (.obj previous) revision.technicalApproach)
      previous = .ok normalized)
    (h : reform_patch_series py canonical preflight calls source = .ok committed) :
    (∃ root ledger, committed.root = some root ∧ committed.ledger = some (.obj ledger) ∧
      CommitsChecked py canonical (.obj previous)
        (.obj (throughGate py calls previous normalized source.openBlocking).1) source.openBlocking
        root ledger) ↔
    _revision_continuity_violations py (.obj previous) (.obj normalized) source.openBlocking = [] ∧
      ∀ objection ∈ source.openBlocking, ∀ anchor ∈ anchors objection,
        startsWith anchor reindexedFamilyIdPrefixes = true →
          Resolves py (.obj previous) (.obj normalized) anchor := by
  obtain ⟨-, hroot, ledger, hledger, hdiff⟩ := reform_ok hview hprevious hrevise hprepare h
  constructor
  · rintro ⟨root, _, hroot', -, hchecked⟩
    obtain rfl : .obj normalized = root := Option.eq_some_unique hroot hroot'
    exact ⟨hchecked.clean, fun objection hobjection anchor hanchor _ =>
      hchecked.anchors objection hobjection anchor hanchor⟩
  · rintro ⟨hclean, hindexed⟩
    rw [throughGate_of_clean hclean] at hdiff ⊢
    obtain ⟨hreferences, hanchors⟩ := violations_eq_nil_iff.1 hclean
    refine ⟨_, ledger, hroot, hledger, rfl, hclean, ⟨_, hdiff⟩, hreferences, ?_⟩
    intro objection hobjection anchor hanchor
    by_cases hfamily : startsWith anchor reindexedFamilyIdPrefixes = true
    · exact hindexed objection hobjection anchor hanchor hfamily
    · exact hanchors objection hobjection anchor hanchor (by simpa using hfamily)

section Example

/-- A library, of which the run below takes `repr` only. -/
def samplePy : PyLib where
  strOther _ := ""
  repr text := "'" ++ text ++ "'"
  reprOther _ := ""
  lower text := text
  literalEval _ := none
  compareOther _ _ _ := none
  dumps _ := ""
  floatRepr text := text
  decodeErrorText _ := ""
  sha256 _ := ""

mutual

/-- The text of a value of texts and flags whose members are in order. -/
def sampleText : Json → String
  | .bool b => if b then "true" else "false"
  | .str text => "\"" ++ text ++ "\""
  | .arr items => "[" ++ sampleItems items ++ "]"
  | .obj fields => "\x7b" ++ sampleMembers fields ++ "\x7d"
  | _ => "null"

def sampleItems : List Json → String
  | [] => ""
  | item :: items => (if items.isEmpty then sampleText item else sampleText item ++ ",") ++
      sampleItems items

def sampleMembers : List (String × Json) → String
  | [] => ""
  | (key, value) :: fields => "\"" ++ key ++ "\":" ++
      (if fields.isEmpty then sampleText value else sampleText value ++ ",") ++ sampleMembers fields

end

/-- A goal that requires no deliverable. -/
def sampleGoal : Json :=
  .obj [("actor", .str "reader"),
    ("capability", .obj [("action", .str "read"), ("preconditions", .arr [])]), ("id", .str "goal:1"),
    ("requires_deliverable", .bool false), ("ux_trace", .str "screen"),
    ("verifiable_outcome", .obj [("evidence", .str "log"), ("expected_state", .str "read")]),
    ("verification", .obj [("check", .str "look"), ("method", .str "manual_check")])]

/-- A root with one goal, one item and one candidate. -/
def sampleRoot (candidate : String) : Fields :=
  [("problem", .obj [("deliverable_requirements", .arr []), ("goals", .arr [sampleGoal]),
    ("patch_plan", .arr [.obj [("item_id", .str "item"), ("production_obligation_ids", .arr [])]]),
    ("production_obligations", .arr []),
    ("question", .obj [("candidates", .arr [.obj [("id", .str candidate)]])])])]

/-- An objection to the candidate. -/
def sampleSource : Source where
  patchSeriesId := "series"
  disposition := "ready"
  lifecycleReady := true
  latest := some 1
  openBlocking := [[("objection_id", .str "objection"), ("anchor_node_ids", .arr [.str "old"])]]
  experienceReports := []
  coverLetter := .obj [("working_title", .str "series")]
  technicalApproach := .obj (sampleRoot "old")

/-- The revision and the preparation give back the same root, and the reconciliation takes the new
candidate for the old one. -/
def sampleCalls (root : Fields) : Calls where
  isPatchSeriesView view := view.contains "working_title"
  revise _ view _ := .ok ⟨view, root, [], [], [], [], [], []⟩
  fillTechStack view _ := view
  provenance := [("request_id", .str "request")]
  prepare root _ := .ok root
  reconcile _ _ := some (.obj [("reconciliations", .arr [.obj [("dangling_id", .str "old"),
    ("successor_id", .str "new"), ("no_successor", .bool false), ("reason", .str "renamed")]])])
  respond _ _ _ := .obj []
  questions _ := .obj []
  prose _ := []

def samplePreflight : Preflight where
  updates path := path ∈ rootCohortV2Paths
  accepts _ _ := true

/-- The candidate is renamed and the objection still names the old one. The reconciled tree is clean, and
what is committed is the tree before it. -/
theorem reconciliation_not_committed : ∃ committed,
    reform_patch_series samplePy sampleText samplePreflight (sampleCalls (sampleRoot "new"))
      sampleSource = .ok committed ∧
    ¬ ∃ root ledger, committed.root = some root ∧ committed.ledger = some (.obj ledger) ∧
      CommitsChecked samplePy sampleText (.obj (sampleRoot "old"))
        (.obj (throughGate samplePy (sampleCalls (sampleRoot "new")) (sampleRoot "old")
          (sampleRoot "new") sampleSource.openBlocking).1) sampleSource.openBlocking root ledger := by
  have hrun : (reform_patch_series samplePy sampleText samplePreflight
      (sampleCalls (sampleRoot "new")) sampleSource).isOk = true := by decide +kernel
  have hviolations : _revision_continuity_violations samplePy (.obj (sampleRoot "old"))
      (.obj (sampleRoot "new")) sampleSource.openBlocking ≠ [] := by decide +kernel
  rcases hcommitted : reform_patch_series samplePy sampleText samplePreflight
      (sampleCalls (sampleRoot "new")) sampleSource with failure | committed
  · rw [hcommitted] at hrun
    cases hrun
  · refine ⟨committed, rfl, ?_⟩
    rintro ⟨root, ledger, hroot, -, hchecked⟩
    obtain ⟨-, hroot', -⟩ := reform_ok rfl rfl rfl rfl hcommitted
    obtain rfl := Option.eq_some_unique hroot hroot'
    exact hviolations hchecked.clean

/-- A run with nothing to reconcile. -/
theorem committed_iff_clean : ∃ committed,
    reform_patch_series samplePy sampleText samplePreflight (sampleCalls (sampleRoot "old"))
      sampleSource = .ok committed ∧
    ((∃ root ledger, committed.root = some root ∧ committed.ledger = some (.obj ledger) ∧
      CommitsChecked samplePy sampleText (.obj (sampleRoot "old"))
        (.obj (throughGate samplePy (sampleCalls (sampleRoot "old")) (sampleRoot "old")
          (sampleRoot "old") sampleSource.openBlocking).1) sampleSource.openBlocking root ledger) ↔
    _revision_continuity_violations samplePy (.obj (sampleRoot "old"))
        (.obj (sampleRoot "old")) sampleSource.openBlocking = [] ∧
      ∀ objection ∈ sampleSource.openBlocking, ∀ anchor ∈ anchors objection,
        startsWith anchor reindexedFamilyIdPrefixes = true →
          Resolves samplePy (.obj (sampleRoot "old")) (.obj (sampleRoot "old")) anchor) := by
  have hrun : (reform_patch_series samplePy sampleText samplePreflight
      (sampleCalls (sampleRoot "old")) sampleSource).isOk = true := by decide +kernel
  rcases hcommitted : reform_patch_series samplePy sampleText samplePreflight
      (sampleCalls (sampleRoot "old")) sampleSource with failure | committed
  · rw [hcommitted] at hrun
    cases hrun
  · exact ⟨committed, rfl, committed_iff sampleSource rfl rfl rfl rfl hcommitted⟩

end Example

end Reform

end AiOrg
