import AiOrg.Reform.Reconcile

/-!
# The reform of a patch series

The tree of a reform goes through four stages: it is reassembled from the revision, the dead ends of its
root links are remapped, the producer preparation turns it into the root cohort, and what the gate still
finds dangling goes through one reconciliation. Then the ledger is written and the files are committed.
-/

namespace AiOrg

namespace Reform

/-- The content of a file: the canonical text of a body, or a value that is still to be written. -/
inductive Content
  | canonical (body : Json)
  | value (body : Json)
  deriving DecidableEq

/-- Contents by their paths. -/
abbrev Files := List (String × Content)

/-- `files[path] = content`. -/
def put (files : Files) (path : String) (content : Content) : Files :=
  match files with
  | [] => [(path, content)]
  | file :: files => if file.1 = path then (path, content) :: files else file :: put files path content

/-- `files.update(others)`. -/
def update (files others : Files) : Files :=
  others.foldl (fun files file => put files file.1 file.2) files

def COVER_PATH : String := "patch-series-cover-letter.cue"

def PROVENANCE_PATH : String := "patch-series-request-provenance.cue"

def ROOT_APPROACH_PATH : String := "technical-approach-plan.cue"

def SCOPE_DECOMPOSITION_PATH : String := "series-scope-decomposition.cue"

def LEGACY_COVER_PATH : String := "patch-series-cover-letter.json"

def LEGACY_PROVENANCE_PATH : String := "patch-series-request-provenance.json"

def LEGACY_ROOT_APPROACH_PATH : String := "technical-approach-plan.json"

def rootCohortV2Paths : List String := [COVER_PATH, PROVENANCE_PATH, ROOT_APPROACH_PATH]

def PATCH_MUST_ANSWER_QUESTIONS_PATH : String := "questions-the-patch-must-answer.cue"

def IMPLEMENTATION_EXPERIENCE_REPORT_PATH : String := "implementation-experience-report.cue"

/-- `f"{n:0{width}d}"`. -/
def paddedDigits (width n : ℕ) : String :=
  String.ofList (List.replicate (width - (toString n).length) '0') ++ toString n

/-- `f"{n:04d}"`. -/
def padded (n : ℤ) : String :=
  if n < 0 then "-" ++ paddedDigits 3 n.natAbs else paddedDigits 4 n.natAbs

def author_response_record_path (round version : ℤ) : String :=
  "patch-series-review-rounds/round-" ++ padded round ++ "-author-v" ++ padded version ++
    "-response-record.cue"

def revision_delta_record_path (round : ℤ) : String :=
  "patch-series-review-rounds/round-" ++ padded round ++ "-revision-delta.cue"

/-- `text.endswith(ends)`. -/
def endsWith (text : String) (ends : List String) : Bool :=
  ends.any fun back => back.toList.isSuffixOf text.toList

def _is_review_record_path (path : String) : Bool :=
  endsWith path ["-direction-review-record.json", "-direction-review-record.cue",
    "-response-record.json", "-response-record.cue", "-revision-delta.json", "-revision-delta.cue"]

def canonical_path (path : String) : String :=
  if endsWith path [".json"] then String.ofList (path.toList.take (path.length - 5)) ++ ".cue" else path

/-- What the preflight of a tree knows of paths and bodies: which paths take canonical updates only,
and the bodies that the codec takes at a path. -/
structure Preflight where
  updates : String → Bool
  accepts : String → Json → Bool

/-- One member of `prepare_immutable_tree`, `none` where it raises. -/
def prepareFile (preflight : Preflight) (file : String × Content) : Option (String × Content) :=
  let path := file.1
  match file.2 with
  | .canonical body =>
    if _is_review_record_path path then
      if preflight.accepts path body then some (canonical_path path, .canonical body) else none
    else if preflight.updates path then
      if preflight.accepts path body then some (path, .canonical body) else none
    else some (path, .canonical body)
  | .value body =>
    if _is_review_record_path path then
      if preflight.accepts path body then some (canonical_path path, .canonical body) else none
    else if preflight.updates path then none
    else if path ∈ [PATCH_MUST_ANSWER_QUESTIONS_PATH, IMPLEMENTATION_EXPERIENCE_REPORT_PATH] then
      if preflight.accepts path body then some (path, .canonical body) else none
    else some (path, .value body)

def prepare_immutable_tree (preflight : Preflight) (files : Files) : Option Files := do
  let output ← files.mapM (prepareFile preflight)
  if (output.map Prod.fst).Nodup then some output else none

structure Preview where
  technicalApproach : Fields
  cohortFiles : Files

def preview_canonical_root_technical_approach (coverLetter provenance normalized : Fields) :
    Preview where
  technicalApproach := normalized
  cohortFiles := [(COVER_PATH, .canonical (.obj coverLetter)),
    (PROVENANCE_PATH, .canonical (.obj provenance)), (ROOT_APPROACH_PATH, .canonical (.obj normalized))]

def Preview.completeCohort (preview : Preview) : Bool :=
  preview.cohortFiles.map Prod.fst = rootCohortV2Paths

/-- What a reform reads of the branch that it froze. The objections are those of the latest round and of
the experience reports. -/
structure Source where
  patchSeriesId : String
  disposition : String
  lifecycleReady : Bool
  latest : Option ℤ
  openBlocking : List Fields
  experienceReports : List Fields
  coverLetter : Json
  technicalApproach : Json

structure Revision where
  patchSeries : Fields
  technicalApproach : Fields
  affectedSteps : List String
  changedNodes : List String
  externalFiles : Files
  deferralProposals : List Fields
  closedQuestions : List Fields
  defenses : List Fields

/-- The calls that a reform makes. `revise` stands for all that happens up to the reassembled tree and
`prepare` for the producer preparation, which gives the root back normalized; `reconcile` replies to the
reconciliation. The others look at the cover or derive records that are committed beside the root. -/
structure Calls where
  isPatchSeriesView : Fields → Bool
  revise : Source → Fields → Fields → Except String Revision
  fillTechStack : Fields → Fields → Fields
  provenance : Fields
  prepare : Fields → Fields → Except String Fields
  reconcile : List (String × List String) → List (String × List Summary) → Option Json
  respond : Revision → List String → Bool → Json
  questions : List Fields → Json
  prose : Json → List String

/-- Why a run does not return ok. -/
structure Failure where
  status : String
  failedStep : String
  error : String
  violations : List String
  noSuccessor : List (String × String)
  deriving DecidableEq, Repr

def needsWork (failedStep error : String) : Failure := ⟨"needs_work", failedStep, error, [], []⟩

/-- What a run that returns ok has committed. -/
structure Committed where
  files : Files
  removePaths : List String
  version : ℤ
  reviewRound : ℤ
  revisionDeltaPath : String
  deriving DecidableEq

section Run

variable (py : PyLib) (canonical : Json → String) (preflight : Preflight) (calls : Calls)

/-- The tree and the ids without a successor after the gate and, where the gate finds something, one
reconciliation, with what the gate then finds. -/
def throughGate (previous revised : Fields) (objections : List Fields) :
    Fields × List (String × String) × List String :=
  let violations := _revision_continuity_violations py (.obj previous) (.obj revised) objections
  if violations.isEmpty then (revised, [], violations)
  else
    match _reconcile_dangling_references py calls.reconcile (.obj previous) revised objections with
    | some (reconciled, noSuccessor) => (reconciled, noSuccessor,
        _revision_continuity_violations py (.obj previous) (.obj reconciled) objections)
    | none => (revised, [], violations)

/-- The files of the commit, with the tree that went through the gate in the ledger. -/
def reformFiles (source : Source) (reviewRound : ℤ) (previous : Fields) (revision : Revision)
    (producerRoot : Preview) (revised : Fields) (noSuccessor : List (String × String))
    (changed : Bool) (changedNodes : List String) : Files :=
  let next := reviewRound + 1
  let files := update revision.externalFiles producerRoot.cohortFiles
  let files := put files (author_response_record_path reviewRound next)
    (.value (calls.respond revision changedNodes changed))
  let routed := revision.closedQuestions.filter fun closure =>
    closure.get "closure_kind" = .str "routed_to_patch"
  let files := if routed.isEmpty then files
    else put files PATCH_MUST_ANSWER_QUESTIONS_PATH (.value (calls.questions routed))
  let files := if source.experienceReports.isEmpty then files
    else put files IMPLEMENTATION_EXPERIENCE_REPORT_PATH (.value (.obj
      [("implementation_experience_reports", .arr (source.experienceReports.map fun report =>
        .obj (report.set "processed_in_author_version" (.int next))))]))
  -- the cover is canonical text here, so that it is not prepared once more as an amendment
  put files (revision_delta_record_path reviewRound) (.value (.obj
    (_revision_delta_record py canonical source.patchSeriesId reviewRound next (.obj previous)
      (.obj revised) source.openBlocking (calls.prose (.obj revised))
      ⟨noSuccessor, revision.deferralProposals, revision.closedQuestions, revision.defenses⟩)))

def commitRoot (source : Source) (reviewRound : ℤ) (patchSeriesView previous : Fields)
    (revision : Revision) (patchSeries : Fields) (producerRoot : Preview) :
    Except Failure Committed :=
  let patchSeriesChanged := canonical (.obj patchSeries) ≠ canonical (.obj patchSeriesView)
  let changed := patchSeriesChanged ∨
    canonical (.obj producerRoot.technicalApproach) ≠ canonical (.obj previous)
  let changedNodes := if patchSeriesChanged then COVER_PATH :: revision.changedNodes
    else revision.changedNodes
  let (revised, noSuccessor, violations) :=
    throughGate py calls previous producerRoot.technicalApproach source.openBlocking
  if !violations.isEmpty then .error ⟨"needs_work", "revision_continuity",
    "revision continuity violations: " ++ String.intercalate "; " violations, violations, noSuccessor⟩
  else if !producerRoot.completeCohort then .error
    (needsWork "producer_aware_reform" "producer-aware reform requires the exact root cohort v2")
  else
    let files := reformFiles py canonical calls source reviewRound previous revision producerRoot
      revised noSuccessor (decide changed) changedNodes
    match prepare_immutable_tree preflight files with
    | none => .error ⟨"raised", "prepare_reform_tree", "", [], []⟩
    | some aggregate => .ok
      { files := aggregate
        removePaths :=
          if rootCohortV2Paths.all (· ∈ producerRoot.cohortFiles.map Prod.fst) then
            [LEGACY_COVER_PATH, LEGACY_PROVENANCE_PATH, LEGACY_ROOT_APPROACH_PATH,
              SCOPE_DECOMPOSITION_PATH]
          else []
        version := reviewRound + 1
        reviewRound := reviewRound
        revisionDeltaPath := revision_delta_record_path reviewRound }

/-- The view that a revision derives from the decision is derived again where the decision may have
changed. -/
def revisedPatchSeries (revision : Revision) (reassembled : Fields) : Fields :=
  if "candidates" ∈ revision.affectedSteps ∨ "decision" ∈ revision.affectedSteps then
    calls.fillTechStack revision.patchSeries reassembled
  else revision.patchSeries

def reform_patch_series (source : Source) : Except Failure Committed :=
  if !source.lifecycleReady then .error ⟨source.disposition, "", "", [], []⟩
  else match source.latest with
  | none => .error ⟨"no_review_round", "", "No review round found.", [], []⟩
  | some reviewRound =>
    if source.openBlocking.isEmpty then .error ⟨"no_open_blocking_objections", "", "", [], []⟩
    else match source.coverLetter with
    | .obj patchSeriesView =>
      if !calls.isPatchSeriesView patchSeriesView then .error
        (needsWork "" "patch-series-cover-letter.json is not a grounded patch series view.")
      else match source.technicalApproach with
      | .obj previous => do
        let revision ← (calls.revise source patchSeriesView previous).mapError (needsWork "revision")
        let reassembled := _remap_root_reference_ids py (.obj previous) revision.technicalApproach
        let patchSeries := revisedPatchSeries calls revision reassembled
        let normalized ← (calls.prepare reassembled previous).mapError
          (needsWork "producer_aware_reform")
        commitRoot py canonical preflight calls source reviewRound patchSeriesView previous revision
          patchSeries
          (preview_canonical_root_technical_approach patchSeries calls.provenance normalized)
      | _ => .error (needsWork "" "technical-approach-plan.json is missing or invalid.")
    | _ => .error
      (needsWork "" "patch-series-cover-letter.json is not a grounded patch series view.")

end Run

end Reform

end AiOrg
