import AiOrg.Python.JsonPlain
import AiOrg.Review.Objection

/-!
# Requester assumptions

What the requester would have to decide is recorded in the cover as an assumption with a default, by the
id of the objection that asks for it, and is then no longer open.
-/

namespace AiOrg

namespace Review

/-- The fields of `patch_series_view` that are read and written here. -/
structure CoverView where
  constraintsAssumptions : List String
  openQuestions : List String
  deriving DecidableEq, Repr

structure AssumptionEntry where
  objectionId : String
  question : String
  adoptedDefault : String
  defaultProvenance : String
  rationale : String
  deriving DecidableEq, Repr

/-- The entry as it is written. -/
def AssumptionEntry.members (entry : AssumptionEntry) : List (String × String) :=
  [("objection_id", entry.objectionId), ("question", entry.question),
    ("adopted_default", entry.adoptedDefault), ("default_provenance", entry.defaultProvenance),
    ("rationale", entry.rationale)]

section Entries

variable (py : PyLib)

/-- `value if isinstance(value, str) else ""`. -/
def textOr (value : Json) : String :=
  match value with
  | .str text => text
  | _ => ""

def entryOf (item : String) : Except JsonError (Option AssumptionEntry) :=
  match loadsPlain py item with
  | .error .decode => .ok none
  | .error e => .error e
  | .ok (.obj fields) =>
    let id := textOr (Fields.get fields "objection_id")
    if id = "" then .ok none
    else .ok (some
      { objectionId := id
        question := textOr (Fields.get fields "question")
        adoptedDefault := textOr (Fields.get fields "adopted_default")
        defaultProvenance := textOr (Fields.get fields "default_provenance")
        rationale := textOr (Fields.get fields "rationale") })
  | .ok _ => .ok none

/-- The entries by their ids, the latest first. -/
abbrev Entries := List (String × AssumptionEntry)

/-- `requester_assumption_entries_by_objection_id`, for items. -/
def entriesOf (items : List String) : Except JsonError Entries :=
  items.foldlM (fun entries item => do
    match ← entryOf py item with
    | some entry => return (entry.objectionId, entry) :: entries
    | none => return entries) []

def requester_assumption_entries_by_objection_id (view : CoverView) : Except JsonError Entries :=
  entriesOf py view.constraintsAssumptions

def recorded_assumption_objection_ids (view : CoverView) : Except JsonError (List String) := do
  return (← requester_assumption_entries_by_objection_id py view).map (·.1)

end Entries

mutual

def _find_key (key : String) : Json → Json
  | .obj fields => if Fields.contains fields key then Fields.get fields key else findInFields key fields
  | .arr items => findInItems key items
  | _ => .null

def findInFields (key : String) : List (String × Json) → Json
  | [] => .null
  | (_, value) :: fields =>
    match _find_key key value with
    | .null => findInFields key fields
    | found => found

def findInItems (key : String) : List Json → Json
  | [] => .null
  | item :: items =>
    match _find_key key item with
    | .null => findInItems key items
    | found => found

end

def _approach_decision_label (approach : Json) : String :=
  match _find_key "decision" approach with
  | .obj decision =>
    (["selected_candidate_id", "chosen", "id"].map fun key => textOr (Fields.get decision key)).find?
      (· ≠ "") |>.getD ""
  | _ => ""

def requester_assumption_question (objection : Objection) : String :=
  let claim := pyStrip objection.claim
  let impact := pyStrip objection.impact
  if claim ≠ "" ∧ impact ≠ "" then claim ++ " Impact if wrong: " ++ impact
  else if claim ≠ "" then claim
  else if impact ≠ "" then impact
  else "Requester decision is needed."

/-- The value of an action in a record. -/
def AuthorAction.text : AuthorAction → String
  | .reExplain => "re_explain"
  | .provideEvidence => "provide_evidence"
  | .reviseSubtree => "revise_subtree"
  | .splitScope => "split_scope"
  | .withdraw => "withdraw"

/-- What is done by default instead of an action. -/
def AuthorAction.default : AuthorAction → String
  | .reExplain => "continue with the current explanation"
  | .provideEvidence => "continue without requiring additional author evidence"
  | .reviseSubtree => "continue without author-side subtree revision"
  | .splitScope => "keep the current scope unsplit"
  | .withdraw => "continue without withdrawal"

def requester_assumption_default (objection : Objection) (approach : Json) : String :=
  let stripped := pyStrip objection.claim
  let claim := if stripped = "" then "the requester-authority concern" else stripped
  let impact := pyStrip objection.impact
  let decision := _approach_decision_label approach
  let decisionClause := if decision = "" then "" else " for selected approach " ++ decision
  let claimEnd := if claim.toList.getLast?.any (fun c => c = '.' || c = '?' || c = '!') then ""
    else "."
  let impactClause := if impact = "" then "" else " Monitor requester impact: " ++ impact
  objection.requestedAuthorAction.default ++ decisionClause ++ ": " ++ claim ++ claimEnd ++
    impactClause ++ " Requester may override this default."

def requester_assumption_rationale (objection : Objection) : String :=
  "The objection is classified as requester-authority, so the author cannot settle it by technical" ++
    " revision." ++ " Requested author action was " ++ objection.requestedAuthorAction.text ++ "." ++
    " Recording an explicit default preserves progress while keeping the requester question visible."

section Recording

variable (py : PyLib)

def appendUnique (existing : List String) (addition : String) : List String :=
  if addition = "" ∨ addition ∈ existing then existing else existing ++ [addition]

def requester_authority_objections (objections : List Objection) : List Objection :=
  objections.filter (·.resolutionAuthority = .requester)

/-- The variables of the loop of `record_requester_authority_assumptions`. -/
structure Recording where
  revised : CoverView
  existing : Entries
  entries : List AssumptionEntry
  changed : Bool
  deriving DecidableEq, Repr

def newEntry (approach : Json) (id : String) (objection : Objection) : AssumptionEntry where
  objectionId := id
  question := requester_assumption_question objection
  adoptedDefault := requester_assumption_default objection approach
  defaultProvenance := "deterministic"
  rationale := requester_assumption_rationale objection

/-- The loop of `record_requester_authority_assumptions` on one objection. -/
def recordObjection (approach : Json) (state : Recording) (objection : Objection) : Recording :=
  let id := pyStrip objection.objectionId
  if id = "" then state
  else
    match state.existing.lookup id with
    | some entry => { state with entries := state.entries ++ [entry] }
    | none =>
      let entry := newEntry approach id objection
      { revised :=
          { constraintsAssumptions :=
              appendUnique state.revised.constraintsAssumptions (dumpsStrings entry.members)
            openQuestions :=
              appendUnique state.revised.openQuestions (id ++ ": " ++ entry.question) }
        existing := (id, entry) :: state.existing
        entries := state.entries ++ [entry]
        changed := true }

def record_requester_authority_assumptions (view : CoverView) (approach : Json)
    (objections : List Objection) : Except JsonError (CoverView × List AssumptionEntry × Bool) := do
  let existing ← requester_assumption_entries_by_objection_id py view
  let state := objections.foldl (recordObjection approach) ⟨view, existing, [], false⟩
  return (state.revised, state.entries, state.changed)

end Recording

end Review

end AiOrg

/-!
## The bookkeeping of a round

What becomes of the objections of a round between the consolidation and the verdict: deferrals hold only
where they were proposed, and what the requester has to decide is recorded.
-/

namespace AiOrg

namespace Review

/-- What the deferrals of a round come to. -/
structure Deferrals where
  accepted : List Objection
  rejectedIds : List String
  normalized : List Objection
  deriving DecidableEq, Repr

/-- The loop over the final objections that settles deferrals, with the ids of the proposals. -/
def normalizeDeferrals (proposals : List String) : List Objection → Deferrals
  | [] => ⟨[], [], []⟩
  | objection :: objections =>
    let rest := normalizeDeferrals proposals objections
    match objection.status with
    | .deferralAccepted =>
      if objection.objectionId ∈ proposals then
        { rest with
          accepted := objection :: rest.accepted
          normalized := objection :: rest.normalized }
      else { rest with normalized := { objection with status := .opened } :: rest.normalized }
    | .deferralRejected =>
      { rest with
        rejectedIds := objection.objectionId :: rest.rejectedIds
        normalized := { objection with status := .opened } :: rest.normalized }
    | _ => { rest with normalized := objection :: rest.normalized }

def _with_assumption_status (recorded : List String) (objection : Objection) : Objection :=
  if objection.objectionId ∈ recorded then { objection with status := .assumptionRecorded }
  else objection

structure Round where
  view : CoverView
  assumptionsChanged : Bool
  accepted : List Objection
  rejectedIds : List String
  objections : List Objection
  verdict : RoundVerdict
  deriving DecidableEq, Repr

/-- `_run_patch_series_review` from the final objections to the verdict. -/
def bookkeeping (py : PyLib) (view : CoverView) (approach : Json) (proposals : List String)
    (consolidation : Consolidation) (objections : List Objection) : Except JsonError Round := do
  let deferrals := normalizeDeferrals proposals objections
  let requesterBlocking := requester_authority_objections
    (deferrals.normalized.filter (·.openBlocking))
  let (view, _, changed) ← record_requester_authority_assumptions py view approach requesterBlocking
  let recorded ← recorded_assumption_objection_ids py view
  let final := deferrals.normalized.map (_with_assumption_status recorded)
  return {
    view := view
    assumptionsChanged := changed
    accepted := deferrals.accepted
    rejectedIds := deferrals.rejectedIds
    objections := final
    verdict := _derive_verdict { consolidation with deduplicatedObjections := final } final }

end Review

end AiOrg
