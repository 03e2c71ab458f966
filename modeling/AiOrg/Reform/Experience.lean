import AiOrg.Reform.Commit
import AiOrg.Review.Questions

/-!
# Implementation experience

A patch author reports on the branch of a series what running code told it. A reform makes objections of
the reports that are not processed yet, and writes them back with the version that processed them.
-/

namespace AiOrg

namespace Reform

open Review (Branch)

/-- The mark of a processed report. -/
def processedKey : String := "processed_in_author_version"

/-- `entry.get("processed_in_author_version")`. -/
def processed (report : Fields) : Bool := (report.get processedKey).truthy

/-- The body of some reports. -/
def experienceOf (reports : List Fields) : Json :=
  .obj [("implementation_experience_reports", .arr (reports.map .obj))]

def mappingsOf : List Json → List Fields
  | [] => []
  | .obj fields :: items => fields :: mappingsOf items
  | _ :: items => mappingsOf items

def reportsOf (parsed : Json) : List Fields :=
  match parsed with
  | .obj fields => mappingsOf (childItems fields "implementation_experience_reports")
  | _ => []

def SameReport (a b : Fields) : Prop := ∀ key, a.get key = b.get key

/-- The codec of the body, a program of its own: `parse` reads a committed text, `prepare` writes the text
to commit, which is read back with the same reports. A mark that it takes is a version from 1 on. -/
structure ExperienceCodec where
  parse : String → Option Json
  prepare : Json → Option String
  prepared : ∀ reports text, prepare (experienceOf reports) = some text →
    ∃ parsed, parse text = some parsed ∧ List.Forall₂ SameReport (reportsOf parsed) reports
  marks : ∀ reports text, prepare (experienceOf reports) = some text →
    ∀ report ∈ reports, ∀ value, report.lookup processedKey = some value →
      ∃ version : ℤ, 1 ≤ version ∧ value = .int version

section Reform

variable (py : PyLib) (codec : ExperienceCodec)

def recordedReports (branch : Branch) : List Fields :=
  (((branch.canonical.or branch.legacy).bind codec.parse).map reportsOf).getD []

/-- `_unprocessed_experience_reports`, and `none` where both representations are there. -/
def _unprocessed_experience_reports (branch : Branch) : Option (List Fields) :=
  if branch.canonical.isSome && branch.legacy.isSome then none
  else some ((recordedReports codec branch).filter fun report => !processed report)

/-- The anchors of a report. -/
def invalidatedNodeIds (report : Fields) : List Json :=
  (childItems report "invalidated_node_ids").filter fun id => id.kind = .str

/-- `text[:n]`. -/
def leading (n : ℕ) (text : String) : String := String.ofList (text.toList.take n)

def reportObjection (report : Fields) : Option Fields :=
  if invalidatedNodeIds report = [] then none
  else some
    [("objection_id", .str (implementationExperienceObjectionPrefix ++ py.str (report.get "objection_id"))),
      ("anchor_node_ids", .arr (invalidatedNodeIds report)),
      ("axis", .str (py.strOr (report.get "axis") "approach")),
      ("type", .str "blocking"),
      ("claim", .str ("Implementation experience: executable check " ++
        py.repr (py.strOr (report.get "executable_check") "") ++ " FAILED (" ++
        leading 500 (py.strOr (report.get "check_failure_evidence") "") ++
        "). Proposal under consideration (Plan B, verbatim): " ++
        py.strOr (report.get "contingency_plan") "")),
      ("evidence", .arr [.obj [("source_type", .str "repo_fact"),
        ("citation", .str "implementation-experience-report.json on the series branch"),
        ("consulted_terms", .arr [])]]),
      ("impact", .str "A committed direction node is invalidated by running-code evidence."),
      ("requested_author_action", .str "revise_subtree"), ("resolution_authority", .str "author"),
      ("status", .str "open")]

def _implementation_experience_objections (reports : List Fields) : List Fields :=
  reports.filterMap (reportObjection py)

/-- What a reform reads of a branch, where `source` has the objections of the latest round. -/
def Source.withExperience (source : Source) (reports : List Fields) : Source :=
  { source with
    experienceReports := reports
    openBlocking := source.openBlocking ++ _implementation_experience_objections py reports }

/-- The file after a commit. -/
def commitExperience (branch : Branch) (committed : Committed) : Branch :=
  match committed.files.lookup IMPLEMENTATION_EXPERIENCE_REPORT_PATH with
  | some (.canonical body) => { branch with canonical := codec.prepare body }
  | _ => branch

def experienceReport (brief question contingency checkFailure : Fields) : Fields :=
  [("objection_id", .str (py.strOr (question.get "objection_id") "")),
    ("claim", .str (py.strOr (question.get "claim") "")),
    ("executable_check", .str (py.strOr (question.get "executable_check") "")),
    ("check_failure_evidence", .str (leading 2000 (py.strOr (checkFailure.get "detail") ""))),
    ("invalidated_node_ids", .arr ((childItems contingency "direction_change_node_ids").filter
      fun id => id.kind = .str)),
    ("contingency_plan", .str (py.strOr (contingency.get "contingency_plan") "")),
    ("rewind_class", .str "requires_direction_change"),
    ("reported_from_node_key", .str (py.strOr (brief.get "node_key") ""))]

def _commit_implementation_experience_report (branch : Branch)
    (brief question contingency checkFailure : Fields) : Option Branch :=
  if branch.canonical.isSome && branch.legacy.isSome then none
  else
    let reports := recordedReports codec branch
    let objectionId := py.strOr (question.get "objection_id") ""
    let known := reports.any fun entry =>
      py.strOr (entry.get "objection_id") "" = objectionId && !processed entry
    let reports := if known then reports
      else reports ++ [experienceReport py brief question contingency checkFailure]
    (codec.prepare (experienceOf reports)).map fun text => { branch with canonical := some text }

/-- What is run on a branch: a reform, of which the objections of the latest round are in its source, or
the report of a patch author. -/
inductive Event
  | reform (calls : Calls) (source : Source)
  | report (brief question contingency checkFailure : Fields)

variable (canonical : Json → String) (preflight : Preflight)

def reformOn (branch : Branch) (calls : Calls) (source : Source) : Option (List Fields × Committed) :=
  match _unprocessed_experience_reports codec branch with
  | none => none
  | some reports =>
    match reform_patch_series py canonical preflight calls (source.withExperience py reports) with
    | .ok committed => some (reports, committed)
    | .error _ => none

def afterEvent (branch : Branch) : Event → Branch
  | .reform calls source =>
    match reformOn py codec canonical preflight branch calls source with
    | some (_, committed) => commitExperience codec branch committed
    | none => branch
  | .report brief question contingency checkFailure =>
    (_commit_implementation_experience_report py codec branch brief question contingency
      checkFailure).getD branch

def afterEvents (branch : Branch) (events : List Event) : Branch :=
  events.foldl (afterEvent py codec canonical preflight) branch

end Reform

end Reform

end AiOrg
