import AiOrg.Approach.Reform
import AiOrg.Reform.Experience

/-!
# The closing of open questions

A step of a reform may close open questions of the tree that it revises, on paper or by handing them to the
patch with a check. The tree drops them, the ledger keeps them, and those for the patch are added to the
artifact that accepted deferrals go to.
-/

namespace AiOrg

namespace Approach

open Reform (childFields childItems leading Source Calls Committed)
open Review (Branch QuestionsCodec)

inductive ClosureKind
  | routed_to_patch | settled_on_paper
  deriving DecidableEq, Repr

def ClosureKind.name : ClosureKind → String
  | .routed_to_patch => "routed_to_patch"
  | .settled_on_paper => "settled_on_paper"

/-- The closing of a question: there is a resolution, and a check exactly for what the patch is to answer. -/
structure Closure where
  question : String
  resolution : String
  closureKind : ClosureKind
  executableCheck : String
  resolved : pyStrip resolution ≠ ""
  checked : closureKind = .routed_to_patch ↔ pyStrip executableCheck ≠ ""

/-- What is collected of a closure, with the step that declares it. -/
def Closure.toFields (step : Step) (closure : Closure) : Fields :=
  [("question", .str closure.question), ("resolution", .str closure.resolution),
    ("closure_kind", .str closure.closureKind.name), ("executable_check", .str closure.executableCheck),
    ("step", .str step.name)]

def openQuestions (approach : Fields) : List Json := childItems (childFields approach "problem") "open_questions"

/-- The open questions of a revision plan. -/
def planQuestions (approach : Fields) : List String :=
  (openQuestions approach).filterMap fun question =>
    match question with
    | .str text => some text
    | _ => none

section Closures

variable (py : PyLib) (questions : List String)

/-- The error for a question that is not open, or is closed twice. -/
def notOpen (question : Json) : String :=
  "closed question does not byte-match an open question (or duplicates): " ++ py.reprJson question ++
    "; current open questions (use one VERBATIM): " ++ py.dumps (.arr (questions.map .str))

def checkedClosure (question resolution check : String) (kind : Json) (hresolved : pyStrip resolution ≠ "") :
    Except String Closure :=
  if kind = .str "routed_to_patch" then
    if hcheck : pyStrip check = "" then .error ("closed question " ++ py.repr question ++
      " routed_to_patch requires a non-empty executable_check")
    else .ok ⟨question, resolution, .routed_to_patch, check, hresolved, fun _ => hcheck, fun _ => rfl⟩
  else if kind = .str "settled_on_paper" then
    if hcheck : pyStrip check = "" then
      .ok ⟨question, resolution, .settled_on_paper, check, hresolved, fun h => ClosureKind.noConfusion h,
        fun h => absurd hcheck h⟩
    else .error ("closed question " ++ py.repr question ++
      " settled_on_paper must not carry an executable_check")
  else .error ("closed question " ++ py.repr question ++ " has an invalid closure_kind")

/-- One item of the declared closures, after those of some questions. -/
def parseClosure (seen : List String) (item : Fields) : Except String Closure :=
  match item.get "question" with
  | .str question =>
    if question ∈ questions ∧ question ∉ seen then
      match item.get "resolution" with
      | .str resolution =>
        if hresolved : pyStrip resolution = "" then
          .error ("closed question " ++ py.repr question ++ " is missing a resolution")
        else match item.get "executable_check" with
          | .str check => checkedClosure py question resolution check (item.get "closure_kind") hresolved
          | _ => .error ("closed question " ++ py.repr question ++ " has an invalid executable_check")
      | _ => .error ("closed question " ++ py.repr question ++ " is missing a resolution")
    else .error (notOpen py questions (.str question))
  | question => .error (notOpen py questions question)

def parseClosures (seen : List String) : List Json → Except String (List Closure)
  | [] => .ok []
  | .obj item :: items => do
    let closure ← parseClosure py questions seen item
    let closures ← parseClosures (closure.question :: seen) items
    .ok (closure :: closures)
  | _ :: _ => .error "Codex targeted revision returned an invalid closed question item"

def _parse_closed_questions (value : Json) : Except String (List Closure) :=
  match value with
  | .null => .ok []
  | .str "" => .ok []
  | .arr items => parseClosures py questions [] items
  | _ => .error "Codex targeted revision returned invalid closed_questions"

end Closures

section Artifact

variable (py : PyLib) (codec : QuestionsCodec)

/-- `entry_id`. -/
def openQuestionId (closure : Fields) : String :=
  "open-question:" ++ leading 48 (_slug py (py.strOr (closure.get "question") ""))

/-- The question for the patch that a routed closure becomes. -/
def routedEntry (authorVersion : ℤ) (closure : Fields) : Fields :=
  [("objection_id", .str (openQuestionId py closure)), ("status", .str "must_resolve_in_patch"),
    ("executable_check", .str (py.strOr (closure.get "executable_check") "")),
    ("why_resolved_in_patch", .str (py.strOr (closure.get "resolution") "")),
    ("if_check_fails_implement", .str ""), ("claim", .str (py.strOr (closure.get "question") "")),
    ("anchor_node_ids", .arr []), ("axis", .str "approach"),
    ("accepted_in_review_round", .int (authorVersion - 1))]

/-- Two representations of the artifact at once, for which the source raises. -/
def ambiguous (branch : Branch) : Bool := branch.canonical.isSome && branch.legacy.isSome

def readQuestions (branch : Branch) (codecFails : Bool) : List Fields :=
  let parsed := if codecFails then none else (branch.canonical.or branch.legacy).bind codec.parse
  (parsed.map Review.questionsOf).getD []

/-- `_questions_artifact_with_routed_closures` on a branch that is not ambiguous. The ids are compared with
those that were read, so two closures of one run do not hide each other. -/
def _questions_artifact_with_routed_closures (branch : Branch) (codecFails : Bool) (routed : List Fields)
    (authorVersion : ℤ) : List Fields :=
  let questions := readQuestions codec branch codecFails
  questions ++ (routed.filter fun closure => openQuestionId py closure ∉ Review.knownIds py questions).map
    (routedEntry py authorVersion)

end Artifact

/-- What a step replies: its result, large tables by the names of their aspects, and what it declares. -/
structure Reply where
  result : Fields
  tables : List (String × Json)
  deferralProposals : List Fields
  closedQuestions : Json
  defenses : List Fields

/-- What a reform is run with, where the steps declare closures, and the branch of the artifact. -/
structure ClosingRun where
  source : Source
  ground : Source → Fields → Except String Fields
  reply : Step → Components → Except String Reply
  carrierOf : Fields → List String → Option Fields → Except Producer.Raised Fields
  others : Calls
  branch : Branch
  codecFails : Bool

section Run

variable (py : PyLib) (codec : QuestionsCodec)

def Reply.read (questions : List String) (step : Step) (reply : Reply) : Except String StepResult := do
  let closures ← _parse_closed_questions py questions reply.closedQuestions
  .ok { result := reply.result
        externalFiles := reply.tables.map fun table =>
          ("domain-spec/" ++ _slug py table.1 ++ ".json", .value table.2)
        deferralProposals := reply.deferralProposals
        closedQuestions := closures.map (Closure.toFields step)
        defenses := reply.defenses }

/-- The tree that a run revises. -/
def ClosingRun.previous (run : ClosingRun) : Fields :=
  match run.source.technicalApproach with
  | .obj previous => previous
  | _ => []

/-- The steps and calls of a run. -/
def ClosingRun.reform (run : ClosingRun) : ReformRun where
  source := run.source
  ground := run.ground
  runStep step components := do
    let reply ← run.reply step components
    reply.read py (planQuestions run.previous) step
  carrierOf := run.carrierOf
  others := { run.others with
    questions := fun routed => Review.artifactOf (_questions_artifact_with_routed_closures py codec
      run.branch run.codecFails routed (run.source.latest.getD 0 + 1)) }

variable (nfc : List Char → List Char) (canonical : Json → String) (text : Producer.Raised → String)
  (preflight : Reform.Preflight)

/-- A preflight that prepares the artifact with its codec. -/
def withCodec : Reform.Preflight :=
  { preflight with
    accepts := fun path body =>
      if path = Reform.PATCH_MUST_ANSWER_QUESTIONS_PATH then (codec.prepare body).isSome
      else preflight.accepts path body }

/-- What a run commits, if it returns ok. It raises where it has to write the artifact and the branch is
ambiguous. -/
def ClosingRun.commits (run : ClosingRun) : Option Committed :=
  match Reform.reform_patch_series py canonical (withCodec codec preflight)
    ((run.reform py codec).calls py canonical nfc text) run.source with
  | .ok committed =>
    if ambiguous run.branch && (committed.files.lookup Reform.PATCH_MUST_ANSWER_QUESTIONS_PATH).isSome then none
    else some committed
  | .error _ => none

def ClosingRun.after (run : ClosingRun) (committed : Committed) : Branch :=
  match committed.files.lookup Reform.PATCH_MUST_ANSWER_QUESTIONS_PATH with
  | some (.canonical body) => { run.branch with canonical := codec.prepare body }
  | _ => run.branch

/-- The closures that the steps of a run declare. -/
def ClosingRun.closures (run : ClosingRun) : List Fields :=
  match _reform_technical_approach py canonical (run.reform py codec).runStep run.previous
    ((run.reform py codec).steps py run.previous) with
  | .ok reformed => reformed.closedQuestions
  | .error _ => []

/-- Those that hand their question to the patch. -/
def ClosingRun.routed (run : ClosingRun) : List Fields :=
  (run.closures py codec canonical).filter fun closure => closure.get "closure_kind" = .str "routed_to_patch"

end Run

end Approach

end AiOrg
