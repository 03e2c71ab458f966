import AiOrg.Gate.Plan
import AiOrg.Git.Commit
import AiOrg.PatchAuthor.CueFrame

/-!
# The drive of a series

`drive` commits on a contribution branch: the task binding of a producer, the contingency plans of questions, the items
of the plan, one pivot for each question whose check fails, the completion assertion and the result. What the worker,
the checks and git do is left to a `World`.
-/

namespace AiOrg

namespace CodeWorker

structure Commit where
  sha : String
  committed_at : String
  subject : String
  deriving DecidableEq

structure ItemCommit where
  sha : String
  committed_at : String
  item_id : String
  deriving DecidableEq

structure Brief where
  series_branch : String
  node_key : String
  plan_id : String
  cover_letter : Fields
  patch_plan : Json
  must_answer_questions : List Json

/-- What happens around a drive. -/
structure World where
  /-- The name of a commit on top of so many. -/
  oid : ℕ → String
  committed_at : ℕ → String
  /-- Whether a task binding is active, with nothing where it cannot be materialized. -/
  binding : Option Bool
  /-- The contingency plan of an objection is elaborated. -/
  elaborates : String → Bool
  /-- An item gets through its rounds. -/
  authors : String → Bool
  /-- The contribution holds a contingency plan for an objection. -/
  planned : String → Bool
  /-- The plan for an objection requires a direction change. -/
  rewinds : String → Bool
  pivots : String → Bool
  /-- The check of a question passes on a branch of so many commits. -/
  passes : ℕ → Fields → Bool
  asserts : Bool
  writes : Bool

/-- The branch, newest commit first, and the commits of `_commit_item`, oldest first. -/
structure Progress where
  log : List Commit
  authored : List ItemCommit
  deriving DecidableEq

section Plan

variable (py : PyLib)

/-- An item of an assignment or of a graph, where it has an id. -/
def itemUnder (key : String) (kind : ItemKind) : Json → Option PlanItem
  | .obj fields =>
    let id := py.strOr (Fields.get fields key) ""
    if named : id ≠ "" then some ⟨id, kind, named⟩ else none
  | _ => none

theorem append_ne_empty {a b : String} (h : b ≠ "") : a ++ b ≠ "" := fun heq =>
  h (String.append_eq_empty_iff.1 heq).2

def followUps (plan_id : String) : ℕ → List Json → List PlanItem
  | _, [] => []
  | index, .obj _ :: rest =>
    ⟨plan_id ++ ("#follow-up-" ++ twoDigits (index + 1)), .follow_up,
      append_ne_empty fun heq => absurd (String.append_eq_empty_iff.1 heq).1 (by decide)⟩ ::
        followUps plan_id (index + 1) rest
  | index, _ :: rest => followUps plan_id (index + 1) rest

def plan_items (patch_plan : Json) (plan_id : String) : List PlanItem :=
  match patch_plan with
  | .arr assignments => assignments.filterMap (itemUnder py "item_id" .patch_plan_assignment)
  | .obj fields =>
    match Fields.get fields "items" with
    | .arr items => items.filterMap (itemUnder py "id" .work_item)
    | _ =>
      (match Fields.get fields "first_proof_moment" with
        | .obj _ => [⟨plan_id ++ "#first_proof_moment", .first_proof_moment, append_ne_empty (by decide)⟩]
        | _ => []) ++
      match Fields.get fields "follow_ups" with
      | .arr follow_ups => followUps plan_id 0 follow_ups
      | _ => []
  | _ => []

def objectionId (question : Fields) : String := py.strOr (question.get "objection_id") ""

/-- The objections whose questions have no contingency plan yet. -/
def contingency_elaboration_items (questions : List Json) : List String :=
  questions.filterMap fun question =>
    match question with
    | .obj fields =>
      let id := objectionId py fields
      if id = "" then none
      else if (Text.strip (py.strOr (Fields.get fields "if_check_fails_implement") "").toList).isEmpty then some id
      else none
    | _ => none

inductive Work
  | elaboration (objection_id : String)
  | item (item : PlanItem)

def slices {α : Type} : List ℕ → List α → List (List α)
  | [], _ => []
  | size :: sizes, items => items.take size :: slices sizes (items.drop size)

def partition_items {α : Type} (items : List α) (child_count : Option ℕ) : List (List α) :=
  if items.isEmpty then []
  else
    let count := child_count.elim items.length fun n => max 1 (min n items.length)
    slices ((List.range count).map fun child =>
      items.length / count + if child < items.length % count then 1 else 0) items

end Plan

section Subjects

variable (py : PyLib) (brief : Brief)

def itemSubject (item_id : String) : String :=
  "patch: " ++ py.strOr (brief.cover_letter.get "working_title") brief.series_branch ++ " [" ++ item_id ++ "]"

def planSubject (objection_id : String) : String := "patch: contingency plan for " ++ objection_id

def pivotSubject (objection_id : String) : String := "patch: contingency engaged for " ++ objection_id

def bindingSubject : String := "producer-task-binding: materialize " ++ brief.node_key

def assertionSubject (implementation_oid : String) : String := "producer-completion: assert " ++ implementation_oid

def resultSubject : String := "patch: implementation result for " ++ brief.node_key

end Subjects

section Drive

variable (py : PyLib) (world : World) (brief : Brief)

/-- `git commit -m text` on a branch; what follows the text is a paragraph of its own. -/
def World.commit (text : String) (log : List Commit) : List Commit :=
  ⟨world.oid log.length, world.committed_at log.length, Git.subject text⟩ :: log

def _materialize_producer_task_binding (log : List Commit) : Option (Bool × List Commit) :=
  world.binding.map fun active => (active, if active then world.commit (bindingSubject brief) log else log)

def _elaborate_contingency (objection_id : String) (log : List Commit) : Option (List Commit) :=
  if world.elaborates objection_id then some (world.commit (planSubject objection_id) log) else none

def _commit_item (item : PlanItem) (progress : Progress) : Progress where
  log := world.commit (itemSubject py brief item.item_id) progress.log
  authored := progress.authored ++
    [⟨world.oid progress.log.length, world.committed_at progress.log.length, item.item_id⟩]

/-- `_author_one_item`. -/
def authorOne (progress : Progress) : Work → Option Progress
  | .elaboration objection_id =>
    (_elaborate_contingency world objection_id progress.log).map fun log => { progress with log := log }
  | .item item => if world.authors item.item_id then some (_commit_item py world brief item progress) else none

def authorPartitions (partitions : List (List Work)) (progress : Progress) : Option Progress :=
  partitions.foldlM (fun progress partition => partition.foldlM (authorOne py world brief) progress) progress

/-- The branch with a plan for an objection, elaborated now where it holds none. -/
def withPlan (objection_id : String) (log : List Commit) : Option (List Commit) :=
  if world.planned objection_id then some log else _elaborate_contingency world objection_id log

def _answer_must_answer_questions : List Fields → List Commit → Option (List Commit)
  | [], log => some log
  | question :: questions, log =>
    let id := objectionId py question
    if world.passes log.length question then _answer_must_answer_questions questions log
    else do
      let log ← withPlan world id log
      if world.rewinds id then none
      else if !world.pivots id then none
      else
        let log := world.commit (pivotSubject id) log
        if world.passes log.length question then _answer_must_answer_questions questions log else none

def _write_producer_completion_assertion (log : List Commit) : Option (List Commit) :=
  if world.asserts then some (world.commit (assertionSubject ((log.head?.map Commit.sha).getD "")) log) else none

/-- The branch with the assertion, where a task binding is active. -/
def withAssertion (active : Bool) (log : List Commit) : Option (List Commit) :=
  if active then _write_producer_completion_assertion world log else some log

def _write_result_artifact (log : List Commit) : Option (List Commit) :=
  if world.writes then some (world.commit (resultSubject brief) log) else none

/-- The mappings among the questions. -/
def questionsOf (questions : List Json) : List Fields :=
  questions.filterMap fun question =>
    match question with
    | .obj fields => some fields
    | _ => none

def _drive_in_worktree (partitions : List (List Work)) (base : List Commit) : Option Progress := do
  let (active, log) ← _materialize_producer_task_binding world brief base
  let progress ← authorPartitions py world brief partitions ⟨log, []⟩
  let log ← _answer_must_answer_questions py world (questionsOf brief.must_answer_questions) progress.log
  let log ← withAssertion world active log
  let log ← _write_result_artifact world brief log
  return { progress with log := log }

/-- `drive` on a branch that stands at a base, with nothing where it fails. -/
def drive (base : List Commit) : Option Progress :=
  let items := plan_items py brief.patch_plan brief.plan_id
  if items.isEmpty then none
  else
    let work := (contingency_elaboration_items py brief.must_answer_questions).map Work.elaboration ++
      items.map Work.item
    _drive_in_worktree py world brief (partition_items work none) base

end Drive

end CodeWorker

end AiOrg
