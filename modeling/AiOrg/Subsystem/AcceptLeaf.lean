import AiOrg.Git.Commit
import AiOrg.Python.Lines
import AiOrg.Run.Stateful

/-!
# Acceptance of a leaf

`accept_leaf` moves three branches after each other: an empty marker commit on the contribution, a
merge of it on the subsystem branch, a fast-forward of the default branch. Every git command may
fail, and then moves nothing itself; which ones do is a parameter.
-/

namespace AiOrg

namespace Subsystem

open Git

def subsystemBranch : String := "ai-org/subsystem"

/-- `ACCEPTANCE_SUBJECT` and `ACCEPTANCE_BODY`, as `git commit` joins them. -/
def acceptanceMessage : String :=
  "acceptance: reachable" ++ "\n\n" ++
    "Requester-fiat acceptance: this empty-headed maintainer form accepts the " ++
    "contribution without an independent judgment."

/-- The tips of the local branches. -/
abbrev Refs (τ : Type) := String → Option (Commit τ)

structure Repo (τ : Type) where
  refs : Refs τ
  /-- The branch that is checked out, empty when `HEAD` is detached. -/
  head : String
  /-- `git symbolic-ref --short refs/remotes/origin/HEAD`. -/
  originHead : Option String

/-- The commands of one `accept_leaf` that can fail. -/
inductive GitCall where
  | checkoutContrib | commitMarker | revParse | checkoutBack
  | createSubsystem | addSubsystemWorktree | mergeMarker | readSubsystem
  | isAncestor | addDefaultWorktree | fastForward
  deriving DecidableEq, Repr

/-- What the commands do: whether they succeed, what they print, the tree a merge makes. -/
structure Outcomes (τ : Type) where
  succeeds : GitCall → Bool
  stderr : GitCall → String
  mergeTree : τ
  oid : Commit τ → String

/-- What `accept_leaf` returns. -/
inductive AcceptResult (τ : Type) where
  | accepted (contribBranch : String) (marker subsystem : Commit τ) (default : String)
  | failed (status contribBranch : String) (detail : Option String)

def AcceptResult.ok {τ : Type} : AcceptResult τ → Bool
  | .accepted .. => true
  | .failed .. => false

section Commands

variable {τ : Type}

def Repo.branchExists (repo : Repo τ) (branch : String) : Bool := (repo.refs branch).isSome

def Repo.setRef (repo : Repo τ) (branch : String) (tip : Option (Commit τ)) : Repo τ :=
  { repo with refs := Function.update repo.refs branch tip }

/-- Git programs raise `RuntimeError` with a text. -/
abbrev GitM (τ α : Type) := Stateful (Repo τ) String α

def defaultBranch (repo : Repo τ) : Except String String :=
  if (repo.originHead.getD "").startsWith "origin/" then .ok (repo.originHead.getD "")
  else match ["main", "master"].find? repo.branchExists with
  | some branch => .ok branch
  | none =>
    if repo.head ≠ "" then .ok repo.head
    else .error "could not determine repository default branch"

/-- `text.removeprefix(front)`. -/
def removePrefix (front text : String) : String :=
  String.ofList (Text.removePrefix front.toList text.toList)

def localDefaultBranch (repo : Repo τ) : Except String String := do
  let default := removePrefix "refs/heads/" (← defaultBranch repo)
  let stripped := removePrefix "origin/" default
  let default := if default.startsWith "origin/" ∧ repo.branchExists stripped then stripped else default
  if repo.branchExists default then return default
  else throw ("local default branch is missing: " ++ default)

variable (o : Outcomes τ)

/-- `_git_required` on a command, before its effect. -/
def required (call : GitCall) : GitM τ Unit :=
  if o.succeeds call then pure () else throw (o.stderr call)

/-- `_branch_worktree`; the result of `git worktree remove` is ignored. -/
def branchWorktree {α : Type} (add : GitCall) (body : GitM τ α) : GitM τ α := do
  required o add
  Stateful.finallyDo body (pure ())

/-- The commit `git commit --allow-empty` puts on a tip. -/
def markerOn (tip : Commit τ) : Commit τ := .mk tip.tree [tip] acceptanceMessage

/-- `git checkout branch` and `git commit --allow-empty` on it. -/
def Repo.commitMarker (repo : Repo τ) : Repo τ :=
  repo.setRef repo.head ((repo.refs repo.head).map markerOn)

/-- `head_sha` of a ref, or `git rev-parse`; `missing` is raised without one. -/
def tipOf (call : GitCall) (branch missing : String) : GitM τ (Commit τ) := do
  required o call
  match (← get).refs branch with
  | some tip => return tip
  | none => throw missing

/-- `commit_empty` with the acceptance marker. -/
def commitEmpty (branch : String) : GitM τ (Commit τ) := do
  let original := (← get).head
  Stateful.finallyDo
    (do
      required o .checkoutContrib
      modify fun repo => { repo with head := branch }
      required o .commitMarker
      modify Repo.commitMarker
      tipOf o .revParse branch "git command failed")
    (if original ≠ "" then do
      required o .checkoutBack
      modify fun repo => { repo with head := original }
    else pure ())

end Commands

section Accept

variable {τ : Type} [DecidableEq τ] (o : Outcomes τ)

/-- The tip a branch has after `git merge --no-ff` of a commit. -/
def mergeTip (contribBranch : String) (marker tip : Commit τ) : Commit τ :=
  if Commit.IsAncestor marker tip then tip
  else .mk o.mergeTree [tip, marker] ("subsystem: accept " ++ contribBranch)

/-- The tip a branch has after `git merge --ff-only` of a descendant. -/
def fastForwardTip (commit tip : Commit τ) : Commit τ :=
  if Commit.IsAncestor commit tip then tip else commit

def fastForwardBranch (branch : String) (commit : Commit τ) : GitM τ Unit := do
  let repo ← get
  match repo.refs branch with
  | none => throw (branch ++ " cannot fast-forward to " ++ o.oid commit)
  | some tip =>
    if o.succeeds .isAncestor ∧ Commit.IsAncestor tip commit then
      let forward : GitM τ Unit := do
        required o .fastForward
        modify fun repo => repo.setRef branch (some (fastForwardTip commit tip))
      if repo.head = branch then forward else branchWorktree o .addDefaultWorktree forward
    else throw (branch ++ " cannot fast-forward to " ++ o.oid commit)

/-- The `git branch` that creates the subsystem branch where there is none. -/
def ensureSubsystem (default : String) : GitM τ Unit := do
  let repo ← get
  if repo.branchExists subsystemBranch then pure ()
  else do
    required o .createSubsystem
    modify fun repo => repo.setRef subsystemBranch (repo.refs default)

def integrate (contribBranch default : String) (marker : Commit τ) : GitM τ (AcceptResult τ) := do
  ensureSubsystem o default
  let subsystem ← branchWorktree o .addSubsystemWorktree do
    required o .mergeMarker
    modify fun repo => repo.setRef subsystemBranch
      ((repo.refs subsystemBranch).map (mergeTip o contribBranch marker))
    tipOf o .readSubsystem subsystemBranch ("Git ref has no commit: " ++ subsystemBranch)
  fastForwardBranch o default subsystem
  return .accepted contribBranch marker subsystem default

def acceptLeafUnguarded (contribBranch : String) : GitM τ (AcceptResult τ) := do
  let repo ← get
  if repo.branchExists contribBranch then
    match localDefaultBranch repo with
    | .error detail => throw detail
    | .ok default =>
      let marker ← commitEmpty o contribBranch
      integrate o contribBranch default marker
  else return .failed "contrib_branch_missing" contribBranch none

def acceptLeaf (contribBranch : String) (repo : Repo τ) : AcceptResult τ × Repo τ :=
  match Stateful.exec (acceptLeafUnguarded o contribBranch) repo with
  | (.ok result, repo') => (result, repo')
  | (.error detail, repo') => (.failed "git_error" contribBranch (some detail), repo')

end Accept

end Subsystem

end AiOrg
