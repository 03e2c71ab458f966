import AiOrg.Patchwork.Pull
import AiOrg.Subsystem.AcceptLeaf

/-!
# Integration of contributions

`pull` goes over the contribution branches and passes the first one that it takes for accepted on to
`review_and_integrate`, which merges what the branch has come to by then. Contributions of the migrated generation
are merged at the commit that the acceptance authority sealed, those of the historical one by their branch. Any
number of pulls run among judges, acceptances and moves of any refs.
-/

namespace AiOrg

namespace Subsystem

open Git

def isGitSpace (c : Char) : Bool := c = ' ' || c = '\t' || c = '\n' || c = '\r'

/-- `%s`: the first paragraph of a message on one line. -/
def subjectOf (message : String) : String :=
  let lines := (message.toList.splitOn '\n').map (List.rdropWhile isGitSpace)
  String.ofList ([' '].intercalate ((lines.dropWhile List.isEmpty).takeWhile fun line => !line.isEmpty))

def reachableSubject : String := "acceptance: reachable"

def blockedSubject : String := "acceptance: blocked"

section Model

variable {τ : Type}

def has_subject (tip : Commit τ) (marker : String) : Bool :=
  tip.history.any fun c => (subjectLines [subjectOf c.message]).any (Patchwork.mentions marker)

def contribPrefix : String := "ai-org/contrib/"

def isContrib (branch : String) : Bool := Patchwork.startsWith contribPrefix branch.toList

def authorityNotesRef : String := "refs/notes/ai-org/acceptance-authority"

/-- What the evidence of a contribution says, which is read at its tip and at what that names: whether the tip is of
the migrated generation, whether a verdict is sealed as reachable for a branch under a tip of the notes, the branch
that a sealed verdict is bound to, whether a verdict is linked from the integrated commits, and whether the root of
a historical contribution is closed. -/
structure Evidence (τ : Type) where
  is_migrated_tree : Commit τ → Except String Bool
  sealed_verdict_accepted : Commit τ → Commit τ → String → Bool
  sealed_contribution_from_verdict : Commit τ → Commit τ → Except String String
  has_verified_link : Refs τ → Commit τ → Bool
  root_generation_blocker : Refs τ → String → Bool

/-- A published merge: the branch, the tip that was merged, and for the migrated generation the notes that sealed
it. -/
structure Merge (τ : Type) where
  branch : String
  tip : Commit τ
  notes : Option (Commit τ)

/-- Where a pull is. A historical contribution is reviewed by its branch, a migrated one at its sealed verdict, with
the tips that its publication expects. -/
inductive Phase (τ : Type) where
  | idle
  | scanning (branches : List String)
  | selected (branch : String)
  | reviewing (branch base : String)
  | sealedReview (branch : String) (verdict notes : Commit τ) (subsystem : Option (Commit τ)) (base : String)
      (baseTip : Option (Commit τ))

/-- The repository, the markers that were put on branches, the merges that were published, and the pulls. -/
structure State (π τ : Type) where
  repo : Repo τ
  markers : List (String × Commit τ)
  merges : List (Merge τ)
  phase : π → Phase τ

/-- What happens: any ref moves to any commit, another branch is checked out, the judge commits a verdict on a
branch, a leaf is accepted, and the steps of the pulls. -/
inductive Event (π τ : Type) where
  | move (ref : String) (target : Option (Commit τ))
  | checkout (head : String)
  | judge (branch : String) (reachable : Bool) (body : String)
  | acceptLeaf (o : Outcomes τ) (branch : String)
  | start (p : π) (names : List String)
  | look (p : π)
  | review (p : π)
  | giveUp (p : π)
  | merge (p : π) (tree : τ)
  | publish (p : π) (tree : τ) (message : String)

/-- `sorted(branches(repo, "ai-org/contrib/*"))`. -/
def contribBranches (names : List String) : List String := sorted (names.filter isContrib)

inductive Looked
  | skip
  | stop
  | select
  deriving DecidableEq

/-- `maintainer_merge._default_branch`, and `none` where it raises. -/
def _default_branch (repo : Repo τ) : Option String :=
  if (repo.originHead.getD "").startsWith "origin/" then some (repo.originHead.getD "")
  else if repo.head ≠ "" then some repo.head
  else none

def verdictOn (reachable : Bool) (body : String) (tip : Commit τ) : Commit τ :=
  .mk tip.tree [tip] (if reachable then reachableSubject else blockedSubject ++ "\n\n" ++ body)

variable [DecidableEq τ] (ev : Evidence τ)

/-- The body of the loop of `pull`. -/
def look (refs : Refs τ) (branch : String) : Looked :=
  match refs branch with
  | none => .skip
  | some tip =>
    if has_subject tip reachableSubject then
      match ev.is_migrated_tree tip with
      | .error _ => .stop
      | .ok true => if ev.has_verified_link refs tip then .skip else .select
      | .ok false =>
        if ev.root_generation_blocker refs branch then .stop
        else if (refs subsystemBranch).any fun subsystem => decide (Commit.IsAncestor tip subsystem) then .skip
        else .select
    else .skip

/-- `sealed_contribution`: the verdict and the notes. -/
def sealed_contribution (refs : Refs τ) (branch : String) : Except String (Commit τ × Commit τ) :=
  match refs branch, refs authorityNotesRef with
  | some verdict, some notes =>
    if ev.sealed_verdict_accepted verdict notes branch then
      match ev.sealed_contribution_from_verdict verdict notes with
      | .error reason => .error reason
      | .ok contribution =>
        if contribution = branch then .ok (verdict, notes)
        else .error "sealed verdict belongs to a different contribution ref"
    else .error "current contribution tip is not sealed by acceptance authority"
  | _, _ => .error "current contribution tip is not sealed by acceptance authority"

/-- `review_and_integrate` up to the judgment. -/
def reviewed (repo : Repo τ) (branch : String) : Phase τ :=
  match _default_branch repo with
  | none => .idle
  | some base =>
    match (repo.refs branch).map ev.is_migrated_tree with
    | none => .idle
    | some (.error _) => .idle
    | some (.ok false) => .reviewing branch base
    | some (.ok true) =>
      match sealed_contribution ev repo.refs branch with
      | .error _ => .idle
      | .ok (verdict, notes) =>
        if (repo.refs base).isSome then
          .sealedReview branch verdict notes (repo.refs subsystemBranch) base (repo.refs base)
        else .idle

variable {π : Type} [DecidableEq π]

def State.setPhase (s : State π τ) (p : π) (phase : Phase τ) : State π τ :=
  { s with phase := Function.update s.phase p phase }

/-- What one look of a pull at the branch it has come to does. -/
def State.looked (s : State π τ) (p : π) (branch : String) (branches : List String) : State π τ :=
  match look ev s.repo.refs branch with
  | .skip => s.setPhase p (.scanning branches)
  | .stop => s.setPhase p .idle
  | .select => s.setPhase p (.selected branch)

/-- The subsystem branch, which starts on the base where there is none. -/
def ensured (repo : Repo τ) (base : String) : Repo τ :=
  if repo.branchExists subsystemBranch then repo else repo.setRef subsystemBranch (repo.refs base)

def State.mergeBranch (s : State π τ) (p : π) (tree : τ) (branch base : String) : State π τ :=
  let repo := ensured s.repo base
  match repo.refs branch, repo.refs subsystemBranch with
  | some tip, some subsystem =>
    let merged := if Commit.IsAncestor tip subsystem then subsystem
      else .mk tree [subsystem, tip] ("subsystem: merge " ++ branch)
    { (s.setPhase p .idle) with
      repo := repo.setRef subsystemBranch (some merged), merges := ⟨branch, tip, none⟩ :: s.merges }
  | _, _ => { (s.setPhase p .idle) with repo := repo }

/-- `publish_prepared_integration_commit`: every ref that was read still has the tip that was read. -/
def unmoved (repo : Repo τ) (branch : String) (verdict notes : Commit τ) (subsystem : Option (Commit τ))
    (base : String) (baseTip : Option (Commit τ)) : Bool :=
  repo.refs subsystemBranch = subsystem && repo.refs branch = some verdict &&
    repo.refs authorityNotesRef = some notes &&
    (subsystem.isSome || base.startsWith "origin/" || repo.refs base = baseTip)

def State.publishSealed (s : State π τ) (p : π) (tree : τ) (message branch : String) (verdict notes : Commit τ)
    (subsystem : Option (Commit τ)) (base : String) (baseTip : Option (Commit τ)) : State π τ :=
  match subsystem <|> baseTip with
  | some parent =>
    if unmoved s.repo branch verdict notes subsystem base baseTip then
      { (s.setPhase p .idle) with
        repo := s.repo.setRef subsystemBranch (some (.mk tree [parent] message))
        merges := ⟨branch, verdict, some notes⟩ :: s.merges }
    else s.setPhase p .idle
  | none => s.setPhase p .idle

/-- The judge commits its verdict on the tip that it judged. -/
def State.judged (s : State π τ) (branch : String) (reachable : Bool) (body : String) : State π τ :=
  match s.repo.refs branch with
  | none => s
  | some tip =>
    { s with
      repo := s.repo.setRef branch (some (verdictOn reachable body tip))
      markers := if reachable then (branch, verdictOn reachable body tip) :: s.markers else s.markers }

/-- `accept_leaf`, whose marker counts where it was committed. -/
def State.leafAccepted (s : State π τ) (o : Outcomes τ) (branch : String) : State π τ :=
  let repo := (Subsystem.acceptLeaf o branch s.repo).2
  match (s.repo.refs branch).map markerOn with
  | none => { s with repo := repo }
  | some marker =>
    { s with
      repo := repo
      markers := if repo.refs branch = some marker then (branch, marker) :: s.markers else s.markers }

/-- An event that is not possible leaves the state as it is. -/
def State.step (s : State π τ) : Event π τ → State π τ
  | .move ref target => { s with repo := s.repo.setRef ref target }
  | .checkout head => { s with repo := { s.repo with head := head } }
  | .judge branch reachable body => s.judged branch reachable body
  | .acceptLeaf o branch => s.leafAccepted o branch
  | .start p names =>
    match s.phase p with
    | .idle => s.setPhase p (.scanning (contribBranches names))
    | _ => s
  | .look p =>
    match s.phase p with
    | .scanning (branch :: branches) => s.looked ev p branch branches
    | .scanning [] => s.setPhase p .idle
    | _ => s
  | .review p =>
    match s.phase p with
    | .selected branch => s.setPhase p (reviewed ev s.repo branch)
    | _ => s
  | .giveUp p => s.setPhase p .idle
  | .merge p tree =>
    match s.phase p with
    | .reviewing branch base => s.mergeBranch p tree branch base
    | _ => s
  | .publish p tree message =>
    match s.phase p with
    | .sealedReview branch verdict notes subsystem base baseTip =>
      s.publishSealed p tree message branch verdict notes subsystem base baseTip
    | _ => s

def State.run (s : State π τ) (events : List (Event π τ)) : State π τ := events.foldl (State.step ev) s

end Model

end Subsystem

end AiOrg
