import AiOrg.Git.History
import AiOrg.Reform.Experience

/-!
# What pull selects

With an empty inbox, `pull` looks at the patch series one after the other: first for one that its author is to
revise, then for one that is to be reviewed. Where a series stands is read from the subjects of all commits that
its branch reaches, from its review rounds and from its experience reports.
-/

namespace AiOrg

namespace Patchwork

open Git (History subjectLines)
open Reform (ExperienceCodec)

/-- A file in the directory of the rounds: the number in its name and the record that its body is read as, where
they can be read. -/
structure RoundFile where
  number : Option ℤ
  record : Option Fields

/-- What `pull` reads of a repository. `default` is what `default_branch` returns, and `legacyRounds` are the
numbers of the records of a series outside of git. -/
structure Repository (ι : Type) where
  history : History ι
  subject : ι → String
  tips : List (String × ι)
  default : String
  rounds : ι → List RoundFile
  legacyRounds : String → List ℤ
  experience : ι → Review.Branch

def needsRevisionMarker : String := "patch_series: needs-revision round "

def directionOkMarker : String := "patch_series: direction-ok"

def nakMarker : String := "patch_series: nak"

def versionMarker : String := "patch_series v"

/-- `marker in line`. -/
def mentions (marker : String) (line : List Char) : Bool := marker.toList <:+: line

/-- `line.startswith(marker)`. -/
def startsWith (marker : String) (line : List Char) : Bool := marker.toList.isPrefixOf line

/-- The first line that decides the loop of `_is_terminal_patch_series`. -/
def terminalLine (line : List Char) : Option Bool :=
  if mentions needsRevisionMarker line then some false
  else if startsWith versionMarker line then some false
  else if mentions directionOkMarker line then some true
  else none

/-- The first line that decides `_latest_needs_revision_is_head`. -/
def revisionLine (line : List Char) : Option Bool :=
  if mentions directionOkMarker line || mentions nakMarker line then some false
  else if mentions needsRevisionMarker line then some true
  else if startsWith versionMarker line then some false
  else none

/-- The first decision in a loop over lines, which returns `False` without one. -/
def firstDecision (decide : List Char → Option Bool) (lines : List (List Char)) : Bool :=
  (lines.findSome? decide).getD false

section Repository

variable {ι : Type} [DecidableEq ι] (repo : Repository ι)

def Repository.tip (ref : String) : Option ι := repo.tips.lookup ref

def log_subjects (ref : String) : List (List Char) :=
  match repo.tip ref with
  | some tip => subjectLines ((repo.history.log tip).map repo.subject)
  | none => []

def has_subject (ref marker : String) : Bool := (log_subjects repo ref).any (mentions marker)

def is_ancestor (ref other : String) : Bool :=
  match repo.tip ref, repo.tip other with
  | some a, some b => a ∈ repo.history.log b
  | _, _ => false

/-- A branch that the default branch reaches. -/
def merged (branch : String) : Bool := branch ≠ repo.default && is_ancestor repo branch repo.default

def _is_terminal_patch_series (branch : String) : Bool :=
  if has_subject repo branch nakMarker then true
  else if merged repo branch then true
  else firstDecision terminalLine (log_subjects repo branch)

def _latest_needs_revision_is_head (branch : String) : Bool :=
  firstDecision revisionLine (log_subjects repo branch)

/-- The numbers of the committed rounds that can be read. -/
def roundNumbers (branch : String) : List ℤ :=
  match repo.tip branch with
  | some tip => (repo.rounds tip).filterMap fun file => file.record.bind fun _ => file.number
  | none => []

/-- `_has_review_round_record`, and `none` where it raises: the records are sorted with their numbers, and two
records cannot be compared. -/
def _has_review_round_record (branch : String) : Option Bool :=
  let numbers := roundNumbers repo branch
  if numbers.Nodup then some (!numbers.isEmpty || !(repo.legacyRounds branch).isEmpty) else none

variable (codec : ExperienceCodec)

def implementation_experience_pending (branch : String) : Option Bool :=
  match repo.tip branch with
  | some tip => (Reform._unprocessed_experience_reports codec (repo.experience tip)).map fun reports =>
      !reports.isEmpty
  | none => some false

def WORK_ORDER_PREFIX : String := "ai-org/patch-series/"

/-- The branches of the loops, in their order. -/
def seriesBranches : List String :=
  sorted ((repo.tips.map Prod.fst).filter fun branch => startsWith WORK_ORDER_PREFIX branch.toList)

/-- What a loop came to. -/
inductive Selected
  | authorRevision (branch : String)
  | review (branch : String)
  deriving DecidableEq, Repr

/-- Whether the first loop selects a branch, and `none` where it raises. -/
def revisable (branch : String) : Option Bool :=
  if _is_terminal_patch_series repo branch then some false
  else
    match implementation_experience_pending repo codec branch with
    | none => none
    | some pending =>
      if _latest_needs_revision_is_head repo branch || pending then _has_review_round_record repo branch
      else some false

/-- Whether the second loop selects a branch. -/
def reviewable (branch : String) : Bool :=
  !_is_terminal_patch_series repo branch && !_latest_needs_revision_is_head repo branch

def firstRevisable : List String → Option (Option String)
  | [] => some none
  | branch :: branches =>
    match revisable repo codec branch with
    | none => none
    | some true => some (some branch)
    | some false => firstRevisable branches

/-- The two loops of `pull` over the series, `none` where they raise. -/
def pull : Option (Option Selected) :=
  match firstRevisable repo codec (seriesBranches repo) with
  | none => none
  | some (some branch) => some (some (.authorRevision branch))
  | some none => some (((seriesBranches repo).find? (reviewable repo)).map .review)

end Repository

end Patchwork

end AiOrg

/-!
## Open work

Why discovery takes no address of a series for open work, as far as the series itself goes.
-/

namespace AiOrg

namespace Patchwork

variable {ι : Type} [DecidableEq ι]

/-- The reasons of `_series_rows` that come from the frozen tip, with the ref of the default branch where there is
one. -/
def series_reasons (repo : Repository ι) (frozen_ref : String) (default : Option String) : List String :=
  (if has_subject repo frozen_ref directionOkMarker then [] else ["not_direction_ok"]) ++
    (if has_subject repo frozen_ref nakMarker then ["nak"] else []) ++
    (if default.any fun default => is_ancestor repo frozen_ref default then ["merged_into_default"] else [])

theorem not_direction_ok_mem {repo : Repository ι} {ref : String} {default : Option String} :
    "not_direction_ok" ∈ series_reasons repo ref default ↔ has_subject repo ref directionOkMarker = false := by
  simp [series_reasons]

theorem nak_mem {repo : Repository ι} {ref : String} {default : Option String} :
    "nak" ∈ series_reasons repo ref default ↔ has_subject repo ref nakMarker = true := by
  simp [series_reasons]

end Patchwork

end AiOrg
