import AiOrg.Order.First
import AiOrg.Python.Lines

/-!
# Review rounds

The objections that the axes of a review raise, how they are merged and consolidated, and the verdict
that follows from them.
-/

namespace AiOrg

namespace Review

inductive ObjectionType
  | blocking | clarification | nonblockingSuggestion | styleDefer
  deriving DecidableEq, Repr

inductive AuthorAction
  | reExplain | provideEvidence | reviseSubtree | splitScope | withdraw
  deriving DecidableEq, Repr

/-- `RESOLUTION_AUTHORITIES`. -/
inductive Authority
  | author | requester
  deriving DecidableEq, Repr

inductive Status
  | opened | deferralAccepted | deferralRejected | assumptionRecorded | superseded | carriedForward
  deriving DecidableEq, Repr

inductive AxisVerdict
  | directionReviewedBy | objectionsPending
  deriving DecidableEq, Repr

inductive RoundVerdict
  | directionOk | needsRevision | nak
  deriving DecidableEq, Repr

structure Evidence where
  sourceType : String
  citation : String
  consultedTerms : List String
  deriving DecidableEq, Repr

structure Objection where
  objectionId : String
  anchorNodeIds : List String
  axis : String
  type : ObjectionType
  claim : String
  evidence : List Evidence
  impact : String
  requestedAuthorAction : AuthorAction
  resolutionAuthority : Authority
  status : Status
  reviewerConfidence : String
  reviewedScope : String
  deriving DecidableEq, Repr

/-- `status == "open" and type == "blocking"`. -/
def Objection.openBlocking (objection : Objection) : Bool :=
  objection.status = .opened && objection.type = .blocking

/-- `AxisReview`, without the consultations. -/
structure AxisReview where
  axis : String
  verdict : AxisVerdict
  objections : List Objection
  attempts : ℕ
  validationErrors : List String
  deriving DecidableEq, Repr

/-- `Consolidation`, without the contradictions. -/
structure Consolidation where
  verdict : RoundVerdict
  summary : String
  deduplicatedObjections : List Objection
  nakReason : String
  evidence : List Evidence
  validationErrors : List String
  deriving DecidableEq, Repr

section Merging

variable (py : PyLib)

/-- What two objections are the same by: the anchors in order and the claim with its words only. -/
def mergeKey (objection : Objection) : List String × List Char :=
  (objection.anchorNodeIds.insertionSort (· ≤ ·),
    [' '].intercalate (Text.splitWords (py.lower objection.claim).toList))

def _dedupe_objections (objections : List Objection) : List Objection :=
  Selection.firsts (mergeKey py) [] objections

def _review_dimension_sharded {σ : Type} (key : String) (reviewOne : Option σ → AxisReview)
    (shards : List σ) : AxisReview :=
  if shards.isEmpty then reviewOne none
  else
    let axes := shards.map fun shard => reviewOne (some shard)
    { axis := key
      verdict := if axes.any (·.verdict ≠ .directionReviewedBy) then .objectionsPending
        else .directionReviewedBy
      objections := _dedupe_objections py (axes.flatMap (·.objections))
      attempts := (axes.map (·.attempts)).sum
      validationErrors := axes.flatMap (·.validationErrors) }

/-- What the consolidator comes back with: it failed, its output has errors, or it is a consolidation. -/
inductive Reply
  | failed (error : String)
  | invalid (errors : List String)
  | parsed (consolidation : Consolidation)
  deriving DecidableEq, Repr

/-- The consolidation that is used where there is none from the consolidator. -/
def deterministicConsolidation (summary : String) (errors : List String)
    (objections : List Objection) : Consolidation :=
  let deduped := _dedupe_objections py objections
  { verdict := if deduped.any (·.type = .blocking) then .needsRevision else .directionOk
    summary := summary
    deduplicatedObjections := deduped
    nakReason := ""
    evidence := []
    validationErrors := errors }

def _aufheben_consolidate (reply : Reply) (objections : List Objection) : Consolidation :=
  match reply with
  | .failed error => deterministicConsolidation py
      ("Aufheben failed validation and deterministic consolidation was used: " ++ error) [error]
      objections
  | .invalid errors => deterministicConsolidation py
      "Aufheben output failed validation and deterministic consolidation was used." errors objections
  | .parsed consolidation => consolidation

/-- The objections of a round, from those of the axes. -/
def finalObjections (consolidation : Consolidation) (raw : List Objection) : List Objection :=
  _dedupe_objections py
    (if consolidation.deduplicatedObjections.isEmpty then raw
      else consolidation.deduplicatedObjections)

end Merging

def _nak_rests_solely_on_requester_authority (objections : List Objection) : Bool :=
  !objections.isEmpty && objections.all (·.resolutionAuthority = .requester)

def _nak_rests_solely_on_superseded (objections : List Objection) : Bool :=
  !objections.isEmpty && objections.all (·.status = .superseded)

/-- The consolidator gave a reason and evidence for its nak. -/
def Consolidation.evidencedNak (consolidation : Consolidation) : Bool :=
  consolidation.verdict = .nak && pyStrip consolidation.nakReason ≠ "" &&
    !consolidation.evidence.isEmpty

def _derive_verdict (consolidation : Consolidation) (objections : List Objection) : RoundVerdict :=
  if consolidation.evidencedNak && !_nak_rests_solely_on_requester_authority objections &&
      !_nak_rests_solely_on_superseded objections then .nak
  else if objections.any (·.openBlocking) then .needsRevision
  else .directionOk

end Review

end AiOrg
