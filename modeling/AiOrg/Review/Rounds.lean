import AiOrg.Review.Records
import AiOrg.Review.Assumptions

/-!
# Rounds of a series

`_run_patch_series_review` numbers a round after the records that it reads back, hears the series, and commits the
record of the round. From as many records on as the cap says, a round that would ask for a revision ends in a nak.
-/

namespace AiOrg

namespace Review

def round_record_path (number : ℕ) : String :=
  reviewRecordDir ++ "/round-" ++ Reform.padded number ++ "-direction-review-record.cue"

def _max_review_rounds (raw : Option String) : ℕ :=
  match raw with
  | none => 5
  | some raw =>
    match Text.pyInt raw.toList with
    | none => 5
    | some value => max value.toNat 1

def ObjectionType.text : ObjectionType → String
  | .blocking => "blocking"
  | .clarification => "clarification"
  | .nonblockingSuggestion => "nonblocking_suggestion"
  | .styleDefer => "style_defer"

def Authority.text : Authority → String
  | .author => "author"
  | .requester => "requester"

def Status.text : Status → String
  | .opened => "open"
  | .deferralAccepted => "deferral_accepted"
  | .deferralRejected => "deferral_rejected"
  | .assumptionRecorded => "assumption_recorded"
  | .superseded => "superseded"
  | .carriedForward => "carried-forward"

def RoundVerdict.text : RoundVerdict → String
  | .directionOk => "direction-ok"
  | .needsRevision => "needs_revision"
  | .nak => "nak"

/-- What `_objection_record` writes of an objection for later rounds. -/
def _objection_record (objection : Objection) : Json :=
  .obj [("objection_id", .str objection.objectionId), ("type", .str objection.type.text),
    ("resolution_authority", .str objection.resolutionAuthority.text), ("status", .str objection.status.text)]

section Backstop

variable (py : PyLib)

/-- The identifier of an objection that a record still holds against the series. -/
def openBlockingId : Json → Option String
  | .obj objection =>
    if Fields.get objection "type" = .str "blocking" ∧ Fields.get objection "resolution_authority" ≠ .str "requester" ∧
        (Fields.get objection "status" = .str "open" ∨ Fields.get objection "status" = .str "carried-forward") then
      some (py.str (Fields.get objection "objection_id"))
    else none
  | _ => none

/-- An entry of the history, which raises where the objections of the record cannot be gone through. -/
def historyEntry (item : Fields) : Except String Json :=
  match (item.getD "objections" (.arr [])).iter with
  | none => .error "object is not iterable"
  | some objections =>
    .ok (.obj [("round", item.get "round"), ("verdict", item.get "verdict"),
      ("open_blocking_objection_ids", .arr ((objections.filterMap (openBlockingId py)).map Json.str))])

/-- `_bounded_rounds_terminal_context` with the records there are: the history, in a terminal round. -/
def _bounded_rounds_terminal_context (cap : ℕ) (previous : List Fields) : Except String (Option (List Json)) :=
  if previous.length < cap then .ok none else (previous.mapM (historyEntry py)).map some

def converted (terminal : Bool) (verdict : RoundVerdict) : Bool := terminal && verdict = .needsRevision

end Backstop

/-- The root of the series as a round finds it: its lifecycle is closed, its cover or its tree cannot be used, or it
can be heard. -/
inductive Root where
  | closed (disposition : String)
  | unusable (reason : String)
  | ready (view : CoverView) (approach : Json)

/-- What comes from outside in a round: the root, what the reviewers raise, what the consolidator replies, the
deferrals that the author proposed, and what else is written into the record. -/
structure Hearing where
  root : Root
  raised : List Objection
  reply : Reply
  proposals : List String
  rest : Fields

structure Returned where
  number : ℕ
  prior : ℕ
  verdict : RoundVerdict
  deriving DecidableEq, Repr

section Round

variable (parse : String → Option Fields) (emit : Fields → Option String) (py : PyLib) (truncate : String → Option ℤ)
  (directory : String)

def _next_round_number (records : List Fields) : ℕ :=
  (((records.map (_review_round_number truncate)).filter (0 < ·)).foldl max 0).toNat + 1

/-- The verdict that a hearing comes to, before the backstop, and the objections it leaves. -/
def judge (hearing : Hearing) (view : CoverView) (approach : Json) : Except String (RoundVerdict × List Objection) :=
  let consolidation := _aufheben_consolidate py hearing.reply hearing.raised
  let objections := finalObjections py consolidation hearing.raised
  match bookkeeping py view approach hearing.proposals consolidation objections with
  | .error _ => .error "requester assumptions are not JSON"
  | .ok round => .ok (round.verdict, round.objections)

/-- `_process_objection("input-contract", reason)`. -/
def inputObjection (reason : String) : Objection where
  objectionId := "input-contract:review-process"
  anchorNodeIds := ["problem"]
  axis := "need"
  type := .blocking
  claim := if reason = "" then "Review process failed closed." else reason
  evidence := [⟨"repo_fact", if reason = "" then "review process failed" else reason, []⟩]
  impact := "The direction review cannot be trusted until this review record is corrected."
  requestedAuthorAction := .reExplain
  resolutionAuthority := .author
  status := .opened
  reviewerConfidence := ""
  reviewedScope := ""

def roundRecord (cap : ℕ) (hearing : Hearing) (number : ℕ) (verdict : RoundVerdict) (objections : List Objection)
    (history : Option (List Json)) : Fields :=
  [("round", .int number), ("objections", .arr (objections.map _objection_record)), ("verdict", .str verdict.text)] ++
    hearing.rest ++
    match history with
    | none => []
    | some history =>
      [("bounded_rounds_backstop", .obj
        [("max_rounds", .int cap),
          ("divergence", .str "Kernel practice has no fixed cap; AI Org adds this runaway backstop."),
          ("history", .arr history), ("terminal_round_reviewed", .bool true)])]

def RoundFiles.write (files : RoundFiles) (path text : String) : RoundFiles where
  tree := assign path text files.tree
  offGit := files.offGit
  distinct := by
    rw [keys_assign]
    split_ifs with hmem
    · exact files.distinct
    · rw [← List.concat_eq_append]
      exact files.distinct.concat hmem

/-- A call of `_run_patch_series_review`: what a round returns with the files after it, or the disposition of a closed
root, which records nothing. -/
def _run_patch_series_review (cap : ℕ) (files : RoundFiles) (hearing : Hearing) :
    Except String (String ⊕ Returned × RoundFiles) := do
  let records ← _review_round_records parse py directory files
  let number := _next_round_number truncate records
  let terminal ← _bounded_rounds_terminal_context py cap records
  let commit := fun (verdict : RoundVerdict) (record : Fields) =>
    match emit record with
    | none => Except.error "the record is not canonical"
    | some text =>
      Except.ok (Sum.inr (⟨number, records.length, verdict⟩, files.write (round_record_path number) text))
  match hearing.root with
  | .closed disposition => return .inl disposition
  | .unusable reason => commit .nak (roundRecord cap hearing number .nak [inputObjection reason] none)
  | .ready view approach => do
    let (derived, objections) ← judge py hearing view approach
    let backstop := converted terminal.isSome derived
    let verdict := if backstop then .nak else derived
    commit verdict (roundRecord cap hearing number verdict objections (if backstop then terminal else none))

/-- The record that a round committed is read back by the next one, under its round, and its number can be printed. -/
structure Readable (returned : Returned) (files : RoundFiles) : Prop where
  printed : (toString returned.number).length ≤ 4300
  read : ∃ parsed, read_record parse files (round_record_path returned.number) = some parsed ∧
    parsed.get "round" = .int returned.number

/-- Rounds from a series without round records on, each of which leaves a readable record. Calls on a closed root
and calls that raise leave the files as they are. -/
inductive Rounds (cap : ℕ) (start : RoundFiles) : List Returned → RoundFiles → Prop
  | start : Rounds cap start [] start
  | round {returned : List Returned} {files files' : RoundFiles} {hearing : Hearing} {last : Returned} :
      Rounds cap start returned files →
      _run_patch_series_review parse emit py truncate directory cap files hearing = .ok (.inr (last, files')) →
      Readable parse last files' → Rounds cap start (returned ++ [last]) files'

end Round

end Review

end AiOrg
