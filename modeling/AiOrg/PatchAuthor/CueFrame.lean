import AiOrg.Python.JsonPlain
import AiOrg.Python.Lines
import AiOrg.Python.Runs

/-!
# Frames of plan items

The worker of a plan item writes a frame and two states into the directory of the item, and `_run_cue_frame_validation`
reads them back: they are there, the frame has its definitions, the states are JSON objects, and `cue vet` accepts the
one and refuses the other.
-/

namespace AiOrg

namespace CodeWorker

/-- A path as the system resolves it. -/
abbrev Path := List (List Char)

/-- The files of a worktree. -/
abbrev Worktree := Path → Option Bytes

/-- Whether a character stays in the name of a directory: `[A-Za-z0-9._-]`. -/
def isNameChar (c : Char) : Bool :=
  ('A' ≤ c && c ≤ 'Z') || ('a' ≤ c && c ≤ 'z') || ('0' ≤ c && c ≤ '9') || c == '.' || c == '_' || c == '-'

/-- `re.sub(r"-+", "-", re.sub(r"[^A-Za-z0-9._-]", "-", item_id))`. -/
def safe_item_id (item_id : String) : List Char :=
  Runs.squeeze '-' (item_id.toList.map fun c => if isNameChar c then c else '-')

def _cue_dir (item_id : String) : List Char := "ai-org/implementation-cue".toList ++ '/' :: safe_item_id item_id

/-- One component of a path: an empty one and `.` stay where they are, `..` goes up. -/
def enter (path : Path) (component : List Char) : Path :=
  if component = [] ∨ component = ['.'] then path else if component = ['.', '.'] then path.dropLast else path ++ [component]

/-- A path below the worktree. -/
def resolve (path : List Char) : Path := (path.splitOn '/').foldl enter []

def framePath (item_id : String) : List Char := _cue_dir item_id ++ '/' :: "frame.cue".toList

def positivePath (item_id : String) : List Char := _cue_dir item_id ++ '/' :: "real-states/positive.json".toList

def negativePath (item_id : String) : List Char := _cue_dir item_id ++ '/' :: "real-states/negative.json".toList

structure Failure where
  type : String
  detail : String
  deriving DecidableEq, Repr

/-- What the validation asks of its surroundings: the `json` module, the class `\w`, and `cue vet` on two files, which is
`none` where there is no such program and an error where it cannot be started. -/
structure Toolchain where
  py : PyLib
  isWord : Char → Bool
  vet : Option (List Char → List Char → Worktree → Except String (ℤ × String))

def universalNewlines : List Char → List Char
  | [] => []
  | '\r' :: '\n' :: rest => '\n' :: universalNewlines rest
  | '\r' :: rest => '\n' :: universalNewlines rest
  | c :: rest => c :: universalNewlines rest

/-- `path.read_text(encoding="utf-8")` of a file that is there. -/
def read_text (worktree : Worktree) (path : List Char) : Except String (List Char) :=
  match (worktree (resolve path)).bind utf8Decode with
  | some text => .ok (universalNewlines text)
  | none => .error "invalid utf-8"

def markers : List String := ["#StateSpace", "#Invariant", "#Transition", "#PreState", "#PostState"]

/-- `needle in text`. -/
def isIn (needle text : List Char) : Bool := (Text.partition needle text).isSome

/-- `^\s*{marker}\s*:\s*(.*)$` on a line: the group. -/
def definitionGroup (marker line : List Char) : Option (List Char) :=
  let start := line.dropWhile Text.isSpace
  if marker <+: start then
    match (start.drop marker.length).dropWhile Text.isSpace with
    | ':' :: rest => some (rest.dropWhile Text.isSpace)
    | _ => none
  else none

/-- `^\s*#\w+\s*:` on a line. -/
def startsDefinition (isWord : Char → Bool) (line : List Char) : Bool :=
  match line.dropWhile Text.isSpace with
  | '#' :: rest =>
    !(rest.takeWhile isWord).isEmpty && ((rest.dropWhile isWord).dropWhile Text.isSpace).head? == some ':'
  | _ => false

def _cue_definition_value (isWord : Char → Bool) (marker : List Char) : List (List Char) → List Char
  | [] => []
  | line :: rest =>
    match definitionGroup marker line with
    | none => _cue_definition_value isWord marker rest
    | some group =>
      let inline := Text.strip group
      if inline ≠ [] ∧ inline ≠ ['\x7b'] then inline
      else
        let children := (rest.takeWhile fun child => !startsDefinition isWord child).map Text.strip
        Text.joinLines ((if inline = [] then [] else [inline]) ++ children.filter (!·.isEmpty))

def vacuousValues : List String :=
  ["", "_", "true", "\x7b\x7d", "\x7b...\x7d", "...", "_:_", "\x7b_:_\x7d"]

def _cue_required_definition_is_vacuous (isWord : Char → Bool) (frame : List Char) (marker : String) : Bool :=
  let value := _cue_definition_value isWord marker.toList (Text.splitlines frame)
  let code := ((Text.partition "//".toList value).map Prod.fst).getD value
  vacuousValues.contains (String.ofList (code.filter fun c => !Text.isSpace c))

structure Check where
  name : String
  passes : Bool

def _static_stateful_vacuity_checks (isWord : Char → Bool) (frame : List Char) : List Check :=
  let vacuous := markers.filter (_cue_required_definition_is_vacuous isWord frame)
  [⟨"required_cue_definitions_constrain_data", vacuous.isEmpty⟩,
    ⟨"invariant_not_trivially_true", !vacuous.contains "#Invariant"⟩]

def _failed_check_detail (checks : List Check) : String :=
  "failed checks: " ++ ", ".intercalate ((checks.filter fun check => !check.passes).map (·.name))

/-- What is wrong with a state. Only what is not JSON is reported; another exception goes on. -/
def stateFailure (py : PyLib) (worktree : Worktree) (name : String) (path : List Char) :
    Except String (Option String) := do
  let text ← read_text worktree path
  match loadsPlain py (String.ofList text) with
  | .ok (.obj (_ :: _)) => .ok none
  | .ok _ => .ok (some (name ++ " state must be a non-empty JSON object"))
  | .error .decode => .ok (some (name ++ " state is not JSON: " ++ py.decodeErrorText (String.ofList text)))
  | .error _ => .error "the state cannot be read"

def _validate_stateful_json_states (py : PyLib) (worktree : Worktree) (positive_path negative_path : List Char) :
    Except String (List String) := do
  let positive ← stateFailure py worktree "positive" positive_path
  let negative ← stateFailure py worktree "negative" negative_path
  return positive.toList ++ negative.toList

/-- `text[-2000:]`. -/
def outputTail (text : String) : String := String.ofList (text.toList.drop (text.toList.length - 2000))

/-- One run of `cue vet`: the check, or the failure of the program. -/
def vetState (run : List Char → List Char → Worktree → Except String (ℤ × String)) (worktree : Worktree)
    (name : String) (expected : Bool) (frame_path state_path : List Char) : Except Failure (Check × ℤ × String) :=
  match run frame_path state_path worktree with
  | .error detail => .error ⟨"cue_failed", detail⟩
  | .ok (returncode, output) => .ok (⟨name, (returncode == 0) == expected⟩, returncode, outputTail output)

def vetFailure (name expected : String) (returncode : ℤ) (output_tail : String) : Failure :=
  ⟨"cue_vet_failed", name ++ " state expected " ++ expected ++ " but exit=" ++ toString returncode ++ " output_tail=" ++
    output_tail⟩

def _run_cue_vet (vet : Option (List Char → List Char → Worktree → Except String (ℤ × String))) (worktree : Worktree)
    (frame_path positive_path negative_path : List Char) : Except Failure (List Check) := do
  match vet with
  | none => .error ⟨"cue_missing", "CUE validation requires the cue executable"⟩
  | some run =>
    let (positive, returncode, tail) ← vetState run worktree "positive" true frame_path positive_path
    let (negative, returncode', tail') ← vetState run worktree "negative" false frame_path negative_path
    if !positive.passes then .error (vetFailure "positive" "pass" returncode tail)
    else if !negative.passes then .error (vetFailure "negative" "fail" returncode' tail')
    else return [positive, negative]

def _dynamic_stateful_vacuity_checks (checks : List Check) : List Check :=
  let negative := checks.find? fun check => check.name = "negative"
  [⟨"negative_invalid_case_required", negative.isSome⟩,
    ⟨"negative_invalid_case_rejected", (negative.map (·.passes)).getD false⟩]

/-- The artifacts of an item that are not there. -/
def missing (worktree : Worktree) (item_id : String) : List String :=
  ([("frame", framePath item_id), ("positive_state", positivePath item_id),
    ("negative_state", negativePath item_id)].filter fun entry => (worktree (resolve entry.2)).isNone).map Prod.fst

def _run_cue_frame_validation (tools : Toolchain) (worktree : Worktree) (item_id : String) :
    Except String (Option Failure) := do
  if missing worktree item_id ≠ [] then
    return some ⟨"cue_artifact_missing", ", ".intercalate (missing worktree item_id)⟩
  let frame ← read_text worktree (framePath item_id)
  let missing_markers := markers.filter fun marker => !isIn marker.toList frame
  if missing_markers ≠ [] then
    return some ⟨"cue_frame_invalid", "missing CUE definitions: " ++ ", ".intercalate missing_markers⟩
  let static_checks := _static_stateful_vacuity_checks tools.isWord frame
  if static_checks.any fun check => !check.passes then
    return some ⟨"cue_vacuity_validation_failed", _failed_check_detail static_checks⟩
  let state_failures ← _validate_stateful_json_states tools.py worktree (positivePath item_id) (negativePath item_id)
  if state_failures ≠ [] then return some ⟨"cue_state_invalid", "; ".intercalate state_failures⟩
  match _run_cue_vet tools.vet worktree (framePath item_id) (positivePath item_id) (negativePath item_id) with
  | .error failure => return some failure
  | .ok checks =>
    let checks := static_checks ++ _dynamic_stateful_vacuity_checks checks
    if checks.any fun check => !check.passes then
      return some ⟨"cue_vacuity_validation_failed", _failed_check_detail checks⟩
    return none

end CodeWorker

end AiOrg

/-!
## Plan items in one worktree

`author_items` drives the items of a partition one after another in one worktree. A worker edits the artifacts of its
own item, the validation reads them back, and a failure goes to a repair round unless it repeats or the rounds are used
up. The elaboration of a contingency reads no frame and is left out.
-/

namespace AiOrg

namespace CodeWorker

def MAX_REPAIR_ROUNDS : ℕ := 2

inductive ItemKind where
  | patch_plan_assignment | work_item | first_proof_moment | follow_up
  deriving DecidableEq

structure PlanItem where
  item_id : String
  kind : ItemKind
  named : item_id ≠ ""

/-- What a worker does with a file. -/
inductive Edit where
  | keep
  | remove
  | write (content : Bytes)

def Edit.isWrite : Edit → Bool
  | .write _ => true
  | _ => false

def Edit.on : Edit → Option Bytes → Option Bytes
  | .keep, content => content
  | .remove, _ => none
  | .write content, _ => some content

def Edit.apply (edit : Edit) (path : Path) (worktree : Worktree) : Worktree := fun p =>
  if p = path then edit.on (worktree p) else worktree p

/-- A round of a worker: what it does with the artifacts of its item, the failure of the run (or of the check that the
result is not written), and how the commit fails. -/
structure Round where
  frame : Edit
  positive : Edit
  negative : Edit
  run_failure : Option Failure
  commit_failure : Option String

def Round.apply (round : Round) (item_id : String) (worktree : Worktree) : Worktree :=
  round.frame.apply (resolve (framePath item_id)) (round.positive.apply (resolve (positivePath item_id))
    (round.negative.apply (resolve (negativePath item_id)) worktree))

inductive Outcome where
  | committed
  | commit_failed (detail : String)
  | item_failed (failure : Failure) (repair_rounds : ℕ) (permanent : Bool)
  | raised (text : String)
  deriving DecidableEq

section Drive

variable (tools : Toolchain) (fingerprints : String → Failure → List String)

def roundFailure (item_id : String) (round : Round) (worktree : Worktree) : Except String (Option Failure) :=
  match round.run_failure with
  | some failure => .ok (some failure)
  | none => _run_cue_frame_validation tools worktree item_id

def attempts (item_id : String) (worker : ℕ → Round) : ℕ → ℕ → List String → Worktree → Outcome × Worktree
  | 0, index, _, worktree => (.item_failed ⟨"exhausted", ""⟩ index false, worktree)
  | left + 1, index, previous, worktree =>
    let worktree := (worker index).apply item_id worktree
    match roundFailure tools item_id (worker index) worktree with
    | .error text => (.raised text, worktree)
    | .ok none =>
      match (worker index).commit_failure with
      | some detail => (.commit_failed detail, worktree)
      | none => (.committed, worktree)
    | .ok (some failure) =>
      let permanent := (fingerprints item_id failure).any previous.contains
      if permanent = true ∨ index = MAX_REPAIR_ROUNDS then (.item_failed failure index permanent, worktree)
      else attempts item_id worker left (index + 1) (fingerprints item_id failure) worktree

def _author_one_item (item : PlanItem) (worker : ℕ → Round) (worktree : Worktree) : Outcome × Worktree :=
  attempts tools fingerprints item.item_id worker (1 + MAX_REPAIR_ROUNDS) 0 [] worktree

/-- Drive items with their workers: the worktree after all of them, or what the first one that is not committed
gives. -/
def author_items : List (PlanItem × (ℕ → Round)) → Worktree → Except Outcome Worktree
  | [], worktree => .ok worktree
  | (item, worker) :: rest, worktree =>
    match _author_one_item tools fingerprints item worker worktree with
    | (.committed, worktree) => author_items rest worktree
    | (outcome, _) => .error outcome

end Drive

end CodeWorker

end AiOrg
