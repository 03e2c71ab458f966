import AiOrg.Reform.Experience
import AiOrg.Python.Mapping

/-!
# Questions that the patch must answer

A drive answers the questions one after the other on its worktree, with one pivot where a check fails, and commits
the outcomes with the result. A feedback round edits the branch and commits the outcomes of the result that it finds
there again. Every edit of the tree is kept with the outcomes that were recorded when it was made.
-/

namespace AiOrg

open List

namespace Producer

open Reform (leading)

/-- A tree: the result file, which may be missing or not readable, and everything else. -/
structure WorkTree (γ : Type) where
  rest : γ
  result : Option (Option Fields)
  deriving DecidableEq

structure Edit (γ : Type) where
  recorded : Fields
  before : WorkTree γ
  after : WorkTree γ
  feedback : Bool
  deriving DecidableEq

structure Committed (γ : Type) where
  questions : List Fields
  outcomes : Fields
  tree : WorkTree γ
  deriving DecidableEq

structure Session (γ : Type) where
  tree : WorkTree γ
  outcomes : Fields
  edits : List (Edit γ)
  results : List (Committed γ)
  deriving DecidableEq

/-- What the model and git come to for a question: the tree with a plan and whether that requires a change of
direction, the tree of the pivot, and the text of the failure. -/
structure Reply (γ : Type) where
  elaborated : Option (WorkTree γ × Bool)
  pivot : Option (WorkTree γ)
  detail : String

structure Brief where
  series_branch : String
  node_key : String
  checks : Fields
  must_answer_questions : List Fields
  /-- `validate_result_against_schema` with the committed schema. -/
  violations : Fields → List String

section Session

variable {γ : Type}

def Session.edit (s : Session γ) (tree : WorkTree γ) (feedback : Bool) : Session γ :=
  { s with tree := tree, edits := ⟨s.outcomes, s.tree, tree, feedback⟩ :: s.edits }

def Session.record (s : Session γ) (id : String) (outcome : Fields) : Session γ :=
  { s with outcomes := s.outcomes.set id (.obj outcome) }

variable (py : PyLib) (passes : String → WorkTree γ → Bool)

def objectionId (question : Fields) : String := py.strOr (question.get "objection_id") ""

def executableCheck (question : Fields) : String := py.strOr (question.get "executable_check") ""

def _run_must_answer_check (tree : WorkTree γ) (question : Fields) : Bool :=
  !(pyStrip (executableCheck py question) == "") && passes (executableCheck py question) tree

def passedOutcome (question : Fields) : Fields :=
  [("outcome", .str "check_passed"), ("executable_check", .str (executableCheck py question))]

def contingencyOutcome (question : Fields) (detail : String) : Fields :=
  [("outcome", .str "check_passed_via_contingency"),
    ("executable_check", .str (executableCheck py question)),
    ("contingency_engaged", .bool true),
    ("initial_failure", .str (leading 500 detail))]

/-- The plan of a question that failed, from the branch or elaborated now, and whether it requires a change of
direction. -/
def contingencyOf (plans : List (String × Bool)) (id : String) (reply : Reply γ) (s : Session γ) :
    Option (Session γ × Bool) :=
  match plans.lookup id with
  | some direction => some (s, direction)
  | none => reply.elaborated.map fun elaborated => (s.edit elaborated.1 false, elaborated.2)

/-- `_answer_must_answer_questions`, with the plans that are on the branch, and `none` where the drive stops. -/
def _answer_must_answer_questions (plans : List (String × Bool)) :
    List (Fields × Reply γ) → Session γ → Option (Session γ)
  | [], s => some s
  | (question, reply) :: rest, s =>
    if _run_must_answer_check py passes s.tree question then
      _answer_must_answer_questions plans rest
        (s.record (objectionId py question) (passedOutcome py question))
    else
      match contingencyOf plans (objectionId py question) reply s with
      | none => none
      | some (_, true) => none
      | some (s, false) =>
        match reply.pivot with
        | none => none
        | some tree =>
          if _run_must_answer_check py passes tree question then
            _answer_must_answer_questions plans rest
              ((s.edit tree false).record (objectionId py question) (contingencyOutcome py question reply.detail))
          else none

def _is_typed_json_scalar : Json → Bool
  | .null | .bool _ | .int _ | .str _ => true
  | .float repr => !(repr == "nan" || repr == "inf" || repr == "-inf")
  | .arr _ | .obj _ => false

def currentValue : Json → Option Json
  | .obj fact => some (Fields.get fact "current_value")
  | _ => none

def acknowledgements (brief : Brief) : Fields :=
  brief.checks.filterMap fun (name, item) => (currentValue item).map fun value => (name, value)

def resultBody (brief : Brief) (outcomes : Fields) : Fields :=
  [("patch_series_branch", .str brief.series_branch), ("node_key", .str brief.node_key),
    ("acknowledged_patchwork_checks", .obj (acknowledgements brief))] ++
  if brief.must_answer_questions.isEmpty then [] else [("must_answer_outcomes", .obj outcomes)]

/-- No outcome is missing and none is unexpected. -/
def outcomeKeysMatch (outcomes : Fields) (ids : List String) : Bool :=
  (ids.all fun id => (outcomes.map Prod.fst).contains id) && (outcomes.map Prod.fst).all ids.contains

def complete : Option Json → Bool
  | some (.obj outcome) => !(pyStrip (py.strOr (Fields.get outcome "outcome") "") == "")
  | _ => false

/-- What `validate_result_transition` checks beyond the address, which the body has from the brief. -/
def validTransition (brief : Brief) (outcomes : Fields) : Bool :=
  (acknowledgements brief).all (fun entry => _is_typed_json_scalar entry.2) &&
    brief.must_answer_questions.all fun question => complete py (outcomes.lookup (objectionId py question))

def WorkTree.withResult (tree : WorkTree γ) (body : Fields) : WorkTree γ := { tree with result := some (some body) }

/-- The outcomes that a result has: none without questions. -/
def recordedOutcomes (brief : Brief) (outcomes : Fields) : Fields :=
  if brief.must_answer_questions.isEmpty then [] else outcomes

def Session.commitResult (s : Session γ) (brief : Brief) (recorded : Fields) (tree : WorkTree γ) : Session γ :=
  ⟨tree, recorded, ⟨recorded, s.tree, tree, false⟩ :: s.edits,
    ⟨brief.must_answer_questions, recorded, tree⟩ :: s.results⟩

def _write_result_artifact (brief : Brief) (outcomes : Fields) (written : Bool) (s : Session γ) :
    Option (Session γ) :=
  let recorded := recordedOutcomes brief outcomes
  let body := resultBody brief outcomes
  if outcomeKeysMatch recorded (brief.must_answer_questions.map (objectionId py)) &&
      validTransition py brief recorded && (brief.violations body).isEmpty && written then
    some (s.commitResult brief recorded (s.tree.withResult body))
  else none

/-- The outcomes in the result file of a tree, and `none` where it cannot be read. -/
def priorOutcomes (tree : WorkTree γ) : Option Fields :=
  match tree.result with
  | none => some []
  | some none => none
  | some (some body) =>
    match body.get "must_answer_outcomes" with
    | .obj outcomes => some outcomes
    | _ => some []

/-- The completion assertion of a lifecycle that is active, which leaves the result file alone. -/
def Session.assert (s : Session γ) (rest : γ) : Session γ := s.edit { s.tree with rest := rest } false

/-- `_drive_in_worktree` from the tree that was authored. The completion assertion is missing where the lifecycle is
not active, and may fail. -/
def drive (brief : Brief) (plans : List (String × Bool)) (authored : WorkTree γ) (replies : ℕ → Reply γ)
    (assertion : Option (Option γ)) (written : Bool) : Option (Session γ) :=
  match _answer_must_answer_questions py passes plans
    (brief.must_answer_questions.zipIdx.map fun (question, i) => (question, replies i)) ⟨authored, [], [], []⟩ with
  | none => none
  | some s =>
    match assertion with
    | none => _write_result_artifact py brief s.outcomes written s
    | some none => none
    | some (some rest) => _write_result_artifact py brief s.outcomes written (s.assert rest)

/-- A feedback round: the tree that its commit has, and what follows where the lifecycle is active. -/
structure Round (γ : Type) where
  brief : Brief
  edited : WorkTree γ
  assertion : Option (Option γ)
  written : Bool

/-- The assertion and the result of a round on what it edited. Without a result the commits before it stay. -/
def Session.regenerate (s : Session γ) (round : Round γ) (rest : γ) (prior : Fields) : Session γ :=
  (_write_result_artifact py round.brief prior round.written (s.assert rest)).getD (s.assert rest)

/-- `address_feedback`. What fails after the commit leaves that on the branch. -/
def address_feedback (s : Session γ) (round : Round γ) : Session γ :=
  match round.assertion, priorOutcomes round.edited with
  | some (some rest), some prior => (s.edit round.edited true).regenerate py round rest prior
  | _, _ => s.edit round.edited true

end Session

end Producer

end AiOrg

/-!
## Outcomes of questions that must be answered

Every result that is committed has one outcome for each question. A check that was recorded as passed passes on the
tree of the commit as long as every edit since then keeps it and feedback leaves the result file as it is
(`results_sound`): nothing is checked again.
-/

namespace AiOrg

open List

namespace Producer

variable {γ : Type} {py : PyLib} {passes : String → WorkTree γ → Bool} {plans : List (String × Bool)}
  {s s' : Session γ}

def recordedCheck (outcome : Fields) : String :=
  match outcome.get "executable_check" with
  | .str check => check
  | _ => ""

def SaysPassed (outcome : Fields) : Prop :=
  outcome.get "outcome" = .str "check_passed" ∨ outcome.get "outcome" = .str "check_passed_via_contingency"

def Holds (passes : String → WorkTree γ → Bool) (outcomes : Fields) (tree : WorkTree γ) : Prop :=
  ∀ id outcome, outcomes.lookup id = some (.obj outcome) → SaysPassed outcome →
    passes (recordedCheck outcome) tree = true

/-- Every question has one outcome, and what is recorded as passed passes on the tree of the commit. -/
structure Committed.Sound (py : PyLib) (passes : String → WorkTree γ → Bool) (committed : Committed γ) : Prop where
  single : (committed.outcomes.map Prod.fst).Nodup
  answered : ∀ question ∈ committed.questions,
    ∃ outcome, committed.outcomes.lookup (objectionId py question) = some (.obj outcome)
  passing : Holds passes committed.outcomes committed.tree

/-- An edit breaks no check that was recorded as passed, and one of a feedback round leaves the result file as it
is. -/
structure Edit.Keeps (passes : String → WorkTree γ → Bool) (edit : Edit γ) : Prop where
  checks : ∀ id outcome, edit.recorded.lookup id = some (.obj outcome) → SaysPassed outcome →
    passes (recordedCheck outcome) edit.before = true → passes (recordedCheck outcome) edit.after = true
  result : edit.feedback = true → edit.after.result = edit.before.result

theorem Edit.Keeps.holds {edit : Edit γ} (h : edit.Keeps passes) (hholds : Holds passes edit.recorded edit.before) :
    Holds passes edit.recorded edit.after := fun id outcome hlookup hsays =>
  h.checks id outcome hlookup hsays (hholds id outcome hlookup hsays)

structure Session.Ok (passes : String → WorkTree γ → Bool) (s : Session γ) : Prop where
  single : (s.outcomes.map Prod.fst).Nodup
  holds : Holds passes s.outcomes s.tree

theorem Session.Ok.edit (h : s.Ok passes) {tree : WorkTree γ} {feedback : Bool}
    (hkeeps : Edit.Keeps passes ⟨s.outcomes, s.tree, tree, feedback⟩) : (s.edit tree feedback).Ok passes :=
  ⟨h.single, hkeeps.holds h.holds⟩

theorem passes_of_run {tree : WorkTree γ} {question : Fields}
    (h : _run_must_answer_check py passes tree question = true) :
    passes (executableCheck py question) tree = true := by
  rw [_run_must_answer_check, Bool.and_eq_true] at h
  exact h.2

theorem Session.Ok.record (h : s.Ok passes) {id : String} {outcome : Fields}
    (hpasses : passes (recordedCheck outcome) s.tree = true) : (s.record id outcome).Ok passes := by
  refine ⟨Fields.nodup_set h.single, fun other found hlookup hsays => ?_⟩
  rw [Session.record, Fields.lookup_set] at hlookup
  split_ifs at hlookup with hid
  · cases hlookup
    exact hpasses
  · exact h.holds other found hlookup hsays

theorem contingency_ok {id : String} {reply : Reply γ} {planned : Session γ} {direction : Bool}
    (h : contingencyOf plans id reply s = some (planned, direction)) :
    s.edits ⊆ planned.edits ∧ planned.results = s.results ∧
      ((∀ edit ∈ planned.edits, edit.Keeps passes) → s.Ok passes → planned.Ok passes) := by
  rw [contingencyOf] at h
  split at h
  · cases h
    exact ⟨List.Subset.refl _, rfl, fun _ hok => hok⟩
  · obtain ⟨elaborated, -, heq⟩ := Option.map_eq_some_iff.1 h
    cases heq
    exact ⟨subset_cons_self _ _, rfl, fun hkeeps hok => hok.edit (hkeeps _ mem_cons_self)⟩

theorem answer_ok (list : List (Fields × Reply γ))
    (h : _answer_must_answer_questions py passes plans list s = some s') :
    s.edits ⊆ s'.edits ∧ s'.results = s.results ∧
      ((∀ edit ∈ s'.edits, edit.Keeps passes) → s.Ok passes → s'.Ok passes) := by
  induction list generalizing s with
  | nil =>
    obtain rfl := Option.some.inj h
    exact ⟨List.Subset.refl _, rfl, fun _ hok => hok⟩
  | cons entry list ih =>
    obtain ⟨question, reply⟩ := entry
    rw [_answer_must_answer_questions] at h
    by_cases hrun : _run_must_answer_check py passes s.tree question = true
    · rw [if_pos hrun] at h
      obtain ⟨hedits, hresults, hkept⟩ := ih h
      exact ⟨hedits, hresults, fun hkeeps hok => hkept hkeeps (hok.record (passes_of_run hrun))⟩
    · rw [if_neg hrun] at h
      split at h
      · cases h
      · cases h
      · rename_i planned hplanned
        split at h
        · cases h
        · rename_i tree _
          split_ifs at h with hpivot
          obtain ⟨hedits, hresults, hkept⟩ := ih h
          obtain ⟨hbefore, hsame, hok⟩ := contingency_ok hplanned
          refine ⟨fun edit hedit => hedits (mem_cons_of_mem _ (hbefore hedit)), hresults.trans hsame,
            fun hkeeps hstart => hkept hkeeps (Session.Ok.record ?_ (passes_of_run hpivot))⟩
          have hplannedOk : planned.Ok passes :=
            hok (fun edit hedit => hkeeps edit (hedits (mem_cons_of_mem _ hedit))) hstart
          exact hplannedOk.edit (hkeeps _ (hedits mem_cons_self))

theorem recordedOutcomes_cases (brief : Brief) (outcomes : Fields) :
    recordedOutcomes brief outcomes = [] ∨ recordedOutcomes brief outcomes = outcomes := by
  rw [recordedOutcomes]
  split_ifs
  · exact .inl rfl
  · exact .inr rfl

theorem priorOutcomes_withResult (tree : WorkTree γ) (brief : Brief) (outcomes : Fields) :
    priorOutcomes (tree.withResult (resultBody brief outcomes)) = some (recordedOutcomes brief outcomes) := by
  by_cases hempty : brief.must_answer_questions.isEmpty = true <;>
    simp [priorOutcomes, WorkTree.withResult, resultBody, recordedOutcomes, hempty, Fields.get, Fields.lookup_cons_eq]

theorem write_eq_some {brief : Brief} {outcomes : Fields} {written : Bool}
    (h : _write_result_artifact py brief outcomes written s = some s') :
    s' = s.commitResult brief (recordedOutcomes brief outcomes) (s.tree.withResult (resultBody brief outcomes)) ∧
      ∀ question ∈ brief.must_answer_questions,
        ∃ outcome, (recordedOutcomes brief outcomes).lookup (objectionId py question) = some (.obj outcome) := by
  rw [_write_result_artifact] at h
  by_cases hvalid : (outcomeKeysMatch (recordedOutcomes brief outcomes)
      (brief.must_answer_questions.map (objectionId py)) &&
      validTransition py brief (recordedOutcomes brief outcomes) &&
      (brief.violations (resultBody brief outcomes)).isEmpty && written) = true
  · rw [if_pos hvalid] at h
    refine ⟨(Option.some.inj h).symm, fun question hquestion => ?_⟩
    simp only [Bool.and_eq_true, validTransition, all_eq_true] at hvalid
    have hcomplete := hvalid.1.1.2.2 question hquestion
    rw [complete.eq_def] at hcomplete
    split at hcomplete
    · rename_i outcome hlookup
      exact ⟨outcome, hlookup⟩
    · cases hcomplete
  · rw [if_neg hvalid] at h
    cases h

/-- What holds between the commits of results: what is recorded holds and is what the result file says. -/
structure Session.Inv (py : PyLib) (passes : String → WorkTree γ → Bool) (s : Session γ) : Prop where
  ok : s.Ok passes
  file : priorOutcomes s.tree = some s.outcomes
  results : ∀ committed ∈ s.results, committed.Sound py passes

theorem holds_nil (passes : String → WorkTree γ → Bool) (tree : WorkTree γ) : Holds passes [] tree :=
  fun _ _ hlookup => by cases hlookup

theorem Session.Ok.write (h : s.Ok passes) {brief : Brief} {written : Bool}
    (hwritten : _write_result_artifact py brief s.outcomes written s = some s')
    (hkeeps : ∀ edit ∈ s'.edits, edit.Keeps passes) (hresults : ∀ committed ∈ s.results, committed.Sound py passes) :
    s'.Inv py passes := by
  obtain ⟨rfl, hanswered⟩ := write_eq_some hwritten
  have hsingle : ((recordedOutcomes brief s.outcomes).map Prod.fst).Nodup := by
    rcases recordedOutcomes_cases brief s.outcomes with heq | heq
    · rw [heq]
      exact nodup_nil
    · rw [heq]
      exact h.single
  have hbefore : Holds passes (recordedOutcomes brief s.outcomes) s.tree := by
    rcases recordedOutcomes_cases brief s.outcomes with heq | heq
    · rw [heq]
      exact holds_nil passes s.tree
    · rw [heq]
      exact h.holds
  have hafter : Holds passes (recordedOutcomes brief s.outcomes)
      (s.tree.withResult (resultBody brief s.outcomes)) := (hkeeps _ mem_cons_self).holds hbefore
  exact ⟨⟨hsingle, hafter⟩, priorOutcomes_withResult s.tree brief s.outcomes,
    forall_mem_cons.2 ⟨⟨hsingle, hanswered, hafter⟩, hresults⟩⟩

theorem write_edits {brief : Brief} {outcomes : Fields} {written : Bool}
    (h : _write_result_artifact py brief outcomes written s = some s') : s.edits ⊆ s'.edits := by
  obtain ⟨rfl, -⟩ := write_eq_some h
  exact subset_cons_self _ _

theorem drive_inv {brief : Brief} {authored : WorkTree γ} {replies : ℕ → Reply γ} {assertion : Option (Option γ)}
    {written : Bool} (h : drive py passes brief plans authored replies assertion written = some s)
    (hkeeps : ∀ edit ∈ s.edits, edit.Keeps passes) : s.Inv py passes := by
  rw [drive] at h
  split at h
  · cases h
  · rename_i answered hanswered
    obtain ⟨-, hresults, hkept⟩ := answer_ok _ hanswered
    have hstart : Session.Ok passes ⟨authored, [], [], []⟩ := ⟨nodup_nil, holds_nil passes authored⟩
    have hnone : ∀ committed ∈ answered.results, committed.Sound py passes := by
      rw [hresults]
      exact fun committed hcommitted => absurd hcommitted not_mem_nil
    split at h
    · have hok := hkept (fun edit hedit => hkeeps edit (write_edits h hedit)) hstart
      exact hok.write h hkeeps hnone
    · cases h
    · rename_i rest
      have hmore : answered.edits ⊆ s.edits := fun edit hedit => write_edits h (mem_cons_of_mem _ hedit)
      have hok := hkept (fun edit hedit => hkeeps edit (hmore hedit)) hstart
      have hasserted : (answered.assert rest).Ok passes :=
        hok.edit (hkeeps _ (write_edits h mem_cons_self))
      exact hasserted.write h hkeeps hnone

theorem regenerate_edits (py : PyLib) (s : Session γ) (round : Round γ) (rest : γ) (prior : Fields) :
    (s.assert rest).edits ⊆ (s.regenerate py round rest prior).edits := by
  rw [Session.regenerate]
  cases hwritten : _write_result_artifact py round.brief prior round.written (s.assert rest) with
  | none => exact List.Subset.refl _
  | some written => exact write_edits hwritten

theorem feedback_cases (py : PyLib) (s : Session γ) (round : Round γ) :
    address_feedback py s round = s.edit round.edited true ∨
    ∃ rest prior, priorOutcomes round.edited = some prior ∧
      address_feedback py s round = (s.edit round.edited true).regenerate py round rest prior := by
  rw [address_feedback]
  split
  · rename_i rest prior _ hprior
    exact .inr ⟨rest, prior, hprior, rfl⟩
  · exact .inl rfl

theorem feedback_edits (py : PyLib) (s : Session γ) (round : Round γ) :
    (s.edit round.edited true).edits ⊆ (address_feedback py s round).edits := by
  rcases feedback_cases py s round with heq | ⟨rest, prior, -, heq⟩
  · rw [heq]
    exact List.Subset.refl _
  · rw [heq]
    exact fun edit hedit => regenerate_edits py _ round rest prior (mem_cons_of_mem _ hedit)

theorem Session.Inv.regenerate (h : s.Inv py passes) (round : Round γ) (rest : γ)
    (hkeeps : ∀ edit ∈ (s.regenerate py round rest s.outcomes).edits, edit.Keeps passes) :
    (s.regenerate py round rest s.outcomes).Inv py passes := by
  have hok : (s.assert rest).Ok passes :=
    h.ok.edit (hkeeps _ (regenerate_edits py s round rest s.outcomes mem_cons_self))
  rw [Session.regenerate] at hkeeps ⊢
  cases hwritten : _write_result_artifact py round.brief s.outcomes round.written (s.assert rest) with
  | none => exact ⟨hok, h.file, h.results⟩
  | some written =>
    rw [hwritten] at hkeeps
    exact hok.write hwritten hkeeps h.results

theorem Session.Inv.feedback (h : s.Inv py passes) (round : Round γ)
    (hkeeps : ∀ edit ∈ (address_feedback py s round).edits, edit.Keeps passes) :
    (address_feedback py s round).Inv py passes := by
  have hround : Edit.Keeps passes ⟨s.outcomes, s.tree, round.edited, true⟩ :=
    hkeeps _ (feedback_edits py s round mem_cons_self)
  -- the file was left alone, so that what is found there is what was recorded
  have hfile : priorOutcomes round.edited = some s.outcomes := by
    rw [← h.file, priorOutcomes, priorOutcomes, show round.edited.result = s.tree.result from hround.result rfl]
  have hedited : (s.edit round.edited true).Inv py passes := ⟨h.ok.edit hround, hfile, h.results⟩
  rcases feedback_cases py s round with heq | ⟨rest, prior, hprior, heq⟩
  · rw [heq]
    exact hedited
  · obtain rfl := Option.eq_some_unique hfile hprior
    rw [heq] at hkeeps ⊢
    exact hedited.regenerate round rest hkeeps

theorem rounds_edits (py : PyLib) (rounds : List (Round γ)) (s : Session γ) :
    s.edits ⊆ (rounds.foldl (address_feedback py) s).edits := by
  induction rounds generalizing s with
  | nil => exact List.Subset.refl _
  | cons round rounds ih =>
    exact fun edit hedit => ih _ (feedback_edits py s round (mem_cons_of_mem _ hedit))

/-- In a drive and the feedback rounds after it, if every edit keeps what was recorded, every result that is
committed is sound. -/
theorem results_sound {brief : Brief} {authored : WorkTree γ} {replies : ℕ → Reply γ}
    {assertion : Option (Option γ)} {written : Bool}
    (h : drive py passes brief plans authored replies assertion written = some s) (rounds : List (Round γ))
    (hkeeps : ∀ edit ∈ (rounds.foldl (address_feedback py) s).edits, edit.Keeps passes) :
    ∀ committed ∈ (rounds.foldl (address_feedback py) s).results, committed.Sound py passes := by
  have hinv : s.Inv py passes := drive_inv h fun edit hedit => hkeeps edit (rounds_edits py rounds s hedit)
  clear h
  induction rounds generalizing s with
  | nil => exact hinv.results
  | cons round rounds ih =>
    exact ih hkeeps (hinv.feedback round fun edit hedit => hkeeps edit (rounds_edits py rounds _ hedit))

section Example

def samplePasses (check : String) (tree : WorkTree (List String)) : Bool := tree.rest.contains check

def sampleQuestion (id check : String) : Fields := [("objection_id", .str id), ("executable_check", .str check)]

def sampleBrief (questions : List Fields) : Brief :=
  ⟨"ai-org/patch-series/notes", "root", [], questions, fun _ => []⟩

/-- A pivot replaces what is there by what the second check looks for. -/
def sampleReply (_ : ℕ) : Reply (List String) := ⟨none, some ⟨["b"], none⟩, "exit=1"⟩

def twoQuestions : Brief := sampleBrief [sampleQuestion "o1" "a", sampleQuestion "o2" "b"]

def twoOutcomes : Fields :=
  [("o1", .obj [("outcome", .str "check_passed"), ("executable_check", .str "a")]),
    ("o2", .obj [("outcome", .str "check_passed_via_contingency"), ("executable_check", .str "b"),
      ("contingency_engaged", .bool true), ("initial_failure", .str "exit=1")])]

/-- The first check passes, the second one needs a pivot that undoes what the first one looked for, and the result
says that both passed. -/
theorem passed_check_broken :
    let tree : WorkTree (List String) := ⟨["b"], some (some (resultBody twoQuestions twoOutcomes))⟩
    (drive asciiLib samplePasses twoQuestions [("o2", false)] ⟨["a"], none⟩ sampleReply none true).map
      Session.results =
      some [⟨twoQuestions.must_answer_questions, twoOutcomes, tree⟩] ∧
    ¬ Committed.Sound asciiLib samplePasses ⟨twoQuestions.must_answer_questions, twoOutcomes, tree⟩ := by
  intro tree
  refine ⟨by decide +kernel, fun hsound => ?_⟩
  have hpasses := hsound.passing "o1" [("outcome", .str "check_passed"), ("executable_check", .str "a")]
    (by decide +kernel) (.inl (by decide +kernel))
  revert hpasses
  decide +kernel

/-- A question whose check passes. -/
theorem results_sound_single :
    ∃ s, drive asciiLib samplePasses (sampleBrief [sampleQuestion "o1" "a"]) [] ⟨["a"], none⟩ sampleReply none
      true = some s ∧ s.results.length = 1 ∧
    ∀ committed ∈ (([] : List (Round (List String))).foldl (address_feedback asciiLib) s).results,
      committed.Sound asciiLib samplePasses := by
  have hrun : ((drive asciiLib samplePasses (sampleBrief [sampleQuestion "o1" "a"]) [] ⟨["a"], none⟩ sampleReply
      none true).map fun s => (s.results.length,
        s.edits.map fun edit => (edit.before.rest, edit.after.rest, edit.feedback))) =
      some (1, [(["a"], ["a"], false)]) := by decide +kernel
  obtain ⟨s, hs, heq⟩ := Option.map_eq_some_iff.1 hrun
  obtain ⟨hlength, hedits⟩ := Prod.mk.inj heq
  refine ⟨s, hs, hlength, results_sound hs [] fun edit hedit => ?_⟩
  have hsame : (edit.before.rest, edit.after.rest, edit.feedback) = (["a"], ["a"], false) := by
    rw [← mem_singleton, ← hedits]
    exact mem_map.2 ⟨edit, hedit, rfl⟩
  simp only [Prod.mk.injEq] at hsame
  refine ⟨fun id outcome _ _ hbefore => ?_, fun hfeedback => ?_⟩
  · rw [samplePasses, hsame.1] at hbefore
    rw [samplePasses, hsame.2.1]
    exact hbefore
  · rw [hsame.2.2] at hfeedback
    cases hfeedback

end Example

end Producer

end AiOrg
