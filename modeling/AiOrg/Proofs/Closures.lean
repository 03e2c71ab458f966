import AiOrg.Approach.Closures
import AiOrg.Proofs.Experience
import AiOrg.Proofs.PlanAssignments
import AiOrg.Proofs.Questions

/-!
# Closed questions in a reform

The committed root has the open questions of the previous one that no step closed, and the ledger has the
closures (`openQuestions_published`). A question that is handed to the patch is left out of the artifact when
its id is there already, and the id is cut from the slug of its text; `questions_conserved_iff` says when
nothing is lost.
-/

namespace AiOrg

open List

namespace Approach

open Reform (childFields childItems Committed)
open Review (Branch QuestionsCodec SameQuestion Asks knownIds recorded)
open Producer (Raised)
open Checks

variable {py : PyLib} {codec : QuestionsCodec} {nfc : List Char → List Char} {canonical : Json → String}
  {text : Raised → String} {preflight : Reform.Preflight} {run : ClosingRun} {reform : ReformRun}
  {committed : Committed} {before root ledger problem : Fields}
  {runStep : Step → Components → Except String StepResult}

theorem childItems_congr {a b : Fields} {key : String} (h : a.get key = b.get key) :
    childItems a key = childItems b key := by
  rw [childItems, childItems, h]

theorem childItems_set_self (fields : Fields) (key : String) (items : List Json) :
    childItems (fields.set key (.arr items)) key = items := by
  rw [childItems, Fields.get_set_self]

theorem open_questions_stored (components : Components) (step : Step) (result : Fields) :
    childItems (_store_reform_step_result py components step result).problem "open_questions" =
      childItems components.problem "open_questions" := by
  cases step with
  | problem =>
    show childItems (problemReplacement components.problem result) "open_questions" = _
    rw [problemReplacement, childItems, childItems, Fields.get_set_self, Fields.getD, Fields.get]
    cases List.lookup "open_questions" components.problem with
    | none => rfl
    | some value => rfl
  | constraints => exact childItems_congr (Fields.get_set_of_ne _ _ (by decide))
  | prior_art => exact childItems_congr (Fields.get_set_of_ne _ _ (by decide))
  | _ => rfl

theorem open_questions_left {steps : List Step} {state last : ReformState}
    (h : steps.foldlM (reformStep py canonical runStep) state = .ok last) :
    childItems last.components.problem "open_questions" =
      childItems state.components.problem "open_questions" := by
  induction steps generalizing state with
  | nil =>
    obtain rfl := Except.ok.inj h
    rfl
  | cons step steps ih =>
    rw [foldlM_cons] at h
    obtain ⟨next, hnext, h⟩ := bind_eq_ok_iff.1 h
    obtain ⟨ran, -, hcomponents, -⟩ := reformStep_ok hnext
    rw [ih h, hcomponents, open_questions_stored]

theorem open_questions_retired (closed : List Fields) (problem : Fields) :
    childItems (retire closed problem) "open_questions" =
      (childItems problem "open_questions").filter fun question =>
        question ∉ closed.map fun closure => Fields.get closure "question" := by
  unfold retire
  split
  · rename_i hempty
    rw [List.isEmpty_iff.1 hempty]
    simp
  · exact childItems_set_self _ _ _

theorem open_questions_assembled {components : Components} {tree : Fields}
    (h : _assemble_from_components py components = some tree) :
    openQuestions tree = childItems components.problem "open_questions" := by
  obtain ⟨⟨problem', links⟩, hnodes, h⟩ := Option.bind_eq_some_iff.1 h
  obtain rfl := Option.some.inj h
  have hkept := childItems_congr ((withNodes_ok hnodes).1 "open_questions" (by decide))
  have hid := childItems_congr (@get_setDefault problem' "id" "open_questions" (.str "problem") (by decide))
  rw [← hkept, ← hid]
  show childItems (setDefault (setDefault problem' "id" (.str "problem")) "open_questions" (.arr []))
    "open_questions" = _
  generalize setDefault problem' "id" (.str "problem") = fields
  rw [setDefault]
  split
  · rfl
  · rename_i habsent
    have hnone : fields.lookup "open_questions" = none := by
      rw [Fields.contains, Bool.not_eq_true, Option.isSome_eq_false_iff, Option.isNone_iff_eq_none] at habsent
      exact habsent
    rw [childItems_set_self, childItems, Fields.get, hnone]
    rfl

/-- A published root has the questions of the one before that no step closed. -/
theorem openQuestions_published (h : Publishes py nfc canonical text preflight reform before root)
    (hproblem : before.get "problem" = .obj problem) :
    ∃ reformed, _reform_technical_approach py canonical reform.runStep before (reform.steps py before) =
        .ok reformed ∧
      openQuestions root = (openQuestions before).filter fun question =>
        question ∉ reformed.closedQuestions.map fun closure => Fields.get closure "question" := by
  obtain ⟨reformed, carrier, previous, hreformed, hprepared⟩ := h.prepared
  refine ⟨reformed, hreformed, ?_⟩
  have hcandidate : ∀ {problem' : Fields}, reformed.technicalApproach.get "problem" = .obj problem' →
      openQuestions root = childItems problem' "open_questions" := by
    intro problem' hproblem'
    have hremapped := (get_remapped py (.obj before) reformed.technicalApproach).trans hproblem'
    obtain ⟨ids, rootProblem, -, hroot, -, hother⟩ := prepared_root hremapped hprepared
    rw [openQuestions, childFields_eq hroot]
    exact childItems_congr (hother _ (by decide))
  rcases reformed_cases hreformed with ⟨-, htree, hclosed, -⟩ | ⟨-, state, hstate, htree, hclosed, -⟩
  · rw [htree] at hcandidate
    rw [hcandidate hproblem, hclosed, openQuestions, childFields_eq hproblem]
    simp
  · obtain ⟨⟨problem', hproblem', -⟩, -⟩ := assembled_of_components htree
    have htreeQuestions := open_questions_assembled htree
    rw [openQuestions, childFields_eq hproblem'] at htreeQuestions
    have hstart : (startReform before).components.problem = problem := childFields_eq hproblem
    rw [hcandidate hproblem', htreeQuestions, open_questions_retired, open_questions_left hstate, hstart,
      hclosed, openQuestions, childFields_eq hproblem]

/-- What is collected of a closure of one of the open questions of a tree. -/
def Declared (approach closed : Fields) : Prop :=
  ∃ (step : Step) (closure : Closure), closed = closure.toFields step ∧
    closure.question ∈ planQuestions approach

theorem parseClosure_ok {questions seen : List String} {item : Fields} {closure : Closure}
    (h : parseClosure py questions seen item = .ok closure) : closure.question ∈ questions := by
  have hchecked : ∀ {question resolution check kind hresolved},
      checkedClosure py question resolution check kind hresolved = .ok closure →
        closure.question = question := by
    intro question resolution check kind hresolved h
    unfold checkedClosure at h
    split_ifs at h <;> obtain rfl := Except.ok.inj h <;> rfl
  unfold parseClosure at h
  split at h
  · split_ifs at h with hopen
    · split at h
      · split_ifs at h
        split at h
        · rw [hchecked h]
          exact hopen.1
        · cases h
      · cases h
  · cases h

theorem parse_closed_questions_ok {questions : List String} {value : Json} {closures : List Closure}
    (h : _parse_closed_questions py questions value = .ok closures) :
    ∀ closure ∈ closures, closure.question ∈ questions := by
  have hitems : ∀ items seen closures, parseClosures py questions seen items = .ok closures →
      ∀ closure ∈ closures, closure.question ∈ questions := by
    intro items
    induction items with
    | nil =>
      intro seen closures h closure hclosure
      obtain rfl := Except.ok.inj h
      cases hclosure
    | cons item items ih =>
      intro seen closures h closure hclosure
      cases item with
      | obj item =>
        rw [parseClosures] at h
        obtain ⟨first, hfirst, h⟩ := bind_eq_ok_iff.1 h
        obtain ⟨rest, hrest, h⟩ := bind_eq_ok_iff.1 h
        obtain rfl := Except.ok.inj h
        rcases mem_cons.1 hclosure with rfl | hclosure
        · exact parseClosure_ok hfirst
        · exact ih _ _ hrest closure hclosure
      | _ => cases h
  unfold _parse_closed_questions at h
  split at h
  · obtain rfl := Except.ok.inj h
    simp
  · obtain rfl := Except.ok.inj h
    simp
  · exact hitems _ _ _ h
  · cases h

theorem reply_read_ok {questions : List String} {step : Step} {reply : Reply} {ran : StepResult}
    (h : reply.read py questions step = .ok ran) :
    (∀ closed ∈ ran.closedQuestions, ∃ closure : Closure, closed = closure.toFields step ∧
      closure.question ∈ questions) ∧
    Reform.PATCH_MUST_ANSWER_QUESTIONS_PATH ∉ ran.externalFiles.map Prod.fst := by
  obtain ⟨closures, hclosures, h⟩ := bind_eq_ok_iff.1 h
  obtain rfl := Except.ok.inj h
  constructor
  · intro closed hclosed
    obtain ⟨closure, hclosure, rfl⟩ := mem_map.1 hclosed
    exact ⟨closure, rfl, parse_closed_questions_ok hclosures closure hclosure⟩
  · rintro hmem
    obtain ⟨file, hfile, hpath⟩ := mem_map.1 hmem
    obtain ⟨table, -, rfl⟩ := mem_map.1 hfile
    have hhead := congrArg (fun path => path.toList.head?) hpath
    unfold Reform.PATCH_MUST_ANSWER_QUESTIONS_PATH at hhead
    simp [String.toList_append] at hhead

theorem steps_ok {steps : List Step} {state last : ReformState}
    (h : steps.foldlM (reformStep py canonical (run.reform py codec).runStep) state = .ok last)
    (hclosed : ∀ closed ∈ state.closedQuestions, Declared run.previous closed)
    (hexternal : state.externalFiles.lookup Reform.PATCH_MUST_ANSWER_QUESTIONS_PATH = none) :
    (∀ closed ∈ last.closedQuestions, Declared run.previous closed) ∧
      last.externalFiles.lookup Reform.PATCH_MUST_ANSWER_QUESTIONS_PATH = none := by
  induction steps generalizing state with
  | nil =>
    obtain rfl := Except.ok.inj h
    exact ⟨hclosed, hexternal⟩
  | cons step steps ih =>
    rw [foldlM_cons] at h
    obtain ⟨next, hnext, h⟩ := bind_eq_ok_iff.1 h
    obtain ⟨ran, hran, -, hclosures, hfiles⟩ := reformStep_ok hnext
    obtain ⟨reply, -, hread⟩ := bind_eq_ok_iff.1 hran
    obtain ⟨hdeclared, habsent⟩ := reply_read_ok hread
    refine ih h ?_ ?_
    · intro closed hmem
      rw [hclosures] at hmem
      rcases mem_append.1 hmem with hmem | hmem
      · exact hclosed closed hmem
      · obtain ⟨closure, heq, hquestion⟩ := hdeclared closed hmem
        exact ⟨step, closure, heq, hquestion⟩
    · rw [hfiles, Reform.lookup_update_of_absent habsent]
      exact hexternal

theorem reformed_ok {steps : List Step} {reformed : Reformed}
    (h : _reform_technical_approach py canonical (run.reform py codec).runStep run.previous steps =
      .ok reformed) :
    (∀ closed ∈ reformed.closedQuestions, Declared run.previous closed) ∧
      reformed.externalFiles.lookup Reform.PATCH_MUST_ANSWER_QUESTIONS_PATH = none := by
  rcases reformed_cases h with ⟨-, -, hclosed, hexternal⟩ | ⟨-, state, hstate, -, hclosed, hexternal⟩
  · rw [hclosed, hexternal]
    exact ⟨fun _ hmem => absurd hmem not_mem_nil, rfl⟩
  · rw [hclosed, hexternal]
    exact steps_ok hstate (fun _ hmem => absurd hmem not_mem_nil) rfl

theorem closedQuestion_toFields (reviewRound : ℤ) (step : Step) (closure : Closure) :
    Reform.closedQuestion py reviewRound (closure.toFields step) =
      .obj (closure.toFields step ++ [("decided_after_review_round", .int reviewRound)]) := by
  simp [Reform.closedQuestion, Closure.toFields, Fields.get, List.lookup, PyLib.strOr_str]

theorem isHandoff_questions : Reform.IsHandoff Reform.PATCH_MUST_ANSWER_QUESTIONS_PATH := mem_cons_self

theorem head_questions_path : Reform.PATCH_MUST_ANSWER_QUESTIONS_PATH.toList.head? ≠ some 'p' := by
  unfold Reform.PATCH_MUST_ANSWER_QUESTIONS_PATH
  simp

def routedOf (closed : List Fields) : List Fields :=
  closed.filter fun closure => closure.get "closure_kind" = .str "routed_to_patch"

theorem reformFiles_questions {calls : Reform.Calls} {source : Reform.Source} (reviewRound : ℤ)
    (previous : Fields) {revision : Reform.Revision} (coverLetter provenance normalized revised : Fields)
    (noSuccessor : List (String × String)) (changed : Bool) (changedNodes : List String)
    (hexternal : revision.externalFiles.lookup Reform.PATCH_MUST_ANSWER_QUESTIONS_PATH = none) :
    (Reform.reformFiles py canonical calls source reviewRound previous revision
      (Reform.preview_canonical_root_technical_approach coverLetter provenance normalized) revised noSuccessor
      changed changedNodes).lookup Reform.PATCH_MUST_ANSWER_QUESTIONS_PATH =
    if routedOf revision.closedQuestions = [] then none
    else some (.value (calls.questions (routedOf revision.closedQuestions))) := by
  have hexperience : Reform.PATCH_MUST_ANSWER_QUESTIONS_PATH ≠ Reform.IMPLEMENTATION_EXPERIENCE_REPORT_PATH := by
    decide
  have hcohort : (Reform.update revision.externalFiles (Reform.preview_canonical_root_technical_approach
      coverLetter provenance normalized).cohortFiles).lookup Reform.PATCH_MUST_ANSWER_QUESTIONS_PATH = none :=
    (Reform.lookup_update_of_absent (by
      show _ ∉ [Reform.COVER_PATH, Reform.PROVENANCE_PATH, Reform.ROOT_APPROACH_PATH]
      decide) _).trans hexternal
  have hfile : ∀ (files : Reform.Files) (reports : Prop) [Decidable reports] (content : Reform.Content),
      (if reports then files else Reform.put files Reform.IMPLEMENTATION_EXPERIENCE_REPORT_PATH content).lookup
        Reform.PATCH_MUST_ANSWER_QUESTIONS_PATH = files.lookup Reform.PATCH_MUST_ANSWER_QUESTIONS_PATH := by
    intro files reports _ content
    split_ifs
    · rfl
    · rw [Reform.lookup_put, if_neg hexperience]
  rw [Reform.reformFiles, Reform.lookup_put,
    if_neg (Reform.revision_delta_record_path_ne _ head_questions_path), hfile]
  show List.lookup _ (if (routedOf revision.closedQuestions).isEmpty = true then _ else _) = _
  by_cases hrouted : routedOf revision.closedQuestions = []
  · rw [if_pos hrouted, if_pos (List.isEmpty_iff.2 hrouted), Reform.lookup_put,
      if_neg (Reform.author_response_record_path_ne _ _ head_questions_path), hcohort]
  · rw [if_neg hrouted, if_neg fun hempty => hrouted (List.isEmpty_iff.1 hempty), Reform.lookup_put,
      if_pos rfl]
    rfl

theorem reviseApproach_ok {ground : Reform.Source → Fields → Except String Fields} {source : Reform.Source}
    {view previous : Fields} {revision : Reform.Revision}
    (h : reviseApproach py canonical runStep ground source view previous = .ok revision) :
    ∃ reformed, _reform_technical_approach py canonical runStep previous
        (_affected_reform_steps py previous (authorBlocking source)) = .ok reformed ∧
      revision.closedQuestions = reformed.closedQuestions ∧
      revision.externalFiles = reformed.externalFiles := by
  obtain ⟨patchSeries, -, h⟩ := bind_eq_ok_iff.1 h
  obtain ⟨reformed, hreformed, h⟩ := bind_eq_ok_iff.1 h
  obtain rfl := Except.ok.inj h
  exact ⟨reformed, hreformed, rfl, rfl⟩

def ClosingRun.authorVersion (run : ClosingRun) : ℤ := run.source.latest.getD 0 + 1

/-- What a run commits: a root after the previous one, the closures of its steps in the ledger, and the
artifact where a question goes to the patch. -/
structure Commits (py : PyLib) (codec : QuestionsCodec) (canonical : Json → String) (run : ClosingRun)
    (committed : Committed) (before root ledger : Fields) : Prop where
  previous_tree : run.source.technicalApproach = .obj before
  committed_root : committed.root = some (.obj root)
  committed_ledger : committed.ledger = some (.obj ledger)
  closed : ∃ reviewRound, ledger.get "closed_questions" =
    .arr ((run.closures py codec canonical).map (Reform.closedQuestion py reviewRound))
  declared : ∀ closed ∈ run.closures py codec canonical, Declared before closed
  dropped : ∀ question ∈ openQuestions before, question ∉ openQuestions root ↔
    question ∈ (run.closures py codec canonical).map fun closure => Fields.get closure "question"
  kept : run.routed py codec canonical = [] → run.after codec committed = run.branch
  written : run.routed py codec canonical ≠ [] → ∃ content, codec.prepare (Review.artifactOf
      (_questions_artifact_with_routed_closures py codec run.branch run.codecFails
        (run.routed py codec canonical) run.authorVersion)) = some content ∧
    run.after codec committed = { run.branch with canonical := some content }

theorem ClosingRun.commits_ok (h : run.commits py codec nfc canonical text preflight = some committed) :
    ∃ before root ledger, Commits py codec canonical run committed before root ledger := by
  unfold ClosingRun.commits at h
  split at h
  swap
  · cases h
  rename_i committed' hrun
  split_ifs at h with hambiguous
  obtain rfl := Option.some.inj h
  obtain ⟨view, before, reviewRound, revision, normalized, hview, hbefore, hlatest, hrevise, hprepare,
    patchSeries, hcommit⟩ := Reform.reform_inv hrun
  obtain ⟨-, hroot, next, prose, noSuccessor, hledger⟩ := Reform.commitRoot_ok hcommit
  obtain ⟨revised, noSuccessor', changed, changedNodes, hfiles⟩ := Reform.commitRoot_files hcommit
  obtain ⟨reformed, hreformed, hclosedQuestions, hexternalFiles⟩ := reviseApproach_ok hrevise
  have hprevious : run.previous = before := by
    rw [ClosingRun.previous, show run.source.technicalApproach = .obj before from hbefore]
  subst hprevious
  have hclosures : run.closures py codec canonical = reformed.closedQuestions := by
    rw [ClosingRun.closures, show _reform_technical_approach py canonical (run.reform py codec).runStep
      run.previous ((run.reform py codec).steps py run.previous) = .ok reformed from hreformed]
  obtain ⟨hdeclared, hexternal⟩ := reformed_ok hreformed
  have hrouted : routedOf revision.closedQuestions = run.routed py codec canonical := by
    rw [ClosingRun.routed, hclosures, hclosedQuestions, routedOf]
  have hartifact := @reformFiles_questions py canonical
    ((run.reform py codec).calls py canonical nfc text) run.source reviewRound run.previous revision patchSeries
    ((run.reform py codec).calls py canonical nfc text).provenance normalized revised noSuccessor' changed
    changedNodes (by rw [hexternalFiles, hexternal])
  rw [hrouted] at hartifact
  refine ⟨run.previous, normalized, _, ⟨hbefore, hroot, hledger, ⟨reviewRound, ?_⟩, ?_, ?_, ?_, ?_⟩⟩
  · rw [hclosures, ← hclosedQuestions]
    rfl
  · rw [hclosures]
    exact hdeclared
  · intro question hquestion
    obtain ⟨problem, hproblem⟩ : ∃ problem : Fields, run.previous.get "problem" = .obj problem := by
      rw [openQuestions, childFields] at hquestion
      split at hquestion
      · exact ⟨_, by assumption⟩
      · cases hquestion
    obtain ⟨reformed', hreformed', hquestions⟩ := openQuestions_published
      ⟨hbefore, _, hrun, hroot⟩ hproblem
    obtain rfl := Except.ok.inj (hreformed.symm.trans hreformed')
    rw [hquestions, hclosures, mem_filter, not_and]
    simp [hquestion]
  · intro hnone
    rw [if_pos hnone] at hartifact
    rw [ClosingRun.after, Reform.lookup_prepared_none isHandoff_questions hfiles hartifact]
  · intro hsome
    rw [if_neg hsome] at hartifact
    obtain ⟨hcommitted, haccepted⟩ := Reform.lookup_prepared_handoff isHandoff_questions hfiles hartifact
    rw [withCodec] at haccepted
    dsimp only at haccepted
    rw [if_pos rfl] at haccepted
    obtain ⟨content, hcontent⟩ := Option.isSome_iff_exists.1 haccepted
    refine ⟨content, ?_, ?_⟩
    · rw [← hcontent, ClosingRun.authorVersion]
      rfl
    · rw [ClosingRun.after, hcommitted]
      dsimp only
      rw [hcontent]

/-! ### Conservation -/

def ledgerClosures (ledger : Fields) : List Fields := mappings (childItems ledger "closed_questions")

/-- What a reform conserves of the open questions, and of the questions for the patch on the branch: a question
that is dropped is closed in the ledger, one that is routed to the patch is asked for, and all that was asked
for still is. -/
structure Conserves (codec : QuestionsCodec) (before root ledger : Fields) (branch branch' : Branch) : Prop where
  closed : ∀ question ∈ openQuestions before, question ∉ openQuestions root →
    ∃ closed ∈ ledgerClosures ledger, closed.get "question" = question
  routed : ∀ question ∈ openQuestions before, question ∉ openQuestions root →
    ∀ closed ∈ ledgerClosures ledger, closed.get "question" = question →
      closed.get "closure_kind" = .str "routed_to_patch" → ∃ entry ∈ recorded codec branch',
        entry.get "claim" = question ∧ entry.get "executable_check" = closed.get "executable_check"
  kept : ∀ entry ∈ recorded codec branch, ∃ kept ∈ recorded codec branch', SameQuestion kept entry

/-- A run hands no question to the patch. Or it reads what is recorded, and where the id of one that it hands
over is there already, that question is asked for there. Where its codec fails, it writes again what is
recorded. -/
def ClosingRun.Sound (py : PyLib) (codec : QuestionsCodec) (canonical : Json → String) (run : ClosingRun) :
    Prop :=
  run.routed py codec canonical = [] ∨
  (run.codecFails = false → ∀ closure ∈ run.routed py codec canonical,
    openQuestionId py closure ∈ knownIds py (recorded codec run.branch) →
      ∃ entry ∈ recorded codec run.branch, Asks entry (py.strOr (closure.get "executable_check") "")
        (py.strOr (closure.get "question") "")) ∧
  (run.codecFails = true → ∀ entry ∈ recorded codec run.branch, ∃ closure ∈ run.routed py codec canonical,
    SameQuestion (routedEntry py run.authorVersion closure) entry)

theorem mem_ledgerClosures {closures : List Fields} {reviewRound : ℤ}
    (hledger : ledger.get "closed_questions" = .arr (closures.map (Reform.closedQuestion py reviewRound)))
    (hdeclared : ∀ closed ∈ closures, Declared before closed) (closed : Fields) :
    closed ∈ ledgerClosures ledger ↔ ∃ step closure, Closure.toFields step closure ∈ closures ∧
      closed = closure.toFields step ++ [("decided_after_review_round", .int reviewRound)] := by
  have hitems : childItems ledger "closed_questions" =
      closures.map (Reform.closedQuestion py reviewRound) := by
    rw [childItems, hledger]
  rw [ledgerClosures, hitems, mappings, mem_filterMap]
  constructor
  · rintro ⟨item, hitem, hclosed⟩
    obtain ⟨declared, hmem, rfl⟩ := mem_map.1 hitem
    obtain ⟨step, closure, rfl, -⟩ := hdeclared declared hmem
    rw [closedQuestion_toFields] at hclosed
    exact ⟨step, closure, hmem, (Option.some.inj hclosed).symm⟩
  · rintro ⟨step, closure, hmem, rfl⟩
    exact ⟨_, mem_map_of_mem hmem, by rw [closedQuestion_toFields]⟩

theorem get_question_toFields (step : Step) (closure : Closure) (rest : Fields) :
    Fields.get (closure.toFields step ++ rest) "question" = .str closure.question := by
  simp [Closure.toFields, Fields.get]

theorem get_kind_toFields (step : Step) (closure : Closure) (rest : Fields) :
    Fields.get (closure.toFields step ++ rest) "closure_kind" = .str closure.closureKind.name := by
  simp [Closure.toFields, Fields.get, List.lookup]

theorem get_check_toFields (step : Step) (closure : Closure) (rest : Fields) :
    Fields.get (closure.toFields step ++ rest) "executable_check" = .str closure.executableCheck := by
  simp [Closure.toFields, Fields.get, List.lookup]

theorem mem_planQuestions {approach : Fields} {question : String} :
    question ∈ planQuestions approach ↔ .str question ∈ openQuestions approach := by
  rw [planQuestions, mem_filterMap]
  constructor
  · rintro ⟨item, hitem, hquestion⟩
    cases item with
    | str text =>
      obtain rfl := Option.some.inj hquestion
      exact hitem
    | _ => cases hquestion
  · intro hquestion
    exact ⟨_, hquestion, rfl⟩

theorem asks_written_iff {read routed : List Fields} {version : ℤ} :
    (∀ closure ∈ routed, ∃ entry ∈ read ++ (routed.filter fun closure =>
        openQuestionId py closure ∉ knownIds py read).map (routedEntry py version),
      Asks entry (py.strOr (closure.get "executable_check") "") (py.strOr (closure.get "question") "")) ↔
    ∀ closure ∈ routed, openQuestionId py closure ∈ knownIds py read →
      ∃ entry ∈ read, Asks entry (py.strOr (closure.get "executable_check") "")
        (py.strOr (closure.get "question") "") := by
  constructor
  · intro hall closure hclosure hknown
    obtain ⟨entry, hentry, hasks⟩ := hall closure hclosure
    rcases mem_append.1 hentry with hentry | hentry
    · exact ⟨entry, hentry, hasks⟩
    · -- an entry that is new has another id, so it is for another question
      obtain ⟨other, hother, rfl⟩ := mem_map.1 hentry
      obtain ⟨-, hnew⟩ := mem_filter.1 hother
      have hclaim : py.strOr (other.get "question") "" = py.strOr (closure.get "question") "" :=
        Json.str.inj hasks.2
      rw [openQuestionId, hclaim] at hnew
      simp only [decide_not, Bool.not_eq_true', decide_eq_false_iff_not] at hnew
      exact absurd hknown hnew
  · intro hall closure hclosure
    by_cases hknown : openQuestionId py closure ∈ knownIds py read
    · obtain ⟨entry, hentry, hasks⟩ := hall closure hclosure hknown
      exact ⟨entry, mem_append_left _ hentry, hasks⟩
    · refine ⟨routedEntry py version closure, mem_append_right _ (mem_map_of_mem ?_), rfl, rfl⟩
      exact mem_filter.2 ⟨hclosure, by simpa using hknown⟩

theorem recorded_written {questions : List Fields} {content : String}
    (h : codec.prepare (Review.artifactOf questions) = some content) (branch : Branch) :
    Forall₂ SameQuestion (recorded codec { branch with canonical := some content }) questions := by
  obtain ⟨parsed, hparsed, hsame⟩ := codec.prepared _ _ h
  rw [recorded, Option.some_or, Option.bind_some, hparsed]
  exact hsame

theorem Commits.routed_iff (h : Commits py codec canonical run committed before root ledger)
    {branch' : Branch} :
    (∀ question ∈ openQuestions before, question ∉ openQuestions root →
      ∀ closed ∈ ledgerClosures ledger, closed.get "question" = question →
        closed.get "closure_kind" = .str "routed_to_patch" → ∃ entry ∈ recorded codec branch',
          entry.get "claim" = question ∧ entry.get "executable_check" = closed.get "executable_check") ↔
    ∀ closure ∈ run.routed py codec canonical, ∃ entry ∈ recorded codec branch',
      Asks entry (py.strOr (closure.get "executable_check") "") (py.strOr (closure.get "question") "") := by
  obtain ⟨reviewRound, hledger⟩ := h.closed
  have hmem := mem_ledgerClosures hledger h.declared
  have hget : ∀ (step : Step) (closure : Closure),
      py.strOr (Fields.get (closure.toFields step) "executable_check") "" = closure.executableCheck ∧
      py.strOr (Fields.get (closure.toFields step) "question") "" = closure.question := by
    intro step closure
    have hcheck := get_check_toFields step closure []
    have hquestion := get_question_toFields step closure []
    rw [append_nil] at hcheck hquestion
    rw [hcheck, hquestion, PyLib.strOr_str, PyLib.strOr_str]
    exact ⟨rfl, rfl⟩
  constructor
  · intro hall closed hclosed
    obtain ⟨hclosure, hkind⟩ := mem_filter.1 hclosed
    obtain ⟨step, closure, rfl, hopen⟩ := h.declared closed hclosure
    have hopen := mem_planQuestions.1 hopen
    have hquestion := get_question_toFields step closure
    have hdropped := (h.dropped _ hopen).2 (mem_map.2 ⟨_, hclosure, by
      have := hquestion []
      rwa [append_nil] at this⟩)
    have hrouted : closure.closureKind.name = "routed_to_patch" := by
      have hname := get_kind_toFields step closure []
      rw [append_nil] at hname
      rw [decide_eq_true_eq, hname] at hkind
      exact Json.str.inj hkind
    obtain ⟨entry, hentry, hclaim, hcheck⟩ := hall _ hopen hdropped _ ((hmem _).2 ⟨step, closure, hclosure, rfl⟩)
      (hquestion _) (by rw [get_kind_toFields, hrouted])
    rw [get_check_toFields] at hcheck
    rw [(hget step closure).1, (hget step closure).2]
    exact ⟨entry, hentry, hcheck, hclaim⟩
  · intro hall question _ _ closed hclosed hquestion hkind
    obtain ⟨step, closure, hclosure, rfl⟩ := (hmem closed).1 hclosed
    rw [get_kind_toFields] at hkind
    rw [get_question_toFields] at hquestion
    have hrouted : closure.toFields step ∈ run.routed py codec canonical := by
      refine mem_filter.2 ⟨hclosure, ?_⟩
      have hname := get_kind_toFields step closure []
      rw [append_nil] at hname
      rw [hname, hkind]
      simp
    obtain ⟨entry, hentry, hcheck, hclaim⟩ := hall _ hrouted
    rw [(hget step closure).1] at hcheck
    rw [(hget step closure).2, hquestion] at hclaim
    rw [get_check_toFields]
    exact ⟨entry, hentry, hclaim, hcheck⟩

theorem Commits.conserves_iff (hcommits : Commits py codec canonical run committed before root ledger) :
    Conserves codec before root ledger run.branch (run.after codec committed) ↔
      run.Sound py codec canonical := by
  obtain ⟨reviewRound, hledger⟩ := hcommits.closed
  have hclosed : ∀ question ∈ openQuestions before, question ∉ openQuestions root →
      ∃ closed ∈ ledgerClosures ledger, closed.get "question" = question := by
    intro question hopen hdropped
    obtain ⟨declared, hmem, hquestion⟩ := mem_map.1 ((hcommits.dropped question hopen).1 hdropped)
    obtain ⟨step, closure, rfl, -⟩ := hcommits.declared declared hmem
    refine ⟨_, (mem_ledgerClosures hledger hcommits.declared _).2 ⟨step, closure, hmem, rfl⟩, ?_⟩
    have hget := get_question_toFields step closure []
    rw [append_nil] at hget
    rw [get_question_toFields, ← hquestion, hget]
  have hconserves : Conserves codec before root ledger run.branch (run.after codec committed) ↔
      (∀ closure ∈ run.routed py codec canonical, ∃ entry ∈ recorded codec (run.after codec committed),
        Asks entry (py.strOr (closure.get "executable_check") "") (py.strOr (closure.get "question") "")) ∧
      ∀ entry ∈ recorded codec run.branch, ∃ kept ∈ recorded codec (run.after codec committed),
        SameQuestion kept entry := by
    rw [← hcommits.routed_iff]
    exact ⟨fun h => ⟨h.routed, h.kept⟩, fun h => ⟨hclosed, h.1, h.2⟩⟩
  rw [hconserves]
  by_cases hrouted : run.routed py codec canonical = []
  · rw [hcommits.kept hrouted, hrouted]
    exact ⟨fun _ => .inl hrouted, fun _ => ⟨fun _ hmem => absurd hmem not_mem_nil,
      fun entry hentry => ⟨entry, hentry, fun _ => rfl⟩⟩⟩
  obtain ⟨content, hcontent, hafter⟩ := hcommits.written hrouted
  rw [hafter]
  have hsame := recorded_written hcontent run.branch
  -- what is recorded after the run and what it writes ask the same questions
  have hasks : ∀ check claim, (∃ entry ∈ recorded codec { run.branch with canonical := some content },
      Asks entry check claim) ↔ ∃ entry ∈ _questions_artifact_with_routed_closures py codec run.branch
        run.codecFails (run.routed py codec canonical) run.authorVersion, Asks entry check claim := by
    intro check claim
    constructor
    · rintro ⟨entry, hentry, hask⟩
      obtain ⟨written, hwritten, hentrySame⟩ := Traverse.exists_of_mem_right hsame.flip hentry
      exact ⟨written, hwritten, (SameQuestion.symm hentrySame).asks hask⟩
    · rintro ⟨written, hwritten, hask⟩
      obtain ⟨entry, hentry, hentrySame⟩ := Traverse.exists_of_mem_right hsame hwritten
      exact ⟨entry, hentry, hentrySame.asks hask⟩
  have hkept : ∀ old, (∃ kept ∈ recorded codec { run.branch with canonical := some content },
      SameQuestion kept old) ↔ ∃ written ∈ _questions_artifact_with_routed_closures py codec run.branch
        run.codecFails (run.routed py codec canonical) run.authorVersion, SameQuestion written old := by
    intro old
    constructor
    · rintro ⟨entry, hentry, hold⟩
      obtain ⟨written, hwritten, hentrySame⟩ := Traverse.exists_of_mem_right hsame.flip hentry
      exact ⟨written, hwritten, (SameQuestion.symm hentrySame).trans hold⟩
    · rintro ⟨written, hwritten, hold⟩
      obtain ⟨entry, hentry, hentrySame⟩ := Traverse.exists_of_mem_right hsame hwritten
      exact ⟨entry, hentry, hentrySame.trans hold⟩
  simp only [hasks, hkept]
  rw [ClosingRun.Sound, or_iff_right hrouted, _questions_artifact_with_routed_closures]
  cases hfails : run.codecFails with
  | false =>
    have hread : readQuestions codec run.branch false = recorded codec run.branch := rfl
    rw [hread, asks_written_iff]
    constructor
    · exact fun h => ⟨fun _ => h.1, fun h => by cases h⟩
    · exact fun h => ⟨h.1 rfl, fun entry hentry => ⟨entry, mem_append_left _ hentry, fun _ => rfl⟩⟩
  | true =>
    have hread : readQuestions codec run.branch true = [] := rfl
    rw [hread, asks_written_iff]
    have hnew : ∀ closures : List Fields,
        (closures.filter fun closure => openQuestionId py closure ∉ knownIds py []) = closures := by
      intro closures
      simp [knownIds]
    rw [hnew, nil_append]
    constructor
    · intro h
      refine ⟨(fun h => by cases h), fun _ entry hentry => ?_⟩
      obtain ⟨written, hwritten, hold⟩ := h.2 entry hentry
      obtain ⟨closure, hclosure, rfl⟩ := mem_map.1 hwritten
      exact ⟨closure, hclosure, hold⟩
    · intro h
      refine ⟨fun closure _ hknown => ?_, fun entry hentry => ?_⟩
      · simp [knownIds] at hknown
      · obtain ⟨closure, hclosure, hold⟩ := h.2 rfl entry hentry
        exact ⟨_, mem_map_of_mem hclosure, hold⟩

/-- A reform that returns ok conserves the open questions and the questions for the patch exactly if it is
sound where it stands. -/
theorem questions_conserved_iff (h : run.commits py codec nfc canonical text preflight = some committed) :
    ∃ before root ledger, run.source.technicalApproach = .obj before ∧ committed.root = some (.obj root) ∧
      committed.ledger = some (.obj ledger) ∧
      (Conserves codec before root ledger run.branch (run.after codec committed) ↔
        run.Sound py codec canonical) := by
  obtain ⟨before, root, ledger, hcommits⟩ := ClosingRun.commits_ok h
  exact ⟨before, root, ledger, hcommits.previous_tree, hcommits.committed_root, hcommits.committed_ledger,
    hcommits.conserves_iff⟩

section Example

def twoConstraints (first : String) : Fields :=
  [("hard_constraints", .arr [.obj [("constraint", .str first)], .obj [("constraint", .str "offline")]]),
    ("soft_preferences", .arr [])]

/-- A formed root with an open question. -/
def questionRoot (question : String) : Fields :=
  let tree := (_assemble_technical_approach asciiLib
    [("success_criteria", .arr [Producer.rootGoal "goal:1" false]),
    ("open_questions", .arr [.str question])]
    { formationOutputs with constraints := twoConstraints "fast" }).getD []
  match Producer.prepare_producer_aware_formation asciiLib id (fun _ _ _ => .ok emptyCarrier) tree none with
  | .ok root => root
  | .error _ => []

/-- The question that the patch is asked for a closure. -/
def sampleEntry (question : String) : Fields :=
  routedEntry asciiLib 2 [("question", .str question), ("resolution", .str "the patch measures it"),
    ("executable_check", .str ("make " ++ question))]

/-- A revision of the constraints that hands the open question to the patch. -/
def closingRun (question : String) (recorded : Option String) : ClosingRun where
  source := { Reform.sampleSource with
    openBlocking := [[("objection_id", .str "objection"), ("anchor_node_ids", .arr [.str "constraint:hard:1"])]]
    technicalApproach := .obj (questionRoot question) }
  ground _ view := .ok view
  reply _ _ := .ok ⟨twoConstraints "faster", [], [], .arr [.obj [("question", .str question),
    ("resolution", .str "the patch measures it"), ("closure_kind", .str "routed_to_patch"),
    ("executable_check", .str ("make " ++ question))]], []⟩
  carrierOf _ _ _ := .ok emptyCarrier
  others := Reform.sampleCalls []
  branch := ⟨recorded, none⟩
  codecFails := false

theorem artifactOf_injective : Function.Injective Review.artifactOf := by
  intro a b h
  have hitems : a.map Json.obj = b.map Json.obj := by simpa [Review.artifactOf] using h
  exact map_injective_iff.2 (fun _ _ => Json.obj.inj) hitems

def sampleClosureCodec (question : String) : QuestionsCodec where
  parse text := if text = "artifact" then some (Review.artifactOf [sampleEntry question]) else none
  prepare value := if value = Review.artifactOf [sampleEntry question] then some "artifact" else none
  prepared questions text h := by
    split_ifs at h with hvalue
    cases h
    refine ⟨_, if_pos rfl, ?_⟩
    rw [artifactOf_injective hvalue]
    exact forall₂_same.2 fun _ _ _ => rfl

/-- A question on the format was handed to the patch before. One on the units is, and since neither has a
letter that a slug keeps, the patch is not asked for it. -/
theorem routed_question_lost : ∃ committed before root ledger,
    (closingRun "単位は" (some "artifact")).commits asciiLib (sampleClosureCodec "書式は") id Reform.sampleText
      (fun _ => "") Reform.samplePreflight = some committed ∧
    Commits asciiLib (sampleClosureCodec "書式は") Reform.sampleText (closingRun "単位は" (some "artifact"))
      committed before root ledger ∧
    ¬ Conserves (sampleClosureCodec "書式は") before root ledger ⟨some "artifact", none⟩
      ((closingRun "単位は" (some "artifact")).after (sampleClosureCodec "書式は") committed) := by
  have hcommits : ((closingRun "単位は" (some "artifact")).commits asciiLib (sampleClosureCodec "書式は") id
      Reform.sampleText (fun _ => "") Reform.samplePreflight).isSome = true := by decide +kernel
  obtain ⟨committed, hcommitted⟩ := Option.isSome_iff_exists.1 hcommits
  obtain ⟨before, root, ledger, hrun⟩ := ClosingRun.commits_ok hcommitted
  refine ⟨committed, before, root, ledger, hcommitted, hrun, fun hconserves => ?_⟩
  have hrouted : (closingRun "単位は" (some "artifact")).routed asciiLib (sampleClosureCodec "書式は")
      Reform.sampleText = [[("question", .str "単位は"), ("resolution", .str "the patch measures it"),
        ("closure_kind", .str "routed_to_patch"), ("executable_check", .str "make 単位は"),
        ("step", .str "constraints")]] := by decide +kernel
  have hrecorded : recorded (sampleClosureCodec "書式は") (closingRun "単位は" (some "artifact")).branch =
      [sampleEntry "書式は"] := by decide +kernel
  rcases hrun.conserves_iff.1 hconserves with hnone | ⟨hsound, -⟩
  · rw [hrouted] at hnone
    cases hnone
  · rw [hrouted, hrecorded] at hsound
    obtain ⟨entry, hentry, -, hclaim⟩ := hsound rfl _ mem_cons_self (by decide +kernel)
    obtain rfl := mem_singleton.1 hentry
    revert hclaim
    decide +kernel

/-- The first question that is handed to the patch. -/
theorem questions_conserved_iff_first : ∃ committed before root ledger,
    (closingRun "書式は" none).commits asciiLib (sampleClosureCodec "書式は") id Reform.sampleText
      (fun _ => "") Reform.samplePreflight = some committed ∧
    (closingRun "書式は" none).source.technicalApproach = .obj before ∧
    committed.root = some (.obj root) ∧ committed.ledger = some (.obj ledger) ∧
    Conserves (sampleClosureCodec "書式は") before root ledger ⟨none, none⟩
      ((closingRun "書式は" none).after (sampleClosureCodec "書式は") committed) := by
  have hcommits : ((closingRun "書式は" none).commits asciiLib (sampleClosureCodec "書式は") id
      Reform.sampleText (fun _ => "") Reform.samplePreflight).isSome = true := by decide +kernel
  obtain ⟨committed, hcommitted⟩ := Option.isSome_iff_exists.1 hcommits
  obtain ⟨before, root, ledger, hbefore, hroot, hledger, hiff⟩ := questions_conserved_iff hcommitted
  refine ⟨committed, before, root, ledger, hcommitted, hbefore, hroot, hledger, hiff.2 (.inr ⟨?_, ?_⟩)⟩
  · intro _ closure _ hknown
    have hnone : recorded (sampleClosureCodec "書式は") (closingRun "書式は" none).branch = [] := rfl
    rw [hnone] at hknown
    cases hknown
  · intro hfails
    cases hfails

end Example

end Approach

end AiOrg
