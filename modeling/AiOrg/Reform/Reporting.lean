import AiOrg.Proofs.Experience

/-!
# Reports of failed checks

What stands in the experience file of a series, whether the codec reads it or not, and the calls that reported a failed
check since the reports were last processed.
-/

namespace AiOrg

open List

namespace Reform

open Review (Branch)

/-- What stands in a committed text, whether or not the codec takes it. -/
structure Contents (codec : ExperienceCodec) where
  entries : String → List Fields
  parsed : ∀ text parsed, codec.parse text = some parsed → entries text = reportsOf parsed

structure FailedCheck where
  brief : Fields
  question : Fields
  contingency : Fields
  check_failure : Fields

namespace FailedCheck

variable (py : PyLib) (codec : ExperienceCodec) (failed : FailedCheck)

def objection_id : String := py.strOr (failed.question.get "objection_id") ""

def report : Fields :=
  experienceReport py failed.brief failed.question failed.contingency failed.check_failure

def commit (branch : Branch) : Option Branch :=
  _commit_implementation_experience_report py codec branch failed.brief failed.question failed.contingency
    failed.check_failure

def event : Event := .report failed.brief failed.question failed.contingency failed.check_failure

end FailedCheck

def Contents.file {codec : ExperienceCodec} (contents : Contents codec) (branch : Branch) : List Fields :=
  ((branch.canonical.or branch.legacy).map contents.entries).getD []

structure History where
  branch : Branch
  made : List FailedCheck

section Run

variable (py : PyLib) (codec : ExperienceCodec) (canonical : Json → String) (preflight : Preflight)

/-- The history after an event: a reform that commits reports has processed them. -/
def History.after (history : History) (event : Event) : History where
  branch := afterEvent py codec canonical preflight history.branch event
  made :=
    match event with
    | .reform calls source =>
      match reformOn py codec canonical preflight history.branch calls source with
      | some (_ :: _, _) => []
      | _ => history.made
    | .report brief question contingency check_failure =>
      let failed : FailedCheck := ⟨brief, question, contingency, check_failure⟩
      if (failed.commit py codec history.branch).isSome then history.made ++ [failed] else history.made

def History.run (history : History) (events : List Event) : History :=
  events.foldl (History.after py codec canonical preflight) history

/-- A report is the unprocessed one of a failed check: it has its objection, its evidence and its plan. -/
structure Carries (report : Fields) (failed : FailedCheck) : Prop where
  unprocessed : processed report = false
  objection_id : py.strOr (report.get "objection_id") "" = failed.objection_id py
  evidence : report.get "check_failure_evidence" = (failed.report py).get "check_failure_evidence"
  plan : report.get "contingency_plan" = (failed.report py).get "contingency_plan"

/-- Every unprocessed report that is read is that of a check reported since the last processing. -/
def Traced (history : History) : Prop :=
  ∀ report ∈ recordedReports codec history.branch, processed report = false →
    ∃ failed ∈ history.made, Carries py report failed

variable {codec} (contents : Contents codec)

/-- Every entry of the file is there afterwards, unchanged. -/
def Keeps (branch branch' : Branch) : Prop :=
  ∀ report ∈ contents.file branch, ∃ kept ∈ contents.file branch', SameReport kept report

/-- An unprocessed entry for the objection is that of some check reported for it. -/
def Evidenced (made : List FailedCheck) (branch' : Branch) (failed : FailedCheck) : Prop :=
  ∃ report ∈ contents.file branch', ∃ other ∈ made, other.objection_id py = failed.objection_id py ∧
    Carries py report other

/-- A call of a run returns ok with every entry kept and the objection evidenced. -/
def ReportsKept (start : History) (events : List Event) : Prop :=
  ∀ before failed after branch', events = before ++ FailedCheck.event failed :: after →
    failed.commit py codec (start.run py codec canonical preflight before).branch = some branch' →
    Keeps contents (start.run py codec canonical preflight before).branch branch' ∧
      Evidenced py contents (start.run py codec canonical preflight (before ++ [failed.event])).made branch' failed

/-- The codec reads the file, or nothing stands in it but what the call writes. -/
def Reads (branch : Branch) (failed : FailedCheck) : Prop :=
  ∀ text, branch.canonical.or branch.legacy = some text → codec.parse text = none →
    ∀ report ∈ contents.entries text, SameReport (failed.report py) report

end Run

end Reform

end AiOrg

/-!
## What a report keeps

A call writes back the reports that the codec reads, with one more where none stands unprocessed for its objection. So
what the codec does not read is lost, and nothing else is (`reports_kept_iff`).
-/

namespace AiOrg

open List

namespace Reform

open Review (Branch)

variable {py : PyLib} {codec : ExperienceCodec} {contents : Contents codec} {canonical : Json → String}
  {preflight : Preflight} {branch branch' : Branch} {failed : FailedCheck} {history : History}

/-! ### One call -/

theorem Contents.file_eq (contents : Contents codec)
    (h : ∀ text, branch.canonical.or branch.legacy = some text → codec.parse text ≠ none) :
    contents.file branch = recordedReports codec branch := by
  unfold Contents.file recordedReports
  cases htext : branch.canonical.or branch.legacy with
  | none => rfl
  | some text =>
    obtain ⟨parsed, hparsed⟩ := Option.ne_none_iff_exists'.1 (h text htext)
    rw [Option.map_some, Option.bind_some, hparsed, contents.parsed _ _ hparsed]
    rfl

theorem processed_report : processed (failed.report py) = false := by
  simp [processed, FailedCheck.report, experienceReport, processedKey, Fields.get, lookup_cons, Json.truthy]

theorem carries_report : Carries py (failed.report py) failed where
  unprocessed := processed_report
  objection_id := PyLib.strOr_str ..
  evidence := rfl
  plan := rfl

theorem Carries.congr {a b : Fields} (h : Carries py a failed) (hsame : SameReport b a) : Carries py b failed where
  unprocessed := hsame.processed_eq.trans h.unprocessed
  objection_id := by rw [hsame, h.objection_id]
  evidence := (hsame _).trans h.evidence
  plan := (hsame _).trans h.plan

/-- An unprocessed report stands for the objection of a check. -/
def Known (py : PyLib) (codec : ExperienceCodec) (branch : Branch) (failed : FailedCheck) : Prop :=
  ∃ report ∈ recordedReports codec branch, processed report = false ∧
    py.strOr (report.get "objection_id") "" = failed.objection_id py

open Classical in
theorem file_of_commit (contents : Contents codec) (h : failed.commit py codec branch = some branch') :
    contents.file branch' = recordedReports codec branch' ∧ Forall₂ SameReport (contents.file branch')
      (recordedReports codec branch ++ if Known py codec branch failed then [] else [failed.report py]) := by
  rw [FailedCheck.commit, _commit_implementation_experience_report] at h
  split_ifs at h
  obtain ⟨text, htext, rfl⟩ := Option.map_eq_some_iff.1 h
  obtain ⟨parsed, hparsed, -⟩ := codec.prepared _ _ htext
  have hfile := @Contents.file_eq codec { branch with canonical := some text } contents (by
    intro other hother
    rw [Option.some_or, Option.some.injEq] at hother
    rw [← hother, hparsed]
    exact Option.some_ne_none _)
  refine ⟨hfile, hfile ▸ ?_⟩
  have hrecorded := @recorded_prepared codec branch _ _ htext
  have hknown : ((recordedReports codec branch).any fun entry =>
      py.strOr (entry.get "objection_id") "" = py.strOr (failed.question.get "objection_id") "" &&
        !processed entry) = true ↔ Known py codec branch failed := by
    simp [Known, FailedCheck.objection_id, and_comm]
  by_cases hcase : Known py codec branch failed
  · rw [if_pos (hknown.2 hcase)] at hrecorded
    rw [if_pos hcase, append_nil]
    exact hrecorded
  · rw [if_neg (mt hknown.1 hcase)] at hrecorded
    rw [if_neg hcase]
    exact hrecorded

theorem exists_same_of_mem {xs ys : List Fields} (h : Forall₂ SameReport xs ys) :
    (∀ y ∈ ys, ∃ x ∈ xs, SameReport x y) ∧ ∀ x ∈ xs, ∃ y ∈ ys, SameReport x y := by
  induction h with
  | nil => simp
  | @cons x y xs ys hxy _ ih =>
    refine ⟨fun b hb => ?_, fun a ha => ?_⟩
    · rcases mem_cons.1 hb with rfl | hb
      · exact ⟨x, mem_cons_self, hxy⟩
      · obtain ⟨a, ha, hsame⟩ := ih.1 b hb
        exact ⟨a, mem_cons_of_mem x ha, hsame⟩
    · rcases mem_cons.1 ha with rfl | ha
      · exact ⟨y, mem_cons_self, hxy⟩
      · obtain ⟨b, hb, hsame⟩ := ih.2 a ha
        exact ⟨b, mem_cons_of_mem y hb, hsame⟩

theorem keeps_iff (h : failed.commit py codec branch = some branch') :
    Keeps contents branch branch' ↔ Reads py contents branch failed := by
  obtain ⟨-, hsame⟩ := file_of_commit contents h
  by_cases hread : ∀ text, branch.canonical.or branch.legacy = some text → codec.parse text ≠ none
  · refine iff_of_true (fun report hreport => ?_) fun text htext hnone => absurd hnone (hread text htext)
    rw [contents.file_eq hread] at hreport
    exact (exists_same_of_mem hsame).1 report (mem_append_left _ hreport)
  · push Not at hread
    obtain ⟨text, htext, hnone⟩ := hread
    have hrecorded : recordedReports codec branch = [] := by
      rw [recordedReports, htext, Option.bind_some, hnone]
      rfl
    have hfile : contents.file branch = contents.entries text := by
      rw [Contents.file, htext]
      rfl
    have hunknown : ¬ Known py codec branch failed := by
      rintro ⟨report, hreport, -⟩
      rw [hrecorded] at hreport
      exact absurd hreport not_mem_nil
    rw [hrecorded, if_neg hunknown, nil_append] at hsame
    obtain ⟨hback, hforth⟩ := exists_same_of_mem hsame
    rw [Keeps, hfile]
    constructor
    · intro hkeeps other hother _ report hreport
      obtain rfl := Option.eq_some_unique htext hother
      obtain ⟨kept, hkept, hsameKept⟩ := hkeeps report hreport
      obtain ⟨new, hnew, hsameNew⟩ := hforth kept hkept
      obtain rfl := mem_singleton.1 hnew
      exact fun key => (hsameNew key).symm.trans (hsameKept key)
    · intro hreads report hreport
      obtain ⟨kept, hkept, hsameKept⟩ := hback _ (mem_singleton_self _)
      exact ⟨kept, hkept, fun key => (hsameKept key).trans (hreads text htext hnone report hreport key)⟩

theorem traced_commit (htraced : Traced py codec history) (h : failed.commit py codec history.branch = some branch') :
    Traced py codec ⟨branch', history.made ++ [failed]⟩ := by
  intro report hreport hunprocessed
  dsimp only at hreport
  obtain ⟨hfile, hsame⟩ := file_of_commit (⟨fun text => ((codec.parse text).map reportsOf).getD [], fun _ _ h => by
    rw [h]; rfl⟩ : Contents codec) h
  rw [hfile] at hsame
  obtain ⟨old, hold, hsameOld⟩ := (exists_same_of_mem hsame).2 report hreport
  rcases mem_append.1 hold with hold | hnew
  · obtain ⟨other, hother, hcarries⟩ := htraced old hold (hsameOld.processed_eq.symm.trans hunprocessed)
    exact ⟨other, mem_append_left _ hother, hcarries.congr hsameOld⟩
  · split_ifs at hnew
    · exact nomatch hnew
    · obtain rfl := mem_singleton.1 hnew
      exact ⟨failed, mem_append_right _ (mem_singleton_self _), carries_report.congr hsameOld⟩

theorem evidenced_commit (contents : Contents codec) (htraced : Traced py codec history)
    (h : failed.commit py codec history.branch = some branch') :
    Evidenced py contents (history.made ++ [failed]) branch' failed := by
  obtain ⟨hfile, hsame⟩ := file_of_commit contents h
  have hstanding : ∃ report ∈ contents.file branch', processed report = false ∧
      py.strOr (report.get "objection_id") "" = failed.objection_id py := by
    by_cases hknown : Known py codec history.branch failed
    · obtain ⟨old, hold, hunprocessed, hid⟩ := id hknown
      obtain ⟨report, hreport, hsameReport⟩ := (exists_same_of_mem hsame).1 old (mem_append_left _ hold)
      exact ⟨report, hreport, hsameReport.processed_eq.trans hunprocessed, by rw [hsameReport, hid]⟩
    · rw [if_neg hknown] at hsame
      obtain ⟨report, hreport, hsameReport⟩ := (exists_same_of_mem hsame).1 (failed.report py)
        (mem_append_right _ (mem_singleton_self _))
      exact ⟨report, hreport, hsameReport.processed_eq.trans processed_report,
        by rw [hsameReport, carries_report.objection_id]⟩
  obtain ⟨report, hreport, hunprocessed, hid⟩ := hstanding
  obtain ⟨other, hother, hcarries⟩ := traced_commit htraced h report (hfile ▸ hreport) hunprocessed
  exact ⟨report, hreport, other, hother, hcarries.objection_id.symm.trans hid, hcarries⟩

theorem Traced.after (htraced : Traced py codec history) (event : Event)
    (hevent : ∀ calls source, event = .reform calls source → Revises calls)
    (haccepts : ∀ body, preflight.accepts IMPLEMENTATION_EXPERIENCE_REPORT_PATH body =
      (codec.prepare body).isSome) :
    Traced py codec (history.after py codec canonical preflight event) := by
  cases event with
  | report brief question contingency check_failure =>
    cases hcommit : FailedCheck.commit py codec ⟨brief, question, contingency, check_failure⟩ history.branch with
    | none =>
      have hafter : history.after py codec canonical preflight (.report brief question contingency check_failure) =
          history := by
        rw [FailedCheck.commit] at hcommit
        rw [History.after, afterEvent]
        simp only [FailedCheck.commit, hcommit, Option.getD_none, Option.isSome_none, Bool.false_eq_true, if_false]
      rw [hafter]
      exact htraced
    | some branch' =>
      have hafter : history.after py codec canonical preflight (.report brief question contingency check_failure) =
          ⟨branch', history.made ++ [⟨brief, question, contingency, check_failure⟩]⟩ := by
        rw [FailedCheck.commit] at hcommit
        rw [History.after, afterEvent]
        simp only [FailedCheck.commit, hcommit, Option.getD_some, Option.isSome_some, if_true]
      rw [hafter]
      exact traced_commit htraced hcommit
  | reform calls source =>
    have hcalls := hevent calls source rfl
    intro report hreport hunprocessed
    rw [History.after] at hreport ⊢
    dsimp only at hreport ⊢
    cases hrun : reformOn py codec canonical preflight history.branch calls source with
    | none =>
      rw [afterEvent, hrun] at hreport
      exact htraced report hreport hunprocessed
    | some result =>
      obtain ⟨reports, committed⟩ := result
      cases reports with
      | nil =>
        obtain ⟨-, hwrites⟩ := reformOn_writes hcalls haccepts hrun
        rw [if_pos rfl] at hwrites
        rw [afterEvent, hrun] at hreport
        dsimp only at hreport
        rw [hwrites] at hreport
        exact htraced report hreport hunprocessed
      | cons first rest =>
        obtain ⟨version, hmarked, hrecorded⟩ := recorded_reformOn hcalls haccepts hrun (cons_ne_nil first rest)
        obtain ⟨marked, hmem, hsame⟩ := (exists_same_of_mem hrecorded).2 report hreport
        obtain ⟨old, hold, rfl⟩ := mem_map.1 hmem
        rw [hsame.processed_eq, hmarked old hold] at hunprocessed
        cases hunprocessed

theorem Traced.run {events : List Event} (htraced : Traced py codec history)
    (hevents : ∀ calls source, .reform calls source ∈ events → Revises calls)
    (haccepts : ∀ body, preflight.accepts IMPLEMENTATION_EXPERIENCE_REPORT_PATH body =
      (codec.prepare body).isSome) :
    Traced py codec (history.run py codec canonical preflight events) := by
  induction events generalizing history with
  | nil => exact htraced
  | cons event events ih =>
    refine ih (htraced.after event ?_ haccepts) fun calls source hmem =>
      hevents calls source (mem_cons_of_mem event hmem)
    rintro calls source rfl
    exact hevents calls source mem_cons_self

theorem made_concat (h : failed.commit py codec history.branch = some branch') :
    (history.after py codec canonical preflight failed.event).made = history.made ++ [failed] := by
  rw [FailedCheck.event, History.after]
  dsimp only
  rw [h, Option.isSome_some, if_pos rfl]

/-- Every call of a run that returns ok keeps the entries of the file, and leaves the objection with the evidence and
the plan of a call made since it was last processed, exactly when the codec reads the file at each of them, or nothing
stands in it but what the call writes. -/
theorem reports_kept_iff (contents : Contents codec) (start : History) (events : List Event)
    (htraced : Traced py codec start) (hevents : ∀ calls source, .reform calls source ∈ events → Revises calls)
    (haccepts : ∀ body, preflight.accepts IMPLEMENTATION_EXPERIENCE_REPORT_PATH body =
      (codec.prepare body).isSome) :
    ReportsKept py canonical preflight contents start events ↔
      ∀ before failed after branch', events = before ++ FailedCheck.event failed :: after →
        failed.commit py codec (start.run py codec canonical preflight before).branch = some branch' →
        Reads py contents (start.run py codec canonical preflight before).branch failed := by
  unfold ReportsKept
  refine forall_congr' fun before => forall_congr' fun failed => forall_congr' fun after => forall_congr' fun branch' =>
    forall_congr' fun heq => forall_congr' fun hcommit => ?_
  rw [keeps_iff hcommit]
  refine and_iff_left ?_
  have hbefore : Traced py codec (start.run py codec canonical preflight before) := by
    refine htraced.run (fun calls source hmem => hevents calls source ?_) haccepts
    rw [heq]
    exact mem_append_left _ hmem
  have hmade : (start.run py codec canonical preflight (before ++ [failed.event])).made =
      (start.run py codec canonical preflight before).made ++ [failed] := by
    rw [History.run, foldl_append]
    exact made_concat hcommit
  rw [hmade]
  exact evidenced_commit contents hbefore hcommit

section Example

def sampleFailed (objectionId : String) : FailedCheck where
  brief := [("node_key", .str "root")]
  question := [("objection_id", .str objectionId), ("claim", .str "no rollback"),
    ("executable_check", .str "make rollback-test")]
  contingency := [("direction_change_node_ids", .arr [.str "goal:1"]), ("contingency_plan", .str "keep a copy")]
  check_failure := [("detail", .str "exit 1")]

/-- An entry with a member that the codec refuses. -/
def axisReport : Fields := sampleReport "o1" ++ [("axis", .str "approach")]

/-- A codec for the reports of two objections. -/
def reportingCodec : ExperienceCodec where
  parse text :=
    if text = "first" then some (experienceOf [sampleReport "o1"])
    else if text = "second" then some (experienceOf [sampleReport "o2"])
    else if text = "both" then some (experienceOf [sampleReport "o1", sampleReport "o2"])
    else none
  prepare value :=
    if value = experienceOf [sampleReport "o2"] then some "second"
    else if value = experienceOf [sampleReport "o1", sampleReport "o2"] then some "both"
    else none
  prepared reports text h := by
    split_ifs at h with hsecond hboth
    · cases h
      refine ⟨experienceOf [sampleReport "o2"], by simp, ?_⟩
      rw [experienceOf_injective hsecond]
      exact forall₂_same.2 fun _ _ _ => rfl
    · cases h
      refine ⟨experienceOf [sampleReport "o1", sampleReport "o2"], by simp, ?_⟩
      rw [experienceOf_injective hboth]
      exact forall₂_same.2 fun _ _ _ => rfl
  marks reports text h report hreport value hvalue := by
    have hnone : ∀ id, (sampleReport id).lookup processedKey = none := by
      intro id
      simp [sampleReport, processedKey, lookup_cons]
    split_ifs at h with hsecond hboth
    · rw [experienceOf_injective hsecond, mem_singleton] at hreport
      rw [hreport, hnone] at hvalue
      exact nomatch hvalue
    · rw [experienceOf_injective hboth, mem_pair] at hreport
      rcases hreport with rfl | rfl
      · rw [hnone] at hvalue
        exact nomatch hvalue
      · rw [hnone] at hvalue
        exact nomatch hvalue

/-- What stands in the texts of these reports: one of them is not read. -/
def reportingContents : Contents reportingCodec where
  entries text := if text = "spare" then [axisReport] else ((reportingCodec.parse text).map reportsOf).getD []
  parsed text parsed h := by
    split_ifs with hspare
    · rw [hspare] at h
      exact nomatch h
    · rw [h]
      rfl

def reportingPreflight : Preflight where
  updates path := path ∈ rootCohortV2Paths
  accepts path body :=
    if path = IMPLEMENTATION_EXPERIENCE_REPORT_PATH then (reportingCodec.prepare body).isSome else true

theorem reportingPreflight_accepts (body : Json) :
    reportingPreflight.accepts IMPLEMENTATION_EXPERIENCE_REPORT_PATH body = (reportingCodec.prepare body).isSome := by
  simp [reportingPreflight]

theorem no_reform (failed : FailedCheck) : ∀ calls source, Event.reform calls source ∈ [failed.event] →
    Revises calls := by
  intro calls source hmem
  exact nomatch mem_singleton.1 hmem

/-- The law at a second check on a series that has the report of a first one. -/
theorem reports_kept_second : ReportsKept samplePy sampleText reportingPreflight reportingContents
    ⟨⟨some "first", none⟩, [sampleFailed "o1"]⟩ [(sampleFailed "o2").event] := by
  have htraced : Traced samplePy reportingCodec ⟨⟨some "first", none⟩, [sampleFailed "o1"]⟩ := by
    intro report hreport _
    have hread : recordedReports reportingCodec ⟨some "first", none⟩ = [(sampleFailed "o1").report samplePy] := by
      decide +kernel
    rw [hread, mem_singleton] at hreport
    rw [hreport]
    exact ⟨_, mem_singleton_self _, carries_report⟩
  refine (reports_kept_iff reportingContents _ _ htraced (no_reform _) reportingPreflight_accepts).2 ?_
  intro before failed after branch' heq _ text htext hnone
  have hbefore : before = [] := by
    cases before with
    | nil => rfl
    | cons _ before =>
      have hlength := congrArg List.length heq
      simp at hlength
  rw [hbefore] at htext
  obtain rfl := Option.some.inj htext
  exact nomatch hnone

/-- The entry of a file that the codec does not read is lost. -/
theorem unread_report_lost : ∃ (contents : Contents reportingCodec) (start : History) (failed : FailedCheck),
    Traced samplePy reportingCodec start ∧
      ¬ ReportsKept samplePy sampleText reportingPreflight contents start [failed.event] := by
  refine ⟨reportingContents, ⟨⟨none, some "spare"⟩, []⟩, sampleFailed "o2", ?_, fun h => ?_⟩
  · intro report hreport
    exact nomatch hreport
  · have hcommit : (sampleFailed "o2").commit samplePy reportingCodec ⟨none, some "spare"⟩ =
        some ⟨some "second", some "spare"⟩ := by decide +kernel
    obtain ⟨hkeeps, -⟩ := h [] (sampleFailed "o2") [] _ rfl hcommit
    obtain ⟨kept, hkept, hsame⟩ := hkeeps axisReport (mem_singleton_self _)
    have hread : reportingContents.file ⟨some "second", some "spare"⟩ = [sampleReport "o2"] := by decide +kernel
    rw [hread, mem_singleton] at hkept
    rw [hkept] at hsame
    exact absurd (hsame "objection_id") (by decide +kernel)

end Example

end Reform

end AiOrg
