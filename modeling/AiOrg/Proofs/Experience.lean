import AiOrg.Proofs.Handoff
import AiOrg.Reform.Experience

/-!
# Implementation experience over a run

A reform writes back the reports that it found unprocessed and nothing else. So the reports that were
processed before are gone after it, and a report without an anchor is marked though no objection was made
of it. Where every reform finds all reports unprocessed and makes an objection of each of them, nothing is
lost over the run (`experience_conserved_iff`).
-/

namespace AiOrg

open List

namespace Reform

open Review (Branch)

variable {py : PyLib} {codec : ExperienceCodec} {canonical : Json → String} {preflight : Preflight}
  {calls : Calls} {source : Source} {branch branch' : Branch} {committed : Committed}
  {reports : List Fields} {event : Event} {events : List Event}

def mark (version : ℤ) (report : Fields) : Fields := report.set processedKey (.int version)

theorem isHandoff_experience : IsHandoff IMPLEMENTATION_EXPERIENCE_REPORT_PATH := by
  rw [IsHandoff]
  exact mem_cons_of_mem _ mem_cons_self

theorem head_experience_path : IMPLEMENTATION_EXPERIENCE_REPORT_PATH.toList.head? ≠ some 'p' := by
  unfold IMPLEMENTATION_EXPERIENCE_REPORT_PATH
  simp

theorem reformFiles_experience (reviewRound : ℤ) (previous : Fields) {revision : Revision}
    (coverLetter provenance normalized revised : Fields) (noSuccessor : List (String × String))
    (changed : Bool) (changedNodes : List String)
    (hexternal : revision.externalFiles.lookup IMPLEMENTATION_EXPERIENCE_REPORT_PATH = none) :
    (reformFiles py canonical calls source reviewRound previous revision
      (preview_canonical_root_technical_approach coverLetter provenance normalized) revised noSuccessor
      changed changedNodes).lookup IMPLEMENTATION_EXPERIENCE_REPORT_PATH =
    if source.experienceReports = [] then none
    else some (.value (experienceOf (source.experienceReports.map (mark (reviewRound + 1))))) := by
  have hquestions : IMPLEMENTATION_EXPERIENCE_REPORT_PATH ≠ PATCH_MUST_ANSWER_QUESTIONS_PATH := by decide
  have hcohort : (update revision.externalFiles (preview_canonical_root_technical_approach coverLetter
      provenance normalized).cohortFiles).lookup IMPLEMENTATION_EXPERIENCE_REPORT_PATH = none :=
    (lookup_update_of_absent (by
      show _ ∉ [COVER_PATH, PROVENANCE_PATH, ROOT_APPROACH_PATH]
      decide) _).trans hexternal
  rw [reformFiles, lookup_put, if_neg (revision_delta_record_path_ne _ head_experience_path)]
  by_cases hreports : source.experienceReports = []
  · rw [if_pos hreports, if_pos (by simpa using hreports)]
    split_ifs
    · rw [lookup_put, if_neg (author_response_record_path_ne _ _ head_experience_path), hcohort]
    · rw [lookup_put, if_neg hquestions, lookup_put,
        if_neg (author_response_record_path_ne _ _ head_experience_path), hcohort]
  · rw [if_neg hreports, if_neg (by simpa using hreports), lookup_put, if_pos rfl, experienceOf,
      map_map]
    rfl

/-- The files of the domain specification, which the steps of a reform put aside. -/
def Revises (calls : Calls) : Prop :=
  ∀ source view previous revision, calls.revise source view previous = .ok revision →
    ∀ file ∈ revision.externalFiles, "domain-spec/".toList <+: file.1.toList

theorem Revises.external (hcalls : Revises calls) {view previous : Fields} {revision : Revision}
    (h : calls.revise source view previous = .ok revision) {path : String}
    (hpath : path.toList.head? ≠ some 'd') : revision.externalFiles.lookup path = none := by
  rcases hlookup : revision.externalFiles.lookup path with _ | content
  · rfl
  · obtain ⟨rest, hrest⟩ := hcalls source view previous revision h _ (mem_of_lookup hlookup)
    exfalso
    rw [← hrest] at hpath
    exact hpath (by simp)

theorem reformOn_writes (hcalls : Revises calls)
    (haccepts : ∀ body, preflight.accepts IMPLEMENTATION_EXPERIENCE_REPORT_PATH body =
      (codec.prepare body).isSome)
    (h : reformOn py codec canonical preflight branch calls source = some (reports, committed)) :
    reports = (recordedReports codec branch).filter (fun report => !processed report) ∧
    if reports = [] then commitExperience codec branch committed = branch
    else ∃ version text, codec.prepare (experienceOf (reports.map (mark version))) = some text ∧
      commitExperience codec branch committed = { branch with canonical := some text } := by
  rw [reformOn] at h
  split at h
  · cases h
  rename_i unprocessed hunprocessed
  split at h
  swap
  · cases h
  rename_i hrun
  obtain ⟨rfl, rfl⟩ := Prod.mk.inj (Option.some.inj h)
  obtain ⟨view, previous, reviewRound, revision, patchSeries, normalized, revised, noSuccessor, changed,
    changedNodes, hrevise, -, hfiles⟩ := reform_files hrun
  have hlookup := @reformFiles_experience py canonical calls
    (source.withExperience py unprocessed) reviewRound previous _ patchSeries calls.provenance
    normalized revised noSuccessor changed changedNodes (hcalls.external hrevise (by
      unfold IMPLEMENTATION_EXPERIENCE_REPORT_PATH
      simp))
  constructor
  · rw [_unprocessed_experience_reports] at hunprocessed
    split_ifs at hunprocessed
    exact (Option.some.inj hunprocessed).symm
  · rw [show (source.withExperience py unprocessed).experienceReports = unprocessed from rfl] at hlookup
    split_ifs at hlookup ⊢ with hreports
    · rw [commitExperience, lookup_prepared_none isHandoff_experience hfiles hlookup]
    · obtain ⟨hcommitted, haccepted⟩ := lookup_prepared_handoff isHandoff_experience hfiles hlookup
      rw [haccepts] at haccepted
      obtain ⟨text, htext⟩ := Option.isSome_iff_exists.1 haccepted
      refine ⟨reviewRound + 1, text, htext, ?_⟩
      rw [commitExperience, hcommitted]
      dsimp only
      rw [htext]

/-- A report is kept as another one with the same members, which is marked if it was. -/
def Kept (report kept : Fields) : Prop :=
  (∀ key ≠ processedKey, kept.get key = report.get key) ∧
    (processed report = true → processed kept = true)

/-- Every report is kept at its place. -/
def Grows (codec : ExperienceCodec) (branch branch' : Branch) : Prop :=
  ∀ (place : ℕ) (report : Fields), (recordedReports codec branch)[place]? = some report →
    ∃ kept, (recordedReports codec branch')[place]? = some kept ∧ Kept report kept

theorem Grows.refl : Grows codec branch branch :=
  fun _ report h => ⟨report, h, fun _ _ => rfl, id⟩

theorem Grows.trans {branch'' : Branch} (h : Grows codec branch branch')
    (h' : Grows codec branch' branch'') : Grows codec branch branch'' := by
  intro place report hreport
  obtain ⟨kept, hkept, hsame, hmarked⟩ := h place report hreport
  obtain ⟨last, hlast, hsameLast, hmarkedLast⟩ := h' place kept hkept
  exact ⟨last, hlast, fun key hkey => (hsameLast key hkey).trans (hsame key hkey),
    fun hprocessed => hmarkedLast (hmarked hprocessed)⟩

theorem Grows.length_le (h : Grows codec branch branch') :
    (recordedReports codec branch).length ≤ (recordedReports codec branch').length := by
  by_contra hlt
  rw [not_le] at hlt
  obtain ⟨kept, hkept, -⟩ := h _ _ (getElem?_eq_getElem hlt)
  rw [getElem?_eq_none le_rfl] at hkept
  cases hkept

theorem forall₂_getElem? {α β : Type} {R : α → β → Prop} {xs : List α} {ys : List β}
    (h : Forall₂ R xs ys) (place : ℕ) :
    (∀ y, ys[place]? = some y → ∃ x, xs[place]? = some x ∧ R x y) ∧
      ∀ x, xs[place]? = some x → ∃ y, ys[place]? = some y ∧ R x y := by
  induction h generalizing place with
  | nil => simp
  | cons hxy _ ih =>
    cases place with
    | zero => simpa using hxy
    | succ place => simpa using ih place

theorem recorded_prepared {text : String} (h : codec.prepare (experienceOf reports) = some text) :
    Forall₂ SameReport (recordedReports codec { branch with canonical := some text }) reports := by
  obtain ⟨parsed, hparsed, hsame⟩ := codec.prepared _ _ h
  rw [recordedReports, Option.some_or, Option.bind_some, hparsed]
  exact hsame

theorem SameReport.processed_eq {a b : Fields} (h : SameReport a b) : processed a = processed b := by
  rw [processed, processed, h]

theorem processed_mark {version : ℤ} {text : String}
    (h : codec.prepare (experienceOf (reports.map (mark version))) = some text) {report : Fields}
    (hreport : report ∈ reports) : processed (mark version report) = true := by
  obtain ⟨n, hn, heq⟩ := codec.marks _ _ h _ (mem_map_of_mem hreport) (.int version)
    (by rw [mark, Fields.lookup_set, if_pos rfl])
  obtain rfl := Json.int.inj heq
  rw [processed, mark, Fields.get_set_self, Json.truthy]
  simp only [bne_iff_ne]
  omega

/-! ### Events -/

section Run

variable (py codec canonical preflight)

/-- The event is a reform that makes an open objection of the report at a place. -/
def TurnedAt (branch : Branch) (event : Event) (place : ℕ) : Prop :=
  ∃ calls source reports committed report objection, event = .reform calls source ∧
    reformOn py codec canonical preflight branch calls source = some (reports, committed) ∧
    (recordedReports codec branch)[place]? = some report ∧ report ∈ reports ∧
    reportObjection py report = some objection ∧
    objection ∈ (source.withExperience py reports).openBlocking

def MarksTurned (branch : Branch) (event : Event) : Prop :=
  ∀ (place : ℕ) (report : Fields),
    (recordedReports codec (afterEvent py codec canonical preflight branch event))[place]? =
      some report → processed report = true →
    (∃ old, (recordedReports codec branch)[place]? = some old ∧ processed old = true) ∨
      TurnedAt py codec canonical preflight branch event place

/-- A reform that commits finds no report to process, or finds all of them unprocessed and can make an
objection of each. -/
def TakesAll (branch : Branch) (event : Event) : Prop :=
  ∀ calls source reports committed, event = .reform calls source →
    reformOn py codec canonical preflight branch calls source = some (reports, committed) →
    (∀ report ∈ recordedReports codec branch, processed report = true) ∨
      ∀ report ∈ recordedReports codec branch, processed report = false ∧
        invalidatedNodeIds report ≠ []

/-- No report is lost over a run, none is marked but by a reform that turns it into an objection, and none
is turned into an objection by two reforms. -/
structure Conserved (branch : Branch) (events : List Event) : Prop where
  kept : ∀ before middle after, events = before ++ middle ++ after →
    Grows codec (afterEvents py codec canonical preflight branch before)
      (afterEvents py codec canonical preflight branch (before ++ middle))
  marked : ∀ before event after, events = before ++ event :: after →
    MarksTurned py codec canonical preflight (afterEvents py codec canonical preflight branch before) event
  once : ∀ before event middle event' after place,
    events = before ++ event :: (middle ++ event' :: after) →
    TurnedAt py codec canonical preflight (afterEvents py codec canonical preflight branch before) event
      place →
    ¬ TurnedAt py codec canonical preflight
      (afterEvents py codec canonical preflight branch (before ++ event :: middle)) event' place

end Run

theorem reportObjection_ne_none_iff {report : Fields} :
    reportObjection py report ≠ none ↔ invalidatedNodeIds report ≠ [] := by
  rw [reportObjection]
  split_ifs with h <;> simp [h]

theorem afterReport {brief question contingency checkFailure : Fields} :
    Grows codec branch (afterEvent py codec canonical preflight branch
      (.report brief question contingency checkFailure)) ∧
    MarksTurned py codec canonical preflight branch (.report brief question contingency checkFailure) := by
  have hstep : ∀ branch', _commit_implementation_experience_report py codec branch brief question
      contingency checkFailure = some branch' → ∃ added, (∀ report ∈ added, processed report = false) ∧
        Forall₂ SameReport (recordedReports codec branch') (recordedReports codec branch ++ added) := by
    intro branch' h
    rw [_commit_implementation_experience_report] at h
    split_ifs at h with hambiguous
    obtain ⟨text, htext, rfl⟩ := Option.map_eq_some_iff.1 h
    have hnew : processed (experienceReport py brief question contingency checkFailure) = false := by
      simp [processed, experienceReport, processedKey, Fields.get, lookup_cons, Json.truthy]
    split_ifs at htext
    · exact ⟨[], by simp, by simpa using recorded_prepared htext⟩
    · exact ⟨_, by simpa using hnew, recorded_prepared htext⟩
  rw [MarksTurned, afterEvent]
  rcases hcommit : _commit_implementation_experience_report py codec branch brief question contingency
    checkFailure with _ | branch'
  · exact ⟨Grows.refl, fun place report h hprocessed => .inl ⟨report, h, hprocessed⟩⟩
  · obtain ⟨added, hadded, hsame⟩ := hstep branch' hcommit
    rw [Option.getD_some]
    constructor
    · intro place report hreport
      have hold : (recordedReports codec branch ++ added)[place]? = some report := by
        rw [getElem?_append_left (List.getElem?_eq_some_iff.1 hreport).1, hreport]
      obtain ⟨kept, hkept, hsameKept⟩ := (forall₂_getElem? hsame place).1 report hold
      exact ⟨kept, hkept, fun key _ => hsameKept key, fun h => hsameKept.processed_eq.trans h⟩
    · intro place report hreport hprocessed
      obtain ⟨old, hold, hsameOld⟩ := (forall₂_getElem? hsame place).2 report hreport
      have holdProcessed : processed old = true := hsameOld.processed_eq.symm.trans hprocessed
      left
      rw [getElem?_append] at hold
      split_ifs at hold
      · exact ⟨old, hold, holdProcessed⟩
      · rw [hadded old (mem_of_getElem? hold)] at holdProcessed
        cases holdProcessed

section Reforms

variable (hcalls : Revises calls)
  (haccepts : ∀ body, preflight.accepts IMPLEMENTATION_EXPERIENCE_REPORT_PATH body =
    (codec.prepare body).isSome)

include hcalls haccepts

theorem recorded_reformOn
    (h : reformOn py codec canonical preflight branch calls source = some (reports, committed))
    (hreports : reports ≠ []) : ∃ version,
    (∀ report ∈ reports, processed (mark version report) = true) ∧
    Forall₂ SameReport (recordedReports codec (afterEvent py codec canonical preflight branch
      (.reform calls source))) (reports.map (mark version)) := by
  obtain ⟨-, hwrites⟩ := reformOn_writes hcalls haccepts h
  rw [if_neg hreports] at hwrites
  obtain ⟨version, text, htext, hcommit⟩ := hwrites
  refine ⟨version, fun report hreport => processed_mark htext hreport, ?_⟩
  have hafter : afterEvent py codec canonical preflight branch (.reform calls source) =
      { branch with canonical := some text } := by
    rw [afterEvent, h]
    exact hcommit
  rw [hafter]
  exact recorded_prepared htext

/-- A reform that takes all reports keeps and turns them. -/
theorem afterReform_of_takesAll
    (h : TakesAll py codec canonical preflight branch (.reform calls source)) :
    Grows codec branch (afterEvent py codec canonical preflight branch (.reform calls source)) ∧
    MarksTurned py codec canonical preflight branch (.reform calls source) ∧
    ∀ place, TurnedAt py codec canonical preflight branch (.reform calls source) place →
      ∃ kept, (recordedReports codec (afterEvent py codec canonical preflight branch
        (.reform calls source)))[place]? = some kept ∧ processed kept = true := by
  rcases hrun : reformOn py codec canonical preflight branch calls source with _ | ⟨reports, committed⟩
  · have hafter : afterEvent py codec canonical preflight branch (.reform calls source) = branch := by
      rw [afterEvent, hrun]
    rw [MarksTurned, hafter]
    refine ⟨Grows.refl, fun place report hreport hprocessed => .inl ⟨report, hreport, hprocessed⟩, ?_⟩
    rintro place ⟨calls', source', reports, committed, _, _, heq, hrun', -⟩
    cases heq
    rw [hrun] at hrun'
    cases hrun'
  · obtain ⟨hread, hwrites⟩ := reformOn_writes hcalls haccepts hrun
    by_cases hreports : reports = []
    · rw [if_pos hreports] at hwrites
      have hafter : afterEvent py codec canonical preflight branch (.reform calls source) = branch := by
        rw [afterEvent, hrun]
        exact hwrites
      rw [MarksTurned, hafter]
      refine ⟨Grows.refl, fun place report hreport hprocessed => .inl ⟨report, hreport, hprocessed⟩, ?_⟩
      rintro place ⟨calls', source', reports', committed', report, _, heq, hrun', -, hmem, -⟩
      cases heq
      rw [hrun] at hrun'
      cases hrun'
      rw [hreports] at hmem
      cases hmem
    · have hall : ∀ report ∈ recordedReports codec branch,
          processed report = false ∧ invalidatedNodeIds report ≠ [] := by
        rcases h _ _ _ _ rfl hrun with hprocessed | hall
        · exact absurd (hread.trans (filter_eq_nil_iff.2 fun report hreport => by
            simp [hprocessed report hreport])) hreports
        · exact hall
      have hsame : reports = recordedReports codec branch :=
        hread.trans (filter_eq_self.2 fun report hreport => by simp [(hall report hreport).1])
      obtain ⟨version, hmarked, hrecorded⟩ := recorded_reformOn hcalls haccepts hrun hreports
      have hplace : ∀ (place : ℕ) (report : Fields), (recordedReports codec branch)[place]? = some report →
          ∃ kept, (recordedReports codec (afterEvent py codec canonical preflight branch
            (.reform calls source)))[place]? = some kept ∧ SameReport kept (mark version report) := by
        intro place report hreport
        refine (forall₂_getElem? hrecorded place).1 _ ?_
        rw [getElem?_map, hsame, hreport]
        rfl
      have hkept : ∀ report ∈ recordedReports codec branch, processed (mark version report) = true := by
        rw [← hsame]
        exact hmarked
      refine ⟨?_, ?_, ?_⟩
      · intro place report hreport
        obtain ⟨kept, hlast, hsameKept⟩ := hplace place report hreport
        refine ⟨kept, hlast, fun key hkey => ?_, fun _ => ?_⟩
        · rw [hsameKept key, mark, Fields.get_set_of_ne _ _ hkey]
        · exact hsameKept.processed_eq.trans (hkept report (mem_of_getElem? hreport))
      · intro place kept hlast _
        obtain ⟨marked, hmarkedAt, -⟩ := (forall₂_getElem? hrecorded place).2 kept hlast
        rw [getElem?_map, hsame] at hmarkedAt
        obtain ⟨report, hreport, -⟩ := Option.map_eq_some_iff.1 hmarkedAt
        have hmem := mem_of_getElem? hreport
        obtain ⟨objection, hobjection⟩ := Option.ne_none_iff_exists'.1
          ((@reportObjection_ne_none_iff py _).2 (hall report hmem).2)
        refine .inr ⟨calls, source, reports, committed, report, objection, rfl, hrun, hreport, hsame ▸ hmem,
          hobjection, ?_⟩
        exact mem_append_right _ (mem_filterMap.2 ⟨report, hsame ▸ hmem, hobjection⟩)
      · rintro place ⟨_, _, _, _, report, _, -, -, hreport, -⟩
        obtain ⟨kept, hlast, hsameKept⟩ := hplace place report hreport
        exact ⟨kept, hlast, hsameKept.processed_eq.trans (hkept report (mem_of_getElem? hreport))⟩

omit hcalls in
theorem afterEvent_of_takesAll (h : TakesAll py codec canonical preflight branch event)
    (hevent : ∀ calls source, event = .reform calls source → Revises calls) :
    Grows codec branch (afterEvent py codec canonical preflight branch event) ∧
    MarksTurned py codec canonical preflight branch event ∧
    ∀ place, TurnedAt py codec canonical preflight branch event place →
      ∃ kept, (recordedReports codec (afterEvent py codec canonical preflight branch event))[place]? =
        some kept ∧ processed kept = true := by
  cases event with
  | reform calls source => exact afterReform_of_takesAll (hevent calls source rfl) haccepts h
  | report brief question contingency checkFailure =>
    refine ⟨afterReport.1, afterReport.2, ?_⟩
    rintro place ⟨_, _, _, _, _, _, heq, -⟩
    cases heq

omit hcalls in
theorem takesAll_of_conserved
    (hevent : ∀ calls source, event = .reform calls source → Revises calls)
    (hgrows : Grows codec branch (afterEvent py codec canonical preflight branch event))
    (hmarks : MarksTurned py codec canonical preflight branch event) :
    TakesAll py codec canonical preflight branch event := by
  rintro calls source reports committed rfl hrun
  have hcalls := hevent calls source rfl
  obtain ⟨hread, -⟩ := reformOn_writes hcalls haccepts hrun
  by_cases hreports : reports = []
  · left
    intro report hreport
    have hnone := filter_eq_nil_iff.1 (hread.symm.trans hreports) report hreport
    simpa using hnone
  right
  obtain ⟨version, hmarked, hrecorded⟩ := recorded_reformOn hcalls haccepts hrun hreports
  have hlength : (recordedReports codec branch).length ≤ reports.length := by
    have h := hgrows.length_le
    rwa [hrecorded.length_eq, length_map] at h
  have hall : ∀ report ∈ recordedReports codec branch, processed report = false := by
    have hfull : ((recordedReports codec branch).filter fun report => !processed report).length =
        (recordedReports codec branch).length :=
      le_antisymm (length_filter_le _ _) (hread ▸ hlength)
    intro report hreport
    simpa using length_filter_eq_length_iff.1 hfull report hreport
  have hsame : reports = recordedReports codec branch :=
    hread.trans (filter_eq_self.2 fun report hreport => by simp [hall report hreport])
  intro report hreport
  refine ⟨hall report hreport, ?_⟩
  obtain ⟨place, hplace⟩ := getElem?_of_mem hreport
  obtain ⟨kept, hkept, hsameKept⟩ := (forall₂_getElem? hrecorded place).1 (mark version report) (by
    rw [getElem?_map, hsame, hplace]
    rfl)
  have hprocessed : processed kept = true :=
    hsameKept.processed_eq.trans (hmarked report (hsame ▸ hreport))
  rcases hmarks place kept hkept hprocessed with ⟨old, hold, holdProcessed⟩ | hturned
  · rw [hplace] at hold
    obtain rfl := Option.some.inj hold
    rw [hall report hreport] at holdProcessed
    cases holdProcessed
  · obtain ⟨_, _, _, _, report', objection, -, -, hreport', -, hobjection, -⟩ := hturned
    rw [hplace] at hreport'
    obtain rfl := Option.some.inj hreport'
    exact reportObjection_ne_none_iff.1 (Option.ne_none_iff_exists'.2 ⟨objection, hobjection⟩)

end Reforms

theorem afterEvents_append (before after : List Event) :
    afterEvents py codec canonical preflight branch (before ++ after) =
      afterEvents py codec canonical preflight
        (afterEvents py codec canonical preflight branch before) after :=
  foldl_append

theorem afterEvents_singleton :
    afterEvents py codec canonical preflight branch [event] =
      afterEvent py codec canonical preflight branch event :=
  rfl

theorem not_turnedAt_of_processed {place : ℕ} {report : Fields}
    (hreport : (recordedReports codec branch)[place]? = some report) (hprocessed : processed report = true) :
    ¬ TurnedAt py codec canonical preflight branch event place := by
  rintro ⟨calls, source, reports, committed, report', _, rfl, hrun, hreport', hmem, -⟩
  rw [hreport] at hreport'
  obtain rfl := Option.some.inj hreport'
  rw [reformOn] at hrun
  split at hrun
  · cases hrun
  rename_i unprocessed hunprocessed
  split at hrun
  · obtain ⟨rfl, -⟩ := Prod.mk.inj (Option.some.inj hrun)
    rw [_unprocessed_experience_reports] at hunprocessed
    split_ifs at hunprocessed
    obtain rfl := Option.some.inj hunprocessed
    simp [hprocessed] at hmem
  · cases hrun

/-- Experience is conserved over a run exactly when each of its reforms that commits finds nothing to
process, or only reports that are unprocessed and have an anchor. -/
theorem experience_conserved_iff (py : PyLib) (codec : ExperienceCodec) (canonical : Json → String)
    (preflight : Preflight) (branch : Branch) (events : List Event)
    (hevents : ∀ calls source, .reform calls source ∈ events → Revises calls)
    (haccepts : ∀ body, preflight.accepts IMPLEMENTATION_EXPERIENCE_REPORT_PATH body =
      (codec.prepare body).isSome) :
    Conserved py codec canonical preflight branch events ↔
      ∀ before event after, events = before ++ event :: after →
        TakesAll py codec canonical preflight (afterEvents py codec canonical preflight branch before)
          event := by
  have hrevises : ∀ {before event after}, events = before ++ event :: after →
      ∀ calls source, event = .reform calls source → Revises calls := by
    rintro before event after rfl calls source rfl
    exact hevents calls source (mem_append_right _ mem_cons_self)
  constructor
  · intro h before event after heq
    have hgrows := h.kept before [event] after (by simp [heq])
    rw [afterEvents_append] at hgrows
    exact takesAll_of_conserved haccepts (hrevises heq) hgrows (h.marked before event after heq)
  · intro h
    have hstep := fun before event after (heq : events = before ++ event :: after) =>
      afterEvent_of_takesAll haccepts (h before event after heq) (hrevises heq)
    have hkept : ∀ middle before after, events = before ++ middle ++ after →
        Grows codec (afterEvents py codec canonical preflight branch before)
          (afterEvents py codec canonical preflight branch (before ++ middle)) := by
      intro middle
      induction middle with
      | nil =>
        intro before after _
        rw [append_nil]
        exact Grows.refl
      | cons event middle ih =>
        intro before after heq
        have hfirst := (hstep before event (middle ++ after) (by simp [heq])).1
        have hrest := ih (before ++ [event]) after (by simp [heq])
        rw [append_assoc] at hrest
        rw [afterEvents_append] at hrest
        exact hfirst.trans hrest
    refine ⟨fun before middle after heq => hkept middle before after heq,
      fun before event after heq => (hstep before event after heq).2.1, ?_⟩
    intro before event middle event' after place heq hturned
    obtain ⟨kept, hplace, hprocessed⟩ := (hstep before event _ heq).2.2 place hturned
    have hgrows := hkept middle (before ++ [event]) (event' :: after) (by simp [heq])
    rw [afterEvents_append] at hgrows
    obtain ⟨last, hlast, -, hmarked⟩ := hgrows place kept hplace
    rw [append_assoc] at hlast
    exact not_turnedAt_of_processed hlast (hmarked hprocessed)

section Example

/-- A report of a check that failed. -/
def sampleReport (objectionId : String) : Fields :=
  [("objection_id", .str objectionId), ("claim", .str "no rollback"),
    ("executable_check", .str "make rollback-test"), ("check_failure_evidence", .str "exit 1"),
    ("invalidated_node_ids", .arr [.str "goal:1"]), ("contingency_plan", .str "keep a copy"),
    ("rewind_class", .str "requires_direction_change"), ("reported_from_node_key", .str "root")]

theorem experienceOf_injective : Function.Injective experienceOf := by
  intro a b h
  have hitems : a.map Json.obj = b.map Json.obj := by simpa [experienceOf] using h
  exact map_injective_iff.2 (fun _ _ => Json.obj.inj) hitems

/-- One report of two is processed. -/
def sampleMixed : List Fields := [mark 1 (sampleReport "o1"), sampleReport "o2"]

/-- A codec for the reports of these runs, which writes the second one marked. -/
def sampleExperienceCodec : ExperienceCodec where
  parse text :=
    if text = "mixed" then some (experienceOf sampleMixed)
    else if text = "fresh" then some (experienceOf [sampleReport "o2"])
    else if text = "marked" then some (experienceOf [mark 2 (sampleReport "o2")])
    else none
  prepare value :=
    if value = experienceOf [mark 2 (sampleReport "o2")] then some "marked" else none
  prepared reports text h := by
    split_ifs at h with hvalue
    cases h
    refine ⟨experienceOf [mark 2 (sampleReport "o2")], by simp, ?_⟩
    rw [experienceOf_injective hvalue]
    exact forall₂_same.2 fun _ _ _ => rfl
  marks reports text h report hreport value hvalue := by
    split_ifs at h with heq
    rw [experienceOf_injective heq, mem_singleton] at hreport
    rw [hreport, mark, Fields.lookup_set, if_pos rfl] at hvalue
    exact ⟨2, by decide, (Option.some.inj hvalue).symm⟩

/-- A preflight that asks this codec. -/
def sampleExperiencePreflight : Preflight where
  updates path := path ∈ rootCohortV2Paths
  accepts path body :=
    if path = IMPLEMENTATION_EXPERIENCE_REPORT_PATH then (sampleExperienceCodec.prepare body).isSome
    else true

/-- A reform of a root that stays as it is. -/
def sampleReform : Event := .reform (sampleCalls (sampleRoot "old")) sampleSource

theorem sampleCalls_revises : ∀ calls source, Event.reform calls source ∈ [sampleReform] →
    Revises calls := by
  rintro calls source hmem
  obtain ⟨rfl, rfl⟩ := Event.reform.inj (mem_singleton.1 hmem)
  rintro source view previous revision hrevise file hfile
  cases hrevise
  cases hfile

/-- The reform loses the report that was processed before. -/
theorem processed_report_lost :
    ¬ Conserved samplePy sampleExperienceCodec sampleText sampleExperiencePreflight
      ⟨some "mixed", none⟩ [sampleReform] := by
  intro h
  have hafter : afterEvent samplePy sampleExperienceCodec sampleText sampleExperiencePreflight
      ⟨some "mixed", none⟩ sampleReform = ⟨some "marked", none⟩ := by decide +kernel
  have hgrows := h.kept [] [sampleReform] [] rfl
  rw [nil_append, afterEvents_singleton, hafter] at hgrows
  have hlength := hgrows.length_le
  revert hlength
  decide +kernel

theorem experience_conserved_fresh :
    Conserved samplePy sampleExperienceCodec sampleText sampleExperiencePreflight
      ⟨some "fresh", none⟩ [sampleReform] := by
  have haccepts : ∀ body, sampleExperiencePreflight.accepts IMPLEMENTATION_EXPERIENCE_REPORT_PATH body =
      (sampleExperienceCodec.prepare body).isSome := by
    intro body
    simp [sampleExperiencePreflight]
  refine (experience_conserved_iff _ _ _ _ _ _ sampleCalls_revises haccepts).2 ?_
  intro before event after heq
  have hrecorded : recordedReports sampleExperienceCodec ⟨some "fresh", none⟩ = [sampleReport "o2"] := by
    decide +kernel
  obtain ⟨rfl, -⟩ : before = [] ∧ after = [] := by
    cases before with
    | nil => exact ⟨rfl, (List.cons.inj heq).2.symm⟩
    | cons _ before =>
      have hnil := (List.cons.inj heq).2
      simp at hnil
  rintro calls source reports committed - -
  right
  rw [show afterEvents samplePy sampleExperienceCodec sampleText sampleExperiencePreflight
    ⟨some "fresh", none⟩ [] = ⟨some "fresh", none⟩ from rfl, hrecorded]
  decide +kernel

end Example

end Reform

end AiOrg
