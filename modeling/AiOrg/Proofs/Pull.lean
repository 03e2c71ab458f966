import AiOrg.Patchwork.Pull
import AiOrg.Proofs.Experience

/-!
# Series that pull leaves behind

A series that was approved and that has a report since is taken for finished, and one whose revision was asked
for without a round that can be read is passed over in both loops. Every other live series rests or is selected
(`pull_strands_none_iff`).
-/

namespace AiOrg

open List

namespace Patchwork

open Reform (ExperienceCodec)

variable {ι : Type} [DecidableEq ι] {repo : Repository ι} {codec : ExperienceCodec} {branch : String}

theorem firstDecision_cons (decide : List Char → Option Bool) (line : List Char) (lines : List (List Char)) :
    firstDecision decide (line :: lines) = (decide line).getD (firstDecision decide lines) := by
  rw [firstDecision, findSome?_cons]
  cases decide line <;> rfl

def isVerdict (line : List Char) : Bool :=
  mentions directionOkMarker line || mentions nakMarker line || mentions needsRevisionMarker line

theorem verdict_of_terminal {lines : List (List Char)} (hnak : ∀ line ∈ lines, mentions nakMarker line = false)
    (h : firstDecision terminalLine lines = true) :
    ∃ line, lines.find? isVerdict = some line ∧ mentions directionOkMarker line = true := by
  induction lines with
  | nil => cases h
  | cons line lines ih =>
    rw [firstDecision_cons] at h
    have hline := hnak line mem_cons_self
    by_cases hrevision : mentions needsRevisionMarker line = true
    · simp [terminalLine, hrevision] at h
    by_cases hok : mentions directionOkMarker line = true
    · exact ⟨line, by simp [isVerdict, hok], hok⟩
    by_cases hversion : startsWith versionMarker line = true
    · simp [terminalLine, hrevision, hversion] at h
    · obtain ⟨found, hfound, hdirection⟩ := ih (fun other hother => hnak other (mem_cons_of_mem _ hother))
        (by simpa [terminalLine, hrevision, hversion, hok] using h)
      refine ⟨found, ?_, hdirection⟩
      rw [find?_cons_of_neg (by simp [isVerdict, hline, hok, hrevision]), hfound]

theorem verdict_of_revision {lines : List (List Char)} (h : firstDecision revisionLine lines = true) :
    ∃ line, lines.find? isVerdict = some line ∧ mentions directionOkMarker line = false := by
  induction lines with
  | nil => cases h
  | cons line lines ih =>
    rw [firstDecision_cons] at h
    by_cases hok : mentions directionOkMarker line = true
    · simp [revisionLine, hok] at h
    by_cases hnak : mentions nakMarker line = true
    · simp [revisionLine, hnak] at h
    by_cases hrevision : mentions needsRevisionMarker line = true
    · exact ⟨line, by simp [isVerdict, hrevision], by simpa using hok⟩
    by_cases hversion : startsWith versionMarker line = true
    · simp [revisionLine, hok, hnak, hrevision, hversion] at h
    · obtain ⟨found, hfound, hdirection⟩ := ih
        (by simpa [revisionLine, hok, hnak, hrevision, hversion] using h)
      refine ⟨found, ?_, hdirection⟩
      rw [find?_cons_of_neg (by simp [isVerdict, hok, hnak, hrevision]), hfound]

/-! ### Live series -/

/-- A series without a nak that is not merged. -/
structure Live (repo : Repository ι) (branch : String) : Prop where
  open_ : has_subject repo branch nakMarker = false
  unmerged : merged repo branch = false

/-- The newest verdict is an approval, and there is no unprocessed report. -/
def Rests (repo : Repository ι) (codec : ExperienceCodec) (branch : String) : Prop :=
  (∃ line, (log_subjects repo branch).find? isVerdict = some line ∧ mentions directionOkMarker line = true) ∧
    implementation_experience_pending repo codec branch = some false

/-- One of the loops selects the series when it comes to it. -/
def Selectable (repo : Repository ι) (codec : ExperienceCodec) (branch : String) : Prop :=
  revisable repo codec branch = some true ∨
    revisable repo codec branch = some false ∧ reviewable repo branch = true

/-- A series that is taken for finished has no unprocessed report. Of any other one what is looked at can be
read, and where a revision was asked for there is a round. -/
structure Served (repo : Repository ι) (codec : ExperienceCodec) (branch : String) : Prop where
  finished : _is_terminal_patch_series repo branch = true →
    implementation_experience_pending repo codec branch = some false
  readable : _is_terminal_patch_series repo branch = false →
    ∃ pending, implementation_experience_pending repo codec branch = some pending ∧
      (_latest_needs_revision_is_head repo branch = true ∨ pending = true →
        (_has_review_round_record repo branch).isSome = true)
  recorded : _is_terminal_patch_series repo branch = false →
    _latest_needs_revision_is_head repo branch = true → _has_review_round_record repo branch = some true

theorem Live.terminal_eq (h : Live repo branch) :
    _is_terminal_patch_series repo branch = firstDecision terminalLine (log_subjects repo branch) := by
  rw [_is_terminal_patch_series, h.open_, h.unmerged]
  simp

theorem Live.no_nak (h : Live repo branch) :
    ∀ line ∈ log_subjects repo branch, mentions nakMarker line = false := by
  intro line hline
  have hopen := h.open_
  rw [has_subject, any_eq_false] at hopen
  simpa using hopen line hline

theorem selectable_iff (h : _is_terminal_patch_series repo branch = false) :
    Selectable repo codec branch ↔ (revisable repo codec branch).isSome = true ∧
      (_latest_needs_revision_is_head repo branch = true → revisable repo codec branch = some true) := by
  rw [Selectable, reviewable, h]
  cases revisable repo codec branch with
  | none => simp
  | some selected =>
    cases selected <;> cases _latest_needs_revision_is_head repo branch <;> simp

/-- A live series rests or can be selected exactly if it is served. -/
theorem Live.iff (h : Live repo branch) :
    Rests repo codec branch ∨ Selectable repo codec branch ↔ Served repo codec branch := by
  cases hterminal : _is_terminal_patch_series repo branch with
  | true =>
    have hverdict := verdict_of_terminal h.no_nak (h.terminal_eq.symm.trans hterminal)
    have hrevisable : revisable repo codec branch = some false := by rw [revisable, if_pos hterminal]
    have hreviewable : reviewable repo branch = false := by rw [reviewable, hterminal]; rfl
    constructor
    · rintro (hrests | hselected | ⟨-, hreview⟩)
      · refine ⟨fun _ => hrests.2, ?_, ?_⟩
        · intro hfalse
          rw [hterminal] at hfalse
          cases hfalse
        · intro hfalse
          rw [hterminal] at hfalse
          cases hfalse
      · rw [hrevisable] at hselected
        simp at hselected
      · rw [hreviewable] at hreview
        cases hreview
    · intro hserved
      exact .inl ⟨hverdict, hserved.finished hterminal⟩
  | false =>
    have hrests : Rests repo codec branch → Selectable repo codec branch := by
      rintro ⟨⟨line, hline, hok⟩, hpending⟩
      have hrevision : _latest_needs_revision_is_head repo branch = false := by
        by_contra hne
        have hyes : _latest_needs_revision_is_head repo branch = true := by simpa using hne
        obtain ⟨other, hother, hnot⟩ := verdict_of_revision hyes
        rw [hline] at hother
        obtain rfl := Option.some.inj hother
        rw [hok] at hnot
        cases hnot
      refine .inr ⟨?_, ?_⟩
      · simp [revisable, hterminal, hpending, hrevision]
      · simp [reviewable, hterminal, hrevision]
    rw [or_iff_right_of_imp hrests, selectable_iff hterminal]
    have hrevisable : revisable repo codec branch =
        (implementation_experience_pending repo codec branch).bind fun pending =>
          if _latest_needs_revision_is_head repo branch || pending then _has_review_round_record repo branch
          else some false := by
      rw [revisable, hterminal]
      cases implementation_experience_pending repo codec branch <;> rfl
    rw [hrevisable]
    constructor
    · rintro ⟨hsome, hrecord⟩
      obtain ⟨selected, hselected⟩ := Option.isSome_iff_exists.1 hsome
      obtain ⟨pending, hpending, hrest⟩ := Option.bind_eq_some_iff.1 hselected
      refine ⟨fun htrue => ?_, fun _ => ⟨pending, hpending, fun hasked => ?_⟩, fun _ hrevision => ?_⟩
      · rw [hterminal] at htrue
        cases htrue
      · rw [if_pos (by simpa using hasked)] at hrest
        rw [hrest]
        rfl
      · have hall := hrecord hrevision
        rw [hpending, Option.bind_some, if_pos (by simp [hrevision])] at hall
        exact hall
    · intro hserved
      obtain ⟨pending, hpending, hreadable⟩ := hserved.readable hterminal
      rw [hpending, Option.bind_some]
      constructor
      · split_ifs with hasked
        · exact hreadable (by simpa using hasked)
        · rfl
      · intro hrevision
        rw [if_pos (by simp [hrevision])]
        exact hserved.recorded hterminal hrevision

omit [DecidableEq ι] in
theorem pairwise_seriesBranches (repo : Repository ι) : (seriesBranches repo).Pairwise (· ≤ ·) :=
  pairwise_insertionSort _ _

theorem isLeast_of_find? {p : String → Bool} {branches : List String} {branch : String}
    (hsorted : branches.Pairwise (· ≤ ·)) (h : branches.find? p = some branch) :
    IsLeast {branch | branch ∈ branches ∧ p branch = true} branch := by
  refine ⟨⟨mem_of_find?_eq_some h, find?_some h⟩, ?_⟩
  rintro other ⟨hmem, hother⟩
  induction branches with
  | nil => cases hmem
  | cons first rest ih =>
    obtain ⟨hfirst, hrest⟩ := pairwise_cons.1 hsorted
    by_cases hp : p first = true
    · rw [find?_cons_of_pos hp] at h
      obtain rfl := Option.some.inj h
      rcases mem_cons.1 hmem with rfl | hmem
      · exact le_rfl
      · exact hfirst other hmem
    · rw [find?_cons_of_neg hp] at h
      rcases mem_cons.1 hmem with rfl | hmem
      · exact absurd hother hp
      · exact ih hrest h hmem

theorem firstRevisable_eq {branches : List String}
    (h : ∀ branch ∈ branches, (revisable repo codec branch).isSome = true) :
    firstRevisable repo codec branches =
      some (branches.find? fun branch => revisable repo codec branch = some true) := by
  induction branches with
  | nil => rfl
  | cons branch branches ih =>
    obtain ⟨selected, hselected⟩ := Option.isSome_iff_exists.1 (h branch mem_cons_self)
    rw [firstRevisable, hselected]
    cases selected with
    | true => rw [find?_cons_of_pos (by simp [hselected])]
    | false =>
      rw [find?_cons_of_neg (by simp [hselected])]
      exact ih fun other hother => h other (mem_cons_of_mem _ hother)

theorem pull_first (h : ∀ branch ∈ seriesBranches repo, (revisable repo codec branch).isSome = true)
    (hmem : branch ∈ seriesBranches repo) (hselectable : Selectable repo codec branch) :
    (∃ first, pull repo codec = some (some (.authorRevision first)) ∧
      IsLeast {branch | branch ∈ seriesBranches repo ∧ revisable repo codec branch = some true} first) ∨
    (∃ first, pull repo codec = some (some (.review first)) ∧
      (∀ branch ∈ seriesBranches repo, revisable repo codec branch ≠ some true) ∧
      IsLeast {branch | branch ∈ seriesBranches repo ∧ reviewable repo branch = true} first) := by
  have hsorted := pairwise_seriesBranches repo
  rw [pull, firstRevisable_eq h]
  cases hfirst : (seriesBranches repo).find? fun branch => revisable repo codec branch = some true with
  | some first =>
    have hleast := isLeast_of_find? hsorted hfirst
    simp only [decide_eq_true_eq] at hleast
    exact .inl ⟨first, rfl, hleast⟩
  | none =>
    have hnone : ∀ branch ∈ seriesBranches repo, revisable repo codec branch ≠ some true := by
      intro other hother
      simpa using find?_eq_none.1 hfirst other hother
    rcases hselectable with hrevisable | ⟨-, hreviewable⟩
    · exact absurd hrevisable (hnone branch hmem)
    cases hreview : (seriesBranches repo).find? (reviewable repo) with
    | none => exact absurd hreviewable (find?_eq_none.1 hreview branch hmem)
    | some first => exact .inr ⟨first, by simp, hnone, isLeast_of_find? hsorted hreview⟩

/-- A live series rests or can be selected exactly if it is served, and where nothing raises `pull` then selects
the first series of its first loop that has one. -/
theorem pull_strands_none_iff (hlive : Live repo branch) (hmem : branch ∈ seriesBranches repo) :
    (Rests repo codec branch ∨ Selectable repo codec branch ↔ Served repo codec branch) ∧
    ((∀ other ∈ seriesBranches repo, (revisable repo codec other).isSome = true) →
      Selectable repo codec branch →
      (∃ first, pull repo codec = some (some (.authorRevision first)) ∧
        IsLeast {other | other ∈ seriesBranches repo ∧ revisable repo codec other = some true} first) ∨
      (∃ first, pull repo codec = some (some (.review first)) ∧
        (∀ other ∈ seriesBranches repo, revisable repo codec other ≠ some true) ∧
        IsLeast {other | other ∈ seriesBranches repo ∧ reviewable repo other = true} first)) :=
  ⟨hlive.iff, fun h hselectable => pull_first h hmem hselectable⟩

section Example

/-- A series of some subjects on one commit of the default branch, with its experience reports. -/
def sampleRepository (subjects : List String) (experience : Option String) : Repository ℕ where
  history := Git.History.linear
  subject c := ("init" :: subjects).getD c ""
  tips := [("main", 0), ("ai-org/patch-series/notes", subjects.length)]
  default := "main"
  rounds _ := [⟨some 1, some []⟩]
  legacyRounds _ := []
  experience _ := ⟨experience, none⟩

/-- The report is committed on the series that was approved. It is pending, there is a round, and neither loop
selects the series. -/
theorem report_stranded :
    let repo := sampleRepository ["patch_series v1: notes", "patch_series: direction-ok serial 1",
      "patch_series: implementation experience for o2"] (some "fresh")
    Live repo "ai-org/patch-series/notes" ∧ "ai-org/patch-series/notes" ∈ seriesBranches repo ∧
    implementation_experience_pending repo Reform.sampleExperienceCodec "ai-org/patch-series/notes" = some true ∧
    _has_review_round_record repo "ai-org/patch-series/notes" = some true ∧
    ¬ (Rests repo Reform.sampleExperienceCodec "ai-org/patch-series/notes" ∨
      Selectable repo Reform.sampleExperienceCodec "ai-org/patch-series/notes") ∧
    pull repo Reform.sampleExperienceCodec = some none := by
  intro repo
  have hpending : implementation_experience_pending repo Reform.sampleExperienceCodec
      "ai-org/patch-series/notes" = some true := by decide +kernel
  refine ⟨⟨by decide +kernel, by decide +kernel⟩, by decide +kernel, hpending, by decide +kernel, ?_,
    by decide +kernel⟩
  rintro (⟨-, hrests⟩ | hselected | ⟨-, hreview⟩)
  · rw [hpending] at hrests
    simp at hrests
  · have hnot : revisable repo Reform.sampleExperienceCodec "ai-org/patch-series/notes" = some false := by
      decide +kernel
    rw [hnot] at hselected
    simp at hselected
  · have hnot : reviewable repo "ai-org/patch-series/notes" = false := by decide +kernel
    rw [hnot] at hreview
    cases hreview

/-- A revision that was asked for is selected. -/
theorem pull_strands_none_iff_revision :
    let repo := sampleRepository ["patch_series v1: notes", "patch_series: needs-revision round 1"] none
    pull repo Reform.sampleExperienceCodec = some (some (.authorRevision "ai-org/patch-series/notes")) ∧
    Selectable repo Reform.sampleExperienceCodec "ai-org/patch-series/notes" := by
  intro repo
  have hlive : Live repo "ai-org/patch-series/notes" := ⟨by decide +kernel, by decide +kernel⟩
  have hmem : "ai-org/patch-series/notes" ∈ seriesBranches repo := by decide +kernel
  have hserved : Served repo Reform.sampleExperienceCodec "ai-org/patch-series/notes" := by
    refine ⟨fun hterminal => ?_, fun _ => ⟨false, by decide +kernel, fun _ => by decide +kernel⟩,
      fun _ _ => by decide +kernel⟩
    have hnot : _is_terminal_patch_series repo "ai-org/patch-series/notes" = false := by decide +kernel
    rw [hnot] at hterminal
    cases hterminal
  have hpull : pull repo Reform.sampleExperienceCodec =
      some (some (.authorRevision "ai-org/patch-series/notes")) := by decide +kernel
  refine ⟨hpull, (((pull_strands_none_iff hlive hmem).1.2 hserved).resolve_left ?_)⟩
  rintro ⟨⟨line, hline, hok⟩, -⟩
  have hverdict : (log_subjects repo "ai-org/patch-series/notes").find? isVerdict =
      some "patch_series: needs-revision round 1".toList := by decide +kernel
  rw [hverdict] at hline
  obtain rfl := Option.some.inj hline
  revert hok
  decide +kernel

end Example

end Patchwork

end AiOrg
