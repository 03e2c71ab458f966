import AiOrg.Patchwork.Pull

/-!
# Verdicts that are not the series' own

The markers are looked for in everything that the branch reaches. A verdict depends on the series alone exactly
if the commits of the series settle it before the search comes to those of the default branch
(`series_verdicts_own_iff`).
-/

namespace AiOrg

open List

namespace Patchwork

open Git (History subjectLines)

variable {ι : Type} [DecidableEq ι] {repo : Repository ι} {branch : String} {chain : List ι}

/-- The commits of the default branch. -/
def defaultLog (repo : Repository ι) : List ι :=
  match repo.tip repo.default with
  | some tip => repo.history.log tip
  | none => []

structure OnDefault (repo : Repository ι) (branch : String) (chain : List ι) : Prop where
  standing : ∃ tip base, repo.tip branch = some tip ∧ repo.history.Chain tip chain base ∧ base ∈ defaultLog repo
  fresh : ∀ c ∈ chain, c ∉ defaultLog repo

/-- A result that stays the same whatever the subjects of the default branch are. -/
def Own {α : Type} (repo : Repository ι) (result : Repository ι → α) : Prop :=
  ∀ subject : ι → String, (∀ c, c ∉ defaultLog repo → subject c = repo.subject c) →
    result { repo with subject := subject } = result repo

/-- The lines of the subjects of a series. -/
def ownLines (repo : Repository ι) (chain : List ι) : List (List Char) := subjectLines (chain.map repo.subject)

omit [DecidableEq ι] in
theorem log_subset_defaultLog {base c : ι} (hbase : base ∈ defaultLog repo) (hc : c ∈ repo.history.log base) :
    c ∈ defaultLog repo := by
  rw [defaultLog] at hbase ⊢
  cases htip : repo.tip repo.default with
  | none => simp [htip] at hbase
  | some tip =>
    simp only [htip] at hbase ⊢
    exact repo.history.mem_log.2 ((repo.history.mem_log.1 hbase).trans (repo.history.mem_log.1 hc))

omit [DecidableEq ι] in
theorem OnDefault.log_subjects_eq (h : OnDefault repo branch chain) :
    ∃ base, base ∈ defaultLog repo ∧ ∀ subject : ι → String,
      (∀ c, c ∉ defaultLog repo → subject c = repo.subject c) →
      log_subjects { repo with subject := subject } branch =
        ownLines repo chain ++ subjectLines ((repo.history.log base).map subject) := by
  obtain ⟨tip, base, htip, hchain, hbase⟩ := h.standing
  refine ⟨base, hbase, fun subject hsubject => ?_⟩
  have hown : chain.map subject = chain.map repo.subject :=
    map_congr_left fun c hc => hsubject c (h.fresh c hc)
  show (match repo.tip branch with
    | some tip => subjectLines ((repo.history.log tip).map subject)
    | none => []) = _
  rw [htip]
  show subjectLines ((repo.history.log tip).map subject) = _
  rw [hchain.log_eq, map_append, Git.subjectLines_append, hown, ownLines]

def marked (repo : Repository ι) (marker : String) : Repository ι :=
  { repo with subject := fun c => if c ∈ defaultLog repo then marker else repo.subject c }

def isLine (marker : String) : Bool := marker.toList.all fun c => !Text.isLineBoundary c

theorem subjectLines_replicate {marker : String} (n : ℕ) (h : isLine marker = true) :
    subjectLines (replicate n marker) = replicate n marker.toList := by
  have hplain : ∀ c ∈ marker.toList, Text.isLineBoundary c = false := by simpa [isLine] using h
  induction n with
  | zero => rfl
  | succ n ih =>
    rw [replicate_succ, Git.subjectLines_cons, ih, Git.subjectLines_plain hplain, replicate_succ]
    rfl

theorem OnDefault.log_subjects_marked (h : OnDefault repo branch chain) {marker : String}
    (hplain : isLine marker = true) :
    ∃ n, log_subjects (marked repo marker) branch =
      ownLines repo chain ++ replicate (n + 1) marker.toList := by
  obtain ⟨base, hbase, hlines⟩ := h.log_subjects_eq
  obtain ⟨n, hn⟩ : ∃ n, (repo.history.log base).length = n + 1 :=
    Nat.exists_eq_succ_of_ne_zero (length_pos_of_mem (History.self_mem_log base)).ne'
  refine ⟨n, ?_⟩
  have hall : (repo.history.log base).map (fun c => if c ∈ defaultLog repo then marker else repo.subject c) =
      replicate (n + 1) marker := by
    rw [eq_replicate_iff]
    refine ⟨by rw [length_map, hn], fun subject hsubject => ?_⟩
    obtain ⟨c, hc, rfl⟩ := mem_map.1 hsubject
    rw [if_pos (log_subset_defaultLog hbase hc)]
  rw [marked, hlines _ (fun c hc => if_neg hc), hall, subjectLines_replicate _ hplain]

theorem Own.marked_eq {α : Type} {result : Repository ι → α} (h : Own repo result) (marker other : String) :
    result (marked repo marker) = result (marked repo other) :=
  (h _ fun _ hc => if_neg hc).trans (h _ fun _ hc => if_neg hc).symm

/-! ### One verdict at a time -/

theorem markers_plain : isLine needsRevisionMarker = true ∧ isLine directionOkMarker = true ∧
    isLine nakMarker = true ∧ mentions directionOkMarker [] = false ∧ mentions nakMarker [] = false ∧
    revisionLine needsRevisionMarker.toList = some true := by
  decide +kernel

theorem mentions_self (marker : String) : mentions marker marker.toList = true := by
  simp [mentions]

theorem any_replicate (p : List Char → Bool) (n : ℕ) (line : List Char) :
    (replicate (n + 1) line).any p = p line := by
  induction n with
  | zero => simp
  | succ n ih => rw [replicate_succ, any_cons, ih, Bool.or_self]

theorem OnDefault.has_subject_own_iff (h : OnDefault repo branch chain) {marker : String}
    (hplain : isLine marker = true) (hmarker : mentions marker [] = false) :
    Own repo (fun repo => has_subject repo branch marker) ↔
      (ownLines repo chain).any (mentions marker) = true := by
  constructor
  · intro hown
    have heq := hown.marked_eq marker ""
    obtain ⟨n, hn⟩ := h.log_subjects_marked hplain
    obtain ⟨m, hm⟩ := h.log_subjects_marked (show isLine "" = true by decide)
    rw [has_subject, has_subject, hn, hm, any_append, any_append, any_replicate, any_replicate,
      mentions_self, String.toList_empty, hmarker] at heq
    simpa using heq.symm
  · intro hany subject hsubject
    obtain ⟨base, -, hlines⟩ := h.log_subjects_eq
    show has_subject _ _ _ = has_subject _ _ _
    rw [has_subject, has_subject, hlines subject hsubject, hlines repo.subject fun _ _ => rfl, any_append,
      any_append, hany, Bool.true_or, Bool.true_or]

theorem firstDecision_append (decide : List Char → Option Bool) (lines others : List (List Char)) :
    firstDecision decide (lines ++ others) = (lines.findSome? decide).getD (firstDecision decide others) := by
  rw [firstDecision, findSome?_append]
  cases lines.findSome? decide <;> rfl

theorem firstDecision_replicate (decide : List Char → Option Bool) (n : ℕ) (line : List Char) :
    firstDecision decide (replicate (n + 1) line) = (decide line).getD false := by
  induction n with
  | zero =>
    rw [firstDecision, replicate_one, findSome?_singleton]
  | succ n ih =>
    rw [replicate_succ, firstDecision, findSome?_cons]
    cases hline : decide line with
    | none => rw [← firstDecision, ih, hline]
    | some value => rfl

theorem OnDefault.latest_own_iff (h : OnDefault repo branch chain) :
    Own repo (fun repo => _latest_needs_revision_is_head repo branch) ↔
      ((ownLines repo chain).findSome? revisionLine).isSome = true := by
  constructor
  · intro hown
    have heq := hown.marked_eq needsRevisionMarker ""
    obtain ⟨n, hn⟩ := h.log_subjects_marked markers_plain.1
    obtain ⟨m, hm⟩ := h.log_subjects_marked (show isLine "" = true by decide)
    have hyes := markers_plain.2.2.2.2.2
    have hno : revisionLine "".toList = none := rfl
    rw [_latest_needs_revision_is_head, _latest_needs_revision_is_head, hn, hm, firstDecision_append,
      firstDecision_append, firstDecision_replicate, firstDecision_replicate, hyes, hno] at heq
    cases hfound : (ownLines repo chain).findSome? revisionLine with
    | none => simp [hfound] at heq
    | some value => rfl
  · intro hsome subject hsubject
    obtain ⟨value, hvalue⟩ := Option.isSome_iff_exists.1 hsome
    obtain ⟨base, -, hlines⟩ := h.log_subjects_eq
    show _latest_needs_revision_is_head _ _ = _latest_needs_revision_is_head _ _
    rw [_latest_needs_revision_is_head, _latest_needs_revision_is_head, hlines subject hsubject,
      hlines repo.subject fun _ _ => rfl, firstDecision_append, firstDecision_append, hvalue]
    rfl

theorem terminal_eq (repo : Repository ι) (branch : String) :
    _is_terminal_patch_series repo branch =
      (has_subject repo branch nakMarker || merged repo branch ||
        firstDecision terminalLine (log_subjects repo branch)) := by
  rw [_is_terminal_patch_series]
  cases has_subject repo branch nakMarker <;> cases merged repo branch <;> simp

theorem OnDefault.terminal_own_iff (h : OnDefault repo branch chain) :
    Own repo (fun repo => _is_terminal_patch_series repo branch) ↔
      merged repo branch = true ∨ (ownLines repo chain).any (mentions nakMarker) = true ∨
        (ownLines repo chain).findSome? terminalLine = some true := by
  have hmerged : ∀ subject, merged { repo with subject := subject } branch = merged repo branch := fun _ => rfl
  constructor
  · intro hown
    have heq := hown.marked_eq nakMarker ""
    obtain ⟨n, hn⟩ := h.log_subjects_marked markers_plain.2.2.1
    obtain ⟨m, hm⟩ := h.log_subjects_marked (show isLine "" = true by decide)
    have hmarked : ∀ marker, merged (marked repo marker) branch = merged repo branch := fun _ => rfl
    have hnone : terminalLine "".toList = none := rfl
    have hempty : mentions nakMarker "".toList = false := markers_plain.2.2.2.2.1
    rw [terminal_eq, terminal_eq, has_subject, has_subject, hn, hm, any_append, any_append,
      any_replicate, any_replicate, mentions_self, hempty, firstDecision_append, firstDecision_append,
      firstDecision_replicate, firstDecision_replicate, hnone] at heq
    by_cases hmerge : merged repo branch = true
    · exact .inl hmerge
    by_cases hnak : (ownLines repo chain).any (mentions nakMarker) = true
    · exact .inr (.inl hnak)
    refine .inr (.inr ?_)
    rw [Bool.not_eq_true] at hmerge hnak
    simp only [hnak, Bool.or_true, Bool.true_or, Bool.false_or, Option.getD_none, hmarked, hmerge] at heq
    cases hfound : (ownLines repo chain).findSome? terminalLine with
    | none => simp [hfound] at heq
    | some value => simpa [hfound] using heq.symm
  · intro hsettled subject hsubject
    obtain ⟨base, -, hlines⟩ := h.log_subjects_eq
    have htrue : ∀ subject : ι → String, (∀ c, c ∉ defaultLog repo → subject c = repo.subject c) →
        _is_terminal_patch_series { repo with subject := subject } branch = true := by
      intro subject hsubject
      rw [terminal_eq, has_subject, hlines subject hsubject, hmerged, any_append, firstDecision_append]
      rcases hsettled with hmerge | hnak | hdecided
      · simp [hmerge]
      · simp [hnak]
      · simp [hdecided]
    exact (htrue subject hsubject).trans (htrue repo.subject fun _ _ => rfl).symm

structure OwnVerdicts (repo : Repository ι) (branch : String) (default : Option String) : Prop where
  terminal : Own repo fun repo => _is_terminal_patch_series repo branch
  needs_revision : Own repo fun repo => _latest_needs_revision_is_head repo branch
  direction_ok : Own repo fun repo => decide ("not_direction_ok" ∈ series_reasons repo branch default)
  nak : Own repo fun repo => decide ("nak" ∈ series_reasons repo branch default)

theorem OnDefault.direction_ok_own_iff (h : OnDefault repo branch chain) (default : Option String) :
    Own repo (fun repo => decide ("not_direction_ok" ∈ series_reasons repo branch default)) ↔
      (ownLines repo chain).any (mentions directionOkMarker) = true := by
  rw [← h.has_subject_own_iff markers_plain.2.1 markers_plain.2.2.2.1]
  refine forall₂_congr fun subject _ => ?_
  simp only [not_direction_ok_mem, decide_eq_decide]
  cases has_subject { repo with subject := subject } branch directionOkMarker <;>
    cases has_subject repo branch directionOkMarker <;> simp

theorem OnDefault.nak_own_iff (h : OnDefault repo branch chain) (default : Option String) :
    Own repo (fun repo => decide ("nak" ∈ series_reasons repo branch default)) ↔
      (ownLines repo chain).any (mentions nakMarker) = true := by
  rw [← h.has_subject_own_iff markers_plain.2.2.1 markers_plain.2.2.2.2.1]
  refine forall₂_congr fun subject _ => ?_
  simp only [nak_mem, decide_eq_decide]
  cases has_subject { repo with subject := subject } branch nakMarker <;>
    cases has_subject repo branch nakMarker <;> simp

theorem decided_of_nak {lines : List (List Char)} (h : lines.any (mentions nakMarker) = true) :
    (lines.findSome? revisionLine).isSome = true := by
  obtain ⟨line, hline, hnak⟩ := any_eq_true.1 h
  rw [findSome?_isSome_iff]
  exact ⟨line, hline, by simp [revisionLine, hnak]⟩

/-- When each verdict on a series depends on the series alone, and when all of them do. -/
theorem series_verdicts_own_iff (h : OnDefault repo branch chain) (default : Option String) :
    ((Own repo fun repo => _is_terminal_patch_series repo branch) ↔
      merged repo branch = true ∨ (ownLines repo chain).any (mentions nakMarker) = true ∨
        (ownLines repo chain).findSome? terminalLine = some true) ∧
    ((Own repo fun repo => _latest_needs_revision_is_head repo branch) ↔
      ((ownLines repo chain).findSome? revisionLine).isSome = true) ∧
    ((Own repo fun repo => decide ("not_direction_ok" ∈ series_reasons repo branch default)) ↔
      (ownLines repo chain).any (mentions directionOkMarker) = true) ∧
    ((Own repo fun repo => decide ("nak" ∈ series_reasons repo branch default)) ↔
      (ownLines repo chain).any (mentions nakMarker) = true) ∧
    (OwnVerdicts repo branch default ↔ (ownLines repo chain).any (mentions directionOkMarker) = true ∧
      (ownLines repo chain).any (mentions nakMarker) = true) := by
  refine ⟨h.terminal_own_iff, h.latest_own_iff, h.direction_ok_own_iff default, h.nak_own_iff default, ?_, ?_⟩
  · intro hown
    exact ⟨(h.direction_ok_own_iff default).1 hown.direction_ok, (h.nak_own_iff default).1 hown.nak⟩
  · rintro ⟨hok, hnak⟩
    exact ⟨h.terminal_own_iff.2 (.inr (.inl hnak)), h.latest_own_iff.2 (decided_of_nak hnak),
      (h.direction_ok_own_iff default).2 hok, (h.nak_own_iff default).2 hnak⟩

section Example

/-- A series on a default branch of two commits, the second one with a subject of its own. -/
def sampleSeries (earlier : String) (subjects : List String) : Repository ℕ where
  history := Git.History.linear
  subject c := ("init" :: earlier :: subjects).getD c ""
  tips := [("main", 1), ("ai-org/patch-series/notes", subjects.length + 1)]
  default := "main"
  rounds _ := []
  legacyRounds _ := []
  experience _ := ⟨none, none⟩

theorem sampleSeries_onDefault (earlier : String) (subjects : List String) :
    OnDefault (sampleSeries earlier subjects) "ai-org/patch-series/notes"
      ((List.range' 2 subjects.length).reverse) := by
  have hlog : defaultLog (sampleSeries earlier subjects) = [1, 0] := rfl
  have hchain : ∀ n, (Git.History.linear).Chain (n + 1) (List.range' 2 n).reverse 1 := by
    intro n
    induction n with
    | zero => exact .base 1
    | succ n ih =>
      have htop : (List.range' 2 (n + 1)).reverse = (n + 2) :: (List.range' 2 n).reverse := by
        rw [range'_concat, reverse_append]
        simp [Nat.add_comm]
      rw [htop]
      exact .cons rfl ih
  refine ⟨⟨subjects.length + 1, 1, rfl, hchain _, by rw [hlog]; simp⟩, ?_⟩
  intro c hc
  rw [hlog]
  rw [mem_reverse, mem_range'] at hc
  obtain ⟨i, -, rfl⟩ := hc
  simp
  omega

/-- A nak in the subject of a commit of the default branch finishes the series on top of it. -/
theorem earlier_nak_decides :
    let repo := sampleSeries "patch_series: nak" ["patch_series v1: notes"]
    OnDefault repo "ai-org/patch-series/notes" [2] ∧
    _is_terminal_patch_series repo "ai-org/patch-series/notes" = true ∧
    _is_terminal_patch_series (sampleSeries "merge" ["patch_series v1: notes"]) "ai-org/patch-series/notes" =
      false ∧
    ¬ OwnVerdicts repo "ai-org/patch-series/notes" (some "main") := by
  intro repo
  have hyes : _is_terminal_patch_series repo "ai-org/patch-series/notes" = true := by decide +kernel
  have hno : _is_terminal_patch_series (sampleSeries "merge" ["patch_series v1: notes"])
      "ai-org/patch-series/notes" = false := by decide +kernel
  refine ⟨sampleSeries_onDefault _ _, hyes, hno, fun hown => ?_⟩
  have heq := hown.terminal (sampleSeries "merge" ["patch_series v1: notes"]).subject (fun c hc => ?_)
  · have hsame : _is_terminal_patch_series repo "ai-org/patch-series/notes" = false := heq.symm.trans hno
    rw [hyes] at hsame
    cases hsame
  · have hlog : defaultLog repo = [1, 0] := rfl
    obtain ⟨n, rfl⟩ : ∃ n, c = n + 2 := Nat.exists_eq_add_of_le' (by rw [hlog] at hc; simp at hc; omega)
    rfl

/-- A series that was approved and then refused has all its verdicts from itself. -/
theorem series_verdicts_own_iff_refused :
    OwnVerdicts (sampleSeries "patch_series: nak" ["patch_series: direction-ok", "patch_series: nak"])
      "ai-org/patch-series/notes" (some "main") := by
  have hdefault : OnDefault (sampleSeries "patch_series: nak" ["patch_series: direction-ok", "patch_series: nak"])
      "ai-org/patch-series/notes" [3, 2] := sampleSeries_onDefault _ _
  exact (series_verdicts_own_iff hdefault (some "main")).2.2.2.2.2 ⟨by decide +kernel, by decide +kernel⟩

end Example

end Patchwork

end AiOrg
