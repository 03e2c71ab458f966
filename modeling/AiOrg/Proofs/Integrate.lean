import AiOrg.Subsystem.Integrate

/-!
# What is integrated

A migrated contribution is merged at a commit that is sealed for its branch. A historical one is merged at what
its branch has come to, which is the branch's own marker in every run in which no contribution branch comes to
reach a marker that is not its own tip, and none moves once a pull has selected it (`merges_accepted`).
-/

namespace AiOrg

open List

namespace Subsystem

open Git

variable {π τ : Type} [DecidableEq π] [DecidableEq τ] {ev : Evidence τ} {s : State π τ} {e : Event π τ}

/-- A merge of a marker that was put on its branch, or of a verdict that is sealed for its branch. -/
def Merge.Accepted (ev : Evidence τ) (markers : List (String × Commit τ)) (merge : Merge τ) : Prop :=
  (merge.notes = none → (merge.branch, merge.tip) ∈ markers) ∧
    ∀ notes, merge.notes = some notes → ev.sealed_verdict_accepted merge.tip notes merge.branch = true

/-- A repository without contributions, in which nothing goes on. -/
structure Initial (s : State π τ) : Prop where
  contribs : ∀ branch, isContrib branch = true → s.repo.refs branch = none
  markers : s.markers = []
  merges : s.merges = []
  idle : ∀ p, s.phase p = .idle

/-- A tip that is not taken for an accepted historical contribution. -/
def Plain (ev : Evidence τ) (tip : Commit τ) : Prop :=
  has_subject tip reachableSubject = false ∨ ev.is_migrated_tree tip ≠ .ok false

/-- A pull has selected a branch that it will merge by its name. -/
def Phase.Holds : Phase τ → String → Prop
  | .selected branch, other => branch = other
  | .reviewing branch _, other => branch = other
  | _, _ => False

/-- A contribution branch only moves to a marker of its own, or to a plain tip while no pull holds it. -/
def Calm (ev : Evidence τ) (s : State π τ) (e : Event π τ) : Prop :=
  ∀ branch, isContrib branch = true → (s.step ev e).repo.refs branch ≠ s.repo.refs branch →
    (∃ tip, (s.step ev e).repo.refs branch = some tip ∧ (branch, tip) ∈ (s.step ev e).markers) ∨
    (∀ p, ¬ (s.phase p).Holds branch) ∧
      ∀ tip, (s.step ev e).repo.refs branch = some tip → Plain ev tip

def CalmRun (ev : Evidence τ) (s : State π τ) : List (Event π τ) → Prop
  | [] => True
  | e :: events => Calm ev s e ∧ CalmRun ev (s.step ev e) events

/-! ### What a step does -/

theorem isContrib_of_mem {names : List String} {branch : String} (h : branch ∈ contribBranches names) :
    isContrib branch = true :=
  (mem_filter.1 ((perm_insertionSort _ _).mem_iff.1 h)).2

theorem not_isContrib_subsystem : isContrib subsystemBranch = false := by decide +kernel

omit [DecidableEq τ] in
theorem subsystem_refs {refs : Refs τ} {target : Option (Commit τ)} {branch : String}
    (hcontrib : isContrib branch = true) : Function.update refs subsystemBranch target branch = refs branch := by
  refine Function.update_of_ne ?_ ..
  rintro rfl
  rw [not_isContrib_subsystem] at hcontrib
  cases hcontrib

omit [DecidableEq τ] in
theorem ensured_refs {repo : Repo τ} {base branch : String} (hcontrib : isContrib branch = true) :
    (ensured repo base).refs branch = repo.refs branch := by
  rw [ensured]
  split_ifs
  · rfl
  · exact subsystem_refs hcontrib

theorem step_markers (ev : Evidence τ) (s : State π τ) (e : Event π τ) : s.markers ⊆ (s.step ev e).markers := by
  cases e with
  | judge branch reachable body =>
    simp only [State.step, State.judged]
    split
    · exact List.Subset.refl _
    · cases reachable
      · exact List.Subset.refl _
      · exact subset_cons_self _ _
  | acceptLeaf o branch =>
    simp only [State.step, State.leafAccepted]
    split
    · exact List.Subset.refl _
    · dsimp only
      split
      · exact subset_cons_self _ _
      · exact List.Subset.refl _
  | look p =>
    simp only [State.step]
    split
    · simp only [State.looked]
      split <;> exact List.Subset.refl _
    · exact List.Subset.refl _
    · exact List.Subset.refl _
  | merge p tree =>
    simp only [State.step]
    split
    · simp only [State.mergeBranch]
      split <;> exact List.Subset.refl _
    · exact List.Subset.refl _
  | publish p tree message =>
    simp only [State.step]
    split
    · simp only [State.publishSealed]
      split
      · split <;> exact List.Subset.refl _
      · exact List.Subset.refl _
    · exact List.Subset.refl _
  | move | checkout | giveUp => exact List.Subset.refl _
  | start | review =>
    simp only [State.step]
    split <;> exact List.Subset.refl _

/-- A pull stays, gives up, starts on contribution branches, looks at the next branch or reviews the one that it
selected. But for the first two nothing else changes. -/
theorem step_phase (ev : Evidence τ) (s : State π τ) (e : Event π τ) (p : π) :
    (s.step ev e).phase p = s.phase p ∨ (s.step ev e).phase p = .idle ∨
    (s.step ev e).repo = s.repo ∧
      ((∃ names, (s.step ev e).phase p = .scanning (contribBranches names)) ∨
      (∃ branch branches, s.phase p = .scanning (branch :: branches) ∧
        ((s.step ev e).phase p = .scanning branches ∨
          (s.step ev e).phase p = .selected branch ∧ look ev s.repo.refs branch = .select)) ∨
      ∃ branch, s.phase p = .selected branch ∧ (s.step ev e).phase p = reviewed ev s.repo branch) := by
  have hset : ∀ (s : State π τ) (q : π) (phase : Phase τ), q ≠ p → (s.setPhase q phase).phase p = s.phase p :=
    fun s q phase hq => Function.update_of_ne (Ne.symm hq) ..
  have hself : ∀ (s : State π τ) (phase : Phase τ), (s.setPhase p phase).phase p = phase :=
    fun s phase => Function.update_self ..
  cases e with
  | move | checkout => exact .inl rfl
  | judge branch reachable body =>
    left
    simp only [State.step, State.judged]
    split <;> rfl
  | acceptLeaf o branch =>
    left
    simp only [State.step, State.leafAccepted]
    split <;> rfl
  | start q names =>
    simp only [State.step]
    split
    · by_cases hq : q = p
      · subst hq
        exact .inr (.inr ⟨rfl, .inl ⟨names, hself ..⟩⟩)
      · exact .inl (hset _ _ _ hq)
    · exact .inl rfl
  | look q =>
    simp only [State.step]
    split
    · rename_i branch branches hphase
      simp only [State.looked]
      by_cases hq : q = p
      · subst hq
        split
        · exact .inr (.inr ⟨rfl, .inr (.inl ⟨branch, branches, hphase, .inl (hself ..)⟩)⟩)
        · exact .inr (.inl (hself ..))
        · rename_i hlook
          exact .inr (.inr ⟨rfl, .inr (.inl ⟨branch, branches, hphase, .inr ⟨hself .., hlook⟩⟩)⟩)
      · split <;> exact .inl (hset _ _ _ hq)
    · by_cases hq : q = p
      · subst hq
        exact .inr (.inl (hself ..))
      · exact .inl (hset _ _ _ hq)
    · exact .inl rfl
  | review q =>
    simp only [State.step]
    split
    · rename_i branch hphase
      by_cases hq : q = p
      · subst hq
        exact .inr (.inr ⟨rfl, .inr (.inr ⟨branch, hphase, hself ..⟩)⟩)
      · exact .inl (hset _ _ _ hq)
    · exact .inl rfl
  | giveUp q =>
    by_cases hq : q = p
    · subst hq
      exact .inr (.inl (hself ..))
    · exact .inl (hset _ _ _ hq)
  | merge q tree =>
    simp only [State.step]
    split
    · simp only [State.mergeBranch]
      by_cases hq : q = p
      · subst hq
        split <;> exact .inr (.inl (hself ..))
      · split <;> exact .inl (hset _ _ _ hq)
    · exact .inl rfl
  | publish q tree message =>
    simp only [State.step]
    split
    · simp only [State.publishSealed]
      by_cases hq : q = p
      · subst hq
        split
        · split <;> exact .inr (.inl (hself ..))
        · exact .inr (.inl (hself ..))
      · split
        · split <;> exact .inl (hset _ _ _ hq)
        · exact .inl (hset _ _ _ hq)
    · exact .inl rfl

theorem step_merges {merge : Merge τ} (h : merge ∈ (s.step ev e).merges) :
    merge ∈ s.merges ∨
    (∃ p base, s.phase p = .reviewing merge.branch base ∧
      (ensured s.repo base).refs merge.branch = some merge.tip ∧ merge.notes = none) ∨
    ∃ p notes subsystem base baseTip, merge.notes = some notes ∧
      s.phase p = .sealedReview merge.branch merge.tip notes subsystem base baseTip := by
  cases e with
  | move | checkout | giveUp => exact .inl h
  | judge branch reachable body =>
    simp only [State.step, State.judged] at h
    split at h <;> exact .inl h
  | acceptLeaf o branch =>
    simp only [State.step, State.leafAccepted] at h
    split at h <;> exact .inl h
  | start | review =>
    simp only [State.step] at h
    split at h <;> exact .inl h
  | look q =>
    simp only [State.step] at h
    split at h
    · simp only [State.looked] at h
      split at h <;> exact .inl h
    · exact .inl h
    · exact .inl h
  | merge q tree =>
    simp only [State.step] at h
    split at h
    · rename_i branch base hphase
      simp only [State.mergeBranch] at h
      split at h
      · rename_i tip subsystem htip _
        rcases mem_cons.1 h with rfl | hold
        · exact .inr (.inl ⟨q, base, hphase, htip, rfl⟩)
        · exact .inl hold
      · exact .inl h
    · exact .inl h
  | publish q tree message =>
    simp only [State.step] at h
    split at h
    · rename_i branch verdict notes subsystem base baseTip hphase
      simp only [State.publishSealed] at h
      split at h
      · split at h
        · rcases mem_cons.1 h with rfl | hold
          · exact .inr (.inr ⟨q, notes, subsystem, base, baseTip, rfl, hphase⟩)
          · exact .inl hold
        · exact .inl h
      · exact .inl h
    · exact .inl h

omit [DecidableEq τ] in
theorem sealed_of_ok {refs : Refs τ} {branch : String} {verdict notes : Commit τ}
    (h : sealed_contribution ev refs branch = .ok (verdict, notes)) :
    ev.sealed_verdict_accepted verdict notes branch = true := by
  rw [sealed_contribution] at h
  split at h
  · split_ifs at h with haccepted
    split at h
    · cases h
    · split_ifs at h
      cases h
      exact haccepted
  · cases h

omit [DecidableEq τ] in
theorem reviewed_cases (ev : Evidence τ) (repo : Repo τ) (branch : String) :
    reviewed ev repo branch = .idle ∨
    (∃ base tip, reviewed ev repo branch = .reviewing branch base ∧ repo.refs branch = some tip ∧
      ev.is_migrated_tree tip = .ok false) ∨
    ∃ verdict notes subsystem base baseTip,
      reviewed ev repo branch = .sealedReview branch verdict notes subsystem base baseTip ∧
      ev.sealed_verdict_accepted verdict notes branch = true := by
  rw [reviewed]
  split
  · exact .inl rfl
  · split
    · exact .inl rfl
    · exact .inl rfl
    · rename_i base _ _ hmigrated
      obtain ⟨tip, htip, hfalse⟩ := Option.map_eq_some_iff.1 hmigrated
      exact .inr (.inl ⟨base, tip, rfl, htip, hfalse⟩)
    · split
      · exact .inl rfl
      · rename_i hsealed
        split
        · exact .inr (.inr ⟨_, _, _, _, _, rfl, sealed_of_ok hsealed⟩)
        · exact .inl rfl

/-- What goes on with sealed verdicts: the reviews and the merges have them sealed for their branches. -/
structure Sealed (ev : Evidence τ) (s : State π τ) : Prop where
  reviews : ∀ p branch verdict notes subsystem base baseTip,
    s.phase p = .sealedReview branch verdict notes subsystem base baseTip →
      ev.sealed_verdict_accepted verdict notes branch = true
  merges : ∀ merge ∈ s.merges, ∀ notes, merge.notes = some notes →
    ev.sealed_verdict_accepted merge.tip notes merge.branch = true

theorem Sealed.step (h : Sealed ev s) (e : Event π τ) : Sealed ev (s.step ev e) := by
  refine ⟨?_, ?_⟩
  · intro p branch verdict notes subsystem base baseTip hphase
    rcases step_phase ev s e p with hsame | hidle | ⟨-, ⟨names, hnew⟩ | ⟨other, branches, -, hnew | ⟨hnew, -⟩⟩ |
      ⟨other, -, hnew⟩⟩
    · exact h.reviews p branch verdict notes subsystem base baseTip (hsame.symm.trans hphase)
    · rw [hidle] at hphase
      cases hphase
    · rw [hnew] at hphase
      cases hphase
    · rw [hnew] at hphase
      cases hphase
    · rw [hnew] at hphase
      cases hphase
    · rw [hnew] at hphase
      rcases reviewed_cases ev s.repo other with hidle | ⟨_, _, hhistorical, -, -⟩ |
        ⟨_, _, _, _, _, hsealed, haccepted⟩
      · rw [hidle] at hphase
        cases hphase
      · rw [hhistorical] at hphase
        cases hphase
      · rw [hsealed] at hphase
        cases hphase
        exact haccepted
  · intro merge hmerge notes hnotes
    rcases step_merges hmerge with hold | ⟨_, _, -, -, hnone⟩ | ⟨p, _, _, _, _, hsome, hphase⟩
    · exact h.merges merge hold notes hnotes
    · rw [hnone] at hnotes
      cases hnotes
    · rw [hsome] at hnotes
      cases hnotes
      exact h.reviews p _ _ _ _ _ _ hphase

omit [DecidableEq π] [DecidableEq τ] in
theorem Initial.sealed (h : Initial s) : Sealed ev s := by
  refine ⟨fun p branch verdict notes subsystem base baseTip hphase => ?_, fun merge hmerge => ?_⟩
  · rw [h.idle p] at hphase
    cases hphase
  · rw [h.merges] at hmerge
    cases hmerge

theorem Sealed.run (h : Sealed ev s) (events : List (Event π τ)) : Sealed ev (s.run ev events) := by
  induction events generalizing s with
  | nil => exact h
  | cons e events ih => exact ih (h.step e)

/-! ### Historical contributions -/

/-- The tip of a branch, if there is one, is a marker of the branch or has another property. -/
def OwnOr (P : Commit τ → Prop) (s : State π τ) (branch : String) : Prop :=
  ∀ tip, s.repo.refs branch = some tip → (branch, tip) ∈ s.markers ∨ P tip

def PhaseOk (ev : Evidence τ) (s : State π τ) : Phase τ → Prop
  | .scanning branches => ∀ branch ∈ branches, isContrib branch = true
  | .selected branch => isContrib branch = true ∧ OwnOr (fun tip => ev.is_migrated_tree tip ≠ .ok false) s branch
  | .reviewing branch _ => isContrib branch = true ∧ OwnOr (fun _ => False) s branch
  | _ => True

structure Orderly (ev : Evidence τ) (s : State π τ) : Prop where
  tips : ∀ branch, isContrib branch = true → OwnOr (Plain ev) s branch
  phases : ∀ p, PhaseOk ev s (s.phase p)
  merges : ∀ merge ∈ s.merges, merge.notes = none → (merge.branch, merge.tip) ∈ s.markers

theorem Calm.ownOr_held (h : Calm ev s e) {P : Commit τ → Prop} {branch : String} {p : π}
    (hcontrib : isContrib branch = true) (hheld : (s.phase p).Holds branch) (hown : OwnOr P s branch) :
    OwnOr P (s.step ev e) branch := by
  intro tip htip
  by_cases hsame : (s.step ev e).repo.refs branch = s.repo.refs branch
  · exact (hown tip (hsame.symm.trans htip)).imp_left fun hmem => step_markers ev s e hmem
  · rcases h branch hcontrib hsame with ⟨own, hown', hmem⟩ | ⟨hfree, -⟩
    · obtain rfl := Option.eq_some_unique htip hown'
      exact .inl hmem
    · exact absurd hheld (hfree p)

theorem Calm.ownOr_plain (h : Calm ev s e) {branch : String} (hcontrib : isContrib branch = true)
    (hown : OwnOr (Plain ev) s branch) : OwnOr (Plain ev) (s.step ev e) branch := by
  intro tip htip
  by_cases hsame : (s.step ev e).repo.refs branch = s.repo.refs branch
  · exact (hown tip (hsame.symm.trans htip)).imp_left fun hmem => step_markers ev s e hmem
  · rcases h branch hcontrib hsame with ⟨own, hown', hmem⟩ | ⟨-, hplain⟩
    · obtain rfl := Option.eq_some_unique htip hown'
      exact .inl hmem
    · exact .inr (hplain tip htip)

theorem Calm.phaseOk (h : Calm ev s e) {p : π} (hok : PhaseOk ev s (s.phase p)) :
    PhaseOk ev (s.step ev e) (s.phase p) := by
  have hheld := @Calm.ownOr_held _ _ _ _ _ _ _ h
  cases hphase : s.phase p with
  | idle => trivial
  | scanning branches =>
    rw [hphase] at hok
    exact hok
  | selected branch =>
    rw [hphase] at hok
    exact ⟨hok.1, hheld (p := p) hok.1 (by rw [hphase]; rfl) hok.2⟩
  | reviewing branch base =>
    rw [hphase] at hok
    exact ⟨hok.1, hheld (p := p) hok.1 (by rw [hphase]; rfl) hok.2⟩
  | sealedReview => trivial

theorem marked_of_select {refs : Refs τ} {branch : String} (h : look ev refs branch = .select) {tip : Commit τ}
    (htip : refs branch = some tip) : has_subject tip reachableSubject = true := by
  rw [look, htip] at h
  dsimp only at h
  by_contra hsubject
  rw [if_neg hsubject] at h
  cases h

theorem Orderly.step (h : Orderly ev s) (hcalm : Calm ev s e) : Orderly ev (s.step ev e) := by
  have htips : ∀ branch, isContrib branch = true → OwnOr (Plain ev) (s.step ev e) branch :=
    fun branch hcontrib => hcalm.ownOr_plain hcontrib (h.tips branch hcontrib)
  refine ⟨htips, fun p => ?_, fun merge hmerge hnone => ?_⟩
  · rcases step_phase ev s e p with hsame | hidle | ⟨hrepo, ⟨names, hnew⟩ |
      ⟨branch, branches, hscan, hnew | ⟨hnew, hlook⟩⟩ | ⟨branch, hselected, hnew⟩⟩
    · rw [hsame]
      exact hcalm.phaseOk (h.phases p)
    · rw [hidle]
      trivial
    · rw [hnew]
      exact fun branch hbranch => isContrib_of_mem hbranch
    · have hold := h.phases p
      rw [hscan] at hold
      rw [hnew]
      exact fun other hother => hold other (mem_cons_of_mem _ hother)
    · -- what is selected is marked, so that a plain tip is a migrated one
      have hold := h.phases p
      rw [hscan] at hold
      have hcontrib := hold branch mem_cons_self
      rw [hnew]
      refine ⟨hcontrib, fun tip htip => (htips branch hcontrib tip htip).imp_right fun hplain => ?_⟩
      rw [hrepo] at htip
      refine hplain.resolve_left fun hnot => ?_
      rw [marked_of_select hlook htip] at hnot
      cases hnot
    · have hold := hcalm.phaseOk (h.phases p)
      rw [hselected] at hold
      rw [hnew]
      rcases reviewed_cases ev s.repo branch with hidle | ⟨base, tip, hhistorical, htip, hfalse⟩ |
        ⟨_, _, _, _, _, hsealed, -⟩
      · rw [hidle]
        trivial
      · rw [hhistorical]
        refine ⟨hold.1, fun other hother => ?_⟩
        obtain rfl : other = tip := Option.some.inj (hother.symm.trans (by rw [hrepo, htip]))
        exact .inl ((hold.2 other hother).resolve_right fun hne => hne hfalse)
      · rw [hsealed]
        trivial
  · refine (step_merges hmerge).elim (fun hold => step_markers ev s e (h.merges merge hold hnone)) ?_
    rintro (⟨p, base, hphase, htip, -⟩ | ⟨_, _, _, _, _, hsome, -⟩)
    · have hok := h.phases p
      rw [hphase] at hok
      exact step_markers ev s e ((hok.2 _ ((ensured_refs hok.1).symm.trans htip)).resolve_right id)
    · rw [hsome] at hnone
      cases hnone

omit [DecidableEq π] [DecidableEq τ] in
theorem Initial.orderly (h : Initial s) : Orderly ev s := by
  refine ⟨fun branch hcontrib tip htip => ?_, fun p => ?_, fun merge hmerge => ?_⟩
  · rw [h.contribs branch hcontrib] at htip
    cases htip
  · rw [h.idle p]
    trivial
  · rw [h.merges] at hmerge
    cases hmerge

theorem Orderly.run {events : List (Event π τ)} (h : Orderly ev s) (hcalm : CalmRun ev s events) :
    Orderly ev (s.run ev events) := by
  induction events generalizing s with
  | nil => exact h
  | cons e events ih => exact ih (h.step hcalm.1) hcalm.2

/-- In every run what is merged from the migrated generation is sealed for its branch, and in a calm run what is
merged from the historical one is a marker of its branch. -/
theorem merges_accepted (ev : Evidence τ) (hinitial : Initial s) (events : List (Event π τ)) :
    (∀ merge ∈ (s.run ev events).merges, merge.notes.isSome = true →
      merge.Accepted ev (s.run ev events).markers) ∧
    (CalmRun ev s events → ∀ merge ∈ (s.run ev events).merges, merge.Accepted ev (s.run ev events).markers) := by
  have hsealed : Sealed ev (s.run ev events) := hinitial.sealed.run events
  refine ⟨fun merge hmerge hsome => ⟨fun hnone => ?_, hsealed.merges merge hmerge⟩, fun hcalm merge hmerge => ?_⟩
  · rw [hnone] at hsome
    cases hsome
  · exact ⟨((hinitial.orderly).run hcalm).merges merge hmerge, hsealed.merges merge hmerge⟩

theorem calm_of_refs (h : ∀ branch, isContrib branch = true → (s.step ev e).repo.refs branch = s.repo.refs branch) :
    Calm ev s e := fun branch hcontrib hne => absurd (h branch hcontrib) hne

theorem calm_pull (ev : Evidence τ) (s : State π τ) (p : π) :
    (∀ names, Calm ev s (.start p names)) ∧ Calm ev s (.look p) ∧ Calm ev s (.review p) ∧ Calm ev s (.giveUp p) ∧
    (∀ tree, Calm ev s (.merge p tree)) ∧ ∀ tree message, Calm ev s (.publish p tree message) := by
  refine ⟨fun names => ?_, ?_, ?_, ?_, fun tree => ?_, fun tree message => ?_⟩ <;>
    refine calm_of_refs fun branch hcontrib => ?_
  · simp only [State.step]
    split <;> rfl
  · simp only [State.step]
    split
    · simp only [State.looked]
      split <;> rfl
    · rfl
    · rfl
  · simp only [State.step]
    split <;> rfl
  · rfl
  · simp only [State.step]
    split
    · simp only [State.mergeBranch]
      split
      · exact (subsystem_refs hcontrib).trans (ensured_refs hcontrib)
      · exact ensured_refs hcontrib
    · rfl
  · simp only [State.step]
    split
    · simp only [State.publishSealed]
      split
      · split
        · exact subsystem_refs hcontrib
        · rfl
      · rfl
    · rfl

theorem calm_judge (ev : Evidence τ) (s : State π τ) (branch body : String) :
    Calm ev s (.judge branch true body) := by
  intro other hcontrib hne
  cases htip : s.repo.refs branch with
  | none => simp [State.step, State.judged, htip] at hne
  | some tip =>
    by_cases hother : other = branch
    · subst hother
      exact .inl ⟨verdictOn true body tip, by simp [State.step, State.judged, htip, Repo.setRef],
        by simp [State.step, State.judged, htip]⟩
    · refine absurd ?_ hne
      simp [State.step, State.judged, htip, Repo.setRef, Function.update_of_ne hother]

theorem calm_move {ref : String} {target : Commit τ} (hfree : ∀ p, ¬ (s.phase p).Holds ref)
    (hplain : Plain ev target) : Calm ev s (.move ref (some target)) := by
  intro other hcontrib hne
  by_cases hother : other = ref
  · subst hother
    refine .inr ⟨hfree, fun tip htip => ?_⟩
    rw [show (s.step ev (.move other (some target))).repo.refs other = some target from
      Function.update_self ..] at htip
    exact Option.some.inj htip ▸ hplain
  · exact absurd (Function.update_of_ne hother ..) hne

section Example

/-- Commands that all succeed. -/
def smooth : Outcomes String where
  succeeds _ := true
  stderr _ := ""
  mergeTree := "merged"
  oid _ := ""

/-- Contributions that are all of the historical generation. -/
def historical : Evidence String where
  is_migrated_tree _ := .ok false
  sealed_verdict_accepted _ _ _ := false
  sealed_contribution_from_verdict _ _ := .error ""
  has_verified_link _ _ := false
  root_generation_blocker _ _ := false

def initialCommit : Commit String := .mk "init" [] "init"

/-- One commit on the branch that is checked out. -/
def sampleStart : State Unit String where
  repo := ⟨fun branch => if branch = "main" then some initialCommit else none, "main", none⟩
  markers := []
  merges := []
  phase _ := .idle

theorem sampleStart_initial : Initial sampleStart := by
  refine ⟨fun branch hcontrib => ?_, rfl, rfl, fun _ => rfl⟩
  have hne : branch ≠ "main" := by
    rintro rfl
    revert hcontrib
    decide +kernel
  exact if_neg hne

def contributed (parent : Option (Commit String)) (name : String) : Commit String :=
  .mk name parent.toList ("patch: " ++ name)

/-- A contribution is judged and accepted as a leaf. -/
def firstAccepted : List (Event Unit String) :=
  [.move "ai-org/contrib/a" (some (contributed (some initialCommit) "a")), .judge "ai-org/contrib/a" true "",
    .acceptLeaf smooth "ai-org/contrib/a"]

/-- The branch of another contribution is pushed on what the default branch has come to, and a pull follows. -/
def secondPulled : List (Event Unit String) :=
  [.move "ai-org/contrib/b"
      (some (contributed ((sampleStart.run historical firstAccepted).repo.refs "main") "b")),
    .start () ["ai-org/contrib/a", "ai-org/contrib/b"], .look (), .look (), .review (), .merge () "merged"]

/-- The second contribution was never judged: the marker that it reaches came with the default branch. -/
theorem unjudged_merged :
    Initial sampleStart ∧
    ∃ merge : Merge String, merge ∈ (sampleStart.run historical (firstAccepted ++ secondPulled)).merges ∧
      merge.branch = "ai-org/contrib/b" ∧
      ¬ merge.Accepted historical (sampleStart.run historical (firstAccepted ++ secondPulled)).markers := by
  have hrun : ((sampleStart.run historical (firstAccepted ++ secondPulled)).merges.any fun (merge : Merge String) =>
      merge.branch = "ai-org/contrib/b" && merge.notes.isNone &&
        decide ((merge.branch, merge.tip) ∉
          (sampleStart.run historical (firstAccepted ++ secondPulled)).markers)) = true := by
    decide +kernel
  obtain ⟨merge, hmem, hmerge⟩ := any_eq_true.1 hrun
  simp only [Bool.and_eq_true, decide_eq_true_eq, Option.isNone_iff_eq_none] at hmerge
  exact ⟨sampleStart_initial, merge, hmem, hmerge.1.1, fun haccepted => hmerge.2 (haccepted.1 hmerge.1.2)⟩

/-- A pull that merges the marker of the only contribution. -/
def singlePulled : List (Event Unit String) :=
  [.judge "ai-org/contrib/a" true "", .start () ["ai-org/contrib/a"], .look (), .review (),
    .merge () "merged"]

/-- The judge's own marker is merged. -/
theorem merges_accepted_own :
    let events := .move "ai-org/contrib/a" (some (contributed (some initialCommit) "a")) :: singlePulled
    (sampleStart.run historical events).merges.length = 1 ∧
    ∀ merge ∈ (sampleStart.run historical events).merges,
      merge.Accepted historical (sampleStart.run historical events).markers := by
  intro events
  have hmove : Calm historical sampleStart
      (.move "ai-org/contrib/a" (some (contributed (some initialCommit) "a"))) :=
    calm_move (fun _ hheld => hheld) (.inl (by decide +kernel))
  have hcalm : CalmRun historical sampleStart events := by
    have hpull := fun s => calm_pull historical (s : State Unit String) ()
    exact ⟨hmove, calm_judge _ _ _ _, (hpull _).1 _, (hpull _).2.1, (hpull _).2.2.1, (hpull _).2.2.2.2.1 _, trivial⟩
  exact ⟨by decide +kernel, (merges_accepted historical sampleStart_initial events).2 hcalm⟩

end Example

end Subsystem

end AiOrg
