import AiOrg.Review.Questions

/-!
# Accepted deferrals as obligations

A round that can read the committed artifact, and whose accepted deferrals have ids that are new in it,
writes their questions and keeps the ones before (`writeQuestions_sound`). So over a run of such rounds
no question is lost or altered (`afterRounds_obligations`). A round that takes an old id for another
deferral leaves its question out.
-/

namespace AiOrg

open List

namespace Review

variable {py : PyLib} {codec : QuestionsCodec} {branch branch' : Branch} {input : RoundInput}
  {inputs : List RoundInput}

/-- The questions in the committed artifact. -/
def recorded (codec : QuestionsCodec) (branch : Branch) : List Fields :=
  (((branch.canonical.or branch.legacy).bind codec.parse).map questionsOf).getD []

def Asks (question : Fields) (check claim : String) : Prop :=
  question.get "executable_check" = .str check ∧ question.get "claim" = .str claim

/-- A round reads what is recorded, and an id that it accepts a deferral for is new, or the question of
the round is there already. -/
structure Sound (py : PyLib) (codec : QuestionsCodec) (branch : Branch) (input : RoundInput) : Prop where
  reads : input.codecFails = false ∨ recorded codec branch = []
  fresh : ∀ o ∈ input.accepted py, o.objectionId ∈ knownIds py (recorded codec branch) →
    ∀ proposal, (input.proposals py).lookup o.objectionId = some proposal →
      ∃ question ∈ recorded codec branch, Asks question proposal.executableCheck o.claim

/-- A round that has questions to write: it accepts a deferral and is no nak. -/
def RoundInput.writes (py : PyLib) (input : RoundInput) : Prop :=
  input.accepted py ≠ [] ∧ input.nak = false

theorem SameQuestion.trans {a b c : Fields} (h : SameQuestion a b) (h' : SameQuestion b c) :
    SameQuestion a c := fun key => (h key).trans (h' key)

theorem SameQuestion.symm {a b : Fields} (h : SameQuestion a b) : SameQuestion b a :=
  fun key => (h key).symm

theorem SameQuestion.asks {a b : Fields} {check claim : String} (h : SameQuestion a b)
    (hb : Asks b check claim) : Asks a check claim :=
  ⟨(h _).trans hb.1, (h _).trans hb.2⟩

theorem writeQuestions_recorded (hwrites : input.writes py)
    (h : writeQuestions py codec branch input = some branch') : ∃ read,
    (input.codecFails = false → read = recorded codec branch) ∧
    (input.codecFails → read = []) ∧
    Forall₂ SameQuestion (recorded codec branch')
      (addQuestions py read (input.accepted py) (input.proposals py) input.round) := by
  obtain ⟨hne, hnak⟩ := hwrites
  have hcond : ¬ ((input.accepted py).isEmpty || input.nak) = true := by
    simp [hne, hnak]
  rw [writeQuestions, if_neg hcond] at h
  rcases hquestions : _questions_the_patch_must_answer py codec branch input with _ | questions
  · rw [hquestions] at h
    cases h
  rw [hquestions] at h
  rcases htext : codec.prepare (artifactOf questions) with _ | text
  · simp [htext] at h
  simp only [Option.bind_eq_bind, Option.bind_some, htext, Option.pure_def, Option.some.injEq] at h
  subst h
  obtain ⟨parsed, hparsed, hsame⟩ := codec.prepared _ _ htext
  have hnew : recorded codec { branch with canonical := some text } = questionsOf parsed := by
    rw [recorded, Option.some_or, Option.bind_some, hparsed]
    rfl
  rw [hnew]
  rw [_questions_the_patch_must_answer] at hquestions
  by_cases hambiguous : (branch.canonical.isSome && branch.legacy.isSome) = true
  · rw [if_pos hambiguous] at hquestions
    cases hquestions
  rw [if_neg hambiguous] at hquestions
  cases hquestions
  refine ⟨_, fun hfails => ?_, fun hfails => ?_, hsame⟩
  · rw [hfails]
    rfl
  · rw [hfails]
    rfl

theorem mem_addQuestions {read : List Fields} {accepted : List Objection}
    {proposals : List (String × Proposal)} {round : ℕ} {question : Fields} (h : question ∈ read) :
    question ∈ addQuestions py read accepted proposals round :=
  mem_append_left _ h

theorem exists_same_of_forall₂ {as bs : List Fields} (h : Forall₂ SameQuestion as bs)
    {b : Fields} (hb : b ∈ bs) : ∃ a ∈ as, SameQuestion a b := by
  induction h with
  | nil => cases hb
  | cons hhead _ ih =>
    rcases mem_cons.1 hb with rfl | hb
    · exact ⟨_, mem_cons_self, hhead⟩
    · obtain ⟨a, ha, hab⟩ := ih hb
      exact ⟨a, mem_cons_of_mem _ ha, hab⟩

/-- A sound round writes a question for each deferral that it accepts and keeps the others. -/
theorem writeQuestions_sound (hsound : input.writes py → Sound py codec branch input)
    (h : writeQuestions py codec branch input = some branch') :
    (input.writes py → ∀ o ∈ input.accepted py, ∀ proposal,
      (input.proposals py).lookup o.objectionId = some proposal →
        ∃ question ∈ recorded codec branch', Asks question proposal.executableCheck o.claim) ∧
    ∀ question ∈ recorded codec branch, ∃ kept ∈ recorded codec branch', SameQuestion kept question := by
  by_cases hwrites : input.writes py
  · obtain ⟨read, hread, hfailed, hsame⟩ := writeQuestions_recorded hwrites h
    have hsound := hsound hwrites
    have hrecorded : read = recorded codec branch := by
      rcases hsound.reads with hreads | hnone
      · exact hread hreads
      · rcases hfails : input.codecFails with _ | _
        · exact hread hfails
        · rw [hfailed hfails, hnone]
    subst hrecorded
    refine ⟨fun _ o ho proposal hproposal => ?_, fun question hquestion =>
      exists_same_of_forall₂ hsame (mem_addQuestions hquestion)⟩
    by_cases hknown : o.objectionId ∈ knownIds py (recorded codec branch)
    · obtain ⟨question, hquestion, hasks⟩ := hsound.fresh o ho hknown proposal hproposal
      obtain ⟨kept, hkept, hsameKept⟩ := exists_same_of_forall₂ hsame (mem_addQuestions hquestion)
      exact ⟨kept, hkept, hsameKept.asks hasks⟩
    · have hadded : questionEntry proposal input.round o ∈ addQuestions py (recorded codec branch)
          (input.accepted py) (input.proposals py) input.round := by
        refine mem_append_right _ (mem_map.2 ⟨o, ?_, by rw [hproposal]; rfl⟩)
        exact mem_filter.2 ⟨ho, by simpa using hknown⟩
      obtain ⟨kept, hkept, hsameKept⟩ := exists_same_of_forall₂ hsame hadded
      exact ⟨kept, hkept, hsameKept.asks ⟨rfl, rfl⟩⟩
  · refine ⟨fun hyes => absurd hyes hwrites, fun question hquestion => ⟨question, ?_, fun _ => rfl⟩⟩
    have hcond : ((input.accepted py).isEmpty || input.nak) = true := by
      rw [RoundInput.writes, not_and_or, not_not, Bool.not_eq_false] at hwrites
      simpa using hwrites
    rw [writeQuestions, if_pos hcond] at h
    cases h
    exact hquestion

def RunSound (py : PyLib) (codec : QuestionsCodec) : Branch → List RoundInput → Prop
  | _, [] => True
  | branch, input :: inputs => (input.writes py → Sound py codec branch input) ∧
      RunSound py codec ((writeQuestions py codec branch input).getD branch) inputs

theorem RunSound.append {before after : List RoundInput} :
    RunSound py codec branch (before ++ after) ↔ RunSound py codec branch before ∧
      RunSound py codec (afterRounds py codec branch before) after := by
  induction before generalizing branch with
  | nil => simp [RunSound, afterRounds]
  | cons input before ih =>
    rw [cons_append, RunSound, RunSound, ih, and_assoc]
    rfl

theorem recorded_afterRounds (h : RunSound py codec branch inputs) :
    ∀ question ∈ recorded codec branch,
      ∃ kept ∈ recorded codec (afterRounds py codec branch inputs), SameQuestion kept question := by
  induction inputs generalizing branch with
  | nil => exact fun question hquestion => ⟨question, hquestion, fun _ => rfl⟩
  | cons input inputs ih =>
    obtain ⟨hsound, hrest⟩ := h
    intro question hquestion
    have hstep : ∃ kept ∈ recorded codec ((writeQuestions py codec branch input).getD branch),
        SameQuestion kept question := by
      rcases hwrite : writeQuestions py codec branch input with _ | branch'
      · exact ⟨question, hquestion, fun _ => rfl⟩
      · exact (writeQuestions_sound hsound hwrite).2 question hquestion
    obtain ⟨kept, hkept, hsame⟩ := hstep
    obtain ⟨last, hlast, hsameLast⟩ := ih hrest kept hkept
    exact ⟨last, hlast, hsameLast.trans hsame⟩

/-- In a sound run, a round that accepts deferrals leaves a question with its check and claim for each
of them, and what the branch holds after any of the rounds it holds after the later ones. -/
theorem afterRounds_obligations (py : PyLib) (codec : QuestionsCodec) (branch : Branch)
    (before after : List RoundInput) (input : RoundInput)
    (hsound : RunSound py codec branch (before ++ input :: after)) :
    (∀ branch', input.writes py →
      writeQuestions py codec (afterRounds py codec branch before) input = some branch' →
      ∀ o ∈ input.accepted py, ∀ proposal,
        (input.proposals py).lookup o.objectionId = some proposal → proposal.executableCheck ≠ "" →
          ∃ question ∈ recorded codec branch', Asks question proposal.executableCheck o.claim) ∧
    ∀ question ∈ recorded codec (afterRounds py codec branch before),
      ∃ kept ∈ recorded codec (afterRounds py codec branch (before ++ input :: after)),
        SameQuestion kept question := by
  obtain ⟨-, hrest⟩ := RunSound.append.1 hsound
  constructor
  · intro branch' hwrites hwrite o ho proposal hproposal _
    exact (writeQuestions_sound hrest.1 hwrite).1 hwrites o ho proposal hproposal
  · intro question hquestion
    have happend : afterRounds py codec branch (before ++ input :: after) =
        afterRounds py codec (afterRounds py codec branch before) (input :: after) := by
      rw [afterRounds, afterRounds, afterRounds, foldl_append]
    rw [happend]
    exact recorded_afterRounds hrest question hquestion

section Example

def sampleDeferral (claim : String) : Objection where
  objectionId := "o1"
  anchorNodeIds := ["problem"]
  axis := "need"
  type := .blocking
  claim := claim
  evidence := [⟨"tree_node", "problem", []⟩]
  impact := "data loss"
  requestedAuthorAction := .reviseSubtree
  resolutionAuthority := .author
  status := .deferralAccepted
  reviewerConfidence := "high"
  reviewedScope := "problem"

/-- A round that accepts the deferral with a check. -/
def sampleRound (claim check : String) (round : ℕ) : RoundInput where
  objections := [sampleDeferral claim]
  responses := [.obj [("classification", .str "deferral_proposed"), ("objection_id", .str "o1"),
    ("executable_check", .str check), ("defer_reason", .str "later")]]
  round := round
  nak := false
  codecFails := false

/-- The questions after the first round. -/
def sampleQuestions : List Fields :=
  [questionEntry ⟨"make rollback-test", "later"⟩ 1 (sampleDeferral "no rollback")]

def sampleCodec : QuestionsCodec where
  parse text := if text = "questions" then some (artifactOf sampleQuestions) else none
  prepare value := if value = artifactOf sampleQuestions then some "questions" else none
  prepared questions text h := by
    split_ifs at h with hvalue
    cases h
    refine ⟨_, if_pos rfl, ?_⟩
    have hquestions : questions = sampleQuestions := by
      have hitems : questions.map Json.obj = sampleQuestions.map Json.obj := by
        simpa [artifactOf] using hvalue
      exact map_injective_iff.2 (fun _ _ => Json.obj.inj) hitems
    rw [hquestions]
    exact forall₂_same.2 fun _ _ _ => rfl

instance (question : Fields) (check claim : String) : Decidable (Asks question check claim) :=
  inferInstanceAs (Decidable (_ ∧ _))

/-- The second round accepts a deferral with another check and claim, and no question asks for them. -/
theorem second_deferral_lost :
    let first := afterRounds asciiLib sampleCodec ⟨none, none⟩
      [sampleRound "no rollback" "make rollback-test" 1]
    let second := sampleRound "no migration" "make migration-test" 2
    second.accepted asciiLib = [sampleDeferral "no migration"] ∧
    (second.proposals asciiLib).lookup "o1" = some ⟨"make migration-test", "later"⟩ ∧
    ∃ branch, writeQuestions asciiLib sampleCodec first second = some branch ∧
      ∀ question ∈ recorded sampleCodec branch,
        ¬ Asks question "make migration-test" "no migration" := by
  refine ⟨by decide +kernel, by decide +kernel, ⟨some "questions", none⟩, ?_, ?_⟩
  · decide +kernel
  · decide +kernel

theorem afterRounds_obligations_first : ∃ branch,
    writeQuestions asciiLib sampleCodec ⟨none, none⟩
      (sampleRound "no rollback" "make rollback-test" 1) = some branch ∧
    ∃ question ∈ recorded sampleCodec branch, Asks question "make rollback-test" "no rollback" := by
  have hempty : recorded sampleCodec ⟨none, none⟩ = [] := rfl
  have hsound : RunSound asciiLib sampleCodec ⟨none, none⟩
      ([] ++ [sampleRound "no rollback" "make rollback-test" 1]) := by
    refine ⟨fun _ => ⟨.inl rfl, fun o _ hknown => ?_⟩, trivial⟩
    rw [hempty] at hknown
    cases hknown
  have hwrite : writeQuestions asciiLib sampleCodec ⟨none, none⟩
      (sampleRound "no rollback" "make rollback-test" 1) = some ⟨some "questions", none⟩ := by
    decide +kernel
  refine ⟨_, hwrite, (afterRounds_obligations asciiLib sampleCodec ⟨none, none⟩ [] []
    (sampleRound "no rollback" "make rollback-test" 1) hsound).1 _ ⟨?_, rfl⟩ hwrite
      (sampleDeferral "no rollback") ?_ ⟨"make rollback-test", "later"⟩ ?_ (by decide)⟩
  · decide +kernel
  · decide +kernel
  · decide +kernel

end Example

end Review

end AiOrg
