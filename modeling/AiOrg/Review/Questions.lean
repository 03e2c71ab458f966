import AiOrg.Review.Assumptions

/-!
# Questions the patch must answer

A deferral that a round accepts becomes a question in an artifact on the branch. Each round builds the
artifact again from the committed one and merges by the ids of the objections.
-/

namespace AiOrg

namespace Review

structure Proposal where
  executableCheck : String
  deferReason : String
  deriving DecidableEq, Repr

section Proposals

variable (py : PyLib)

def deferralProposalsById (responses : List Json) : List (String × Proposal) :=
  responses.foldl (fun proposals item =>
    match item with
    | .obj fields =>
      if Fields.get fields "classification" = .str "deferral_proposed" then
        (py.strOr (Fields.get fields "objection_id") "",
          ⟨py.strOr (Fields.get fields "executable_check") "",
            py.strOr (Fields.get fields "defer_reason") ""⟩) :: proposals
      else proposals
    | _ => proposals) []

end Proposals

def artifactOf (questions : List Fields) : Json :=
  .obj [("questions_the_patch_must_answer", .arr (questions.map .obj))]

def questionsOf (parsed : Json) : List Fields :=
  match parsed with
  | .obj fields =>
    match Fields.get fields "questions_the_patch_must_answer" with
    | .arr entries => entries.filterMap fun entry =>
      match entry with
      | .obj question => some question
      | _ => none
    | _ => []
  | _ => []

def SameQuestion (a b : Fields) : Prop := ∀ key, a.get key = b.get key

/-- The codec of the artifact, a program of its own: `parse` reads a committed text, `prepare` writes
the text to commit, which is read back with the same questions. -/
structure QuestionsCodec where
  parse : String → Option Json
  prepare : Json → Option String
  prepared : ∀ questions text, prepare (artifactOf questions) = some text →
    ∃ parsed, parse text = some parsed ∧ List.Forall₂ SameQuestion (questionsOf parsed) questions

/-- The two durable representations of the artifact on a branch. -/
structure Branch where
  canonical : Option String
  legacy : Option String
  deriving DecidableEq, Repr

/-- What a round has at hand when it writes questions: its final objections, the responses of the
committed ledger, its number, whether it is a nak and whether the codec fails it. -/
structure RoundInput where
  objections : List Objection
  responses : List Json
  round : ℕ
  nak : Bool
  codecFails : Bool

section Writing

variable (py : PyLib) (codec : QuestionsCodec)

/-- The proposals of the committed ledger. -/
def RoundInput.proposals (input : RoundInput) : List (String × Proposal) :=
  deferralProposalsById py input.responses

def RoundInput.accepted (input : RoundInput) : List Objection :=
  (normalizeDeferrals ((input.proposals py).map (·.1)) input.objections).accepted

/-- The question of an accepted deferral. -/
def questionEntry (proposal : Proposal) (round : ℕ) (objection : Objection) : Fields :=
  [("objection_id", .str objection.objectionId), ("status", .str "must_resolve_in_patch"),
    ("executable_check", .str proposal.executableCheck),
    ("why_resolved_in_patch", .str proposal.deferReason), ("if_check_fails_implement", .str ""),
    ("claim", .str objection.claim), ("anchor_node_ids", .arr (objection.anchorNodeIds.map .str)),
    ("axis", .str objection.axis), ("accepted_in_review_round", .int round)]

def knownIds (questions : List Fields) : List String :=
  questions.map fun question => py.strOr (question.get "objection_id") ""

/-- The loop over the accepted deferrals. -/
def addQuestions (questions : List Fields) (accepted : List Objection)
    (proposals : List (String × Proposal)) (round : ℕ) : List Fields :=
  questions ++ (accepted.filter (·.objectionId ∉ knownIds py questions)).map fun objection =>
    questionEntry ((proposals.lookup objection.objectionId).getD ⟨"", ""⟩) round objection

/-- `_questions_the_patch_must_answer`, and `none` where both representations are there. -/
def _questions_the_patch_must_answer (branch : Branch) (input : RoundInput) : Option (List Fields) :=
  if branch.canonical.isSome && branch.legacy.isSome then none
  else
    let parsed := if input.codecFails then none
      else (branch.canonical.or branch.legacy).bind codec.parse
    some (addQuestions py ((parsed.map questionsOf).getD []) (input.accepted py)
      (input.proposals py) input.round)

/-- What a round makes of the artifact, and `none` where it raises. -/
def writeQuestions (branch : Branch) (input : RoundInput) : Option Branch :=
  if (input.accepted py).isEmpty || input.nak then some branch
  else do
    let questions ← _questions_the_patch_must_answer py codec branch input
    let text ← codec.prepare (artifactOf questions)
    return { branch with canonical := some text }

/-- The branch after rounds; one that raises leaves it as it is. -/
def afterRounds (branch : Branch) (inputs : List RoundInput) : Branch :=
  inputs.foldl (fun branch input => (writeQuestions py codec branch input).getD branch) branch

end Writing

end Review

end AiOrg
