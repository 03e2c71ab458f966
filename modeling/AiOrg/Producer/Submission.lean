import AiOrg.Subsystem.Integrate

/-!
# Submission of a contribution

`submit` reads the head of the contribution branch, checks the branch by its name, and pushes the head with a lease
on what the remote had. Any number of submits run among local moves of the branch and pushes of others to the same
remote ref.
-/

namespace AiOrg

open List

namespace Producer

open Git
open Subsystem (subjectOf reachableSubject blockedSubject)

variable {π τ : Type} [DecidableEq π] [DecidableEq τ]

/-- What is read of a commit: whether there is no implementation up to it, and whether its author is the announced
one. -/
structure Reads (τ : Type) where
  is_promise_only_contribution : Commit τ → Bool
  author_matches : Commit τ → Bool

/-- Where a submit is after it has read the head. The author of a tip is looked for some parents below it. -/
inductive Stage (τ : Type) where
  | headed
  | promised
  | below
  | author (depth : ℕ)
  | matched
  | listed (remote_sha : Commit τ)
  | creating
  | updating (remote_sha : Commit τ)

/-- A submit has the head that it read and the tips that its author check has looked at. -/
inductive Phase (τ : Type) where
  | idle
  | running (head : Commit τ) (checked : List (Commit τ)) (stage : Stage τ)

structure Move (τ : Type) where
  before : Option (Commit τ)
  after : Commit τ
  checked : List (Commit τ)

/-- The contribution branch, its ref on the remote, what submits did to that, and where they are. -/
structure State (π τ : Type) where
  contrib : Option (Commit τ)
  remote : Option (Commit τ)
  moves : List (Move τ)
  phase : π → Phase τ

inductive Event (π τ : Type) where
  | commitOrReset (target : Option (Commit τ))
  | pushOfOther (target : Option (Commit τ))
  | advance (p : π)
  | fail (p : π)

/-- `ref^` some times. -/
def firstParent (tip : Commit τ) : ℕ → Option (Commit τ)
  | 0 => some tip
  | depth + 1 => tip.parents.head?.bind fun parent => firstParent parent depth

def isResultSubject (subject : String) : Bool := subject.startsWith "patch: implementation result for "

/-- The step of `contribution_author_matches` that reads the subject of the branch. -/
def subjectRead (head tip : Commit τ) : Phase τ :=
  let subject := subjectOf tip.message
  if subject = reachableSubject ∨ subject = blockedSubject then .running head [tip] .below
  else .running head [tip] (.author (if isResultSubject subject then 1 else 0))

/-- The step that reads the subject below a verdict marker. -/
def belowRead (head : Commit τ) (checked : List (Commit τ)) (tip : Commit τ) : Phase τ :=
  let subject := ((firstParent tip 1).map fun parent => subjectOf parent.message).getD ""
  .running head (tip :: checked) (.author (if isResultSubject subject then 2 else 1))

variable (reads : Reads τ)

/-- What a submit does next with the branch and the remote as they are, but for its push. -/
def next (contrib remote : Option (Commit τ)) : Phase τ → Phase τ
  | .idle =>
    match contrib with
    | some head => .running head [] .headed
    | none => .idle
  | .running head checked .headed =>
    if contrib.any reads.is_promise_only_contribution then .idle else .running head checked .promised
  | .running head _ .promised =>
    match contrib with
    | some tip => subjectRead head tip
    | none => .idle
  | .running head checked .below =>
    match contrib with
    | some tip => belowRead head checked tip
    | none => .idle
  | .running head checked (.author depth) =>
    match contrib with
    | some tip =>
      if (firstParent tip depth).any reads.author_matches then .running head (tip :: checked) .matched
      else .idle
    | none => .idle
  | .running head checked .matched =>
    match remote with
    | none => .running head checked .creating
    | some remote_sha => if remote_sha = head then .idle else .running head checked (.listed remote_sha)
  | .running head checked (.listed remote_sha) =>
    if contrib.any fun tip => decide (Commit.IsAncestor remote_sha tip) then
      .running head checked (.updating remote_sha)
    else .idle
  | .running _ _ .creating => .idle
  | .running _ _ (.updating _) => .idle

/-- What the push of a submit expects of the remote, for `push_create` and for `push_cas`. -/
def Phase.lease : Phase τ → Option (Option (Commit τ) × Commit τ × List (Commit τ))
  | .running head checked .creating => some (none, head, checked)
  | .running head checked (.updating remote_sha) => some (some remote_sha, head, checked)
  | _ => none

def State.setPhase (s : State π τ) (p : π) (phase : Phase τ) : State π τ :=
  { s with phase := Function.update s.phase p phase }

/-- `_classified_push`: the remote moves if it is what was expected. -/
def State.pushed (s : State π τ) (p : π) (expected : Option (Commit τ)) (head : Commit τ)
    (checked : List (Commit τ)) : State π τ :=
  if s.remote = expected then
    { (s.setPhase p .idle) with remote := some head, moves := ⟨s.remote, head, checked⟩ :: s.moves }
  else s.setPhase p .idle

def State.step (s : State π τ) : Event π τ → State π τ
  | .commitOrReset target => { s with contrib := target }
  | .pushOfOther target => { s with remote := target }
  | .fail p => s.setPhase p .idle
  | .advance p =>
    match (s.phase p).lease with
    | some (expected, head, checked) => s.pushed p expected head checked
    | none => s.setPhase p (next reads s.contrib s.remote (s.phase p))

def State.run (s : State π τ) (events : List (Event π τ)) : State π τ := events.foldl (State.step reads) s

end Producer

end AiOrg

/-!
## Published history

What a submit pushes is the head that it read first, and what it checks is the branch by its name. As long as the
branch stays where it is between the two, the remote ref is created or moves to a proper descendant, and the author
that was checked is that of the pushed commit (`moves_sound`).
-/

namespace AiOrg

open List

namespace Producer

open Git

variable {π τ : Type} [DecidableEq π] [DecidableEq τ] {reads : Reads τ} {s : State π τ} {e : Event π τ}

/-- A creation, or a move to a proper descendant, of a commit that the author check was made on. -/
structure Move.Sound (move : Move τ) : Prop where
  forward : ∀ before, move.before = some before → Commit.IsAncestor before move.after ∧ before ≠ move.after
  checked : move.checked ≠ []
  same : ∀ c ∈ move.checked, c = move.after

structure Initial (s : State π τ) : Prop where
  moves : s.moves = []
  idle : ∀ p, s.phase p = .idle

/-- The branch has still to be read. -/
def Stage.Checking : Stage τ → Prop
  | .creating | .updating _ => False
  | _ => True

def Stage.Authored : Stage τ → Prop
  | .headed | .promised => False
  | _ => True

def Phase.Checking : Phase τ → Prop
  | .idle => False
  | .running _ _ stage => stage.Checking

/-- The branch does not move locally while a submit has still to read it. -/
def Calm (s : State π τ) : Event π τ → Prop
  | .commitOrReset _ => ∀ p, ¬ (s.phase p).Checking
  | _ => True

def CalmRun (reads : Reads τ) (s : State π τ) : List (Event π τ) → Prop
  | [] => True
  | e :: events => Calm s e ∧ CalmRun reads (s.step reads e) events

/-! ### Invariant -/

def Stage.Forward (head : Commit τ) : Stage τ → Prop
  | .listed remote_sha => remote_sha ≠ head
  | .updating remote_sha => Commit.IsAncestor remote_sha head ∧ remote_sha ≠ head
  | _ => True

/-- What holds of a submit in a calm run. -/
structure Frozen (contrib : Option (Commit τ)) (head : Commit τ) (checked : List (Commit τ)) (stage : Stage τ) :
    Prop where
  unmoved : stage.Checking → contrib = some head
  same : ∀ c ∈ checked, c = head
  authored : stage.Authored → checked ≠ []
  forward : stage.Forward head

def PhaseOk (contrib : Option (Commit τ)) : Phase τ → Prop
  | .idle => True
  | .running head checked stage => Frozen contrib head checked stage

omit [DecidableEq τ] in
theorem phaseOk_ite {contrib : Option (Commit τ)} {p : Prop} [Decidable p] {phase : Phase τ}
    (h : p → PhaseOk contrib phase) : PhaseOk contrib (if p then phase else .idle) := by
  split_ifs with hp
  · exact h hp
  · trivial

theorem next_ok (reads : Reads τ) {contrib : Option (Commit τ)} (remote : Option (Commit τ)) {phase : Phase τ}
    (h : PhaseOk contrib phase) : PhaseOk contrib (next reads contrib remote phase) := by
  cases phase with
  | idle =>
    cases contrib with
    | none => trivial
    | some head => exact ⟨fun _ => rfl, fun c hc => absurd hc not_mem_nil, fun hauthored => hauthored.elim,
        trivial⟩
  | running head checked stage =>
    have hframe : Frozen contrib head checked stage := h
    cases stage with
    | headed =>
      rw [next]
      split_ifs
      · trivial
      · exact ⟨fun _ => hframe.unmoved trivial, hframe.same, fun hauthored => hauthored.elim, trivial⟩
    | promised =>
      obtain rfl := hframe.unmoved trivial
      rw [next, subjectRead]
      split_ifs <;>
        exact ⟨fun _ => rfl, fun c hc => mem_singleton.1 hc, fun _ => cons_ne_nil _ _, trivial⟩
    | below =>
      obtain rfl := hframe.unmoved trivial
      exact ⟨fun _ => rfl, forall_mem_cons.2 ⟨rfl, hframe.same⟩, fun _ => cons_ne_nil _ _, trivial⟩
    | author depth =>
      obtain rfl := hframe.unmoved trivial
      refine phaseOk_ite fun _ => ?_
      exact ⟨fun _ => rfl, forall_mem_cons.2 ⟨rfl, hframe.same⟩, fun _ => cons_ne_nil _ _, trivial⟩
    | matched =>
      have hauthored := hframe.authored trivial
      cases remote with
      | none => exact ⟨fun hchecking => hchecking.elim, hframe.same, fun _ => hauthored, trivial⟩
      | some remote_sha =>
        rw [next]
        split_ifs with hsame
        · trivial
        · exact ⟨fun _ => hframe.unmoved trivial, hframe.same, fun _ => hauthored, hsame⟩
    | listed remote_sha =>
      obtain rfl := hframe.unmoved trivial
      refine phaseOk_ite fun hancestor => ?_
      rw [Option.any_some, decide_eq_true_eq] at hancestor
      exact ⟨fun hchecking => hchecking.elim, hframe.same, fun _ => hframe.authored trivial,
        hancestor, hframe.forward⟩
    | creating => trivial
    | updating remote_sha => trivial

omit [DecidableEq τ] in
theorem sound_of_lease {contrib expected : Option (Commit τ)} {phase : Phase τ} {head : Commit τ}
    {checked : List (Commit τ)} (h : PhaseOk contrib phase) (hlease : phase.lease = some (expected, head, checked)) :
    Move.Sound ⟨expected, head, checked⟩ := by
  cases phase with
  | idle => cases hlease
  | running head' checked' stage =>
    have hframe : Frozen contrib head' checked' stage := h
    cases stage with
    | creating =>
      cases hlease
      refine ⟨?_, hframe.authored trivial, hframe.same⟩
      intro before hbefore
      cases hbefore
    | updating remote_sha =>
      cases hlease
      refine ⟨fun before hbefore => ?_, hframe.authored trivial, hframe.same⟩
      cases hbefore
      exact hframe.forward
    | _ => cases hlease

omit [DecidableEq τ] in
theorem phaseOk_of_not_checking {contrib target : Option (Commit τ)} {phase : Phase τ} (h : PhaseOk contrib phase)
    (hnot : ¬ phase.Checking) : PhaseOk target phase := by
  cases phase with
  | idle => trivial
  | running head checked stage =>
    have hframe : Frozen contrib head checked stage := h
    exact ⟨fun hchecking => absurd hchecking hnot, hframe.same, hframe.authored, hframe.forward⟩

/-- Every submit keeps to its head, and every move was sound. -/
structure Inv (s : State π τ) : Prop where
  phases : ∀ p, PhaseOk s.contrib (s.phase p)
  moves : ∀ move ∈ s.moves, move.Sound

omit [DecidableEq τ] in
theorem Inv.setPhase (h : Inv s) {p : π} {phase : Phase τ} (hphase : PhaseOk s.contrib phase) :
    Inv (s.setPhase p phase) := by
  refine ⟨fun q => ?_, h.moves⟩
  by_cases hq : q = p
  · subst hq
    rw [show (s.setPhase q phase).phase q = phase from Function.update_self ..]
    exact hphase
  · rw [show (s.setPhase p phase).phase q = s.phase q from Function.update_of_ne hq ..]
    exact h.phases q

theorem Inv.step (h : Inv s) (hcalm : Calm s e) : Inv (s.step reads e) := by
  cases e with
  | commitOrReset target => exact ⟨fun p => phaseOk_of_not_checking (h.phases p) (hcalm p), h.moves⟩
  | pushOfOther target => exact ⟨h.phases, h.moves⟩
  | fail p => exact h.setPhase trivial
  | advance p =>
    rw [State.step]
    split
    · rename_i expected head checked hlease
      rw [State.pushed]
      split_ifs with hremote
      · have hidle : Inv (s.setPhase p .idle) := h.setPhase trivial
        refine ⟨hidle.phases, forall_mem_cons.2 ⟨?_, h.moves⟩⟩
        rw [hremote]
        exact sound_of_lease (h.phases p) hlease
      · exact h.setPhase trivial
    · exact h.setPhase (next_ok reads s.remote (h.phases p))

theorem Inv.run {events : List (Event π τ)} (h : Inv s) (hcalm : CalmRun reads s events) :
    Inv (s.run reads events) := by
  induction events generalizing s with
  | nil => exact h
  | cons e events ih => exact ih (h.step hcalm.1) hcalm.2

/-- In a calm run every move of the remote ref by a submit is sound. -/
theorem moves_sound (hinitial : Initial s) {events : List (Event π τ)} (hcalm : CalmRun reads s events) :
    ∀ move ∈ (s.run reads events).moves, move.Sound := by
  have hinv : Inv s := by
    refine ⟨fun p => ?_, fun move hmove => ?_⟩
    · rw [hinitial.idle p]
      trivial
    · rw [hinitial.moves] at hmove
      cases hmove
  exact (hinv.run hcalm).moves

section Example

/-- Everything is an implementation of the announced author. -/
def ownReads : Reads String where
  is_promise_only_contribution _ := false
  author_matches _ := true

def published : Commit String := .mk "published" [] "patch: published"

def amended : Commit String := .mk "amended" [] "patch: amended"

def continued : Commit String := .mk "continued" [published] "patch: continued"

/-- A branch that was published, and what it is locally. -/
def samplePublished (contrib : Commit String) : State Unit String :=
  ⟨some contrib, some published, [], fun _ => .idle⟩

theorem samplePublished_initial (contrib : Commit String) : Initial (samplePublished contrib) :=
  ⟨rfl, fun _ => rfl⟩

/-- The head was amended, and the branch is set back on what was published before the ancestry is checked. -/
def resetBetween : List (Event Unit String) :=
  [.advance (), .advance (), .advance (), .advance (), .advance (), .commitOrReset (some continued),
    .advance (), .advance ()]

/-- The published commit is replaced by one that does not descend from it. -/
theorem published_rewritten :
    Initial (samplePublished amended) ∧ ((samplePublished amended).run ownReads resetBetween).remote = some amended ∧
    ∃ move ∈ ((samplePublished amended).run ownReads resetBetween).moves, ¬ move.Sound := by
  have hmoves : ((samplePublished amended).run ownReads resetBetween).moves =
      [⟨some published, amended, [amended, amended]⟩] := rfl
  refine ⟨samplePublished_initial amended, rfl, _, by rw [hmoves]; exact mem_singleton.2 rfl, fun hsound => ?_⟩
  have hancestor := (hsound.forward published rfl).1
  revert hancestor
  decide +kernel

/-- A descendant is pushed. -/
theorem moves_sound_descendant :
    let events := replicate 7 (Event.advance ())
    ((samplePublished continued).run ownReads events).remote = some continued ∧
    ∀ move ∈ ((samplePublished continued).run ownReads events).moves, move.Sound := by
  intro events
  exact ⟨rfl, moves_sound (samplePublished_initial continued)
    ⟨trivial, trivial, trivial, trivial, trivial, trivial, trivial, trivial⟩⟩

end Example

end Producer

end AiOrg
