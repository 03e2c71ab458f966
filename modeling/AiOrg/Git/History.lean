import AiOrg.Python.Lines

/-!
# What `git log` lists

A history is the parents of its commits and the order in which a log lists what a commit reaches. The subjects
are kept apart from it, so that histories of one shape can be compared. A chain of commits is listed before what
it stands on (`Chain.log_eq`), and so are its subjects (`subjectLines_append`).
-/

namespace AiOrg

open List

namespace Git

open Relation

/-- Commits and their logs, newest first. A commit with one parent is listed before what its parent reaches. -/
structure History (ι : Type) where
  parents : ι → List ι
  log : ι → List ι
  mem_log : ∀ {a c}, a ∈ log c ↔ ReflTransGen (fun c p => p ∈ parents c) c a
  log_parent : ∀ {c p}, parents c = [p] → log c = c :: log p

namespace History

variable {ι : Type} {history : History ι}

theorem self_mem_log (c : ι) : c ∈ history.log c := history.mem_log.2 .refl

/-- Commits one on top of the other, newest first, on a base. -/
inductive Chain (history : History ι) : ι → List ι → ι → Prop
  | base (c : ι) : Chain history c [] c
  | cons {c p base : ι} {chain : List ι} (hparent : history.parents c = [p])
      (h : Chain history p chain base) : Chain history c (c :: chain) base

theorem Chain.log_eq {tip base : ι} {chain : List ι} (h : Chain history tip chain base) :
    history.log tip = chain ++ history.log base := by
  induction h with
  | base c => rfl
  | cons hparent _ ih => rw [history.log_parent hparent, ih, cons_append]

/-- A history without merges, with the numbers up to a commit as what it reaches. -/
def linear : History ℕ where
  parents c := if c = 0 then [] else [c - 1]
  log c := (List.range (c + 1)).reverse
  mem_log := by
    intro a c
    rw [mem_reverse, mem_range]
    constructor
    · intro h
      induction c with
      | zero =>
        obtain rfl : a = 0 := by omega
        exact .refl
      | succ c ih =>
        by_cases ha : a = c + 1
        · rw [ha]
        · exact .head (by simp) (ih (by omega))
    · intro h
      induction h with
      | refl => omega
      | @tail b d _ hparent ih =>
        split_ifs at hparent with hzero
        · cases hparent
        · rw [mem_singleton] at hparent
          omega
  log_parent := by
    intro c p h
    split_ifs at h with hzero
    obtain rfl := (List.cons.inj h).1
    obtain ⟨c, rfl⟩ := Nat.exists_eq_succ_of_ne_zero hzero
    rw [range_succ, reverse_append]
    rfl

end History

/-- The lines of the subjects that a log prints, each on a line of its own. -/
def subjectLines (subjects : List String) : List (List Char) :=
  Text.splitlines (subjects.flatMap fun subject => subject.toList ++ ['\n'])

theorem subjectLines_cons (subject : String) (subjects : List String) :
    subjectLines (subject :: subjects) = subjectLines [subject] ++ subjectLines subjects := by
  rw [subjectLines, flatMap_cons, append_assoc, singleton_append, Text.splitlines,
    Text.splitlinesFrom_lf_append, subjectLines, subjectLines, flatMap_cons, flatMap_nil,
    append_nil]
  rfl

theorem subjectLines_append (subjects others : List String) :
    subjectLines (subjects ++ others) = subjectLines subjects ++ subjectLines others := by
  induction subjects with
  | nil => rfl
  | cons subject subjects ih =>
    rw [cons_append, subjectLines_cons, ih, subjectLines_cons subject subjects, append_assoc]

theorem subjectLines_plain {subject : String} (h : ∀ c ∈ subject.toList, Text.isLineBoundary c = false) :
    subjectLines [subject] = [subject.toList] := by
  rw [subjectLines, flatMap_cons, flatMap_nil, append_nil, Text.splitlines,
    Text.splitlinesFrom_append _ _ h, nil_append, Text.splitlinesFrom_lf]
  rfl

end Git

end AiOrg
