import Mathlib

/-!
# First elements

The elements of a list that are the first with their key. Taking them of parts of a list before the
whole, or twice, makes no difference: the first element with a key stays the same.
-/

namespace AiOrg

open List

namespace Selection

section First

variable {α κ : Type*} [DecidableEq κ] (key : α → κ)

/-- The first element with a key. -/
def firstWith (k : κ) (xs : List α) : Option α := xs.find? fun x => key x = k

/-- The elements whose key was not seen before them. -/
def firsts : List κ → List α → List α
  | _, [] => []
  | seen, x :: xs => if key x ∈ seen then firsts seen xs else x :: firsts (key x :: seen) xs

variable {key}

theorem firstWith_cons {k : κ} {x : α} {xs : List α} :
    firstWith key k (x :: xs) = if key x = k then some x else firstWith key k xs := by
  rw [firstWith, find?_cons]
  by_cases h : key x = k
  · simp [h]
  · simp [h, firstWith]

theorem firstWith_append (k : κ) (xs ys : List α) :
    firstWith key k (xs ++ ys) = (firstWith key k xs).or (firstWith key k ys) :=
  find?_append

theorem firstWith_mem {k : κ} {x : α} {xs : List α} (h : firstWith key k xs = some x) :
    x ∈ xs ∧ key x = k :=
  ⟨mem_of_find?_eq_some h, of_decide_eq_true (find?_some (p := fun x => decide (key x = k)) h)⟩

theorem exists_firstWith {x : α} {xs : List α} (h : x ∈ xs) :
    ∃ y, firstWith key (key x) xs = some y := by
  rw [← Option.isSome_iff_exists, firstWith, find?_isSome]
  exact ⟨x, h, decide_eq_true rfl⟩

theorem firstWith_firsts {k : κ} {seen : List κ} (hk : k ∉ seen) (xs : List α) :
    firstWith key k (firsts key seen xs) = firstWith key k xs := by
  induction xs generalizing seen with
  | nil => rfl
  | cons x xs ih =>
    rw [firsts, firstWith_cons]
    by_cases hseen : key x ∈ seen
    · have hne : key x ≠ k := fun h => hk (h ▸ hseen)
      rw [if_pos hseen, if_neg hne, ih hk]
    · rw [if_neg hseen, firstWith_cons]
      by_cases hx : key x = k
      · rw [if_pos hx, if_pos hx]
      · rw [if_neg hx, if_neg hx, ih (not_mem_cons_of_ne_of_not_mem (Ne.symm hx) hk)]

theorem not_mem_seen_of_mem_firsts {x : α} {seen : List κ} {xs : List α}
    (h : x ∈ firsts key seen xs) : key x ∉ seen := by
  induction xs generalizing seen with
  | nil => cases h
  | cons y xs ih =>
    rw [firsts] at h
    split_ifs at h with hseen
    · exact ih h
    · rcases mem_cons.1 h with rfl | h
      · exact hseen
      · exact fun hmem => ih h (mem_cons_of_mem _ hmem)

theorem mem_firsts {x : α} {xs : List α} : x ∈ firsts key [] xs ↔
    firstWith key (key x) xs = some x := by
  constructor
  · intro h
    have hall : ∀ (seen : List κ) (xs : List α), x ∈ firsts key seen xs →
        firstWith key (key x) xs = some x := by
      clear h
      intro seen xs
      induction xs generalizing seen with
      | nil => exact fun h => nomatch h
      | cons y xs ih =>
        intro h
        rw [firsts] at h
        rw [firstWith_cons]
        split_ifs at h with hseen
        · have hne : key y ≠ key x := fun heq => not_mem_seen_of_mem_firsts h (heq ▸ hseen)
          rw [if_neg hne, ih seen h]
        · rcases mem_cons.1 h with rfl | h
          · rw [if_pos rfl]
          · have hne : key y ≠ key x := fun heq =>
              not_mem_seen_of_mem_firsts h (heq ▸ mem_cons_self)
            rw [if_neg hne, ih _ h]
    exact hall [] xs h
  · intro h
    rw [← firstWith_firsts (not_mem_nil) xs] at h
    exact (firstWith_mem h).1

theorem firstWith_flatMap {β : Type*} {k : κ} {f g : β → List α} {parts : List β}
    (h : ∀ part ∈ parts, firstWith key k (f part) = firstWith key k (g part)) :
    firstWith key k (parts.flatMap f) = firstWith key k (parts.flatMap g) := by
  induction parts with
  | nil => rfl
  | cons part parts ih =>
    rw [flatMap_cons, flatMap_cons, firstWith_append, firstWith_append,
      h part mem_cons_self, ih fun other hother => h other (mem_cons_of_mem _ hother)]

end First

end Selection

end AiOrg
