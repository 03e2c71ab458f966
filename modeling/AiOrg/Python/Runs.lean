import Mathlib

/-!
# Runs written as one mark

`re.sub` of every run of soft characters by one mark forgets how long the run was and what was in it. Two texts are
written the same if and only if they are alike: equal up to their runs of soft characters (`collapse_eq_iff`).
-/

namespace AiOrg

open List

namespace Runs

variable {α : Type*} [DecidableEq α]

/-- `re.sub("-+", "-", text)`, for a mark. -/
def squeeze (mark : α) : List α → List α
  | [] => []
  | c :: rest => if c = mark ∧ rest.head? = some mark then squeeze mark rest else c :: squeeze mark rest

theorem mem_squeeze {mark c : α} {text : List α} (h : c ∈ squeeze mark text) : c ∈ text := by
  induction text with
  | nil => exact h
  | cons d text ih =>
    rw [squeeze] at h
    split_ifs at h with hd
    · exact mem_cons_of_mem _ (ih h)
    · rcases mem_cons.1 h with rfl | h
      · exact mem_cons_self
      · exact mem_cons_of_mem _ (ih h)

section Soft

variable (soft : α → Bool) (mark : α)

/-- Every soft character as the mark, and then every run of marks as one. -/
def collapse (text : List α) : List α := squeeze mark (text.map fun c => if soft c then mark else c)

/-- Texts that are equal up to their runs of soft characters. -/
inductive Alike : List α → List α → Prop
  | nil : Alike [] []
  | hard {c : α} {xs ys : List α} (hc : soft c = false) (h : Alike xs ys) : Alike (c :: xs) (c :: ys)
  | run {s t xs ys : List α} (hs : s ≠ []) (ht : t ≠ []) (hs' : ∀ c ∈ s, soft c = true)
      (ht' : ∀ c ∈ t, soft c = true) (hxs : ∀ c ∈ xs.head?, soft c = false) (hys : ∀ c ∈ ys.head?, soft c = false)
      (h : Alike xs ys) : Alike (s ++ xs) (t ++ ys)

variable {soft mark}

@[simp] theorem collapse_nil : collapse soft mark [] = [] := rfl

theorem collapse_hard {c : α} {rest : List α} (hc : soft c = false) (hmark : soft mark = true) :
    collapse soft mark (c :: rest) = c :: collapse soft mark rest := by
  have hne : c ≠ mark := by
    rintro rfl
    rw [hc] at hmark
    cases hmark
  simp only [collapse, map_cons, hc, Bool.false_eq_true, if_false]
  rw [squeeze, if_neg fun h => hne h.1]

theorem collapse_soft {c : α} {rest : List α} (hc : soft c = true) (hmark : soft mark = true) :
    collapse soft mark (c :: rest) =
      if ∃ d ∈ rest.head?, soft d = true then collapse soft mark rest else mark :: collapse soft mark rest := by
  simp only [collapse, map_cons, hc, if_true]
  rw [squeeze]
  cases rest with
  | nil => simp
  | cons d rest =>
    by_cases hd : soft d = true
    · simp [hd]
    · have hne : d ≠ mark := by
        rintro rfl
        exact hd hmark
      simp [hd, hne]

theorem collapse_run {s rest : List α} (hs : s ≠ []) (hsoft : ∀ c ∈ s, soft c = true)
    (hrest : ∀ c ∈ rest.head?, soft c = false) (hmark : soft mark = true) :
    collapse soft mark (s ++ rest) = mark :: collapse soft mark rest := by
  induction s with
  | nil => exact absurd rfl hs
  | cons c s ih =>
    obtain ⟨hc, hsoft⟩ := forall_mem_cons.1 hsoft
    rw [cons_append, collapse_soft hc hmark]
    by_cases hs : s = []
    · subst hs
      rw [nil_append, if_neg]
      rintro ⟨d, hd, hd'⟩
      rw [hrest d hd] at hd'
      cases hd'
    · obtain ⟨d, s', rfl⟩ := exists_cons_of_ne_nil hs
      rw [if_pos ⟨d, rfl, hsoft d mem_cons_self⟩, ih hs hsoft]

/-- A text is empty, or it starts with a hard character, or with a whole run of soft ones. -/
inductive Shape (soft : α → Bool) : List α → Prop
  | nil : Shape soft []
  | hard {c : α} (rest : List α) (hc : soft c = false) : Shape soft (c :: rest)
  | run {s : List α} (rest : List α) (hs : s ≠ []) (hsoft : ∀ c ∈ s, soft c = true)
      (hrest : ∀ c ∈ rest.head?, soft c = false) : Shape soft (s ++ rest)

omit [DecidableEq α] in
theorem shape (soft : α → Bool) (text : List α) : Shape soft text := by
  cases text with
  | nil => exact .nil
  | cons c rest =>
    by_cases hc : soft c = true
    · rw [← @takeWhile_append_dropWhile _ soft (c :: rest)]
      refine .run _ ?_ (fun d hd => mem_takeWhile_imp hd) fun d hd => ?_
      · rw [takeWhile_cons_of_pos hc]
        exact cons_ne_nil _ _
      · have h := head?_dropWhile_not soft (c :: rest)
        rw [Option.mem_def.1 hd] at h
        simpa using h
    · exact .hard rest (by simpa using hc)

theorem Alike.collapse_eq (hmark : soft mark = true) {xs ys : List α} (h : Alike soft xs ys) :
    collapse soft mark xs = collapse soft mark ys := by
  induction h with
  | nil => rfl
  | hard hc _ ih => rw [collapse_hard hc hmark, collapse_hard hc hmark, ih]
  | run hs ht hs' ht' hxs hys _ ih => rw [collapse_run hs hs' hxs hmark, collapse_run ht ht' hys hmark, ih]

theorem alike_of_collapse_eq (hmark : soft mark = true) (n : ℕ) : ∀ {xs ys : List α}, xs.length ≤ n →
    collapse soft mark xs = collapse soft mark ys → Alike soft xs ys := by
  have hne : ∀ {c : α}, soft c = false → c ≠ mark := by
    rintro c hc rfl
    rw [hc] at hmark
    cases hmark
  -- Each step takes a hard character or a whole run from both texts.
  induction n with
  | zero =>
    intro xs ys hn h
    obtain rfl := length_eq_zero_iff.1 (Nat.le_zero.1 hn)
    cases shape soft ys with
    | nil => exact .nil
    | hard rest hc => rw [collapse_hard hc hmark] at h; cases h
    | run rest hs hsoft hrest => rw [collapse_run hs hsoft hrest hmark] at h; cases h
  | succ n ih =>
    intro xs ys hn h
    cases shape soft xs with
    | nil =>
      cases shape soft ys with
      | nil => exact .nil
      | hard rest hc => rw [collapse_hard hc hmark] at h; cases h
      | run rest hs hsoft hrest => rw [collapse_run hs hsoft hrest hmark] at h; cases h
    | hard rest hc =>
      rw [collapse_hard hc hmark] at h
      cases shape soft ys with
      | nil => cases h
      | hard rest' hc' =>
        rw [collapse_hard hc' hmark] at h
        obtain ⟨rfl, htail⟩ := List.cons.inj h
        exact .hard hc (ih (Nat.le_of_succ_le_succ hn) htail)
      | run rest' hs hsoft hrest =>
        rw [collapse_run hs hsoft hrest hmark] at h
        exact absurd (List.cons.inj h).1 (hne hc)
    | @run s rest hs hsoft hrest =>
      rw [collapse_run hs hsoft hrest hmark] at h
      have hlength : rest.length ≤ n := by
        have hpos := length_pos_of_ne_nil hs
        rw [length_append] at hn
        omega
      cases shape soft ys with
      | nil => cases h
      | hard rest' hc' =>
        rw [collapse_hard hc' hmark] at h
        exact absurd (List.cons.inj h).1.symm (hne hc')
      | run rest' ht hsoft' hrest' =>
        rw [collapse_run ht hsoft' hrest' hmark] at h
        exact .run hs ht hsoft hsoft' hrest hrest' (ih hlength (List.cons.inj h).2)

/-- Texts are written the same if and only if they are alike. -/
theorem collapse_eq_iff (hmark : soft mark = true) {xs ys : List α} :
    collapse soft mark xs = collapse soft mark ys ↔ Alike soft xs ys :=
  ⟨alike_of_collapse_eq hmark xs.length le_rfl, Alike.collapse_eq hmark⟩

end Soft

end Runs

end AiOrg
