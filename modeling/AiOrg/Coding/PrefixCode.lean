import Mathlib

/-!
# Prefix codes

A code whose words are read off the front of a text without doubt. Its words in a row can be told
apart, up to a stop that no word begins with, and so can pieces that each begin with a separator.
-/

namespace AiOrg

open List

namespace Coding

variable {α β : Type*}

/-- What begins with a code word begins with only one. -/
def PrefixFree (code : α → List β) : Prop :=
  ∀ a b s t, code a ++ s = code b ++ t → a = b ∧ s = t

section PrefixFree

variable {code : α → List β} {stop : β}

theorem PrefixFree.flatMap_stop (h : PrefixFree code) (hne : ∀ a, code a ≠ [])
    (hstop : ∀ a, (code a).head? ≠ some stop) {as bs : List α} {s t : List β}
    (heq : as.flatMap code ++ stop :: s = bs.flatMap code ++ stop :: t) : as = bs ∧ s = t := by
  have hhead : ∀ (a : α) (as : List α) (s t : List β),
      (a :: as).flatMap code ++ s ≠ stop :: t := fun a as s t heq => by
    have := congrArg List.head? heq
    rw [flatMap_cons, append_assoc, head?_append_of_ne_nil _ (hne a)] at this
    exact hstop a this
  induction as generalizing bs with
  | nil =>
    cases bs with
    | nil => exact ⟨rfl, (List.cons.inj heq).2⟩
    | cons b bs => exact absurd heq.symm (hhead b bs _ _)
  | cons a as ih =>
    cases bs with
    | nil => exact absurd heq (hhead a as _ _)
    | cons b bs =>
      rw [flatMap_cons, flatMap_cons, append_assoc, append_assoc] at heq
      obtain ⟨rfl, hrest⟩ := h _ _ _ _ heq
      obtain ⟨rfl, rfl⟩ := ih hrest
      exact ⟨rfl, rfl⟩

theorem PrefixFree.flatMap_injective (h : PrefixFree code) (hne : ∀ a, code a ≠ []) :
    Function.Injective fun as : List α => as.flatMap code := by
  intro as
  induction as with
  | nil =>
    rintro (_ | ⟨b, bs⟩) heq
    · rfl
    · exact absurd (append_eq_nil_iff.1 heq.symm).1 (hne b)
  | cons a as ih =>
    rintro (_ | ⟨b, bs⟩) heq
    · exact absurd (append_eq_nil_iff.1 heq).1 (hne a)
    · obtain ⟨rfl, hrest⟩ := h _ _ _ _ heq
      rw [ih hrest]

theorem PrefixFree.quoted (h : PrefixFree code) (hne : ∀ a, code a ≠ [])
    (hstop : ∀ a, (code a).head? ≠ some stop) :
    PrefixFree fun as : List α => stop :: as.flatMap code ++ [stop] := fun as bs s t heq => by
  simp only [append_assoc, cons_append, nil_append, List.cons.injEq, true_and] at heq
  exact h.flatMap_stop hne hstop heq

end PrefixFree

theorem append_stop_inj {stop : β} {a b s t : List β} (ha : stop ∉ a) (hb : stop ∉ b)
    (h : a ++ stop :: s = b ++ stop :: t) : a = b ∧ s = t := by
  induction a generalizing b with
  | nil =>
    cases b with
    | nil => exact ⟨rfl, (List.cons.inj h).2⟩
    | cons c b => exact absurd (List.cons.inj h).1 fun heq => hb (heq ▸ mem_cons_self)
  | cons c a ih =>
    cases b with
    | nil => exact absurd (List.cons.inj h).1 fun heq => ha (heq ▸ mem_cons_self)
    | cons d b =>
      obtain ⟨rfl, hrest⟩ := List.cons.inj h
      obtain ⟨rfl, rfl⟩ := ih (fun hmem => ha (mem_cons_of_mem _ hmem))
        (fun hmem => hb (mem_cons_of_mem _ hmem)) hrest
      exact ⟨rfl, rfl⟩

theorem splitOn_separated [DecidableEq β] {sep : β} {ls : List (List β)} (h : ∀ l ∈ ls, sep ∉ l) :
    List.splitOn sep (ls.flatMap (sep :: ·)) = [] :: ls := by
  have hintercalate : [sep].intercalate ([] :: ls) = ls.flatMap (sep :: ·) := by
    clear h
    induction ls with
    | nil => rfl
    | cons l ls ih =>
      rcases ls with _ | ⟨k, ls⟩
      · simp [List.intercalate]
      · simp only [List.intercalate, intersperse_cons_cons, flatten_cons, nil_append,
          flatMap_cons] at ih ⊢
        rw [← ih]
        simp
  rw [← hintercalate, splitOn_intercalate]
  · simpa using h
  · simp

theorem separated_injective {sep : β} {ls ks : List (List β)} (hl : ∀ l ∈ ls, sep ∉ l)
    (hk : ∀ k ∈ ks, sep ∉ k) (h : ls.flatMap (sep :: ·) = ks.flatMap (sep :: ·)) : ls = ks := by
  classical
  have hsplit := (splitOn_separated hl).symm.trans
    ((congrArg (List.splitOn sep) h).trans (splitOn_separated hk))
  exact (List.cons.inj hsplit).2

end Coding

end AiOrg
