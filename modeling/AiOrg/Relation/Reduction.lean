import Mathlib

/-!
# Transitive reduction of a preorder

Dropping the edges that lead through a third point is safe on a finite partial order. On a preorder it is safe exactly
where two points that reach each other reach nothing else and are reached by nothing else (`reaches_iff`).
-/

namespace AiOrg

open Relation

variable {α : Type*} {r : α → α → Prop} {s : Finset α}

/-- An edge between different points of a set that does not lead through a third one. -/
structure Kept (r : α → α → Prop) (s : Finset α) (a b : α) : Prop where
  left : a ∈ s
  right : b ∈ s
  ne : a ≠ b
  rel : r a b
  direct : ∀ m ∈ s, m ≠ a → m ≠ b → r a m → ¬ r m b

/-- Points that reach each other are related to no third point. -/
def Isolated (r : α → α → Prop) (s : Finset α) : Prop :=
  ∀ a ∈ s, ∀ b ∈ s, a ≠ b → r a b → r b a → ∀ c ∈ s, c ≠ a → c ≠ b → ¬ r a c ∧ ¬ r c a

theorem kept_swap {a b : α} : Kept (Function.swap r) s a b ↔ Kept r s b a := by
  constructor
  · exact fun h => ⟨h.right, h.left, h.ne.symm, h.rel, fun m hm hb ha hbm hma => h.direct m hm ha hb hma hbm⟩
  · exact fun h => ⟨h.right, h.left, h.ne.symm, h.rel, fun m hm ha hb ham hmb => h.direct m hm hb ha hmb ham⟩

theorem rel_of_kept (htrans : ∀ a b c, r a b → r b c → r a c) {a b : α} (h : TransGen (Kept r s) a b) : r a b := by
  induction h with
  | single h => exact h.rel
  | tail _ h ih => exact htrans _ _ _ ih h.rel

theorem kept_of_isolated [DecidableRel r] (hrefl : ∀ a ∈ s, r a a) (htrans : ∀ a b c, r a b → r b c → r a c)
    (h : Isolated r s) {a b : α} (ha : a ∈ s) (hb : b ∈ s) (hne : a ≠ b) (hab : r a b) :
    TransGen (Kept r s) a b := by
  -- on the number of points between the two
  induction hn : (s.filter fun m => r a m ∧ r m b).card using Nat.strong_induction_on generalizing a b with
  | _ n ih =>
    by_cases hdirect : ∀ m ∈ s, m ≠ a → m ≠ b → r a m → ¬ r m b
    · exact .single ⟨ha, hb, hne, hab, hdirect⟩
    push Not at hdirect
    obtain ⟨m, hm, hma, hmb, ham, hmb'⟩ := hdirect
    have hback : ¬ r m a := fun hback => (h a ha m hm hma.symm ham hback b hb hne.symm hmb.symm).1 hab
    have hback' : ¬ r b m := fun hback => (h b hb m hm hmb.symm hback hmb' a ha hne hma.symm).2 hab
    have hleft : (s.filter fun k => r a k ∧ r k m).card < n := by
      rw [← hn]
      refine Finset.card_lt_card (Finset.ssubset_iff_subset_ne.2 ⟨fun k hk => ?_, fun heq => ?_⟩)
      · obtain ⟨hk, hak, hkm⟩ := Finset.mem_filter.1 hk
        exact Finset.mem_filter.2 ⟨hk, hak, htrans _ _ _ hkm hmb'⟩
      · have hmem : b ∈ s.filter fun k => r a k ∧ r k b := Finset.mem_filter.2 ⟨hb, hab, hrefl b hb⟩
        rw [← heq] at hmem
        exact hback' (Finset.mem_filter.1 hmem).2.2
    have hright : (s.filter fun k => r m k ∧ r k b).card < n := by
      rw [← hn]
      refine Finset.card_lt_card (Finset.ssubset_iff_subset_ne.2 ⟨fun k hk => ?_, fun heq => ?_⟩)
      · obtain ⟨hk, hmk, hkb⟩ := Finset.mem_filter.1 hk
        exact Finset.mem_filter.2 ⟨hk, htrans _ _ _ ham hmk, hkb⟩
      · have hmem : a ∈ s.filter fun k => r a k ∧ r k b := Finset.mem_filter.2 ⟨ha, hrefl a ha, hab⟩
        rw [← heq] at hmem
        exact hback (Finset.mem_filter.1 hmem).2.1
    exact (ih _ hleft ha hm hma.symm ham rfl).trans (ih _ hright hm hb hmb hmb' rfl)

theorem exists_kept_out (hrefl : ∀ a ∈ s, r a a) (htrans : ∀ a b c, r a b → r b c → r a c) {a c : α}
    (h : TransGen (Kept r s) a c) (hca : ¬ r c a) : ∃ x y, Kept r s x y ∧ r a x ∧ r x a ∧ ¬ r y a := by
  induction h with
  | single h => exact ⟨a, _, h, hrefl a h.left, hrefl a h.left, hca⟩
  | @tail b c hab hbc ih =>
    by_cases hba : r b a
    · exact ⟨b, c, hbc, rel_of_kept htrans hab, hba, hca⟩
    · exact ih hba

theorem not_transGen_out (hrefl : ∀ a ∈ s, r a a) (htrans : ∀ a b c, r a b → r b c → r a c) {a b c : α} (ha : a ∈ s)
    (hb : b ∈ s) (hne : a ≠ b) (hab : r a b) (hba : r b a) (hca : ¬ r c a) : ¬ TransGen (Kept r s) a c := by
  intro h
  obtain ⟨x, y, hkept, hax, hxa, hya⟩ := exists_kept_out hrefl htrans h hca
  -- the other of the two is between `x` and `y`
  have hmate : ∃ z ∈ s, z ≠ x ∧ r z a ∧ r a z := by
    by_cases hx : x = a
    · exact ⟨b, hb, fun heq => hne (hx.symm.trans heq.symm), hba, hab⟩
    · exact ⟨a, ha, fun heq => hx heq.symm, hrefl a ha, hrefl a ha⟩
  obtain ⟨z, hz, hzx, hza, haz⟩ := hmate
  have hzy : z ≠ y := by
    rintro rfl
    exact hya hza
  exact hkept.direct z hz hzx hzy (htrans _ _ _ hxa haz) (htrans _ _ _ hza (htrans _ _ _ hax hkept.rel))

theorem not_transGen_within (htrans : ∀ a b c, r a b → r b c → r a c) {a b c : α} (hb : b ∈ s) (hc : c ∈ s)
    (hne : a ≠ b) (hac : c ≠ a) (hbc : c ≠ b) (hab : r a b) (hba : r b a) (hca : r c a) (hca' : r a c) :
    ¬ TransGen (Kept r s) a b := by
  intro h
  obtain ⟨y, hay, hyb⟩ := TransGen.head'_iff.1 h
  have hyb' : r y a := by
    rcases reflTransGen_iff_eq_or_transGen.1 hyb with rfl | hyb
    · exact hba
    · exact htrans _ _ _ (rel_of_kept htrans hyb) hba
  by_cases hyb'' : y = b
  · subst hyb''
    exact hay.direct c hc hac hbc hca' (htrans _ _ _ hca hay.rel)
  · exact hay.direct b hb hne.symm (fun heq => hyb'' heq.symm) hab (htrans _ _ _ hba hay.rel)

theorem reaches_iff [DecidableRel r] (hrefl : ∀ a ∈ s, r a a) (htrans : ∀ a b c, r a b → r b c → r a c) :
    (∀ a ∈ s, ∀ b ∈ s, a ≠ b → (r a b ↔ TransGen (Kept r s) a b)) ↔ Isolated r s := by
  constructor
  · intro h a ha b hb hne hab hba c hc hca hcb
    by_cases hac : r a c
    · by_cases hca' : r c a
      · exact absurd ((h a ha b hb hne).1 hab) (not_transGen_within htrans hb hc hne hca hcb hab hba hca' hac)
      · exact absurd ((h a ha c hc hca.symm).1 hac) (not_transGen_out hrefl htrans ha hb hne hab hba hca')
    · refine ⟨hac, fun hca' => ?_⟩
      have hswap : TransGen (Kept (Function.swap r) s) a c :=
        TransGen.mono (fun _ _ => kept_swap.2) a c (transGen_swap.2 ((h c hc a ha hca).1 hca'))
      have htrans' : ∀ a b c, Function.swap r a b → Function.swap r b c → Function.swap r a c :=
        fun _ _ _ hab hbc => htrans _ _ _ hbc hab
      exact @not_transGen_out α (Function.swap r) s hrefl htrans' _ _ _ ha hb hne hba hab hac hswap
  · intro h a ha b hb hne
    exact ⟨kept_of_isolated hrefl htrans h ha hb hne, rel_of_kept htrans⟩

end AiOrg
