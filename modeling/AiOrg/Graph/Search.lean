import Mathlib

/-!
# Depth-first search

A search that reports on the way: what is done at a vertex is a list of reports and of visits to
other vertices, and a vertex that was visited is passed over.
-/

namespace AiOrg

open List

namespace Search

variable {α ε : Type*}

structure Visiting (α ε : Type*) where
  visited : List α
  reports : List ε

namespace Visiting

/-- One step at a vertex: a report, or a visit that `visit` makes. -/
def act (visit : α → Visiting α ε → Visiting α ε) (s : Visiting α ε) :
    ε ⊕ α → Visiting α ε
  | .inl e => { s with reports := s.reports ++ [e] }
  | .inr b => visit b s

end Visiting

variable (steps : α → List (ε ⊕ α))

/-- The search from a vertex, to a depth. -/
def visit [DecidableEq α] : ℕ → α → Visiting α ε → Visiting α ε
  | 0, _, s => s
  | depth + 1, a, s =>
    if a ∈ s.visited then s
    else (steps a).foldl (Visiting.act (visit depth)) { s with visited := a :: s.visited }

/-- A visit to the second vertex is made at the first. -/
def Next (a b : α) : Prop := .inr b ∈ steps a

/-- Nothing is reported at the vertices that can be reached. -/
def Quiet (a : α) : Prop :=
  ∀ b, Relation.ReflTransGen (Next steps) a b → ∀ e, .inl e ∉ steps b

theorem quiet_iff {a : α} :
    Quiet steps a ↔ (∀ e, .inl e ∉ steps a) ∧ ∀ b, Next steps a b → Quiet steps b := by
  constructor
  · intro h
    exact ⟨h a .refl, fun b hb c hc => h c (.head hb hc)⟩
  · rintro ⟨hown, hnext⟩ b hb
    rcases hb.cases_head with rfl | ⟨c, hc, hcb⟩
    · exact hown
    · exact hnext c hc b hcb

/-- What a part of the search does: the visits are to vertices that can be reached from the ones it
starts with, where `starts` and `own` tell which these are and what it reports itself. -/
structure Advances (starts : α → Prop) (own : ε → Prop) (s s' : Visiting α ε) : Prop where
  grows : s.visited ⊆ s'.visited
  meets : ∀ a, starts a → a ∈ s'.visited
  reaches : ∀ b ∈ s'.visited, b ∈ s.visited ∨ ∃ a, starts a ∧ Relation.ReflTransGen (Next steps) a b
  closed : ∀ b ∈ s'.visited, b ∉ s.visited → ∀ c, Next steps b c → c ∈ s'.visited
  reports : ∀ e, e ∈ s'.reports ↔ e ∈ s.reports ∨ own e ∨
    ∃ b ∈ s'.visited, b ∉ s.visited ∧ .inl e ∈ steps b

variable {steps}

namespace Advances

variable (steps) in
theorem refl (s : Visiting α ε) : Advances steps (fun _ => False) (fun _ => False) s s where
  grows := fun _ h => h
  meets := fun _ h => h.elim
  reaches := fun _ h => .inl h
  closed := fun _ h hnot => absurd h hnot
  reports := fun e => by
    constructor
    · exact fun h => .inl h
    · rintro (h | h | ⟨b, h, hnot, -⟩)
      · exact h
      · exact h.elim
      · exact absurd h hnot

theorem visited {a : α} {s : Visiting α ε} (h : a ∈ s.visited) :
    Advances steps (fun b => b = a) (fun _ => False) s s where
  grows := (refl steps s).grows
  meets := fun _ hb => hb ▸ h
  reaches := fun _ hb => .inl hb
  closed := (refl steps s).closed
  reports := (refl steps s).reports

theorem report (s : Visiting α ε) (e : ε) :
    Advances steps (fun _ => False) (fun d => d = e) s { s with reports := s.reports ++ [e] } where
  grows := fun _ h => h
  meets := fun _ h => h.elim
  reaches := fun _ h => .inl h
  closed := fun _ h hnot => absurd h hnot
  reports := fun d => by
    rw [mem_append, mem_singleton]
    constructor
    · rintro (h | h)
      · exact .inl h
      · exact .inr (.inl h)
    · rintro (h | h | ⟨b, h, hnot, -⟩)
      · exact .inl h
      · exact .inr h
      · exact absurd h hnot

theorem trans {starts starts' : α → Prop} {own own' : ε → Prop} {s t u : Visiting α ε}
    (h : Advances steps starts own s t) (h' : Advances steps starts' own' t u) :
    Advances steps (fun a => starts a ∨ starts' a) (fun e => own e ∨ own' e) s u where
  grows := fun _ ha => h'.grows (h.grows ha)
  meets := fun a ha => ha.elim (fun ha => h'.grows (h.meets a ha)) (h'.meets a)
  reaches := fun b hb => by
    rcases h'.reaches b hb with hb | ⟨a, ha, hab⟩
    · rcases h.reaches b hb with hb | ⟨a, ha, hab⟩
      · exact .inl hb
      · exact .inr ⟨a, .inl ha, hab⟩
    · exact .inr ⟨a, .inr ha, hab⟩
  closed := fun b hb hnot c hc => by
    by_cases hmid : b ∈ t.visited
    · exact h'.grows (h.closed b hmid hnot c hc)
    · exact h'.closed b hb hmid c hc
  reports := fun e => by
    rw [h'.reports, h.reports]
    constructor
    · rintro ((he | he | ⟨b, hb, hnot, he⟩) | he | ⟨b, hb, hnot, he⟩)
      · exact .inl he
      · exact .inr (.inl (.inl he))
      · exact .inr (.inr ⟨b, h'.grows hb, hnot, he⟩)
      · exact .inr (.inl (.inr he))
      · exact .inr (.inr ⟨b, hb, fun hmem => hnot (h.grows hmem), he⟩)
    · rintro (he | (he | he) | ⟨b, hb, hnot, he⟩)
      · exact .inl (.inl he)
      · exact .inl (.inr (.inl he))
      · exact .inr (.inl he)
      · by_cases hmid : b ∈ t.visited
        · exact .inl (.inr (.inr ⟨b, hmid, hnot, he⟩))
        · exact .inr (.inr ⟨b, hb, hmid, he⟩)

theorem congr {starts starts' : α → Prop} {own own' : ε → Prop} {s s' : Visiting α ε}
    (h : Advances steps starts own s s') (hstarts : ∀ a, starts' a ↔ starts a)
    (hown : ∀ e, own' e ↔ own e) : Advances steps starts' own' s s' := by
  rwa [funext fun a => propext (hstarts a), funext fun e => propext (hown e)]

theorem foldl {act : α → Visiting α ε → Visiting α ε} (l : List (ε ⊕ α)) (s : Visiting α ε)
    (hact : ∀ a t, .inr a ∈ l → s.visited ⊆ t.visited →
      Advances steps (fun b => b = a) (fun _ => False) t (act a t)) :
    Advances steps (fun a => .inr a ∈ l) (fun e => .inl e ∈ l) s
      (l.foldl (Visiting.act act) s) := by
  induction l generalizing s with
  | nil => exact (refl steps s).congr (by simp) (by simp)
  | cons step l ih =>
    rw [foldl_cons]
    rcases step with e | a
    · have hrest := ih { s with reports := s.reports ++ [e] } fun b t hb ht =>
        hact b t (mem_cons_of_mem _ hb) ht
      exact ((report s e).trans hrest).congr (by simp) (by simp)
    · have hfirst := hact a s mem_cons_self fun _ h => h
      have hrest := ih (act a s) fun b t hb ht =>
        hact b t (mem_cons_of_mem _ hb) fun _ h => ht (hfirst.grows h)
      exact (hfirst.trans hrest).congr (by simp) (by simp)

end Advances

variable [DecidableEq α]

theorem advances_visit {U : Finset α} (hclosed : ∀ a ∈ U, ∀ b, Next steps a b → b ∈ U) (depth : ℕ) :
    ∀ a ∈ U, ∀ s : Visiting α ε, (U.filter (· ∉ s.visited)).card ≤ depth →
      Advances steps (fun b => b = a) (fun _ => False) s (visit steps depth a s) := by
  induction depth with
  | zero =>
    intro a ha s hcard
    have hvisited : a ∈ s.visited := by
      by_contra hnot
      have hempty := Finset.card_eq_zero.1 (Nat.le_zero.1 hcard)
      exact absurd (hempty ▸ Finset.mem_filter.2 ⟨ha, hnot⟩) (Finset.notMem_empty a)
    exact .visited hvisited
  | succ depth ih =>
    intro a ha s hcard
    rw [visit]
    split_ifs with hvisited
    · exact .visited hvisited
    · have hfold : Advances steps (fun b => .inr b ∈ steps a) (fun e => .inl e ∈ steps a)
          { s with visited := a :: s.visited }
          ((steps a).foldl (Visiting.act (visit steps depth)) { s with visited := a :: s.visited }) :=
        .foldl _ _ fun b t hb ht => by
          refine ih b (hclosed a ha b hb) t ?_
          have hlt : (U.filter (· ∉ t.visited)).card < (U.filter (· ∉ s.visited)).card := by
            refine Finset.card_lt_card ⟨fun c hc => ?_, fun hle => ?_⟩
            · rw [Finset.mem_filter] at hc ⊢
              exact ⟨hc.1, fun h => hc.2 (ht (mem_cons_of_mem _ h))⟩
            · have hmem := Finset.mem_filter.1 (hle (Finset.mem_filter.2 ⟨ha, hvisited⟩))
              exact hmem.2 (ht mem_cons_self)
          omega
      refine ⟨fun _ h => hfold.grows (mem_cons_of_mem _ h),
        fun b hb => hb ▸ hfold.grows mem_cons_self, fun b hb => ?_, fun b hb hnot c hc => ?_,
        fun e => ?_⟩
      · rcases hfold.reaches b hb with hb | ⟨c, hc, hcb⟩
        · rcases mem_cons.1 hb with rfl | hb
          · exact .inr ⟨b, rfl, .refl⟩
          · exact .inl hb
        · exact .inr ⟨a, rfl, .head hc hcb⟩
      · by_cases hab : b = a
        · subst hab
          exact hfold.meets c hc
        · exact hfold.closed b hb (by simp [hab, hnot]) c hc
      · rw [hfold.reports]
        constructor
        · rintro (he | he | ⟨b, hb, hnot, he⟩)
          · exact .inl he
          · exact .inr (.inr ⟨a, hfold.grows mem_cons_self, hvisited, he⟩)
          · exact .inr (.inr ⟨b, hb, fun h => hnot (mem_cons_of_mem _ h), he⟩)
        · rintro (he | he | ⟨b, hb, hnot, he⟩)
          · exact .inl he
          · exact he.elim
          · by_cases hab : b = a
            · subst hab
              exact .inr (.inl he)
            · exact .inr (.inr ⟨b, hb, by simp [hab, hnot], he⟩)

theorem mem_reports_visit {U : Finset α} (hclosed : ∀ a ∈ U, ∀ b, Next steps a b → b ∈ U) {a : α}
    (ha : a ∈ U) {depth : ℕ} (hdepth : U.card ≤ depth) (e : ε) :
    e ∈ (visit steps depth a ⟨[], []⟩).reports ↔
      ∃ b, Relation.ReflTransGen (Next steps) a b ∧ .inl e ∈ steps b := by
  have h := advances_visit hclosed depth a ha ⟨[], []⟩ ((Finset.card_filter_le _ _).trans hdepth)
  have hreach : ∀ b, Relation.ReflTransGen (Next steps) a b →
      b ∈ (visit steps depth a ⟨[], []⟩).visited := fun b hab => by
    induction hab with
    | refl => exact h.meets a rfl
    | tail _ hbc ih => exact h.closed _ ih (by simp) _ hbc
  rw [h.reports]
  constructor
  · rintro (he | he | ⟨b, hb, -, he⟩)
    · cases he
    · exact he.elim
    · rcases h.reaches b hb with hb | ⟨c, rfl, hcb⟩
      · cases hb
      · exact ⟨b, hcb, he⟩
  · rintro ⟨b, hab, he⟩
    exact .inr (.inr ⟨b, hreach b hab, by simp, he⟩)

theorem reports_visit_eq_nil {U : Finset α} (hclosed : ∀ a ∈ U, ∀ b, Next steps a b → b ∈ U)
    {a : α} (ha : a ∈ U) {depth : ℕ} (hdepth : U.card ≤ depth) :
    (visit steps depth a ⟨[], []⟩).reports = [] ↔ Quiet steps a := by
  rw [eq_nil_iff_forall_not_mem]
  simp only [mem_reports_visit hclosed ha hdepth, not_exists, not_and]
  exact ⟨fun h b hb e he => h e b hb he, fun h e b hb he => h b hb e he⟩

end Search

end AiOrg
