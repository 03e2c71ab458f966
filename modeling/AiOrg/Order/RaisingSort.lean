import Mathlib

/-!
# Sorting by a comparison that can raise

`sortBy` inserts the elements of a list one after another and stops at the first comparison that raises. What it
returns is a rearrangement (`sortBy_perm`). Where the comparison of elements with different keys compares the keys,
a list without two elements of one key is sorted by them (`sortBy_eq_ok`).
-/

namespace AiOrg

open List

namespace Selection

variable {α ε κ : Type} [LinearOrder κ]

/-- Insert an element after those that it is not below. -/
def insertBy (lt : α → α → Except ε Bool) (x : α) : List α → Except ε (List α)
  | [] => .ok [x]
  | y :: ys =>
    match lt x y with
    | .error e => .error e
    | .ok true => .ok (x :: y :: ys)
    | .ok false => (insertBy lt x ys).map (y :: ·)

/-- `sorted(xs)`, with the comparison of its elements. -/
def sortBy (lt : α → α → Except ε Bool) : List α → List α → Except ε (List α)
  | done, [] => .ok done
  | done, x :: xs =>
    match insertBy lt x done with
    | .error e => .error e
    | .ok done => sortBy lt done xs

variable {lt : α → α → Except ε Bool}

theorem insertBy_perm {x : α} {ys zs : List α} (h : insertBy lt x ys = .ok zs) : zs.Perm (x :: ys) := by
  induction ys generalizing zs with
  | nil =>
    obtain rfl := Except.ok.inj h
    exact List.Perm.refl _
  | cons y ys ih =>
    rw [insertBy] at h
    rcases hlt : lt x y with e | _ | _
    · simp [hlt] at h
    · rcases hrest : insertBy lt x ys with e | rest
      · simp [hlt, hrest, Except.map] at h
      · simp only [hlt, hrest, Except.map, Except.ok.injEq] at h
        subst h
        exact ((ih hrest).cons y).trans (List.Perm.swap x y ys)
    · simp only [hlt, Except.ok.injEq] at h
      subst h
      exact List.Perm.refl _

theorem sortBy_perm {done xs zs : List α} (h : sortBy lt done xs = .ok zs) : zs.Perm (done ++ xs) := by
  induction xs generalizing done with
  | nil =>
    obtain rfl := Except.ok.inj h
    simp
  | cons x xs ih =>
    rw [sortBy] at h
    rcases hinsert : insertBy lt x done with e | inserted
    · simp [hinsert] at h
    · simp only [hinsert] at h
      exact (ih h).trans (((insertBy_perm hinsert).append_right xs).trans perm_middle.symm)

def ComparesBy (lt : α → α → Except ε Bool) (key : α → κ) : Prop :=
  ∀ x y, key x ≠ key y → lt x y = .ok (decide (key x < key y))

variable {key : α → κ}

theorem insertBy_eq_ok (hlt : ComparesBy lt key) {x : α} {ys : List α} (hx : key x ∉ ys.map key)
    (hys : (ys.map key).Pairwise (· < ·)) :
    ∃ zs, insertBy lt x ys = .ok zs ∧ (zs.map key).Pairwise (· < ·) := by
  induction ys with
  | nil => exact ⟨[x], rfl, by simp⟩
  | cons y ys ih =>
    rw [map_cons, mem_cons, not_or] at hx
    rw [map_cons, pairwise_cons] at hys
    rw [insertBy, hlt x y hx.1]
    by_cases hxy : key x < key y
    · refine ⟨x :: y :: ys, by simp [hxy], ?_⟩
      rw [map_cons, map_cons, pairwise_cons, pairwise_cons]
      refine ⟨?_, hys⟩
      intro k hk
      rcases mem_cons.1 hk with rfl | hk
      · exact hxy
      · exact hxy.trans (hys.1 k hk)
    · obtain ⟨zs, hzs, hsorted⟩ := ih hx.2 hys.2
      refine ⟨y :: zs, by simp [hxy, hzs, Except.map], ?_⟩
      rw [map_cons, pairwise_cons]
      refine ⟨fun k hk => ?_, hsorted⟩
      rw [((insertBy_perm hzs).map key).mem_iff, map_cons, mem_cons] at hk
      rcases hk with rfl | hk
      · exact lt_of_le_of_ne (not_lt.1 hxy) (Ne.symm hx.1)
      · exact hys.1 k hk

theorem sortBy_eq_ok (hlt : ComparesBy lt key) {done xs : List α} (hdone : (done.map key).Pairwise (· < ·))
    (hnodup : ((done ++ xs).map key).Nodup) :
    ∃ zs, sortBy lt done xs = .ok zs ∧ (zs.map key).Pairwise (· < ·) := by
  induction xs generalizing done with
  | nil => exact ⟨done, rfl, hdone⟩
  | cons x xs ih =>
    have hperm : (done ++ x :: xs).Perm (x :: (done ++ xs)) := perm_middle
    have hnodup' : (key x :: (done ++ xs).map key).Nodup := ((hperm.map key).nodup_iff).1 hnodup
    have hx : key x ∉ done.map key := fun hmem =>
      (nodup_cons.1 hnodup').1 (by rw [map_append]; exact mem_append_left _ hmem)
    obtain ⟨inserted, hinsert, hsorted⟩ := insertBy_eq_ok hlt hx hdone
    have hkeys : ((inserted ++ xs).map key).Nodup := by
      refine (((insertBy_perm hinsert).append_right xs).map key).nodup_iff.2 ?_
      exact hnodup'
    obtain ⟨zs, hzs, hzsorted⟩ := ih hsorted hkeys
    exact ⟨zs, by rw [sortBy, hinsert]; exact hzs, hzsorted⟩

end Selection

end AiOrg
