import Mathlib

/-!
# Dictionaries of lists

`groupBy` is the loop `for x in xs: groups.setdefault(key(x), []).append(x)`, with the entries in
the order their keys first occur; `sorted` is Python's `sorted` on an ordered type.
-/

namespace AiOrg

open List

variable {α κ : Type*} [DecidableEq κ]

/-- `groups.setdefault(key, []).append(x)`. -/
def appendAt (key : κ) (x : α) : List (κ × List α) → List (κ × List α)
  | [] => [(key, [x])]
  | (k, xs) :: groups =>
    if k = key then (k, xs ++ [x]) :: groups else (k, xs) :: appendAt key x groups

/-- `entries[key] = x`. -/
def assign (key : κ) (x : α) : List (κ × α) → List (κ × α)
  | [] => [(key, x)]
  | (k, y) :: entries => if k = key then (key, x) :: entries else (k, y) :: assign key x entries

/-- `dict(entries)`. -/
def dictOfEntries (entries : List (κ × α)) : List (κ × α) :=
  entries.foldl (fun dict entry => assign entry.1 entry.2 dict) []

def groupBy (key : α → Option κ) (xs : List α) : List (κ × List α) :=
  xs.foldl (fun groups x =>
    match key x with
    | none => groups
    | some k => appendAt k x groups) []

/-- `sorted(xs)`. -/
def sorted {α : Type*} [LE α] [DecidableLE α] (xs : List α) : List α :=
  xs.insertionSort (· ≤ ·)

theorem mem_sorted {α : Type*} [LE α] [DecidableLE α] {xs : List α} {x : α} :
    x ∈ sorted xs ↔ x ∈ xs :=
  mem_insertionSort _

theorem length_sorted {α : Type*} [LE α] [DecidableLE α] (xs : List α) :
    (sorted xs).length = xs.length :=
  length_insertionSort _ xs

theorem keys_appendAt (key : κ) (x : α) :
    ∀ groups : List (κ × List α), (appendAt key x groups).map Prod.fst =
      if key ∈ groups.map Prod.fst then groups.map Prod.fst else groups.map Prod.fst ++ [key]
  | [] => by simp [appendAt]
  | (k, xs) :: groups => by
    simp only [appendAt]
    split_ifs with h1 h2 h2
    · rfl
    · simp [h1] at h2
    · have h2' : key ∈ groups.map Prod.fst := by
        simp only [map_cons, mem_cons] at h2
        exact h2.resolve_left (Ne.symm h1)
      simp [keys_appendAt key x groups, h2']
    · have h2' : key ∉ groups.map Prod.fst := fun h => h2 (by simp [h])
      simp [keys_appendAt key x groups, h2']

theorem mem_appendAt {key : κ} {x : α} :
    ∀ {groups : List (κ × List α)}, (groups.map Prod.fst).Nodup → ∀ {k : κ} {xs : List α},
      (k, xs) ∈ appendAt key x groups ↔
        if k = key then xs = (groups.lookup key).getD [] ++ [x] else (k, xs) ∈ groups
  | [], _, k, xs => by
    simp only [appendAt, mem_singleton, Prod.mk.injEq, lookup_nil, Option.getD_none,
      nil_append, not_mem_nil]
    split_ifs with h <;> simp [h]
  | (l, ys) :: groups, hn, k, xs => by
    simp only [map_cons, nodup_cons] at hn
    simp only [appendAt]
    by_cases hl : l = key
    · subst hl
      simp only [↓reduceIte, mem_cons, Prod.mk.injEq, lookup_cons, beq_self_eq_true,
        Option.getD_some]
      by_cases hk : k = l
      · subst hk
        have : (k, xs) ∉ groups := fun h => hn.1 (mem_map.2 ⟨_, h, rfl⟩)
        simp [this]
      · simp [hk]
    · have hb : (key == l) = false := by simp [Ne.symm hl]
      simp only [hl, ↓reduceIte, mem_cons, Prod.mk.injEq, lookup_cons, hb,
        mem_appendAt hn.2]
      by_cases hk : k = key
      · simp [hk, Ne.symm hl]
      · simp [hk]

theorem groupBy_append_singleton (key : α → Option κ) (xs : List α) (x : α) :
    groupBy key (xs ++ [x]) = match key x with
      | none => groupBy key xs
      | some k => appendAt k x (groupBy key xs) := by
  simp only [groupBy, foldl_append, foldl_cons, foldl_nil]

theorem groupBy_keys_nodup (key : α → Option κ) (xs : List α) :
    ((groupBy key xs).map Prod.fst).Nodup := by
  induction xs using List.reverseRec with
  | nil => simp [groupBy]
  | append_singleton xs x ih =>
    rw [groupBy_append_singleton]
    split
    · exact ih
    · rename_i k _
      rw [keys_appendAt]
      split_ifs with h
      · exact ih
      · exact nodup_append.2 ⟨ih, by simp, by
          rintro a ha b hb rfl
          rw [mem_singleton.1 hb] at ha
          exact h ha⟩

theorem assign_of_absent {key : κ} {x : α} {entries : List (κ × α)} (h : key ∉ entries.map Prod.fst) :
    assign key x entries = entries ++ [(key, x)] := by
  induction entries with
  | nil => rfl
  | cons entry entries ih =>
    obtain ⟨l, y⟩ := entry
    rw [map_cons, mem_cons, not_or] at h
    rw [assign, if_neg (Ne.symm h.1), ih h.2, cons_append]

theorem lookup_assign (key k : κ) (x : α) (entries : List (κ × α)) :
    (assign key x entries).lookup k = if k = key then some x else entries.lookup k := by
  induction entries with
  | nil =>
    rw [assign, lookup_cons]
    by_cases hk : k = key
    · simp [hk]
    · simp [hk, beq_eq_false_iff_ne.2 hk]
  | cons entry entries ih =>
    obtain ⟨l, y⟩ := entry
    rw [assign]
    by_cases hl : l = key
    · subst hl
      rw [if_pos rfl, lookup_cons, lookup_cons]
      by_cases hk : k = l
      · simp [hk]
      · simp [hk, beq_eq_false_iff_ne.2 hk]
    · rw [if_neg hl, lookup_cons, lookup_cons, ih]
      by_cases hk : k = l
      · subst hk
        simp [hl]
      · simp [beq_eq_false_iff_ne.2 hk]

theorem keys_assign (key : κ) (x : α) (entries : List (κ × α)) :
    (assign key x entries).map Prod.fst =
      if key ∈ entries.map Prod.fst then entries.map Prod.fst else entries.map Prod.fst ++ [key] := by
  induction entries with
  | nil => simp [assign]
  | cons entry entries ih =>
    obtain ⟨k, y⟩ := entry
    rw [assign]
    by_cases hk : k = key
    · subst hk
      simp
    · rw [if_neg hk, map_cons, ih, map_cons]
      by_cases hmem : key ∈ entries.map Prod.fst
      · rw [if_pos hmem, if_pos (mem_cons_of_mem _ hmem)]
      · rw [if_neg hmem, if_neg (by simp [Ne.symm hk, hmem]), cons_append]

theorem dictOfEntries_eq_self {entries : List (κ × α)} (hn : (entries.map Prod.fst).Nodup) :
    dictOfEntries entries = entries := by
  induction entries using List.reverseRec with
  | nil => rfl
  | append_singleton entries entry ih =>
    rw [map_append, nodup_append] at hn
    obtain ⟨hn, -, hapart⟩ := hn
    have hih : entries.foldl (fun dict entry => assign entry.1 entry.2 dict) [] = entries := ih hn
    rw [dictOfEntries, foldl_append, foldl_cons, foldl_nil, hih]
    exact assign_of_absent fun hmem => hapart _ hmem entry.1 (by simp) rfl

theorem mem_of_lookup {groups : List (κ × α)} {k : κ} {a : α} (h : groups.lookup k = some a) :
    (k, a) ∈ groups := by
  obtain ⟨l₁, l₂, rfl, -⟩ := lookup_eq_some_iff.1 h
  simp

theorem lookup_of_mem {groups : List (κ × α)} (hn : (groups.map Prod.fst).Nodup) {k : κ} {a : α}
    (h : (k, a) ∈ groups) : groups.lookup k = some a := by
  induction groups with
  | nil => simp at h
  | cons g groups ih =>
    obtain ⟨l, b⟩ := g
    simp only [map_cons, nodup_cons] at hn
    rw [lookup_cons]
    rcases mem_cons.1 h with h' | h'
    · cases h'
      simp
    · have hk : k ≠ l := by
        rintro rfl
        exact hn.1 (mem_map.2 ⟨(k, a), h', rfl⟩)
      have : (k == l) = false := by simp [hk]
      rw [this]
      exact ih hn.2 h'

theorem lookup_map_iff {β : Type*} {f : β → κ} {g : β → α} {l : List β} (hn : (l.map f).Nodup) {k : κ} {a : α} :
    (l.map fun x => (f x, g x)).lookup k = some a ↔ ∃ x ∈ l, f x = k ∧ g x = a := by
  constructor
  · intro h
    obtain ⟨x, hx, heq⟩ := mem_map.1 (mem_of_lookup h)
    exact ⟨x, hx, Prod.mk.inj heq⟩
  · rintro ⟨x, hx, rfl, rfl⟩
    exact lookup_of_mem (by rw [map_map]; exact hn) (mem_map.2 ⟨x, hx, rfl⟩)

theorem lookup_isSome_iff {groups : List (κ × α)} {k : κ} :
    (groups.lookup k).isSome ↔ k ∈ groups.map Prod.fst := by
  rw [List.lookup_isSome_iff, mem_map]
  simp only [beq_iff_eq, eq_comm (a := k)]

theorem mem_groupBy {key : α → Option κ} {xs : List α} {k : κ} {ys : List α} :
    (k, ys) ∈ groupBy key xs ↔ ys = xs.filter (fun x => key x = some k) ∧ ys ≠ [] := by
  induction xs using List.reverseRec generalizing k ys with
  | nil =>
    simp only [groupBy, foldl_nil, not_mem_nil, filter_nil, false_iff, not_and,
      not_not]
    exact id
  | append_singleton xs x ih =>
    rw [groupBy_append_singleton]
    rcases hx : key x with _ | l
    · simp [ih, hx]
    · simp only
      rw [mem_appendAt (groupBy_keys_nodup key xs)]
      by_cases hk : k = l
      · subst hk
        have hl : ((groupBy key xs).lookup k).getD [] = xs.filter (fun x => key x = some k) := by
          rcases hlk : (groupBy key xs).lookup k with _ | zs
          · by_contra hne
            have hmem := ih.2 ⟨rfl, Ne.symm hne⟩
            rw [lookup_of_mem (groupBy_keys_nodup key xs) hmem] at hlk
            simp at hlk
          · exact (ih.1 (mem_of_lookup hlk)).1
        simp only [↓reduceIte, hl, filter_append, filter_cons, hx, decide_true,
          filter_nil]
        exact ⟨fun h => ⟨h, by simp [h]⟩, fun h => h.1⟩
      · have hkl : l ≠ k := Ne.symm hk
        simp [hk, ih, hx, hkl]

theorem lookup_groupBy (key : α → Option κ) (xs : List α) (k : κ) :
    ((groupBy key xs).lookup k).getD [] = xs.filter fun x => key x = some k := by
  rcases h : (groupBy key xs).lookup k with _ | ys
  · by_contra hne
    have hmem := mem_groupBy.2 ⟨rfl, Ne.symm hne⟩
    rw [lookup_of_mem (groupBy_keys_nodup key xs) hmem] at h
    cases h
  · exact (mem_groupBy.1 (mem_of_lookup h)).1

theorem perm_flatMap_appendAt (key : κ) (x : α) :
    ∀ groups : List (κ × List α),
      ((appendAt key x groups).flatMap Prod.snd).Perm (groups.flatMap Prod.snd ++ [x])
  | [] => by simp [appendAt]
  | (k, xs) :: groups => by
    simp only [appendAt]
    split_ifs
    · simp only [flatMap_cons, append_assoc]
      exact List.Perm.append_left _ perm_append_comm
    · simp only [flatMap_cons, append_assoc]
      exact List.Perm.append_left _ (perm_flatMap_appendAt key x groups)

theorem perm_flatMap_groupBy (key : α → Option κ) (xs : List α) :
    ((groupBy key xs).flatMap Prod.snd).Perm (xs.filter fun x => (key x).isSome) := by
  induction xs using List.reverseRec with
  | nil => simp [groupBy]
  | append_singleton xs x ih =>
    rw [groupBy_append_singleton]
    rcases hx : key x with _ | k
    · simpa [hx] using ih
    · simp only [filter_append, filter_cons, hx, Option.isSome_some, ↓reduceIte,
        filter_nil]
      exact (perm_flatMap_appendAt k x _).trans (ih.append_right _)

end AiOrg
