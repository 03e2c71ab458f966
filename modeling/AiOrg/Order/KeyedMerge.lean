import Mathlib

/-!
# Merging edits into a list of items with keys

An edit takes the place of the first item of its key, or goes to the end where there is none. An edit that declares a
key replaced removes the items of that key and goes to the end.

`merge` keeps the items whose key nobody declares replaced, in their order, and puts edits behind them
(`merge_eq_append`, `kept_carried`). Which keys it ends with, and which of them twice, can be read off the edits:
`inUse_iff` and `clashAt_iff`. Where a key is not there twice, the edits that declare a key and are still there are
those that no later edit removes or overwrites (`mem_added_iff`). `exact_merge_iff` puts these together.
-/

namespace AiOrg

open List

namespace KeyedMerge

variable {α κ : Type} [DecidableEq κ] (key : α → κ) (declares : α → Option κ)

/-- Put `x` in the place of the first item of its key, or at the end. -/
def overwrite (x : α) : List α → List α
  | [] => [x]
  | y :: ys => if key y = key x then x :: ys else y :: overwrite x ys

def apply (items : List α) (x : α) : List α :=
  match declares x with
  | some old => (items.filter fun y => key y ≠ old) ++ [x]
  | none => overwrite key x items

def merge (edits items : List α) : List α := edits.foldl (apply key declares) items

def Replaced (edits : List α) (k : κ) : Prop := ∃ e ∈ edits, declares e = some k

instance (edits : List α) (k : κ) : Decidable (Replaced declares edits k) :=
  inferInstanceAs (Decidable (∃ e ∈ edits, declares e = some k))

def Carried (edits : List α) (x y : α) : Prop := y = x ∨ y ∈ edits ∧ declares y = none ∧ key y = key x

/-- The keys are different; the items that are not replaced stay in their order, and none of them changes unless it is a
target; what is replaced is a target and has one successor. -/
structure Exact (targets : List κ) (edits items merged : List α) : Prop where
  distinct : (merged.map key).Nodup
  carried : ∃ kept added, merged = kept ++ added ∧ (∀ y ∈ added, y ∈ edits) ∧
    Forall₂ (fun x y => Carried key declares edits x y ∧ (key x ∉ targets → y = x))
      (items.filter fun x => ¬ Replaced declares edits (key x)) kept ∧
    ∀ x ∈ items, Replaced declares edits (key x) →
      key x ∈ targets ∧ ∃! y, y ∈ added ∧ declares y = some (key x)

def InUse (edits items : List α) (k : κ) : Prop :=
  (k ∈ items.map key ∧ ¬ Replaced declares edits k) ∨
    ∃ before e after, edits = before ++ e :: after ∧ key e = k ∧ ¬ Replaced declares after k

/-- An edit goes to the end with a key that is in use, and no later one removes that key. -/
def ClashAt (edits items : List α) (k : κ) : Prop :=
  ∃ before e after, edits = before ++ e :: after ∧ (key e = k ∧ (∃ old, declares e = some old ∧ old ≠ k) ∧
    InUse key declares before items k) ∧ ¬ Replaced declares after k

/-- No edit after `y` removes the key of `y` or overwrites it. -/
def Survives (edits : List α) (y : α) : Prop :=
  ∃ before e after, edits = before ++ e :: after ∧ e = y ∧
    ∀ x ∈ after, declares x ≠ some (key y) ∧ (declares x = none → key x ≠ key y)

section Last

variable {edits items : List α} {x : α} {k : κ}

theorem exists_split_append {P : List α → α → List α → Prop} :
    (∃ before e after, edits ++ [x] = before ++ e :: after ∧ P before e after) ↔
      P edits x [] ∨ ∃ before e after, edits = before ++ e :: after ∧ P before e (after ++ [x]) := by
  constructor
  · rintro ⟨before, e, after, heq, hp⟩
    rcases eq_nil_or_concat after with rfl | ⟨after, last, rfl⟩
    · obtain ⟨rfl, hx⟩ := append_inj' heq rfl
      obtain rfl : x = e := by simpa using hx
      exact .inl hp
    · rw [concat_eq_append, ← cons_append, ← append_assoc] at heq
      obtain ⟨rfl, hx⟩ := append_inj' heq rfl
      obtain rfl : x = last := by simpa using hx
      exact .inr ⟨before, e, after, rfl, by simpa using hp⟩
  · rintro (hp | ⟨before, e, after, rfl, hp⟩)
    · exact ⟨edits, x, [], rfl, hp⟩
    · exact ⟨before, e, after ++ [x], by simp, hp⟩

variable {key declares}

omit [DecidableEq κ] in
@[simp] theorem not_replaced_nil : ¬ Replaced declares [] k := by simp [Replaced]

omit [DecidableEq κ] in
@[simp] theorem replaced_append :
    Replaced declares (edits ++ [x]) k ↔ Replaced declares edits k ∨ declares x = some k := by
  simp [Replaced, or_and_right, exists_or]

omit [DecidableEq κ] in
theorem inUse_append :
    InUse key declares (edits ++ [x]) items k ↔
      key x = k ∨ declares x ≠ some k ∧ InUse key declares edits items k := by
  rw [InUse, InUse, exists_split_append]
  simp only [replaced_append, not_replaced_nil, not_false_eq_true, and_true, not_or]
  constructor
  · rintro (⟨hk, hr, hx⟩ | hk | ⟨before, e, after, rfl, hk, hr, hx⟩)
    · exact .inr ⟨hx, .inl ⟨hk, hr⟩⟩
    · exact .inl hk
    · exact .inr ⟨hx, .inr ⟨before, e, after, rfl, hk, hr⟩⟩
  · rintro (hk | ⟨hx, ⟨hk, hr⟩ | ⟨before, e, after, rfl, hk, hr⟩⟩)
    · exact .inr (.inl hk)
    · exact .inl ⟨hk, hr, hx⟩
    · exact .inr (.inr ⟨before, e, after, rfl, hk, hr, hx⟩)

omit [DecidableEq κ] in
theorem clashAt_append :
    ClashAt key declares (edits ++ [x]) items k ↔
      (key x = k ∧ (∃ old, declares x = some old ∧ old ≠ k) ∧ InUse key declares edits items k) ∨
        declares x ≠ some k ∧ ClashAt key declares edits items k := by
  rw [ClashAt, ClashAt, exists_split_append]
  simp only [replaced_append, not_replaced_nil, not_false_eq_true, and_true, not_or]
  constructor
  · rintro (hlast | ⟨before, e, after, rfl, he, hr, hx⟩)
    · exact .inl hlast
    · exact .inr ⟨hx, before, e, after, rfl, he, hr⟩
  · rintro (hlast | ⟨hx, before, e, after, rfl, he, hr⟩)
    · exact .inl hlast
    · exact .inr ⟨before, e, after, rfl, he, hr, hx⟩

omit [DecidableEq κ] in
theorem survives_append {y : α} :
    Survives key declares (edits ++ [x]) y ↔
      x = y ∨ Survives key declares edits y ∧ declares x ≠ some (key y) ∧ (declares x = none → key x ≠ key y) := by
  rw [Survives, Survives, exists_split_append]
  simp only [forall_mem_append, forall_mem_singleton, not_mem_nil, false_imp_iff, implies_true, and_true]
  constructor
  · rintro (hlast | ⟨before, e, after, rfl, he, ha, hx⟩)
    · exact .inl hlast
    · exact .inr ⟨⟨before, e, after, rfl, he, ha⟩, hx⟩
  · rintro (hlast | ⟨⟨before, e, after, rfl, he, ha⟩, hx⟩)
    · exact .inl hlast
    · exact .inr ⟨before, e, after, rfl, he, ha, hx⟩

end Last

section Keys

variable {key declares} {edits items : List α} {x : α} {k : κ}

theorem keys_overwrite : (overwrite key x items).map key =
    if key x ∈ items.map key then items.map key else items.map key ++ [key x] := by
  induction items with
  | nil => simp [overwrite]
  | cons y ys ih =>
    rw [overwrite]
    by_cases hy : key y = key x
    · simp [hy]
    · rw [if_neg hy, map_cons, ih, map_cons]
      by_cases hmem : key x ∈ ys.map key
      · rw [if_pos hmem, if_pos (mem_cons_of_mem _ hmem)]
      · rw [if_neg hmem, if_neg (by simpa [Ne.symm hy] using hmem), cons_append]

theorem keys_filter {old : κ} : (items.filter fun y => key y ≠ old).map key = (items.map key).filter (· ≠ old) := by
  rw [filter_map]
  rfl

theorem count_apply : ((apply key declares items x).map key).count k =
    if declares x = some k then (if key x = k then 1 else 0)
    else if key x = k then (if declares x = none then max 1 ((items.map key).count k) else (items.map key).count k + 1)
    else (items.map key).count k := by
  rw [apply]
  cases hx : declares x with
  | none =>
    simp only [keys_overwrite]
    by_cases hmem : key x ∈ items.map key
    · have := count_pos_iff.2 hmem
      rw [if_pos hmem]
      by_cases hk : key x = k
      · subst hk
        simp only [reduceCtorEq, if_false, if_true]
        omega
      · simp [hk]
    · have := count_eq_zero.2 hmem
      rw [if_neg hmem, List.count_append]
      by_cases hk : key x = k
      · subst hk
        simp [this]
      · simp [hk]
  | some old =>
    simp only [map_append, keys_filter, List.count_append, map_cons, map_nil, count_singleton,
      Option.some.injEq, reduceCtorEq, if_false, beq_iff_eq]
    by_cases ho : old = k
    · subst ho
      rw [count_eq_zero.2 (by simp), Nat.zero_add, if_pos rfl]
    · rw [count_filter (by simpa using Ne.symm ho), if_neg ho]
      split_ifs <;> omega

theorem merge_append : merge key declares (edits ++ [x]) items =
    apply key declares (merge key declares edits items) x := by
  rw [merge, merge, foldl_append]
  rfl

theorem count_merge (hitems : (items.map key).Nodup) (k : κ) :
    (InUse key declares edits items k ↔ 0 < ((merge key declares edits items).map key).count k) ∧
      (ClashAt key declares edits items k ↔ 1 < ((merge key declares edits items).map key).count k) := by
  induction edits using reverseRecOn with
  | nil =>
    have hle := nodup_iff_count_le_one.1 hitems k
    refine ⟨?_, ?_⟩
    · simp [InUse, merge, count_pos_iff]
    · have : ¬ ClashAt key declares [] items k := by
        rintro ⟨before, e, after, heq, -⟩
        simp at heq
      simp only [this, false_iff]
      simpa [merge] using hle
  | append_singleton edits x ih =>
    rw [inUse_append, clashAt_append, ih.1, ih.2, merge_append, count_apply]
    generalize ((merge key declares edits items).map key).count k = n
    by_cases hdk : declares x = some k
    · simp only [hdk, if_true, ne_eq, not_true, false_and, or_false, Option.some.injEq]
      by_cases hk : key x = k <;> simp [hk]
    · by_cases hk : key x = k
      · cases hx : declares x with
        | none => simp [hk]
        | some old =>
          have ho : old ≠ k := fun h => hdk (by rw [hx, h])
          simp only [hk, Option.some.injEq, ho, reduceCtorEq, if_true, if_false, exists_eq_left', ne_eq,
            not_false_eq_true, true_and, true_or, true_iff]
          omega
      · simp [hdk, hk]

theorem nodup_merge_iff (hitems : (items.map key).Nodup) :
    ((merge key declares edits items).map key).Nodup ↔ ∀ k, ¬ ClashAt key declares edits items k := by
  rw [nodup_iff_count_le_one]
  exact forall_congr' fun k => by rw [(count_merge hitems k).2, not_lt]

end Keys

/-! ### What stays and what is put behind it -/

def applyApart (state : List α × List α) (x : α) : List α × List α :=
  match declares x with
  | some old => (state.1.filter fun y => key y ≠ old, (state.2.filter fun y => key y ≠ old) ++ [x])
  | none =>
    if key x ∈ state.1.map key then (overwrite key x state.1, state.2) else (state.1, overwrite key x state.2)

def apart (edits items : List α) : List α × List α := edits.foldl (applyApart key declares) (items, [])

section Apart

variable {key declares} {edits items kept added : List α} {x y : α}

theorem overwrite_append : overwrite key x (kept ++ added) =
    if key x ∈ kept.map key then overwrite key x kept ++ added else kept ++ overwrite key x added := by
  induction kept with
  | nil => simp
  | cons z kept ih =>
    rw [cons_append, overwrite, overwrite, ih]
    by_cases hz : key z = key x
    · simp [hz]
    · rw [if_neg hz, if_neg hz]
      by_cases hmem : key x ∈ kept.map key
      · rw [if_pos hmem, if_pos (by simpa using .inr (mem_map.1 hmem)), cons_append]
      · rw [if_neg hmem, if_neg (by simpa [Ne.symm hz] using hmem), cons_append]

theorem apart_append :
    apart key declares (edits ++ [x]) items = applyApart key declares (apart key declares edits items) x := by
  rw [apart, apart, foldl_append]
  rfl

theorem merge_eq_append : merge key declares edits items =
    (apart key declares edits items).1 ++ (apart key declares edits items).2 := by
  induction edits using reverseRecOn with
  | nil => exact (append_nil _).symm
  | append_singleton edits x ih =>
    rw [merge_append, apart_append, ih, apply, applyApart]
    cases declares x with
    | some old => simp
    | none =>
      simp only [overwrite_append]
      split_ifs <;> rfl

theorem mem_or_of_mem_overwrite (h : y ∈ overwrite key x items) : y = x ∨ y ∈ items := by
  induction items with
  | nil => exact .inl (mem_singleton.1 h)
  | cons z zs ih =>
    rw [overwrite] at h
    split_ifs at h
    · exact (mem_cons.1 h).imp_right (mem_cons_of_mem _)
    · rcases mem_cons.1 h with rfl | h
      · exact .inr mem_cons_self
      · exact (ih h).imp_right (mem_cons_of_mem _)

theorem mem_overwrite_of_ne (h : key y ≠ key x) : y ∈ overwrite key x items ↔ y ∈ items := by
  have hyx : y ≠ x := fun heq => h (congrArg key heq)
  induction items with
  | nil => simp [overwrite, hyx]
  | cons z zs ih =>
    rw [overwrite]
    by_cases hz : key z = key x
    · have hyz : y ≠ z := fun heq => h (heq ▸ hz)
      simp [hz, hyx, hyz]
    · simp [hz, ih]

theorem not_mem_overwrite (hkey : key y = key x) (hyx : y ≠ x) (hcount : (items.map key).count (key y) ≤ 1) :
    y ∉ overwrite key x items := by
  induction items with
  | nil => simp [overwrite, hyx]
  | cons z zs ih =>
    rw [map_cons, count_cons] at hcount
    rw [overwrite]
    by_cases hz : key z = key x
    · rw [if_pos (by simp [hz, hkey])] at hcount
      rw [if_pos hz, mem_cons, not_or]
      refine ⟨hyx, fun hmem => ?_⟩
      have hmap : key y ∈ zs.map key := mem_map_of_mem hmem
      have := count_pos_iff.2 hmap
      omega
    · rw [if_neg hz, mem_cons, not_or]
      refine ⟨?_, ih (by omega)⟩
      rintro rfl
      exact hz hkey

theorem added_subset : ∀ y ∈ (apart key declares edits items).2, y ∈ edits := by
  induction edits using reverseRecOn with
  | nil => exact fun y hy => absurd hy not_mem_nil
  | append_singleton edits x ih =>
    intro y hy
    rw [apart_append, applyApart] at hy
    have hold : y ∈ (apart key declares edits items).2 → y ∈ edits ++ [x] := fun h => mem_append_left _ (ih y h)
    have hnew : y = x → y ∈ edits ++ [x] := fun h => by simp [h]
    cases hx : declares x with
    | some old =>
      simp only [hx, mem_append, mem_singleton] at hy
      exact hy.elim (fun h => hold (mem_of_mem_filter h)) hnew
    | none =>
      simp only [hx] at hy
      split_ifs at hy
      · exact hold hy
      · exact (mem_or_of_mem_overwrite hy).elim hnew hold

/-! An item that is still there is as it was, or an edit has taken its place. -/

omit [DecidableEq κ] in
theorem Carried.key_eq (h : Carried key declares edits x y) : key y = key x := by
  rcases h with rfl | ⟨-, -, h⟩
  · rfl
  · exact h

omit [DecidableEq κ] in
theorem Carried.append {e : α} (h : Carried key declares edits x y) : Carried key declares (edits ++ [e]) x y :=
  h.imp_right fun h => ⟨mem_append_left _ h.1, h.2⟩

theorem forall₂_overwrite {R : α → α → Prop} (h : Forall₂ R items kept) (hmem : key x ∈ kept.map key)
    (hx : ∀ a b, R a b → key b = key x → R a x) : Forall₂ R items (overwrite key x kept) := by
  induction h with
  | nil => simp at hmem
  | @cons a b items kept hab h ih =>
    rw [overwrite]
    by_cases hb : key b = key x
    · rw [if_pos hb]
      exact .cons (hx a b hab hb) h
    · rw [if_neg hb]
      exact .cons hab (ih (by simpa [Ne.symm hb] using hmem))

theorem forall₂_filter {R : α → α → Prop} {old : κ} (h : Forall₂ R items kept)
    (hkey : ∀ a b, R a b → key b = key a) :
    Forall₂ R (items.filter fun y => key y ≠ old) (kept.filter fun y => key y ≠ old) := by
  induction h with
  | nil => exact .nil
  | @cons a b items kept hab h ih =>
    by_cases ha : key a = old
    · simpa [ha, (hkey a b hab).trans ha] using ih
    · have hb : key b ≠ old := by rwa [hkey a b hab]
      rw [filter_cons_of_pos (by simpa using ha), filter_cons_of_pos (by simpa using hb)]
      exact .cons hab ih

theorem kept_carried : Forall₂ (Carried key declares edits) (items.filter fun x => ¬ Replaced declares edits (key x))
    (apart key declares edits items).1 := by
  induction edits using reverseRecOn with
  | nil =>
    have hall : (items.filter fun x => ¬ Replaced declares [] (key x)) = items :=
      filter_eq_self.2 fun x _ => by simp
    rw [hall]
    exact forall₂_same.2 fun x _ => .inl rfl
  | append_singleton edits x ih =>
    have hih : Forall₂ (Carried key declares (edits ++ [x])) _ _ := ih.imp fun _ _ h => h.append
    rw [apart_append, applyApart]
    cases hx : declares x with
    | some old =>
      have hfilter : (items.filter fun y => ¬ Replaced declares (edits ++ [x]) (key y)) =
          (items.filter fun y => ¬ Replaced declares edits (key y)).filter fun y => key y ≠ old := by
        rw [filter_filter]
        refine filter_congr fun y _ => ?_
        simp [hx, eq_comm, and_comm]
      rw [hfilter]
      exact forall₂_filter hih fun _ _ h => h.key_eq
    | none =>
      have hfilter : (items.filter fun y => ¬ Replaced declares (edits ++ [x]) (key y)) =
          items.filter fun y => ¬ Replaced declares edits (key y) :=
        filter_congr fun y _ => by simp [hx]
      rw [hfilter]
      by_cases hmem : key x ∈ (apart key declares edits items).1.map key
      · simp only [if_pos hmem]
        exact forall₂_overwrite hih hmem fun a b hab hb => .inr ⟨by simp, hx, hb.symm.trans hab.key_eq⟩
      · simp only [if_neg hmem]
        exact hih

/-- Where its key does not clash, an edit that declares a key is behind the items if it survives the later edits. -/
theorem mem_added_iff (hitems : (items.map key).Nodup) (hclash : ¬ ClashAt key declares edits items (key y))
    (hy : declares y ≠ none) : y ∈ (apart key declares edits items).2 ↔ Survives key declares edits y := by
  induction edits using reverseRecOn with
  | nil => simp [apart, Survives]
  | append_singleton edits x ih =>
    rw [apart_append, survives_append, applyApart]
    cases hx : declares x with
    | some old =>
      by_cases ho : old = key y
      · simp [ho, eq_comm]
      · have := ih fun h => hclash (clashAt_append.2 (.inr ⟨by simpa [hx] using ho, h⟩))
        simp [this, ho, eq_comm, or_comm]
    | none =>
      have hbefore : ¬ ClashAt key declares edits items (key y) :=
        fun h => hclash (clashAt_append.2 (.inr ⟨by simp [hx], h⟩))
      have hxy : x ≠ y := by
        rintro rfl
        exact hy hx
      by_cases hk : key x = key y
      · -- The edit takes the place of the only item of the key, which is then no longer `y`.
        have hcount := mt (count_merge hitems (key y)).2.2 hbefore
        rw [merge_eq_append, map_append, List.count_append] at hcount
        refine iff_of_false ?_ (not_or.2 ⟨hxy, fun h => h.2.2 rfl hk⟩)
        dsimp only
        split_ifs with hmem
        · intro hadded
          have hkept := count_pos_iff.2 (hk ▸ hmem)
          have hbehind : key y ∈ (apart key declares edits items).2.map key := mem_map_of_mem hadded
          have := count_pos_iff.2 hbehind
          omega
        · exact not_mem_overwrite hk.symm (Ne.symm hxy) (le_trans (Nat.le_add_left _ _) (not_lt.1 hcount))
      · have := ih hbefore
        split_ifs
        · simp [this, hk, hxy]
        · simp [mem_overwrite_of_ne (Ne.symm hk), this, hk, hxy]

theorem exact_merge_iff {targets : List κ} (hitems : (items.map key).Nodup)
    (htargets : ∀ e ∈ edits, (declares e).getD (key e) ∈ targets) :
    Exact key declares targets edits items (merge key declares edits items) ↔
      (∀ k, ¬ ClashAt key declares edits items k) ∧
        ∀ x ∈ items, Replaced declares edits (key x) →
          ∃! y, Survives key declares edits y ∧ declares y = some (key x) := by
  have hsuccessor (hclash : ∀ k, ¬ ClashAt key declares edits items k) (k : κ) :
      (∃! y, y ∈ (apart key declares edits items).2 ∧ declares y = some k) ↔
        ∃! y, Survives key declares edits y ∧ declares y = some k :=
    existsUnique_congr fun y => and_congr_left fun hy =>
      mem_added_iff hitems (hclash _) (by rw [hy]; exact Option.some_ne_none _)
  constructor
  · intro h
    have hclash := (nodup_merge_iff hitems).1 h.distinct
    obtain ⟨kept, added, heq, -, hcarried, hreplaced⟩ := h.carried
    rw [merge_eq_append] at heq
    obtain ⟨rfl, rfl⟩ := append_inj heq (kept_carried.length_eq.symm.trans hcarried.length_eq)
    exact ⟨hclash, fun x hx hr => (hsuccessor hclash _).1 (hreplaced x hx hr).2⟩
  · rintro ⟨hclash, hreplaced⟩
    refine ⟨(nodup_merge_iff hitems).2 hclash, _, _, merge_eq_append, added_subset, ?_, fun x hx hr => ?_⟩
    · refine kept_carried.imp fun x y h => ⟨h, fun hx => h.resolve_right ?_⟩
      rintro ⟨hy, hnone, hkey⟩
      have := htargets y hy
      rw [hnone, Option.getD_none, hkey] at this
      exact hx this
    · obtain ⟨e, he, hold⟩ := id hr
      have := htargets e he
      rw [hold, Option.getD_some] at this
      exact ⟨this, (hsuccessor hclash _).2 (hreplaced x hx hr)⟩

end Apart

end KeyedMerge

end AiOrg
