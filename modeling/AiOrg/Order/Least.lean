import Mathlib

/-!
# Least elements

The first least element of a list under a key, as a loop that keeps the better of two finds it, and a
trie that keeps entries by their paths and finds the least path by going along first edges.
-/

namespace AiOrg

open List

namespace Selection

section Least

variable {α β : Type*} [LinearOrder β] (key : α → β)

def better (a b : α) : α := if key b < key a then b else a

theorem better_assoc (a b c : α) :
    better key (better key a b) c = better key a (better key b c) := by
  unfold better
  by_cases hba : key b < key a
  · by_cases hcb : key c < key b
    · simp [hba, hcb, hcb.trans hba]
    · simp [hba, hcb]
  · by_cases hcb : key c < key b
    · simp [hba, hcb]
    · have hca : ¬ key c < key a := not_lt.2 ((not_lt.1 hba).trans (not_lt.1 hcb))
      simp [hba, hcb, hca]

def least : List α → Option α
  | [] => none
  | a :: l => some (l.foldl (better key) a)

theorem foldl_better (a b : α) (l : List α) :
    l.foldl (better key) (better key a b) = better key a (l.foldl (better key) b) := by
  induction l generalizing b with
  | nil => rfl
  | cons c l ih => rw [foldl_cons, better_assoc, ih, foldl_cons]

theorem foldl_better_eq (a : α) (l : List α) :
    l.foldl (better key) a = match least key l with
      | none => a
      | some b => better key a b := by
  cases l with
  | nil => rfl
  | cons b l => rw [foldl_cons, foldl_better, least]

theorem least_append_singleton (l : List α) (a : α) :
    least key (l ++ [a]) = some (match least key l with
      | none => a
      | some b => better key b a) := by
  cases l with
  | nil => rfl
  | cons b l => rw [cons_append, least, foldl_append]; rfl

theorem least_map {γ : Type*} (f : γ → α) (l : List γ) :
    least key (l.map f) = (least (key ∘ f) l).map f := by
  induction l using reverseRecOn with
  | nil => rfl
  | append_singleton l a ih =>
    rw [map_append, map_cons, map_nil, least_append_singleton, ih,
      least_append_singleton]
    rcases least (key ∘ f) l with _ | b
    · rfl
    · simp only [Option.map_some, better, Function.comp_apply]
      split_ifs <;> rfl

theorem least_mem {l : List α} {a : α} (h : least key l = some a) : a ∈ l := by
  induction l using reverseRecOn generalizing a with
  | nil => exact absurd h nofun
  | append_singleton l b ih =>
    rw [least_append_singleton] at h
    obtain rfl := Option.some.inj h
    rcases hl : least key l with _ | c
    · simp
    · unfold better
      dsimp only
      split_ifs
      · simp
      · exact mem_append_left _ (ih hl)

theorem least_le {l : List α} {a : α} (h : least key l = some a) : ∀ b ∈ l, key a ≤ key b := by
  induction l using reverseRecOn generalizing a with
  | nil => cases h
  | append_singleton l c ih =>
    rw [least_append_singleton] at h
    obtain rfl := Option.some.inj h
    intro b hb
    rcases hl : least key l with _ | d
    · cases l with
      | nil => rw [mem_singleton.1 hb]
      | cons => cases hl
    · dsimp only
      unfold better
      rcases mem_append.1 hb with hb | hb
      · have hle := ih hl b hb
        split_ifs with hlt
        · exact hlt.le.trans hle
        · exact hle
      · rw [mem_singleton.1 hb]
        split_ifs with hlt
        · exact le_rfl
        · exact not_lt.1 hlt

theorem least_perm {l l' : List α} (h : l.Perm l') (hinj : ∀ a ∈ l, ∀ b ∈ l, key a = key b → a = b) :
    least key l = least key l' := by
  rcases hl : least key l with _ | a
  · cases l with
    | nil => rw [nil_perm.1 h]; rfl
    | cons => cases hl
  rcases hl' : least key l' with _ | b
  · cases l' with
    | nil => rw [perm_nil.1 h] at hl; cases hl
    | cons => cases hl'
  · have ha := least_mem key hl
    have hb := h.mem_iff.2 (least_mem key hl')
    rw [hinj a ha b hb (le_antisymm (least_le key hl b hb) (least_le key hl' a (h.mem_iff.1 ha)))]

theorem least_congr {γ : Type*} [LinearOrder γ] {key' : α → γ} {l : List α}
    (h : ∀ a ∈ l, ∀ b ∈ l, key a < key b ↔ key' a < key' b) : least key l = least key' l := by
  induction l using reverseRecOn with
  | nil => rfl
  | append_singleton l a ih =>
    rw [least_append_singleton, least_append_singleton, ih fun b hb c hc =>
      h b (mem_append_left _ hb) c (mem_append_left _ hc)]
    rcases hl : least key' l with _ | b
    · rfl
    · have hb := mem_append_left [a] (least_mem key' hl)
      simp only [better, h a (by simp) b hb]

end Least

mutual

/-- A trie: where a path ends it holds the value of the path. -/
inductive Trie (κ ν : Type)
  | node (value : Option ν) (edges : Edges κ ν)

/-- The edges of a node in the order of their letters. -/
inductive Edges (κ ν : Type)
  | nil
  | cons (letter : κ) (child : Trie κ ν) (rest : Edges κ ν)

end

variable {κ ν : Type}

def Trie.empty : Trie κ ν := .node none .nil

mutual

def Trie.first : Trie κ ν → Option (List κ × ν)
  | .node (some v) _ => some ([], v)
  | .node none edges => edges.first

def Edges.first : Edges κ ν → Option (List κ × ν)
  | .nil => none
  | .cons letter child _ => child.first.map fun entry => (letter :: entry.1, entry.2)

end

mutual

def Trie.Solid : Trie κ ν → Prop
  | .node _ edges => edges.Solid

def Edges.Solid : Edges κ ν → Prop
  | .nil => True
  | .cons _ child rest => child.first.isSome = true ∧ child.Solid ∧ rest.Solid

end

theorem Edges.first_ne_nil {edges : Edges κ ν} {v : ν} : edges.first ≠ some ([], v) := by
  cases edges with
  | nil => exact nofun
  | cons letter child rest =>
    rw [first]
    rcases child.first with _ | entry <;> simp

variable [LinearOrder κ] [LinearOrder ν]

/-- Change the child at a letter, which is added in its place where it is missing. -/
def Edges.update (letter : κ) (f : Trie κ ν → Trie κ ν) : Edges κ ν → Edges κ ν
  | .nil => .cons letter (f .empty) .nil
  | .cons first child rest =>
    if first < letter then .cons first child (update letter f rest)
    else if first = letter then .cons first (f child) rest
    else .cons letter (f .empty) (.cons first child rest)

/-- Put a value at a path, where the least one is kept. -/
def Trie.insert : List κ → ν → Trie κ ν → Trie κ ν
  | [], v, .node none edges => .node (some v) edges
  | [], v, .node (some old) edges => .node (some (if v < old then v else old)) edges
  | letter :: path, v, .node value edges => .node value (edges.update letter (insert path v))

def entryKey (entry : List κ × ν) : List κ ×ₗ ν := toLex entry

theorem entryKey_lt {p q : List κ} {v w : ν} :
    entryKey (p, v) < entryKey (q, w) ↔ p < q ∨ p = q ∧ v < w :=
  Prod.Lex.toLex_lt_toLex

/-- A change of tries that puts an entry in. -/
def Puts (f : Trie κ ν → Trie κ ν) (path : List κ) (v : ν) : Prop :=
  ∀ t : Trie κ ν, t.Solid → (f t).Solid ∧ (f t).first = some (match t.first with
    | none => (path, v)
    | some entry => better entryKey entry (path, v))

section Puts

variable {f : Trie κ ν → Trie κ ν} {path : List κ} {v : ν}

theorem Puts.first_empty (hf : Puts f path v) : (f .empty).first = some (path, v) :=
  (hf .empty trivial).2

theorem Puts.isSome (hf : Puts f path v) {t : Trie κ ν} (h : t.Solid) :
    (f t).first.isSome = true := by
  rw [(hf t h).2]
  rfl

theorem Edges.solid_update (hf : Puts f path v) (letter : κ) :
    ∀ {edges : Edges κ ν}, edges.Solid → (edges.update letter f).Solid
  | .nil, _ => ⟨hf.isSome trivial, (hf .empty trivial).1, trivial⟩
  | .cons first child rest, ⟨hchild, hsolid, hrest⟩ => by
    rw [update]
    split_ifs
    · exact ⟨hchild, hsolid, solid_update hf letter hrest⟩
    · exact ⟨hf.isSome hsolid, (hf child hsolid).1, hrest⟩
    · exact ⟨hf.isSome trivial, (hf .empty trivial).1, hchild, hsolid, hrest⟩

theorem Edges.first_update (hf : Puts f path v) (letter : κ) {edges : Edges κ ν}
    (h : edges.Solid) : (edges.update letter f).first = some (match edges.first with
      | none => (letter :: path, v)
      | some entry => better entryKey entry (letter :: path, v)) := by
  cases edges with
  | nil =>
    rw [update, first, first, hf.first_empty]
    rfl
  | cons other child rest =>
    obtain ⟨hchild, hsolid, -⟩ := h
    obtain ⟨⟨q, w⟩, hq⟩ := Option.isSome_iff_exists.1 hchild
    rw [update]
    rcases lt_trichotomy other letter with hlt | rfl | hgt
    · have hless : ¬ entryKey (letter :: path, v) < entryKey (other :: q, w) := by
        simp [entryKey_lt, cons_lt_cons_iff, hlt.not_gt, hlt.ne']
      rw [if_pos hlt, first, first, hq]
      exact congrArg some (if_neg hless).symm
    · rw [if_neg (lt_irrefl other), if_pos rfl]
      simp only [first, hq, (hf child hsolid).2, Option.map_some]
      congr 1
      simp only [better, entryKey_lt, cons_lt_cons_iff, lt_irrefl, true_and, false_or,
        List.cons.injEq]
      split_ifs <;> rfl
    · have hless : entryKey (letter :: path, v) < entryKey (other :: q, w) := by
        simp [entryKey_lt, cons_lt_cons_iff, hgt]
      rw [if_neg hgt.not_gt, if_neg hgt.ne', first, first, hq, hf.first_empty]
      exact congrArg some (if_pos hless).symm

end Puts

theorem Trie.puts_insert : ∀ (path : List κ) (v : ν), Puts (insert path v) path v
  | [], v, .node none edges, h => by
    refine ⟨h, ?_⟩
    rw [insert, first, first]
    rcases hfirst : edges.first with _ | ⟨_ | ⟨letter, path⟩, w⟩
    · rfl
    · exact absurd hfirst Edges.first_ne_nil
    · simp [better, entryKey_lt]
  | [], v, .node (some old) edges, h => by
    refine ⟨h, ?_⟩
    rw [insert, first, first]
    simp only [better, entryKey_lt, lt_irrefl, true_and, false_or]
    split_ifs <;> rfl
  | letter :: path, v, .node none edges, h =>
    ⟨Edges.solid_update (puts_insert path v) letter h,
      Edges.first_update (puts_insert path v) letter h⟩
  | letter :: path, v, .node (some old) edges, h => by
    refine ⟨Edges.solid_update (puts_insert path v) letter h, ?_⟩
    rw [insert, first, first]
    simp [better, entryKey_lt]

theorem Trie.first_insert (path : List κ) (v : ν) {t : Trie κ ν} (h : t.Solid) :
    (t.insert path v).first = some (match t.first with
      | none => (path, v)
      | some entry => better entryKey entry (path, v)) :=
  (puts_insert path v t h).2

def Trie.ofList (entries : List (List κ × ν)) : Trie κ ν :=
  entries.foldl (fun t entry => t.insert entry.1 entry.2) .empty

theorem Trie.first_ofList (entries : List (List κ × ν)) :
    (ofList entries).Solid ∧ (ofList entries).first = least entryKey entries := by
  induction entries using reverseRecOn with
  | nil => exact ⟨trivial, rfl⟩
  | append_singleton entries entry ih =>
    have hinsert : ofList (entries ++ [entry]) = (ofList entries).insert entry.1 entry.2 := by
      unfold ofList
      rw [foldl_append]
      rfl
    rw [hinsert]
    refine ⟨(puts_insert entry.1 entry.2 _ ih.1).1, ?_⟩
    rw [first_insert _ _ ih.1, ih.2, least_append_singleton]
    rcases least entryKey entries with _ | best <;> rfl

end Selection

end AiOrg
