import Mathlib

/-!
# Commits

A commit is its content: a tree, its parents in order and a message, so two commits with one content
are one object. Ancestry is decidable by listing what a commit can reach.
-/

namespace AiOrg

open List

namespace Git

inductive Commit (τ : Type) where
  | mk (tree : τ) (parents : List (Commit τ)) (message : String)

namespace Commit

variable {τ : Type}

def tree : Commit τ → τ
  | .mk tree _ _ => tree

def parents : Commit τ → List (Commit τ)
  | .mk _ parents _ => parents

def message : Commit τ → String
  | .mk _ _ message => message

mutual

def decEq [DecidableEq τ] : (a b : Commit τ) → Decidable (a = b)
  | .mk s ps m, .mk t qs n =>
    match decEqList ps qs with
    | isTrue hparents =>
      decidable_of_iff (s = t ∧ m = n) (by simp [hparents])
    | isFalse h => isFalse fun e => h (Commit.mk.inj e).2.1

/-- `decEq` on parents. -/
def decEqList [DecidableEq τ] : (ps qs : List (Commit τ)) → Decidable (ps = qs)
  | [], [] => isTrue rfl
  | [], _ :: _ => isFalse nofun
  | _ :: _, [] => isFalse nofun
  | p :: ps, q :: qs =>
    match decEq p q, decEqList ps qs with
    | isTrue h, isTrue h' => isTrue (by rw [h, h'])
    | isFalse h, _ => isFalse fun e => h (List.cons.inj e).1
    | _, isFalse h => isFalse fun e => h (List.cons.inj e).2

end

instance [DecidableEq τ] : DecidableEq (Commit τ) := decEq

mutual

/-- The commits a commit can reach, itself first. -/
def history : Commit τ → List (Commit τ)
  | .mk tree parents message => .mk tree parents message :: historyList parents

def historyList : List (Commit τ) → List (Commit τ)
  | [] => []
  | p :: ps => history p ++ historyList ps

end

/-- `git merge-base --is-ancestor`: a commit is its own ancestor. -/
def IsAncestor (a b : Commit τ) : Prop := a ∈ b.history

instance [DecidableEq τ] (a b : Commit τ) : Decidable (IsAncestor a b) :=
  inferInstanceAs (Decidable (a ∈ b.history))

theorem mem_historyList {a : Commit τ} : ∀ {ps : List (Commit τ)},
    a ∈ historyList ps ↔ ∃ p ∈ ps, IsAncestor a p
  | [] => by simp [historyList]
  | p :: ps => by
    rw [historyList, mem_append, mem_historyList, exists_mem_cons_iff]
    rfl

theorem isAncestor_iff {a b : Commit τ} :
    IsAncestor a b ↔ a = b ∨ ∃ p ∈ b.parents, IsAncestor a p := by
  obtain ⟨tree, parents, message⟩ := b
  unfold IsAncestor
  rw [history, mem_cons, mem_historyList]
  rfl

@[refl] theorem IsAncestor.refl (a : Commit τ) : IsAncestor a a := isAncestor_iff.2 (Or.inl rfl)

theorem IsAncestor.of_parent {a p b : Commit τ} (hp : p ∈ b.parents) (h : IsAncestor a p) :
    IsAncestor a b := isAncestor_iff.2 (Or.inr ⟨p, hp, h⟩)

theorem sizeOf_parent {p c : Commit τ} (h : p ∈ c.parents) : sizeOf p < sizeOf c := by
  obtain ⟨tree, parents, message⟩ := c
  have hlt := sizeOf_lt_of_mem (show p ∈ parents from h)
  simp only [Commit.mk.sizeOf_spec]
  omega

theorem parents_induction {P : Commit τ → Prop} (step : ∀ c, (∀ p ∈ c.parents, P p) → P c)
    (c : Commit τ) : P c :=
  step c fun p _ => parents_induction step p
termination_by sizeOf c
decreasing_by exact sizeOf_parent ‹_›

theorem IsAncestor.trans {a b c : Commit τ} (hab : IsAncestor a b) (hbc : IsAncestor b c) :
    IsAncestor a c := by
  induction c using parents_induction with
  | step c ih =>
    rcases isAncestor_iff.1 hbc with rfl | ⟨p, hp, hbp⟩
    · exact hab
    · exact .of_parent hp (ih p hp hbp)

theorem IsAncestor.sizeOf_le {a b : Commit τ} (h : IsAncestor a b) : sizeOf a ≤ sizeOf b := by
  induction b using parents_induction with
  | step b ih =>
    rcases isAncestor_iff.1 h with rfl | ⟨p, hp, hap⟩
    · exact le_rfl
    · exact (ih p hp hap).trans (sizeOf_parent hp).le

theorem IsAncestor.antisymm {a b : Commit τ} (hab : IsAncestor a b) (hba : IsAncestor b a) : a = b := by
  rcases isAncestor_iff.1 hab with rfl | ⟨p, hp, hap⟩
  · rfl
  · have hlt := sizeOf_parent hp
    have hle := hap.sizeOf_le
    have hle' := hba.sizeOf_le
    omega

end Commit

end Git

end AiOrg

/-!
## Subjects of commits

What `git log --format=%s` prints of a commit made with a text as its message.
-/

namespace AiOrg

open List

namespace Git

/-- `isspace` of git. -/
def isSpace (c : Char) : Bool := c == ' ' || c == '\t' || c == '\n' || c == '\r'

/-- The lines of the first paragraph without the space behind them, joined by spaces. -/
def subject (message : String) : String :=
  let lines := (message.toList.splitOnP (· == '\n')).map (List.rdropWhile isSpace)
  String.ofList ([' '].intercalate ((lines.dropWhile List.isEmpty).takeWhile (!·.isEmpty)))

theorem splitOnP_append_of_forall {α : Type} {p : α → Bool} {front : List α} (h : ∀ a ∈ front, p a = false)
    (rest : List α) : (front ++ rest).splitOnP p = (rest.splitOnP p).modifyHead (front ++ ·) := by
  induction front with
  | nil =>
    obtain ⟨first, others, hsplit⟩ := exists_cons_of_ne_nil (splitOnP_ne_nil p rest)
    rw [nil_append, hsplit]
    rfl
  | cons a front ih =>
    have ha := h a mem_cons_self
    rw [cons_append, splitOnP_cons_eq_if_modifyHead, ha,
      ih fun b hb => h b (mem_cons_of_mem a hb)]
    obtain ⟨first, others, hsplit⟩ := exists_cons_of_ne_nil (splitOnP_ne_nil p rest)
    rw [hsplit]
    rfl

theorem append_rdropWhile {front rest : List Char} (h : ∃ init c, front = init ++ [c] ∧ isSpace c = false) :
    front <+: (front ++ rest).rdropWhile isSpace := by
  obtain ⟨init, c, rfl, hc⟩ := h
  rw [List.rdropWhile, reverse_append, reverse_append, reverse_singleton]
  induction rest.reverse with
  | nil =>
    rw [nil_append, singleton_append, dropWhile_cons_of_neg (by rw [hc]; exact Bool.false_ne_true)]
    simp
  | cons a as ih =>
    rw [cons_append, dropWhile_cons]
    split_ifs
    · exact ih
    · refine ⟨(a :: as).reverse, ?_⟩
      simp

theorem prefix_subject {front : List Char} (rest : List Char) (hline : ∀ c ∈ front, c ≠ '\n')
    (hlast : ∃ init c, front = init ++ [c] ∧ isSpace c = false) :
    front <+: (subject (String.ofList (front ++ rest))).toList := by
  have hne : front ≠ [] := by
    obtain ⟨init, c, rfl, -⟩ := hlast
    exact append_ne_nil_of_right_ne_nil init (cons_ne_nil c [])
  obtain ⟨first, others, hsplit⟩ := exists_cons_of_ne_nil (splitOnP_ne_nil (· == '\n') rest)
  have hfirst := @append_rdropWhile front first hlast
  have hkept : ((front ++ first).rdropWhile isSpace).isEmpty = false := by
    rw [isEmpty_eq_false_iff]
    intro hnil
    rw [hnil, prefix_nil] at hfirst
    exact hne hfirst
  simp only [subject, String.toList_ofList]
  rw [splitOnP_append_of_forall (by simpa using hline), hsplit, modifyHead_cons, map_cons,
    dropWhile_cons, hkept, if_neg Bool.false_ne_true, takeWhile_cons, hkept]
  refine hfirst.trans ?_
  cases (others.map (List.rdropWhile isSpace)).takeWhile (!·.isEmpty) with
  | nil => simp
  | cons next more => simp [intercalate_cons_cons]

end Git

end AiOrg
