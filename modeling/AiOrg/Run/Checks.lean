import AiOrg.Run.Traverse

/-!
# Checks in order

A check raises at the first thing that is wrong. `collect` is a loop that reads a list and may compare each
element with those before it; where one read is known, so is the loop (`collect_eq_ok_iff`): every element
is read and any two of them are apart.
-/

namespace AiOrg

open List

namespace Checks

variable {ε α β : Type}

/-- Raise unless a condition holds. -/
def require (condition : Prop) [Decidable condition] (error : ε) : Except ε Unit :=
  if condition then .ok () else .error error

def each (check : α → Except ε Unit) : List α → Except ε Unit
  | [] => .ok ()
  | x :: xs => check x >>= fun _ => each check xs

/-- Read the elements of a list, with those read before, the last one first, and the position. -/
def collect (read : List β → ℕ → α → Except ε β) : List β → ℕ → List α → Except ε (List β)
  | _, _, [] => .ok []
  | seen, index, x :: xs =>
    read seen index x >>= fun y => (collect read (y :: seen) (index + 1) xs).map (y :: ·)

theorem bind_eq_ok_iff {x : Except ε α} {f : α → Except ε β} {b : β} :
    (x >>= f) = .ok b ↔ ∃ a, x = .ok a ∧ f a = .ok b := by
  cases x <;> simp [bind, Except.bind]

theorem map_eq_ok_iff {x : Except ε α} {f : α → β} {b : β} :
    x.map f = .ok b ↔ ∃ a, x = .ok a ∧ f a = b := by
  cases x <;> simp [Except.map]

theorem require_eq_ok_iff {condition : Prop} [Decidable condition] {error : ε} {u : Unit} :
    require condition error = .ok u ↔ condition := by
  rw [require]
  split_ifs with h <;> simp [h]

theorem require_bind_eq_ok_iff {condition : Prop} [Decidable condition] {error : ε}
    {f : Unit → Except ε α} {a : α} :
    (require condition error >>= f) = .ok a ↔ condition ∧ f () = .ok a := by
  rw [bind_eq_ok_iff]
  constructor
  · rintro ⟨u, hu, ha⟩
    exact ⟨require_eq_ok_iff.1 hu, ha⟩
  · rintro ⟨h, ha⟩
    exact ⟨(), require_eq_ok_iff.2 h, ha⟩

theorem each_eq_ok_iff {check : α → Except ε Unit} {xs : List α} {u : Unit} :
    each check xs = .ok u ↔ ∀ x ∈ xs, check x = .ok () := by
  induction xs with
  | nil => simp [each]
  | cons x xs ih =>
    rw [each, bind_eq_ok_iff, forall_mem_cons]
    constructor
    · rintro ⟨⟨⟩, hx, hxs⟩
      exact ⟨hx, ih.1 hxs⟩
    · rintro ⟨hx, hxs⟩
      exact ⟨(), hx, ih.2 hxs⟩

/-- A loop reads every element, and any two of them are apart. -/
theorem collect_eq_ok_iff {read : List β → ℕ → α → Except ε β} {Reads : α → β → Prop}
    {Apart : β → β → Prop} (hread : ∀ seen index x y, read seen index x = .ok y ↔
      Reads x y ∧ ∀ z ∈ seen, Apart z y) {seen : List β} {index : ℕ} {xs : List α} {ys : List β} :
    collect read seen index xs = .ok ys ↔
      Forall₂ Reads xs ys ∧ ys.Pairwise Apart ∧ ∀ z ∈ seen, ∀ y ∈ ys, Apart z y := by
  induction xs generalizing seen index ys with
  | nil =>
    rw [collect]
    cases ys <;> simp
  | cons x xs ih =>
    rw [collect, bind_eq_ok_iff]
    constructor
    · rintro ⟨y, hy, hys⟩
      obtain ⟨tail, htail, rfl⟩ := map_eq_ok_iff.1 hys
      obtain ⟨hreads, hseen⟩ := (hread _ _ _ _).1 hy
      obtain ⟨hall, hpairs, hapart⟩ := ih.1 htail
      refine ⟨.cons hreads hall, pairwise_cons.2 ⟨hapart y mem_cons_self, hpairs⟩, ?_⟩
      intro z hz
      exact forall_mem_cons.2 ⟨hseen z hz, hapart z (mem_cons_of_mem y hz)⟩
    · rintro ⟨hall, hpairs, hapart⟩
      cases hall with
      | @cons _ y _ ys hreads hall =>
        obtain ⟨hy, hpairs⟩ := pairwise_cons.1 hpairs
        refine ⟨y, (hread _ _ _ _).2 ⟨hreads, fun z hz => hapart z hz y mem_cons_self⟩, ?_⟩
        refine map_eq_ok_iff.2 ⟨ys, ih.2 ⟨hall, hpairs, ?_⟩, rfl⟩
        refine forall_mem_cons.2 ⟨hy, fun z hz z' hz' => hapart z hz z' (mem_cons_of_mem y hz')⟩

theorem collect_nil_eq_ok_iff {read : List β → ℕ → α → Except ε β} {Reads : α → β → Prop}
    {Apart : β → β → Prop} (hread : ∀ seen index x y, read seen index x = .ok y ↔
      Reads x y ∧ ∀ z ∈ seen, Apart z y) {xs : List α} {ys : List β} :
    collect read [] 0 xs = .ok ys ↔ Forall₂ Reads xs ys ∧ ys.Pairwise Apart := by
  rw [collect_eq_ok_iff hread]
  simp

end Checks

end AiOrg

/-!
## What checks raise

`Raises P x` says that whatever `x` raises is a `P`. It goes through a sequence of checks step by step, and a loop
raises only what one of its reads raises, after reads that succeed (`Raises.collect_iff`).
-/

namespace AiOrg

open List

namespace Checks

variable {ε α β : Type}

def Raises (P : ε → Prop) (x : Except ε α) : Prop := ∀ e, x = .error e → P e

variable {P : ε → Prop}

@[simp] theorem raises_ok {a : α} : Raises P (.ok a : Except ε α) := fun _ h => by cases h

@[simp] theorem raises_pure {a : α} : Raises P (pure a : Except ε α) := raises_ok

@[simp] theorem raises_error {e : ε} : Raises P (.error e : Except ε α) ↔ P e :=
  ⟨fun h => h e rfl, fun he e' h => by cases h; exact he⟩

theorem raises_bind_iff {x : Except ε α} {f : α → Except ε β} :
    Raises P (x >>= f) ↔ Raises P x ∧ ∀ a, x = .ok a → Raises P (f a) := by
  cases x with
  | error e => simp [bind, Except.bind]
  | ok a => simp [bind, Except.bind]

theorem Raises.bind {x : Except ε α} {f : α → Except ε β} (hx : Raises P x) (hf : ∀ a, x = .ok a → Raises P (f a)) :
    Raises P (x >>= f) :=
  raises_bind_iff.2 ⟨hx, hf⟩

theorem raises_map_iff {x : Except ε α} {f : α → β} : Raises P (x.map f) ↔ Raises P x := by
  cases x <;> simp [Except.map]

theorem raises_require {condition : Prop} [Decidable condition] {e : ε} (he : P e) :
    Raises P (require condition e) := by
  rw [require]
  split_ifs <;> simp [he]

theorem raises_collect_iff {read : List β → ℕ → α → Except ε β} {seen : List β} {index : ℕ} {xs : List α} :
    Raises P (collect read seen index xs) ↔ ∀ front x rest, xs = front ++ x :: rest →
      ∀ ys, collect read seen index front = .ok ys → Raises P (read (ys.reverse ++ seen) (index + front.length) x) := by
  induction xs generalizing seen index with
  | nil => simp [collect]
  | cons x xs ih =>
    rw [collect, raises_bind_iff]
    simp only [raises_map_iff, ih]
    constructor
    · rintro ⟨hx, hxs⟩ front z rest heq ys hys
      cases front with
      | nil =>
        obtain ⟨rfl, rfl⟩ := List.cons.inj heq
        obtain rfl : ys = [] := by simpa [collect] using hys.symm
        exact hx
      | cons w front =>
        obtain ⟨rfl, rfl⟩ := List.cons.inj heq
        rw [collect, bind_eq_ok_iff] at hys
        obtain ⟨y, hy, hys⟩ := hys
        obtain ⟨tail, htail, rfl⟩ := map_eq_ok_iff.1 hys
        have h := hxs y hy front z rest rfl tail htail
        rw [reverse_cons, append_assoc, length_cons, Nat.add_comm front.length, ← Nat.add_assoc]
        exact h
    · intro h
      refine ⟨h [] x xs rfl [] rfl, ?_⟩
      intro y hy front z rest heq tail htail
      have hys : collect read seen index (x :: front) = .ok (y :: tail) := by
        rw [collect, hy]
        exact map_eq_ok_iff.2 ⟨tail, htail, rfl⟩
      have h' := h (x :: front) z rest (by rw [heq, cons_append]) (y :: tail) hys
      rw [reverse_cons, append_assoc, length_cons, Nat.add_comm front.length, ← Nat.add_assoc] at h'
      exact h'

theorem raises_collect {read : List β → ℕ → α → Except ε β} (h : ∀ seen index x, Raises P (read seen index x))
    {seen : List β} {index : ℕ} {xs : List α} : Raises P (collect read seen index xs) :=
  raises_collect_iff.2 fun _ _ _ _ _ _ => h _ _ _

end Checks

end AiOrg
