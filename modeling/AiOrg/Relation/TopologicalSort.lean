import AiOrg.Relation.Closed

/-!
# Topological sort

A queue holds the points of which no predecessor is left. The first one is taken, its successors lose one predecessor
each, and the queue is arranged again after each push. Pairs may repeat. The points taken are those that no cycle
reaches, each after its predecessors (`kahn_spec`).
-/

namespace AiOrg

open Relation List

namespace TopologicalSort

variable {α : Type*}

/-- One point stands before another in a list. -/
def Precedes (order : List α) (a b : α) : Prop := ∃ before after, order = before ++ b :: after ∧ a ∈ before

theorem Precedes.append {order : List α} {a b : α} (h : Precedes order a b) (more : List α) :
    Precedes (order ++ more) a b := by
  obtain ⟨before, after, rfl, ha⟩ := h
  exact ⟨before, after ++ more, by simp, ha⟩

theorem Precedes.mem {order : List α} {a b : α} (h : Precedes order a b) : a ∈ order := by
  obtain ⟨before, after, rfl, ha⟩ := h
  exact mem_append_left _ ha

theorem not_precedes_self {order : List α} (h : order.Nodup) (a : α) : ¬ Precedes order a a := by
  rintro ⟨before, after, rfl, ha⟩
  exact (nodup_append.1 h).2.2 a ha a mem_cons_self rfl

theorem Precedes.trans {order : List α} {a b c : α} (hab : Precedes order a b) (hnodup : order.Nodup)
    (hbc : Precedes order b c) : Precedes order a c := by
  obtain ⟨front, back, hfront, ha⟩ := hab
  obtain ⟨front', back', rfl, hb⟩ := hbc
  obtain ⟨first, second, rfl⟩ := append_of_mem hb
  rw [append_assoc, cons_append] at hfront hnodup
  have hbefore : b ∉ first := fun hmem => (nodup_append.1 hnodup).2.2 b hmem b mem_cons_self rfl
  have hafter := (nodup_cons.1 (nodup_append.1 hnodup).2.1).1
  obtain ⟨rfl, -, -⟩ := (append_cons_inj_of_notMem hbefore hafter).1 hfront
  exact ⟨first ++ b :: second, back', by simp, mem_append_left _ ha⟩

/-- A cycle leads to a point. -/
def OnCycle (r : α → α → Prop) (x : α) : Prop := ∃ c, TransGen r c c ∧ ReflTransGen r c x

variable [DecidableEq α] (arrange : List α → List α) (outgoing : α → List α)

/-- A successor of the point taken loses a predecessor, and joins the queue with its last one. -/
def release (s : (α → ℤ) × List α) (dependent : α) : (α → ℤ) × List α :=
  let incoming := Function.update s.1 dependent (s.1 dependent - 1)
  if incoming dependent = 0 then (incoming, arrange (s.2 ++ [dependent])) else (incoming, s.2)

/-- The points in the order in which they are taken, `none` where the fuel does not suffice. -/
def kahn : ℕ → (α → ℤ) → List α → List α → Option (List α)
  | _, _, [], ordered => some ordered
  | 0, _, _ :: _, _ => none
  | fuel + 1, incoming, key :: ready, ordered =>
    let released := (outgoing key).foldl (release arrange) (incoming, ready)
    kahn fuel released.1 released.2 (ordered ++ [key])

/-! ### One point taken -/

variable {arrange outgoing} {incoming : α → ℤ} {ready ordered nodes : List α} {pairs : List (α × α)}

theorem release_zero (h : incoming a = 1) :
    release arrange (incoming, ready) a = (Function.update incoming a 0, arrange (ready ++ [a])) := by
  simp [release, h]

theorem release_ne_zero (h : incoming a ≠ 1) :
    release arrange (incoming, ready) a = (Function.update incoming a (incoming a - 1), ready) := by
  have hne : incoming a - 1 ≠ 0 := by omega
  simp [release, hne]

/-- Each successor loses as many predecessors as it is named, and those that have no other join the queue. -/
theorem foldl_release (harrange : ∀ l, (arrange l).Perm l) {deps : List α} (hcount : ∀ k, deps.count k ≤ incoming k)
    (hnodup : ready.Nodup) (hready : ∀ k ∈ ready, incoming k = 0) :
    (deps.foldl (release arrange) (incoming, ready)).1 = (fun k => incoming k - deps.count k) ∧
      (deps.foldl (release arrange) (incoming, ready)).2.Nodup ∧
      ∀ k, k ∈ (deps.foldl (release arrange) (incoming, ready)).2 ↔ k ∈ ready ∨ k ∈ deps ∧ incoming k = deps.count k := by
  induction deps generalizing incoming ready with
  | nil => simpa using hnodup
  | cons dep deps ih =>
    have hself := hcount dep
    rw [count_cons_self] at hself
    have hdown : ∀ k, (deps.count k : ℤ) ≤ Function.update incoming dep (incoming dep - 1) k := by
      intro k
      by_cases hk : k = dep
      · rw [hk, Function.update_self]
        omega
      · rw [Function.update_of_ne hk]
        have hother := hcount k
        rwa [count_cons_of_ne (Ne.symm hk)] at hother
    rw [foldl_cons]
    by_cases hone : incoming dep = 1
    · rw [release_zero hone]
      rw [hone, sub_self] at hdown
      have hgone : dep ∉ deps := by
        rw [← count_eq_zero]
        omega
      have hnew : dep ∉ ready := fun hmem => by
        have := hready dep hmem
        omega
      have hnodup' : (arrange (ready ++ [dep])).Nodup :=
        (harrange _).nodup_iff.2 (hnodup.append (nodup_singleton dep) (by simpa using hnew))
      have hready' : ∀ k ∈ arrange (ready ++ [dep]), Function.update incoming dep 0 k = 0 := by
        intro k hk
        by_cases hkd : k = dep
        · rw [hkd, Function.update_self]
        · rw [Function.update_of_ne hkd]
          refine hready k ?_
          simpa [hkd] using (harrange _).mem_iff.1 hk
      obtain ⟨hincoming, hqueue, hmem⟩ := ih hdown hnodup' hready'
      refine ⟨?_, hqueue, fun k => ?_⟩
      · rw [hincoming]
        funext k
        by_cases hk : k = dep
        · rw [hk, Function.update_self, count_cons_self, count_eq_zero.2 hgone, hone]
          rfl
        · rw [Function.update_of_ne hk, count_cons_of_ne (Ne.symm hk)]
      · rw [hmem, (harrange _).mem_iff, mem_append, mem_singleton]
        by_cases hk : k = dep
        · rw [hk, count_cons_self, count_eq_zero.2 hgone, hone]
          simp
        · rw [Function.update_of_ne hk, count_cons_of_ne (Ne.symm hk), mem_cons]
          simp [hk]
    · rw [release_ne_zero hone]
      have hready' : ∀ k ∈ ready, Function.update incoming dep (incoming dep - 1) k = 0 := by
        intro k hk
        have hzero := hready k hk
        rw [Function.update_of_ne, hzero]
        rintro rfl
        omega
      obtain ⟨hincoming, hqueue, hmem⟩ := ih hdown hnodup hready'
      refine ⟨?_, hqueue, fun k => ?_⟩
      · rw [hincoming]
        funext k
        by_cases hk : k = dep
        · rw [hk, Function.update_self, count_cons_self]
          push_cast
          omega
        · rw [Function.update_of_ne hk, count_cons_of_ne (Ne.symm hk)]
      · rw [hmem, mem_cons]
        by_cases hk : k = dep
        · rw [hk, Function.update_self, count_cons_self]
          refine or_congr_right ⟨fun h => ⟨.inl rfl, by push_cast; omega⟩, fun h => ⟨?_, by have := h.2; push_cast at this; omega⟩⟩
          -- the last predecessor is not this one, so the point is named again
          by_contra hgone
          have hlast := h.2
          rw [count_eq_zero.2 hgone] at hlast
          exact hone (by simpa using hlast)
        · rw [Function.update_of_ne hk, count_cons_of_ne (Ne.symm hk)]
          simp [hk]

def waiting (pairs : List (α × α)) (ordered : List α) (k : α) : ℕ :=
  pairs.countP fun pair => pair.2 = k ∧ pair.1 ∉ ordered

theorem waiting_eq_zero {k : α} : waiting pairs ordered k = 0 ↔ ∀ a, (a, k) ∈ pairs → a ∈ ordered := by
  rw [waiting, countP_eq_zero]
  constructor
  · intro h a ha
    simpa using h (a, k) ha
  · rintro h ⟨a, b⟩ hmem
    simp only [decide_eq_true_eq, not_and, not_not]
    rintro rfl
    exact h a hmem

theorem waiting_concat {key : α} (hkey : key ∉ ordered) (k : α) :
    waiting pairs ordered k = waiting pairs (ordered ++ [key]) k +
      ((pairs.filter fun pair => pair.1 = key).map Prod.snd).count k := by
  induction pairs with
  | nil => rfl
  | cons pair pairs ih =>
    obtain ⟨a, b⟩ := pair
    unfold waiting at ih ⊢
    rw [countP_cons, countP_cons, filter_cons, ih]
    by_cases ha : a = key
    · subst ha
      by_cases hb : b = k <;> simp [hb, hkey]
      omega
    · by_cases hb : b = k <;> simp [hb, ha]
      omega

/-- Where the run stands. -/
structure Queue (pairs : List (α × α)) (nodes : List α) (incoming : α → ℤ) (ready ordered : List α) : Prop where
  nodup : (ordered ++ ready).Nodup
  mem : ∀ k, k ∈ ordered ++ ready ↔ k ∈ nodes ∧ incoming k = 0
  count : ∀ k, incoming k = waiting pairs ordered k
  precedes : ∀ a b, (a, b) ∈ pairs → b ∈ ordered → Precedes ordered a b

variable (harrange : ∀ l, (arrange l).Perm l)
  (houtgoing : ∀ k, (outgoing k).Perm ((pairs.filter fun pair => pair.1 = k).map Prod.snd))
  (hnodes : ∀ a b, (a, b) ∈ pairs → b ∈ nodes)

include harrange houtgoing hnodes in
theorem Queue.take {key : α} (h : Queue pairs nodes incoming (key :: ready) ordered) :
    Queue pairs nodes ((outgoing key).foldl (release arrange) (incoming, ready)).1
      ((outgoing key).foldl (release arrange) (incoming, ready)).2 (ordered ++ [key]) := by
  have hnodup := h.nodup
  rw [append_cons] at hnodup
  have hkey : key ∉ ordered := fun hmem =>
    (nodup_append.1 h.nodup).2.2 key hmem key mem_cons_self rfl
  have hcounts : ∀ k, incoming k = waiting pairs (ordered ++ [key]) k + (outgoing key).count k := fun k => by
    rw [h.count, waiting_concat hkey, (houtgoing key).count_eq]
    push_cast
    rfl
  have hzero : ∀ k ∈ ordered ++ key :: ready, incoming k = 0 := fun k hk => ((h.mem k).1 hk).2
  have hle : ∀ k, ((outgoing key).count k : ℤ) ≤ incoming k := fun k => by
    rw [hcounts k]
    omega
  obtain ⟨hincoming, hqueue, hmem⟩ := foldl_release harrange hle
    (hnodup.sublist (sublist_append_right _ _)) fun k hk =>
    hzero k (mem_append_right _ (mem_cons_of_mem _ hk))
  have hnamed : ∀ k ∈ outgoing key, k ∈ nodes := fun k hk => by
    obtain ⟨⟨a, b⟩, hpair, rfl⟩ := mem_map.1 ((houtgoing key).mem_iff.1 hk)
    exact hnodes a b (mem_filter.1 hpair).1
  refine ⟨?_, fun k => ?_, fun k => ?_, fun a b hpair hb => ?_⟩
  · refine nodup_append.2 ⟨(nodup_append.1 hnodup).1, hqueue, ?_⟩
    rintro k hk _ hk' rfl
    rcases (hmem k).1 hk' with hold | ⟨hdep, hlast⟩
    · exact (nodup_append.1 hnodup).2.2 k hk k hold rfl
    · have hpos := count_pos_iff.2 hdep
      have hnone := hzero k (by simp only [mem_append, mem_cons, not_mem_nil, or_false] at hk ⊢; tauto)
      omega
  · have hthis := hcounts k
    have hold := h.mem k
    rw [hincoming, mem_append, hmem]
    rw [append_cons, mem_append] at hold
    dsimp only
    constructor
    · rintro (hk | hk | ⟨hdep, hlast⟩)
      · obtain ⟨hnode, hnone⟩ := hold.1 (.inl hk)
        exact ⟨hnode, by omega⟩
      · obtain ⟨hnode, hnone⟩ := hold.1 (.inr hk)
        exact ⟨hnode, by omega⟩
      · exact ⟨hnamed k hdep, by omega⟩
    · rintro ⟨hnode, hnone⟩
      by_cases hdep : k ∈ outgoing key
      · exact .inr (.inr ⟨hdep, by omega⟩)
      · rw [count_eq_zero.2 hdep] at hnone
        exact (hold.2 ⟨hnode, by simpa using hnone⟩).imp_right .inl
  · rw [hincoming]
    dsimp only
    rw [hcounts k]
    omega
  · rcases mem_append.1 hb with hb | hb
    · exact (h.precedes a b hpair hb).append _
    · obtain rfl := mem_singleton.1 hb
      have hnone := hzero b (mem_append_right _ mem_cons_self)
      rw [h.count, Nat.cast_eq_zero, waiting_eq_zero] at hnone
      exact ⟨ordered, [], rfl, hnone a hpair⟩

include harrange houtgoing hnodes in
theorem Queue.run {fuel : ℕ} (h : Queue pairs nodes incoming ready ordered) (hfuel : nodes.length ≤ ordered.length + fuel) :
    ∃ order incoming', kahn arrange outgoing fuel incoming ready ordered = some order ∧
      Queue pairs nodes incoming' [] order := by
  induction fuel generalizing incoming ready ordered with
  | zero =>
    cases ready with
    | nil => exact ⟨ordered, incoming, by rw [kahn], h⟩
    | cons key ready =>
      have hsub : (ordered ++ key :: ready) ⊆ nodes := fun k hk => ((h.mem k).1 hk).1
      have hle := (subperm_of_subset h.nodup hsub).length_le
      rw [length_append, length_cons] at hle
      omega
  | succ fuel ih =>
    cases ready with
    | nil => exact ⟨ordered, incoming, by rw [kahn], h⟩
    | cons key ready =>
      rw [kahn]
      refine ih (h.take harrange houtgoing hnodes) ?_
      rw [length_append, length_singleton]
      omega

theorem Queue.before {order : List α} (h : Queue pairs nodes incoming [] order) {a b : α}
    (hab : TransGen (fun a b => (a, b) ∈ pairs) a b) (hb : b ∈ order) : Precedes order a b := by
  have hnodup : order.Nodup := by simpa using h.nodup
  induction hab with
  | single hpair => exact h.precedes _ _ hpair hb
  | tail _ hpair ih =>
    have hlast := h.precedes _ _ hpair hb
    exact (ih hlast.mem).trans hnodup hlast

theorem Queue.mem_iff {order : List α} (h : Queue pairs nodes incoming [] order)
    (hpairs : ∀ a b, (a, b) ∈ pairs → a ∈ nodes) (k : α) :
    k ∈ order ↔ k ∈ nodes ∧ ¬ OnCycle (fun a b => (a, b) ∈ pairs) k := by
  have hnodup : order.Nodup := by simpa using h.nodup
  have hmem : ∀ k, k ∈ order ↔ k ∈ nodes ∧ waiting pairs order k = 0 := fun k => by
    simpa [h.count] using h.mem k
  constructor
  · intro hk
    refine ⟨((hmem k).1 hk).1, ?_⟩
    rintro ⟨c, hcycle, hreach⟩
    have hc : c ∈ order := by
      rcases reflTransGen_iff_eq_or_transGen.1 hreach with rfl | hbefore
      · exact hk
      · exact (h.before hbefore hk).mem
    exact not_precedes_self hnodup c (h.before hcycle hc)
  · rintro ⟨hnode, hfree⟩
    by_contra hk
    -- the nodes left that lead to `k`: each has a predecessor among them
    let left : Set α := {y | y ∈ nodes ∧ y ∉ order ∧ ReflTransGen (fun a b => (a, b) ∈ pairs) y k}
    have hfin : left.Finite := (finite_toSet nodes).subset fun y hy => hy.1
    have hback : ∀ y ∈ left, ∃ x ∈ left, x ∈ left ∧ (x, y) ∈ pairs := by
      rintro y ⟨hy, hleft, hreach⟩
      have hwait : ¬ waiting pairs order y = 0 := fun hzero => hleft ((hmem y).2 ⟨hy, hzero⟩)
      rw [waiting_eq_zero] at hwait
      push Not at hwait
      obtain ⟨x, hpair, hx⟩ := hwait
      have hxleft : x ∈ left := ⟨hpairs x y hpair, hx, .head hpair hreach⟩
      exact ⟨x, hxleft, hxleft, hpair⟩
    obtain ⟨c, hcycle⟩ := exists_transGen_self hfin ⟨k, hnode, hk, .refl⟩ hback
    obtain ⟨y, ⟨hc, -⟩, -⟩ := TransGen.head'_iff.1 hcycle
    have hdrop : (fun x y => x ∈ left ∧ (x, y) ∈ pairs) ≤ fun x y => (x, y) ∈ pairs := fun _ _ hstep => hstep.2
    exact hfree ⟨c, TransGen.mono hdrop c c hcycle, hc.2.2⟩

variable (hpairs : ∀ a b, (a, b) ∈ pairs → a ∈ nodes)

include harrange houtgoing hnodes hpairs in
/-- From the nodes without a predecessor on, every node is taken that no cycle leads to, once and after all that lead
to it. -/
theorem kahn_spec (hnodup : nodes.Nodup) (hincoming : ∀ k, incoming k = pairs.countP fun pair => pair.2 = k)
    (hready : ready.Perm (nodes.filter fun k => incoming k = 0)) :
    ∃ order, kahn arrange outgoing nodes.length incoming ready [] = some order ∧ order.Nodup ∧
      (∀ k, k ∈ order ↔ k ∈ nodes ∧ ¬ OnCycle (fun a b => (a, b) ∈ pairs) k) ∧
      ∀ a b, (a, b) ∈ pairs → b ∈ order → Precedes order a b := by
  have hstart : Queue pairs nodes incoming ready [] := by
    refine ⟨?_, fun k => ?_, fun k => ?_, fun a b _ hb => absurd hb not_mem_nil⟩
    · exact hready.nodup_iff.2 (hnodup.filter _)
    · rw [nil_append, hready.mem_iff, mem_filter, decide_eq_true_eq]
    · rw [hincoming, waiting]
      simp
  have hfuel : nodes.length ≤ ([] : List α).length + nodes.length := by simp
  obtain ⟨order, incoming', horder, hqueue⟩ := hstart.run harrange houtgoing hnodes hfuel
  exact ⟨order, horder, by simpa using hqueue.nodup, hqueue.mem_iff hpairs, hqueue.precedes⟩

end TopologicalSort

end AiOrg

/-!
## Longest paths

Along a topological order each point keeps the length of the longest chain that ends at it, and the point before it on
such a chain. Followed back from a point with the greatest length, these make a chain that none is longer than
(`longest_spec`).
-/

namespace AiOrg

open TopologicalSort List

namespace LongestPath

variable {α : Type*} [LinearOrder α]

/-- The lengths and the points before, where they are known. -/
structure Table (α : Type*) where
  best : α → Option ℕ
  previous : α → Option α

/-- The first of the longest ways to a point, ties by the point before. -/
def choose (t : Table α) (predecessors : List α) : Option (ℕ × α) :=
  (predecessors.map fun pred => ((t.best pred).getD 0 + 1, pred)).argmax toLex

/-- One point of the order. -/
def extend (predecessors : α → List α) (t : Table α) (key : α) : Table α :=
  match choose t (predecessors key) with
  | some option =>
    { best := Function.update t.best key (some option.1), previous := Function.update t.previous key (some option.2) }
  | none => { t with best := Function.update t.best key (some 1) }

/-- The points from one back to the first of its chain, `none` where the fuel does not suffice. -/
def walk (previous : α → Option α) : ℕ → α → Option (List α)
  | 0, _ => none
  | fuel + 1, key =>
    match previous key with
    | some pred => (walk previous fuel pred).map (key :: ·)
    | none => some [key]

/-- A longest chain of the points of an order. -/
def longest (predecessors : α → List α) (order : List α) : Option (List α) :=
  let t := order.foldl (extend predecessors) ⟨fun _ => none, fun _ => none⟩
  match order.argmax fun key => toLex ((t.best key).getD 0, key) with
  | some key => (walk t.previous order.length key).map List.reverse
  | none => some []

/-! ### The table -/

variable {r : α → α → Prop} {predecessors : α → List α} {t : Table α} {done order : List α}

def Table.len (t : Table α) (key : α) : ℕ := (t.best key).getD 0

/-- What the table holds after some points. -/
structure Table.Filled (r : α → α → Prop) (done : List α) (t : Table α) : Prop where
  closed : ∀ a b, r a b → b ∈ done → a ∈ done
  pos : ∀ k ∈ done, 0 < t.len k
  size : ∀ k, t.len k ≤ done.length
  bound : ∀ a b, r a b → b ∈ done → t.len a + 1 ≤ t.len b
  back : ∀ a b, t.previous b = some a → b ∈ done ∧ r a b ∧ t.len b = t.len a + 1
  start : ∀ k ∈ done, t.previous k = none → t.len k = 1

theorem len_update (t : Table α) (previous : α → Option α) (key k : α) (n : ℕ) :
    Table.len ⟨Function.update t.best key (some n), previous⟩ k = if k = key then n else t.len k := by
  show (Function.update t.best key (some n) k).getD 0 = _
  rw [Function.update_apply]
  split_ifs <;> rfl

theorem Table.Filled.set {key : α} {n : ℕ} {before : Option α} (h : t.Filled r done) (hnew : key ∉ done)
    (hbefore : ∀ a, r a key → a ∈ done) (hbound : ∀ a, r a key → t.len a + 1 ≤ n)
    (hback : ∀ a, before = some a → r a key ∧ n = t.len a + 1) (hstart : before = none → n = 1) :
    Table.Filled r (done ++ [key]) ⟨Function.update t.best key (some n), Function.update t.previous key before⟩ := by
  have hold : ∀ k ∈ done, k ≠ key := fun k hk heq => hnew (heq ▸ hk)
  have hsize : 0 < n ∧ n ≤ done.length + 1 := by
    cases before with
    | none =>
      have := hstart rfl
      omega
    | some a =>
      have := (hback a rfl).2
      have := h.size a
      omega
  have hcases : ∀ k ∈ done ++ [key], k ∈ done ∧ k ≠ key ∨ k = key := fun k hk => by
    rcases mem_append.1 hk with hk | hk
    · exact .inl ⟨hk, hold k hk⟩
    · exact .inr (mem_singleton.1 hk)
  refine ⟨fun a b hab hb => ?_, fun k hk => ?_, fun k => ?_, fun a b hab hb => ?_, fun a b hprev => ?_, fun k hk hprev => ?_⟩
  · rcases hcases b hb with ⟨hb, -⟩ | rfl
    · exact mem_append_left _ (h.closed a b hab hb)
    · exact mem_append_left _ (hbefore a hab)
  · rw [len_update]
    rcases hcases k hk with ⟨hk, hne⟩ | rfl
    · rw [if_neg hne]
      exact h.pos k hk
    · rw [if_pos rfl]
      exact hsize.1
  · rw [len_update, length_append, length_singleton]
    have := h.size k
    split_ifs <;> omega
  · rw [len_update, len_update]
    rcases hcases b hb with ⟨hb, hne⟩ | rfl
    · rw [if_neg hne, if_neg (hold a (h.closed a b hab hb))]
      exact h.bound a b hab hb
    · rw [if_pos rfl, if_neg (hold a (hbefore a hab))]
      exact hbound a hab
  · simp only [Function.update_apply] at hprev
    rw [len_update, len_update]
    split_ifs at hprev with hb
    · subst hb
      obtain ⟨hab, hn⟩ := hback a hprev
      rw [if_pos rfl, if_neg (hold a (hbefore a hab))]
      exact ⟨by simp, hab, hn⟩
    · obtain ⟨hb', hab, hn⟩ := h.back a b hprev
      rw [if_neg hb, if_neg (hold a (h.closed a b hab hb'))]
      exact ⟨mem_append_left _ hb', hab, hn⟩
  · simp only [Function.update_apply] at hprev
    rw [len_update]
    rcases hcases k hk with ⟨hk, hne⟩ | rfl
    · rw [if_neg hne] at hprev ⊢
      exact h.start k hk hprev
    · rw [if_pos rfl] at hprev ⊢
      exact hstart hprev

theorem choose_eq_some {preds : List α} {option : ℕ × α} (h : choose t preds = some option) :
    option.2 ∈ preds ∧ option.1 = t.len option.2 + 1 ∧ ∀ pred ∈ preds, t.len pred + 1 ≤ option.1 := by
  obtain ⟨pred, hpred, rfl⟩ := mem_map.1 (argmax_mem h)
  refine ⟨hpred, rfl, fun other hother => ?_⟩
  have hle := le_of_mem_argmax (mem_map_of_mem hother) h
  exact (Prod.Lex.le_iff.1 hle).elim Nat.le_of_lt fun heq => heq.1.le

theorem choose_eq_none {preds : List α} (h : choose t preds = none) : preds = [] := by
  simpa [choose] using h

theorem Table.Filled.extend {key : α} (h : t.Filled r done) (hnew : key ∉ done)
    (hpreds : ∀ a, a ∈ predecessors key ↔ r a key) (hbefore : ∀ a, r a key → a ∈ done) :
    (LongestPath.extend predecessors t key).Filled r (done ++ [key]) := by
  unfold LongestPath.extend
  cases hchoose : choose t (predecessors key) with
  | some option =>
    obtain ⟨hmem, hlen, hmax⟩ := choose_eq_some hchoose
    refine h.set hnew hbefore (fun a ha => hmax a ((hpreds a).2 ha)) (fun a ha => ?_) nofun
    rw [← Option.some.inj ha]
    exact ⟨(hpreds _).1 hmem, hlen⟩
  | none =>
    have hnone : ∀ a, ¬ r a key := fun a ha => by
      have hmem := (hpreds a).2 ha
      rw [choose_eq_none hchoose] at hmem
      exact not_mem_nil hmem
    have hprev : t.previous key = none := by
      cases hprev : t.previous key with
      | none => rfl
      | some a => exact absurd (h.back a key hprev).1 hnew
    have hset := @Table.Filled.set α _ r t done key 1 none h hnew hbefore (fun a ha => absurd ha (hnone a))
      (by simp) (fun _ => rfl)
    rwa [← hprev, Function.update_eq_self] at hset

theorem filled_foldl (hnodup : order.Nodup) (hpreds : ∀ a b, a ∈ predecessors b ↔ r a b)
    (horder : ∀ a b, r a b → b ∈ order → TopologicalSort.Precedes order a b) :
    (order.foldl (extend predecessors) ⟨fun _ => none, fun _ => none⟩).Filled r order := by
  have hprefix : ∀ done rest, done ++ rest = order →
      (done.foldl (extend predecessors) ⟨fun _ => none, fun _ => none⟩).Filled r done := by
    intro done
    induction done using reverseRecOn with
    | nil => exact fun _ _ => ⟨by simp, by simp, by simp [Table.len], by simp, by simp, by simp⟩
    | append_singleton done key ih =>
      intro rest heq
      rw [append_assoc, singleton_append] at heq
      rw [foldl_concat]
      have hnew : key ∉ done := fun hmem => by
        rw [← heq] at hnodup
        exact (nodup_append.1 hnodup).2.2 key hmem key mem_cons_self rfl
      refine (ih _ heq).extend hnew (fun a => hpreds a key) fun a ha => ?_
      obtain ⟨before, after, hsplit, hmem⟩ := horder a key ha (by simp [← heq])
      have hafter : key ∉ rest := fun hrest => by
        rw [← heq] at hnodup
        exact (nodup_cons.1 (nodup_append.1 hnodup).2.1).1 hrest
      rw [← heq] at hsplit
      rw [((append_cons_inj_of_notMem hnew hafter).1 hsplit).1]
      exact hmem
  exact hprefix order [] (append_nil order)

omit [LinearOrder α] in
theorem Table.Filled.le_len (h : t.Filled r done) {chain : List α} {last : α} (hchain : (chain ++ [last]).IsChain r)
    (hlast : last ∈ done) : chain.length + 1 ≤ t.len last := by
  induction chain using reverseRecOn generalizing last with
  | nil => exact h.pos last hlast
  | append_singleton chain pred ih =>
    rw [append_assoc, singleton_append, isChain_append_cons_cons] at hchain
    have hle := ih hchain.1 (h.closed pred last hchain.2.1 hlast)
    have hstep := h.bound pred last hchain.2.1 hlast
    rw [length_append, length_singleton]
    omega

omit [LinearOrder α] in
theorem Table.Filled.walk (h : t.Filled r done) {fuel : ℕ} {key : α} (hkey : key ∈ done) (hfuel : t.len key ≤ fuel) :
    ∃ path, LongestPath.walk t.previous fuel key = some (key :: path) ∧ (key :: path).length = t.len key ∧
      (key :: path).IsChain (fun b a => r a b) ∧ ∀ k ∈ key :: path, k ∈ done := by
  induction fuel generalizing key with
  | zero =>
    have := h.pos key hkey
    omega
  | succ fuel ih =>
    rw [LongestPath.walk]
    cases hprev : t.previous key with
    | none => exact ⟨[], rfl, (h.start key hkey hprev).symm, isChain_singleton key, by simpa using hkey⟩
    | some pred =>
      obtain ⟨-, hstep, hlen⟩ := h.back pred key hprev
      obtain ⟨path, hwalk, hlength, hchain, hmem⟩ := ih (h.closed pred key hstep hkey) (by omega)
      refine ⟨pred :: path, by simp [hwalk], ?_, hchain.cons_cons hstep, ?_⟩
      · rw [length_cons, hlength, hlen]
      · rintro k (_ | ⟨_, hk⟩)
        · exact hkey
        · exact hmem k hk

/-- The path is a chain of the order, and none is longer. -/
theorem longest_spec (hnodup : order.Nodup) (hpreds : ∀ a b, a ∈ predecessors b ↔ r a b)
    (horder : ∀ a b, r a b → b ∈ order → TopologicalSort.Precedes order a b) :
    ∃ path, longest predecessors order = some path ∧ path.IsChain r ∧ (∀ k ∈ path, k ∈ order) ∧
      ∀ chain : List α, chain.IsChain r → (∀ k ∈ chain, k ∈ order) → chain.length ≤ path.length := by
  have h := filled_foldl hnodup hpreds horder
  unfold longest
  dsimp only
  generalize order.foldl (extend predecessors) ⟨fun _ => none, fun _ => none⟩ = t at h
  cases hmax : order.argmax fun key => toLex ((t.best key).getD 0, key) with
  | none =>
    obtain rfl := argmax_eq_none.1 hmax
    refine ⟨[], rfl, isChain_nil, by simp, fun chain _ hsub => ?_⟩
    rw [eq_nil_iff_forall_not_mem.2 fun k hk => not_mem_nil (hsub k hk)]
  | some key =>
    have hkey : key ∈ order := argmax_mem hmax
    obtain ⟨path, hwalk, hlength, hchain, hmem⟩ := h.walk hkey (h.size key)
    refine ⟨(key :: path).reverse, by simp [hwalk], isChain_reverse.2 hchain, fun k hk => ?_, ?_⟩
    · exact hmem k (mem_reverse.1 hk)
    · intro chain hchain' hsub
      rw [length_reverse, hlength]
      rcases eq_nil_or_concat chain with rfl | ⟨front, last, rfl⟩
      · exact Nat.zero_le _
      · rw [concat_eq_append] at hchain' hsub ⊢
        have hlast : last ∈ order := hsub last (by simp)
        have hle := h.le_len hchain' hlast
        have hbest := le_of_mem_argmax hlast hmax
        have hlen : t.len last ≤ t.len key := (Prod.Lex.le_iff.1 hbest).elim Nat.le_of_lt fun heq => heq.1.le
        rw [length_append, length_singleton]
        exact hle.trans hlen

end LongestPath

end AiOrg
