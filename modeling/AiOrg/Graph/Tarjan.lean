import Mathlib

/-!
# Strongly connected components

Tarjan's search numbers the points in the order in which it comes to them and keeps on a stack those whose component is
not finished. The low link of a point is the least number on the stack that it is known to lead to. Where that is its own
number, the points above it on the stack are its component (`Inv.component`), and the least point of a component with a
cycle is noted.
-/

namespace AiOrg

open Relation List

namespace Tarjan

/-- The state of the search; a point has the number zero before it is visited. -/
structure State (α : Type*) where
  index : ℕ
  indices : α → ℕ
  lowlinks : α → ℕ
  onStack : α → Bool
  stack : List α
  cycles : List α

def State.start (α : Type*) : State α := ⟨0, fun _ => 0, fun _ => 0, fun _ => false, [], []⟩

variable {α : Type*} [LinearOrder α]

/-- The points of the stack down to one, and what is left below it. -/
def popTo (node : α) : List α → List α × List α
  | [] => ([], [])
  | member :: stack =>
    if member = node then ([member], stack)
    else (member :: (popTo node stack).1, (popTo node stack).2)

namespace State

/-- A point is numbered and put on the stack. -/
def enter (s : State α) (node : α) : State α :=
  { s with
    index := s.index + 1
    indices := Function.update s.indices node (s.index + 1)
    lowlinks := Function.update s.lowlinks node (s.index + 1)
    onStack := Function.update s.onStack node true
    stack := node :: s.stack }

def lower (s : State α) (node : α) (number : ℕ) : State α :=
  if number < s.lowlinks node then { s with lowlinks := Function.update s.lowlinks node number } else s

end State

variable (successors : α → List α)

/-- The component has more than one point, or its point is a successor of itself. -/
def isCyclic (component : List α) : Bool :=
  1 < component.length || component.head?.any fun first => first ∈ successors first

/-- A point is left: where its low link is its own number, its component is taken off the stack. -/
def leave (s : State α) (node : α) : State α :=
  if s.lowlinks node ≠ s.indices node then s
  else
    let component := (popTo node s.stack).1.insertionSort (· ≤ ·)
    { s with
      stack := (popTo node s.stack).2
      onStack := fun v => if v ∈ component then false else s.onStack v
      cycles := if isCyclic successors component then s.cycles ++ component.head?.toList else s.cycles }

/-- What is done with a successor of a point. -/
def look (visit : α → State α → State α) (node : α) (s : State α) (target : α) : State α :=
  if s.indices target = 0 then (visit target s).lower node ((visit target s).lowlinks target)
  else if s.onStack target then s.lower node (s.indices target)
  else s

def visit : ℕ → α → State α → State α
  | 0, _, s => s
  | depth + 1, node, s =>
    leave successors ((successors node).foldl (look (visit depth) node) (s.enter node)) node

/-- The search from all the points of a list that are not visited yet. -/
def search (depth : ℕ) (nodes : List α) : State α :=
  nodes.foldl (fun s node => if s.indices node = 0 then visit successors depth node s else s) (.start α)

def Edge (a b : α) : Prop := b ∈ successors a

def Reach : α → α → Prop := ReflTransGen (Edge successors)

/-- Each of two points leads to the other. -/
def Mutual (a b : α) : Prop := Reach successors a b ∧ Reach successors b a

/-- The least point of a component that has more than one point, or whose point is a successor of itself. -/
structure Represents (m : α) : Prop where
  cycle : Edge successors m m ∨ ∃ w, w ≠ m ∧ Mutual successors m w
  least : ∀ w, Mutual successors m w → m ≤ w

/-- The component of a point is finished. -/
def State.Done (s : State α) (v : α) : Prop := s.indices v ≠ 0 ∧ v ∉ s.stack

/-- What holds while the search is at the points `gray`, from the one it started with to the one it is at. -/
structure Inv (gray : List α) (s : State α) : Prop where
  index_le : ∀ v, s.indices v ≤ s.index
  onStack : ∀ v, s.onStack v = true ↔ v ∈ s.stack
  visited : ∀ v ∈ s.stack, s.indices v ≠ 0
  sorted : s.stack.Pairwise fun a b => s.indices b < s.indices a
  gray_mem : ∀ g ∈ gray, g ∈ s.stack
  black : ∀ v, s.indices v ≠ 0 → v ∉ gray → ∀ w, Edge successors v w → s.indices w ≠ 0
  closed : ∀ v, s.Done v → ∀ w, Edge successors v w → s.Done w
  reach : s.stack.Pairwise fun a b => Reach successors b a
  back : ∀ v ∈ s.stack, ∃ g ∈ gray, s.indices g ≤ s.indices v ∧ Reach successors v g
  cycles : ∀ m, m ∈ s.cycles ↔ s.Done m ∧ Represents successors m
  nodup : s.cycles.Nodup

/-- What is known of a point stays, and the stack grows by points that are new. -/
structure Extends (s s' : State α) : Prop where
  indices : ∀ v, s.indices v ≠ 0 → s'.indices v = s.indices v
  lowlinks : ∀ v, s.indices v ≠ 0 → s'.lowlinks v = s.lowlinks v
  index : s.index ≤ s'.index
  fresh : ∀ v, s.indices v = 0 → s'.indices v ≠ 0 → s.index < s'.indices v
  stack : ∃ above, s'.stack = above ++ s.stack ∧ ∀ v ∈ above, s.indices v = 0

/-- What a visit of a point leaves: its component is finished, or its low link is the least number below that what was
put on the stack leads to. -/
def Low (node : α) (s s' : State α) : Prop :=
  (s'.stack = s.stack ∧ s.index < s'.lowlinks node) ∨
    ∃ above, s'.stack = above ++ s.stack ∧ node ∈ above ∧
      (∃ y ∈ s.stack, s'.indices y = s'.lowlinks node ∧ Reach successors node y) ∧
      ∀ z ∈ above, ∀ y ∈ s.stack, Edge successors z y → s'.lowlinks node ≤ s'.indices y

variable {successors} {gray : List α} {s t : State α} {node : α}

omit [LinearOrder α] in
theorem Extends.refl (s : State α) : Extends s s :=
  ⟨fun _ _ => rfl, fun _ _ => rfl, le_rfl, fun _ h h' => absurd h h', [], rfl, by simp⟩

omit [LinearOrder α] in
theorem Extends.trans {u : State α} (hst : Extends s t) (htu : Extends t u) : Extends s u := by
  have hvisited : ∀ v, s.indices v ≠ 0 → t.indices v ≠ 0 := fun v hv => (hst.indices v hv).symm ▸ hv
  refine ⟨fun v hv => ?_, fun v hv => ?_, hst.index.trans htu.index, fun v hv hu => ?_, ?_⟩
  · rw [htu.indices v (hvisited v hv), hst.indices v hv]
  · rw [htu.lowlinks v (hvisited v hv), hst.lowlinks v hv]
  · by_cases ht : t.indices v = 0
    · exact hst.index.trans_lt (htu.fresh v ht hu)
    · rw [htu.indices v ht]
      exact hst.fresh v hv ht
  · obtain ⟨above, habove, hnew⟩ := hst.stack
    obtain ⟨more, hmore, hnewer⟩ := htu.stack
    refine ⟨more ++ above, by rw [hmore, habove, append_assoc], fun v hv => ?_⟩
    rcases mem_append.1 hv with hv | hv
    · by_contra hs
      exact hvisited v hs (hnewer v hv)
    · exact hnew v hv

theorem Inv.enter (h : Inv successors gray s) (hnode : s.indices node = 0)
    (hgray : ∀ g ∈ gray, Reach successors g node) : Inv successors (node :: gray) (s.enter node) := by
  have hother : ∀ v, v ≠ node → (s.enter node).indices v = s.indices v := fun v hv => Function.update_of_ne hv _ _
  have hself : (s.enter node).indices node = s.index + 1 := Function.update_self ..
  have hnot : node ∉ s.stack := fun hmem => h.visited node hmem hnode
  have hstack : ∀ v ∈ s.stack, (s.enter node).indices v = s.indices v := fun v hv =>
    hother v fun heq => hnot (heq ▸ hv)
  have hvisited : ∀ v, s.indices v ≠ 0 → (s.enter node).indices v ≠ 0 := fun v hv => by
    rwa [hother v fun heq => hv (heq ▸ hnode)]
  have hdone : ∀ v, (s.enter node).Done v ↔ s.Done v := by
    intro v
    unfold State.Done
    show _ ∧ v ∉ node :: s.stack ↔ _
    rw [mem_cons, not_or]
    constructor
    · rintro ⟨hv, hne, hmem⟩
      exact ⟨by rwa [hother v hne] at hv, hmem⟩
    · rintro ⟨hv, hmem⟩
      exact ⟨hvisited v hv, fun heq => hv (heq ▸ hnode), hmem⟩
  refine ⟨fun v => ?_, fun v => ?_, fun v hv => ?_, ?_, fun g hg => ?_, fun v hv hgray' w hw => ?_,
    fun v hv w hw => (hdone w).2 (h.closed v ((hdone v).1 hv) w hw), ?_, fun v hv => ?_, fun m => ?_, h.nodup⟩
  · by_cases hv : v = node
    · rw [hv, hself]
      exact le_rfl
    · rw [hother v hv]
      exact (h.index_le v).trans (Nat.le_succ _)
  · show Function.update s.onStack node true v = true ↔ v ∈ node :: s.stack
    rw [mem_cons]
    by_cases hv : v = node
    · simp [hv]
    · rw [Function.update_of_ne hv, h.onStack, or_iff_right hv]
  · rcases mem_cons.1 hv with rfl | hv
    · rw [hself]
      omega
    · exact hvisited v (h.visited v hv)
  · refine pairwise_cons.2 ⟨fun v hv => ?_, h.sorted.imp_of_mem fun ha hb hlt => ?_⟩
    · rw [hself, hstack v hv]
      exact Nat.lt_succ_of_le (h.index_le v)
    · rwa [hstack _ ha, hstack _ hb]
  · rcases mem_cons.1 hg with rfl | hg
    · exact mem_cons_self
    · exact mem_cons_of_mem _ (h.gray_mem g hg)
  · rw [mem_cons, not_or] at hgray'
    rw [hother v hgray'.1] at hv
    exact hvisited w (h.black v hv hgray'.2 w hw)
  · refine pairwise_cons.2 ⟨fun v hv => ?_, h.reach⟩
    obtain ⟨g, hg, -, hvg⟩ := h.back v hv
    exact hvg.trans (hgray g hg)
  · rcases mem_cons.1 hv with rfl | hv
    · exact ⟨v, mem_cons_self, le_rfl, .refl⟩
    · obtain ⟨g, hg, hle, hvg⟩ := h.back v hv
      refine ⟨g, mem_cons_of_mem _ hg, ?_, hvg⟩
      rwa [hstack v hv, hstack g (h.gray_mem g hg)]
  · rw [hdone]
    exact h.cycles m

theorem extends_enter (s : State α) (hnode : s.indices node = 0) : Extends s (s.enter node) := by
  have hne : ∀ v, s.indices v ≠ 0 → v ≠ node := fun v hv heq => hv (heq ▸ hnode)
  refine ⟨fun v hv => Function.update_of_ne (hne v hv) _ _, fun v hv => Function.update_of_ne (hne v hv) _ _,
    Nat.le_succ _, fun v hv hv' => ?_, [node], rfl, by simpa using hnode⟩
  by_cases heq : v = node
  · rw [heq]
    show s.index < Function.update s.indices node (s.index + 1) node
    rw [Function.update_self]
    omega
  · exact absurd ((Function.update_of_ne heq _ _).trans hv) hv'

section Lower

variable (s : State α) (node : α) (number : ℕ)

theorem lower_eq : ∃ lowlinks, s.lower node number = { s with lowlinks := lowlinks } ∧
    lowlinks node = min (s.lowlinks node) number ∧ ∀ v, v ≠ node → lowlinks v = s.lowlinks v := by
  unfold State.lower
  split_ifs with h
  · exact ⟨_, rfl, by rw [Function.update_self]; omega, fun v hv => Function.update_of_ne hv _ _⟩
  · exact ⟨s.lowlinks, rfl, by omega, fun v _ => rfl⟩

end Lower

theorem Inv.lower (h : Inv successors gray s) (number : ℕ) : Inv successors gray (s.lower node number) := by
  obtain ⟨lowlinks, heq, -⟩ := lower_eq s node number
  rw [heq]
  exact ⟨h.index_le, h.onStack, h.visited, h.sorted, h.gray_mem, h.black, h.closed, h.reach, h.back, h.cycles, h.nodup⟩

theorem Extends.lower (h : Extends s t) (hnode : s.indices node = 0) (number : ℕ) :
    Extends s (t.lower node number) := by
  obtain ⟨lowlinks, heq, -, hothers⟩ := lower_eq t node number
  rw [heq]
  refine ⟨h.indices, fun v hv => ?_, h.index, h.fresh, h.stack⟩
  rw [← h.lowlinks v hv]
  exact hothers v fun hv' => hv (hv' ▸ hnode)

variable (successors) in
/-- Where the search is at a point, some of its successors looked at: what was put on the stack above it, and what its
low link is of these and of the points on the stack. -/
structure Looking (node : α) (s : State α) (looked : List α) (t : State α) : Prop where
  ext : Extends s t
  number : t.indices node = s.index + 1
  stack : ∃ above, t.stack = above ++ node :: s.stack ∧
    ∀ z ∈ above, ∀ y ∈ node :: s.stack, Edge successors z y → t.lowlinks node ≤ t.indices y
  low : ∃ y ∈ node :: s.stack, t.indices y = t.lowlinks node ∧ Reach successors node y
  looked_visited : ∀ w ∈ looked, t.indices w ≠ 0
  looked_low : ∀ w ∈ looked, w ∈ node :: s.stack → t.lowlinks node ≤ t.indices w

theorem looking_start (hnode : s.indices node = 0) : Looking successors node s [] (s.enter node) := by
  have hself : (s.enter node).indices node = s.index + 1 := Function.update_self ..
  have hlow : (s.enter node).lowlinks node = s.index + 1 := Function.update_self ..
  exact ⟨extends_enter s hnode, hself, ⟨[], rfl, by simp⟩, ⟨node, mem_cons_self, by rw [hself, hlow], .refl⟩,
    by simp, by simp⟩

theorem Looking.bounds {looked : List α} (h : Looking successors node s looked t)
    (ht : Inv successors (node :: gray) t) : t.lowlinks node ≤ t.indices node ∧
      ∀ y ∈ t.stack, t.indices y < t.indices node → y ∈ s.stack := by
  obtain ⟨above, habove, -⟩ := h.stack
  have hsorted := ht.sorted
  rw [habove, pairwise_append] at hsorted
  obtain ⟨-, hbelow, hacross⟩ := hsorted
  refine ⟨?_, fun y hy hlt => ?_⟩
  · obtain ⟨y, hy, hlow, -⟩ := h.low
    rcases mem_cons.1 hy with rfl | hy
    · exact hlow.ge
    · rw [← hlow]
      exact ((pairwise_cons.1 hbelow).1 y hy).le
  · rw [habove] at hy
    rcases mem_append.1 hy with hy | hy
    · exact absurd (hacross y hy node mem_cons_self) (by omega)
    · rcases mem_cons.1 hy with rfl | hy
      · exact absurd hlt (lt_irrefl _)
      · exact hy

theorem Looking.lower {looked : List α} {target : α} {number : ℕ}
    (h : Looking successors node s looked t) (hnode : s.indices node = 0) {t' : State α}
    (hext : Extends s t') (hself : t'.indices node = t.indices node) (hlowlink : t'.lowlinks node = t.lowlinks node)
    (hindices : ∀ v, t.indices v ≠ 0 → t'.indices v = t.indices v)
    (hbelow : ∀ y ∈ node :: s.stack, t.indices y ≠ 0)
    (hstack : ∃ above, t'.stack = above ++ node :: s.stack ∧ ∀ z ∈ above, ∀ y ∈ node :: s.stack,
      Edge successors z y → t.lowlinks node ≤ t.indices y ∨ number ≤ t.indices y)
    (hnumber : number < t.lowlinks node →
      ∃ y ∈ node :: s.stack, t.indices y = number ∧ Reach successors node y)
    (htarget : t'.indices target ≠ 0)
    (htarget' : target ∈ node :: s.stack → t.lowlinks node ≤ t.indices target ∨ number ≤ t.indices target) :
    Looking successors node s (looked ++ [target]) (t'.lower node number) := by
  obtain ⟨lowlinks, heq, hmin, -⟩ := lower_eq t' node number
  have hext' := hext.lower hnode number
  rw [heq] at hext' ⊢
  rw [hlowlink] at hmin
  refine ⟨hext', hself.trans h.number, ?_, ?_, fun w hw => ?_, fun w hw hmem => ?_⟩
  · obtain ⟨above, habove, hedges⟩ := hstack
    refine ⟨above, habove, fun z hz y hy hedge => ?_⟩
    show lowlinks node ≤ t'.indices y
    rw [hmin, hindices y (hbelow y hy)]
    have := hedges z hz y hy hedge
    omega
  · show ∃ y ∈ node :: s.stack, t'.indices y = lowlinks node ∧ _
    by_cases hlt : number < t.lowlinks node
    · obtain ⟨y, hy, hynumber, hreach⟩ := hnumber hlt
      exact ⟨y, hy, by rw [hindices y (hbelow y hy), hmin, hynumber]; omega, hreach⟩
    · obtain ⟨y, hy, hylow, hreach⟩ := h.low
      exact ⟨y, hy, by rw [hindices y (hbelow y hy), hmin, hylow]; omega, hreach⟩
  · rcases mem_append.1 hw with hw | hw
    · show t'.indices w ≠ 0
      rw [hindices w (h.looked_visited w hw)]
      exact h.looked_visited w hw
    · rw [mem_singleton.1 hw]
      exact htarget
  · show lowlinks node ≤ t'.indices w
    rw [hmin, hindices w (hbelow w hmem)]
    rcases mem_append.1 hw with hw | hw
    · have := h.looked_low w hw hmem
      omega
    · rw [mem_singleton.1 hw] at hmem ⊢
      have := htarget' hmem
      omega

/-! ### A component -/

theorem popTo_append {above rest : List α} (h : node ∉ above) :
    popTo node (above ++ node :: rest) = (above ++ [node], rest) := by
  induction above with
  | nil => simp [popTo]
  | cons member above ih =>
    rw [mem_cons, not_or] at h
    rw [cons_append, popTo, if_neg fun heq => h.1 heq.symm, ih h.2]
    rfl

theorem Inv.stack_nodup (h : Inv successors gray s) : s.stack.Nodup :=
  h.sorted.imp fun hlt heq => by rw [heq] at hlt; exact lt_irrefl _ hlt

theorem Inv.done_of_reach (h : Inv successors gray s) {v w : α} (hv : s.Done v) (hreach : Reach successors v w) :
    s.Done w := by
  induction hreach with
  | refl => exact hv
  | tail _ hedge ih => exact h.closed _ ih _ hedge

omit [LinearOrder α] in
theorem Mutual.symm {a b : α} (h : Mutual successors a b) : Mutual successors b a := ⟨h.2, h.1⟩

omit [LinearOrder α] in
theorem Mutual.trans {a b c : α} (h : Mutual successors a b) (h' : Mutual successors b c) : Mutual successors a c :=
  ⟨h.1.trans h'.1, h'.2.trans h.2⟩

theorem represents_iff {component : List α} {m : α} (hnodup : component.Nodup) (hm : m ∈ component)
    (hmutual : ∀ w, Mutual successors m w ↔ w ∈ component) :
    Represents successors m ↔ isCyclic successors (component.insertionSort (· ≤ ·)) = true ∧
      m ∈ (component.insertionSort (· ≤ ·)).head? := by
  have hmem : ∀ w, w ∈ component.insertionSort (· ≤ ·) ↔ w ∈ component := fun w => mem_insertionSort _
  have hnodup' := (perm_insertionSort (· ≤ ·) component).nodup_iff.2 hnodup
  have hsorted := pairwise_insertionSort (· ≤ ·) component
  rcases hlist : component.insertionSort (· ≤ ·) with _ | ⟨first, rest⟩ <;> rw [hlist] at hmem hnodup' hsorted
  · exact absurd ((hmem m).2 hm) not_mem_nil
  have hfirst : ∀ w ∈ component, first ≤ w := fun w hw => by
    rcases mem_cons.1 ((hmem w).2 hw) with rfl | hw
    · exact le_rfl
    · exact (pairwise_cons.1 hsorted).1 w hw
  simp only [isCyclic, length_cons, head?_cons, Option.any_some, Option.mem_def, Option.some.injEq,
    Bool.or_eq_true, decide_eq_true_eq]
  constructor
  · rintro ⟨hcycle, hleast⟩
    have heq : first = m :=
      le_antisymm (hfirst m hm) (hleast first ((hmutual first).2 ((hmem first).1 mem_cons_self)))
    refine ⟨?_, heq⟩
    rcases hcycle with hself | ⟨w, hne, hw⟩
    · exact .inr (heq ▸ hself)
    · rcases mem_cons.1 ((hmem w).2 ((hmutual w).1 hw)) with hw | hw
      · exact absurd (hw.trans heq) hne
      · exact .inl (by have := length_pos_of_mem hw; omega)
  · rintro ⟨hcycle, rfl⟩
    refine ⟨?_, fun w hw => hfirst w ((hmutual w).1 hw)⟩
    rcases hcycle with hlength | hself
    · obtain ⟨w, hw⟩ := exists_mem_of_length_pos (l := rest) (by omega)
      refine .inr ⟨w, ?_, (hmutual w).2 ((hmem w).1 (mem_cons_of_mem _ hw))⟩
      rintro rfl
      exact (nodup_cons.1 hnodup').1 hw
    · exact .inl hself

variable (successors) in
/-- What a visit has done. -/
structure Visited (gray : List α) (node : α) (s s' : State α) : Prop where
  inv : Inv successors gray s'
  ext : Extends s s'
  visited : s'.indices node ≠ 0
  low : Low successors node s s'

section Leave

variable (hs : Inv successors gray s) (hnode : s.indices node = 0) (hgray : ∀ g ∈ gray, Reach successors g node)
  (ht : Inv successors (node :: gray) t) (h : Looking successors node s (successors node) t)

include ht h

theorem stays (hlow : t.lowlinks node ≠ t.indices node) :
    Visited successors gray node s t := by
  have hbounds := h.bounds ht
  have hnumber : t.indices node ≠ 0 := by rw [h.number]; omega
  obtain ⟨low, hlowmem, hlownumber, hlowreach⟩ := h.low
  have hlowstack : low ∈ s.stack := by
    rcases mem_cons.1 hlowmem with rfl | hmem
    · exact absurd hlownumber.symm hlow
    · exact hmem
  obtain ⟨above, habove, hedges⟩ := h.stack
  have hlt : t.indices low < t.indices node := by
    rw [hlownumber]
    exact lt_of_le_of_ne hbounds.1 hlow
  have hback : ∀ v ∈ t.stack, ∃ g ∈ gray, t.indices g ≤ t.indices v ∧ Reach successors v g := by
    -- the point leads to `low`, and so to a gray point below it
    have hlowgray : ∃ g ∈ gray, t.indices g ≤ t.indices low ∧ Reach successors low g := by
      obtain ⟨g, hg, hle, hreach⟩ := ht.back low (by rw [habove]; simp [hlowstack])
      rcases mem_cons.1 hg with rfl | hg
      · omega
      · exact ⟨g, hg, hle, hreach⟩
    intro v hv
    obtain ⟨g, hg, hle, hreach⟩ := ht.back v hv
    rcases mem_cons.1 hg with rfl | hg
    · obtain ⟨g', hg', hle', hreach'⟩ := hlowgray
      exact ⟨g', hg', by omega, (hreach.trans hlowreach).trans hreach'⟩
    · exact ⟨g, hg, hle, hreach⟩
  have hblack : ∀ v, t.indices v ≠ 0 → v ∉ gray → ∀ w, Edge successors v w → t.indices w ≠ 0 := by
    intro v hv hgray w hedge
    by_cases hvnode : v = node
    · rw [hvnode] at hedge
      exact h.looked_visited w hedge
    · exact ht.black v hv (by simp [hvnode, hgray]) w hedge
  refine ⟨⟨ht.index_le, ht.onStack, ht.visited, ht.sorted, fun g hg => ht.gray_mem g (mem_cons_of_mem _ hg),
    hblack, ht.closed, ht.reach, hback, ht.cycles, ht.nodup⟩, h.ext, hnumber, .inr ⟨above ++ [node], ?_, ?_, ?_, ?_⟩⟩
  · rw [habove, append_assoc, singleton_append]
  · simp
  · exact ⟨low, hlowstack, hlownumber, hlowreach⟩
  · intro z hz y hy hedge
    rcases mem_append.1 hz with hz | hz
    · exact hedges z hz y (mem_cons_of_mem _ hy) hedge
    · rw [mem_singleton.1 hz] at hedge
      exact h.looked_low y hedge (mem_cons_of_mem _ hy)

include hs hnode hgray

/-- Where the low link of a point is its own number, the points above it on the stack are its component. -/
theorem component_spec (hlow : t.lowlinks node = t.indices node) {above : List α}
    (habove : t.stack = above ++ node :: s.stack) :
    (∀ w, Mutual successors node w ↔ w ∈ above ++ [node]) ∧
      ∀ z ∈ above ++ [node], ∀ w, Edge successors z w → w ∈ above ++ [node] ∨ t.Done w := by
  have hnumber : t.indices node ≠ 0 := by rw [h.number]; omega
  have hedges : ∀ z ∈ above, ∀ y ∈ node :: s.stack, Edge successors z y → t.lowlinks node ≤ t.indices y := by
    obtain ⟨above', habove', hedges⟩ := h.stack
    obtain rfl : above' = above := append_cancel_right (habove'.symm.trans habove)
    exact hedges
  have hsorted := ht.sorted
  rw [habove, pairwise_append, pairwise_cons] at hsorted
  obtain ⟨-, ⟨hbelow, -⟩, hacross⟩ := hsorted
  have hreach := ht.reach
  rw [habove, pairwise_append] at hreach
  have hstack : ∀ w, t.indices w ≠ 0 → w ∈ above ++ [node] ∨ w ∈ s.stack ∨ t.Done w := fun w hw => by
    by_cases hmem : w ∈ t.stack
    · rw [habove] at hmem
      simp only [mem_append, mem_cons] at hmem ⊢
      tauto
    · exact .inr (.inr ⟨hw, hmem⟩)
  have hgraystack : ∀ g ∈ node :: gray, g ∈ node :: s.stack := fun g hg => by
    rcases mem_cons.1 hg with rfl | hg
    · exact mem_cons_self
    · exact mem_cons_of_mem _ (hs.gray_mem g hg)
  have hclosed : ∀ z ∈ above ++ [node], ∀ w, Edge successors z w → w ∈ above ++ [node] ∨ t.Done w := by
    intro z hz w hedge
    rcases mem_append.1 hz with hz | hz
    · have hzvisited : t.indices z ≠ 0 := ht.visited z (by rw [habove]; simp [hz])
      have hzgray : z ∉ node :: gray := fun hmem => by
        have hlt := hacross z hz z (hgraystack z hmem)
        exact lt_irrefl _ hlt
      rcases hstack w (ht.black z hzvisited hzgray w hedge) with hw | hw | hw
      · exact .inl hw
      · -- no edge leads below the point
        have hle := hedges z hz w (mem_cons_of_mem _ hw) hedge
        have hlt := hbelow w hw
        omega
      · exact .inr hw
    · rw [mem_singleton.1 hz] at hedge
      rcases hstack w (h.looked_visited w hedge) with hw | hw | hw
      · exact .inl hw
      · have hle := h.looked_low w hedge (mem_cons_of_mem _ hw)
        have hlt := hbelow w hw
        omega
      · exact .inr hw
  refine ⟨fun w => ⟨fun hw => ?_, fun hw => ?_⟩, hclosed⟩
  · have hinside : ∀ v, Reach successors node v → v ∈ above ++ [node] ∨ t.Done v := by
      intro v hv
      induction hv with
      | refl => simp
      | tail _ hedge ih =>
        rcases ih with hin | hdone
        · exact hclosed _ hin _ hedge
        · exact .inr (ht.closed _ hdone _ hedge)
    rcases hinside w hw.1 with hin | hdone
    · exact hin
    · exact absurd (by rw [habove]; simp) (ht.done_of_reach hdone hw.2).2
  · rcases mem_append.1 hw with hw | hw
    · refine ⟨hreach.2.2 w hw node mem_cons_self, ?_⟩
      obtain ⟨g, hg, -, hwg⟩ := ht.back w (by rw [habove]; simp [hw])
      rcases mem_cons.1 hg with rfl | hg
      · exact hwg
      · exact hwg.trans (hgray g hg)
    · rw [mem_singleton.1 hw]
      exact ⟨.refl, .refl⟩

/-- There the component is taken off the stack, and its least point is noted if there is a cycle. -/
theorem comes_off (hlow : t.lowlinks node = t.indices node) :
    Visited successors gray node s (leave successors t node) := by
  obtain ⟨above, habove, -⟩ := h.stack
  obtain ⟨hmutual, hclosed⟩ := component_spec hs hnode hgray ht h hlow habove
  have hstacknodup := ht.stack_nodup
  rw [habove, ← singleton_append, ← append_assoc] at hstacknodup
  obtain ⟨hnodup, -, hdisjoint⟩ := nodup_append.1 hstacknodup
  have hpop : popTo node t.stack = (above ++ [node], s.stack) := by
    rw [habove]
    exact popTo_append fun hmem => (nodup_append.1 hnodup).2.2 node hmem node mem_cons_self rfl
  have hleave : leave successors t node = { t with
      stack := s.stack
      onStack := fun v => if v ∈ (above ++ [node]).insertionSort (· ≤ ·) then false else t.onStack v
      cycles := if isCyclic successors ((above ++ [node]).insertionSort (· ≤ ·)) then
        t.cycles ++ ((above ++ [node]).insertionSort (· ≤ ·)).head?.toList else t.cycles } := by
    rw [leave, if_neg (not_not.2 hlow), hpop]
  have hcomponent : ∀ m ∈ above ++ [node], ∀ w, Mutual successors m w ↔ w ∈ above ++ [node] := fun m hm w => by
    have hm' := (hmutual m).2 hm
    rw [← hmutual w]
    exact ⟨hm'.trans, hm'.symm.trans⟩
  have hmem : ∀ v, v ∈ t.stack ↔ v ∈ above ++ [node] ∨ v ∈ s.stack := fun v => by
    rw [habove]
    simp only [mem_append, mem_cons, not_mem_nil, or_false]
    tauto
  have hvisited : ∀ v ∈ above ++ [node], t.indices v ≠ 0 := fun v hv => ht.visited v ((hmem v).2 (.inl hv))
  have hdone : ∀ v, (leave successors t node).Done v ↔ t.Done v ∨ v ∈ above ++ [node] := fun v => by
    rw [hleave]
    unfold State.Done
    dsimp only
    rw [hmem]
    constructor
    · rintro ⟨hv, hnot⟩
      by_cases hin : v ∈ above ++ [node]
      · exact .inr hin
      · exact .inl ⟨hv, by tauto⟩
    · rintro (⟨hv, hnot⟩ | hin)
      · exact ⟨hv, by tauto⟩
      · exact ⟨hvisited v hin, fun hbelow => hdisjoint v hin v hbelow rfl⟩
  have hext : Extends s (leave successors t node) := by
    rw [hleave]
    exact ⟨h.ext.indices, h.ext.lowlinks, h.ext.index, h.ext.fresh, [], rfl, by simp⟩
  have hold : ∀ v ∈ s.stack, t.indices v = s.indices v := fun v hv => h.ext.indices v (hs.visited v hv)
  have hsublist : s.stack.Sublist t.stack := by
    rw [habove, ← singleton_append, ← append_assoc]
    exact sublist_append_right _ _
  have hcycles : ∀ m, m ∈ (leave successors t node).cycles ↔ m ∈ t.cycles ∨
      isCyclic successors ((above ++ [node]).insertionSort (· ≤ ·)) = true ∧
        m ∈ ((above ++ [node]).insertionSort (· ≤ ·)).head? := fun m => by
    rw [hleave]
    dsimp only
    split_ifs with hcyclic
    · simp [hcyclic]
    · simp [hcyclic]
  have hnoted : ∀ m ∈ ((above ++ [node]).insertionSort (· ≤ ·)).head?, m ∈ above ++ [node] := fun m hm =>
    (mem_insertionSort _).1 (mem_of_mem_head? hm)
  refine ⟨⟨?_, fun v => ?_, ?_, ?_, ?_, ?_, fun v hv w hedge => ?_, ?_, ?_, fun m => ?_, ?_⟩, hext, ?_, .inl ⟨?_, ?_⟩⟩
  · rw [hleave]
    exact ht.index_le
  · rw [hleave]
    dsimp only
    split_ifs with hin
    · have hin' := (mem_insertionSort _).1 hin
      exact iff_of_false not_false fun hbelow => hdisjoint v hin' v hbelow rfl
    · have hin' := mt (mem_insertionSort (· ≤ ·)).2 hin
      rw [ht.onStack, hmem]
      tauto
  · rw [hleave]
    exact fun v hv => ht.visited v ((hmem v).2 (.inr hv))
  · rw [hleave]
    exact ht.sorted.sublist hsublist
  · rw [hleave]
    exact hs.gray_mem
  · rw [hleave]
    intro v hv hvgray w hedge
    by_cases hvnode : v = node
    · rw [hvnode] at hedge
      exact h.looked_visited w hedge
    · exact ht.black v hv (by simp [hvnode, hvgray]) w hedge
  · rw [hdone] at hv ⊢
    rcases hv with hv | hv
    · exact .inl (ht.closed v hv w hedge)
    · exact (hclosed v hv w hedge).symm
  · rw [hleave]
    exact ht.reach.sublist hsublist
  · rw [hleave]
    intro v hv
    obtain ⟨g, hg, hle, hreach⟩ := hs.back v hv
    refine ⟨g, hg, ?_, hreach⟩
    dsimp only
    rw [hold v hv, hold g (hs.gray_mem g hg)]
    exact hle
  · rw [hcycles, hdone, ht.cycles]
    constructor
    · rintro (⟨hm, hrep⟩ | hm)
      · exact ⟨.inl hm, hrep⟩
      · have hin := hnoted m hm.2
        exact ⟨.inr hin, (represents_iff hnodup hin (hcomponent m hin)).2 hm⟩
    · rintro ⟨hm | hin, hrep⟩
      · exact .inl ⟨hm, hrep⟩
      · exact .inr ((represents_iff hnodup hin (hcomponent m hin)).1 hrep)
  · have hfresh : ∀ m ∈ t.cycles, m ∉ above ++ [node] := fun m hm hin =>
      ((ht.cycles m).1 hm).1.2 ((hmem m).2 (.inl hin))
    rw [hleave]
    dsimp only
    split_ifs
    · refine nodup_append.2 ⟨ht.nodup, ?_, fun m hm m' hm' heq => ?_⟩
      · rcases List.head? ((above ++ [node]).insertionSort (· ≤ ·)) with _ | first <;> simp
      · rw [Option.mem_toList] at hm'
        exact hfresh m hm (heq ▸ hnoted m' hm')
    · exact ht.nodup
  · rw [hleave]
    show t.indices node ≠ 0
    rw [h.number]
    omega
  · rw [hleave]
  · rw [hleave]
    show s.index < t.lowlinks node
    rw [hlow, h.number]
    omega

theorem leave_spec : Visited successors gray node s (leave successors t node) := by
  by_cases hlow : t.lowlinks node = t.indices node
  · exact comes_off hs hnode hgray ht h hlow
  · rw [leave, if_pos hlow]
    exact stays ht h hlow

end Leave

section Look

variable {looked : List α} {target : α} (hnode : s.indices node = 0) (ht : Inv successors (node :: gray) t)
  (h : Looking successors node s looked t)

include ht h

theorem Looking.below : ∀ y ∈ node :: s.stack, y ∈ t.stack ∧ t.indices y ≠ 0 := fun y hy => by
  obtain ⟨above, habove, -⟩ := h.stack
  have hmem : y ∈ t.stack := by
    rw [habove]
    exact mem_append_right _ hy
  exact ⟨hmem, ht.visited y hmem⟩

include hnode

theorem looking_visited {t' : State α} (hedge : Edge successors node target) (htarget : t.indices target = 0)
    (hv : Visited successors (node :: gray) target t t') :
    Looking successors node s (looked ++ [target]) (t'.lower node (t'.lowlinks target)) := by
  have hbelow := h.below ht
  have hbounds := h.bounds ht
  have hself : t.indices node ≠ 0 := (hbelow node mem_cons_self).2
  refine h.lower hnode (h.ext.trans hv.ext) (hv.ext.indices node hself) (hv.ext.lowlinks node hself) hv.ext.indices
    (fun y hy => (hbelow y hy).2) ?_ (fun hlt => ?_) hv.visited fun hmem => absurd htarget (hbelow target hmem).2
  · obtain ⟨above, habove, hedges⟩ := h.stack
    rcases hv.low with ⟨hstack, -⟩ | ⟨above', hstack, -, -, hedges'⟩
    · exact ⟨above, hstack.trans habove, fun z hz y hy hedge => .inl (hedges z hz y hy hedge)⟩
    · refine ⟨above' ++ above, by rw [hstack, habove, append_assoc], fun z hz y hy hedge => ?_⟩
      rcases mem_append.1 hz with hz | hz
      · have hle := hedges' z hz y (hbelow y hy).1 hedge
        rw [hv.ext.indices y (hbelow y hy).2] at hle
        exact .inr hle
      · exact .inl (hedges z hz y hy hedge)
  · rcases hv.low with ⟨-, hindex⟩ | ⟨above', -, -, ⟨y, hy, hnumber, hreach⟩, -⟩
    · have := ht.index_le node
      omega
    · rw [hv.ext.indices y (ht.visited y hy)] at hnumber
      refine ⟨y, mem_cons_of_mem _ (hbounds.2 y hy (by omega)), hnumber, ?_⟩
      exact .head hedge hreach

theorem looking_onStack (hedge : Edge successors node target) (htarget : target ∈ t.stack) :
    Looking successors node s (looked ++ [target]) (t.lower node (t.indices target)) := by
  have hbounds := h.bounds ht
  obtain ⟨above, habove, hedges⟩ := h.stack
  refine h.lower hnode h.ext rfl rfl (fun _ _ => rfl) (fun y hy => (h.below ht y hy).2)
    ⟨above, habove, fun z hz y hy hedge => .inl (hedges z hz y hy hedge)⟩ (fun hlt => ?_)
    (ht.visited target htarget) fun _ => .inr le_rfl
  exact ⟨target, mem_cons_of_mem _ (hbounds.2 target htarget (by omega)), rfl, .single hedge⟩

omit hnode in
theorem looking_done (htarget : t.Done target) : Looking successors node s (looked ++ [target]) t := by
  refine ⟨h.ext, h.number, h.stack, h.low, fun w hw => ?_, fun w hw hmem => ?_⟩
  · rcases mem_append.1 hw with hw | hw
    · exact h.looked_visited w hw
    · rw [mem_singleton.1 hw]
      exact htarget.1
  · rcases mem_append.1 hw with hw | hw
    · exact h.looked_low w hw hmem
    · rw [mem_singleton.1 hw] at hmem
      exact absurd (h.below ht target hmem).1 htarget.2

end Look

def unvisited (points : Finset α) (s : State α) : ℕ := (points.filter fun v => s.indices v = 0).card

omit [LinearOrder α] in
theorem unvisited_lt {points : Finset α} (h : Extends s t) (hmem : node ∈ points) (hs : s.indices node = 0)
    (ht : t.indices node ≠ 0) : unvisited points t < unvisited points s := by
  refine Finset.card_lt_card (Finset.ssubset_iff_of_subset (fun v hv => ?_) |>.2 ⟨node, ?_, ?_⟩)
  · rw [Finset.mem_filter] at hv ⊢
    refine ⟨hv.1, ?_⟩
    by_contra hvisited
    rw [h.indices v hvisited] at hv
    exact hvisited hv.2
  · exact Finset.mem_filter.2 ⟨hmem, hs⟩
  · exact fun hfilter => ht (Finset.mem_filter.1 hfilter).2

theorem visit_spec {points : Finset α} (hclosed : ∀ v ∈ points, ∀ w, Edge successors v w → w ∈ points) (depth : ℕ) :
    ∀ {gray : List α} {node : α} {s : State α}, node ∈ points → unvisited points s ≤ depth →
      Inv successors gray s → s.indices node = 0 → (∀ g ∈ gray, Reach successors g node) →
      Visited successors gray node s (visit successors depth node s) := by
  induction depth with
  | zero =>
    intro gray node s hmem hdepth _ hnode _
    have hpos : 0 < unvisited points s := Finset.card_pos.2 ⟨node, Finset.mem_filter.2 ⟨hmem, hnode⟩⟩
    omega
  | succ depth ih =>
    intro gray node s hmem hdepth hs hnode hgray
    have hloop : ∀ (rest looked : List α) (t : State α), (∀ w ∈ rest, Edge successors node w) →
        Inv successors (node :: gray) t → Looking successors node s looked t →
        Inv successors (node :: gray) (rest.foldl (look (visit successors depth) node) t) ∧
          Looking successors node s (looked ++ rest)
            (rest.foldl (look (visit successors depth) node) t) := by
      intro rest
      induction rest with
      | nil => exact fun looked t _ ht h => ⟨ht, by rwa [append_nil]⟩
      | cons target rest ihrest =>
        intro looked t hedges ht h
        obtain ⟨hedge, hedges⟩ := forall_mem_cons.1 hedges
        have hnext : Inv successors (node :: gray) (look (visit successors depth) node t target) ∧
            Looking successors node s (looked ++ [target])
              (look (visit successors depth) node t target) := by
          unfold look
          split_ifs with hzero hstack
          · have hless := unvisited_lt h.ext hmem hnode (h.below ht node mem_cons_self).2
            have hvisit := ih (hclosed node hmem target hedge) (by omega) ht hzero fun g hg => by
              rcases mem_cons.1 hg with rfl | hg
              · exact .single hedge
              · exact (hgray g hg).tail hedge
            exact ⟨hvisit.inv.lower _, looking_visited hnode ht h hedge hzero hvisit⟩
          · exact ⟨ht.lower _, looking_onStack hnode ht h hedge ((ht.onStack target).1 hstack)⟩
          · exact ⟨ht, looking_done ht h ⟨hzero, fun hin => hstack ((ht.onStack target).2 hin)⟩⟩
        have hrest := ihrest (looked ++ [target]) _ hedges hnext.1 hnext.2
        rwa [append_assoc, singleton_append] at hrest
    obtain ⟨ht, h⟩ := hloop (successors node) [] (s.enter node) (fun w hw => hw) (hs.enter hnode hgray)
      (looking_start hnode)
    exact leave_spec hs hnode hgray ht h

theorem inv_start : Inv successors [] (State.start α) := by
  refine ⟨fun _ => le_rfl, by simp [State.start], by simp [State.start], .nil, by simp, ?_, ?_, .nil,
    by simp [State.start], ?_, .nil⟩
  · exact fun v hv => absurd rfl hv
  · exact fun v hv => absurd rfl hv.1
  · exact fun m => iff_of_false (by simp [State.start]) fun h => h.1.1 rfl

theorem Inv.stack_nil (h : Inv successors [] s) : s.stack = [] := by
  refine eq_nil_iff_forall_not_mem.2 fun v hv => ?_
  obtain ⟨g, hg, -⟩ := h.back v hv
  cases hg

theorem search_spec {points : Finset α} {nodes : List α} {depth : ℕ}
    (hclosed : ∀ v ∈ points, ∀ w, Edge successors v w → w ∈ points) (hnodes : ∀ v, v ∈ nodes ↔ v ∈ points)
    (hdepth : points.card ≤ depth) : (search successors depth nodes).cycles.Nodup ∧
      (∀ m ∈ (search successors depth nodes).cycles, Represents successors m) ∧
      ∀ m ∈ points, Represents successors m → m ∈ (search successors depth nodes).cycles := by
  have hless : ∀ s : State α, unvisited points s ≤ depth := fun s => (Finset.card_filter_le _ _).trans hdepth
  let step : State α → α → State α := fun s node => if s.indices node = 0 then visit successors depth node s else s
  have hstep : ∀ (s : State α) (node : α), node ∈ points → Inv successors [] s → Inv successors [] (step s node) ∧
      Extends s (step s node) ∧ (step s node).indices node ≠ 0 := by
    intro s node hmem hs
    show Inv successors [] (ite _ _ _) ∧ Extends s (ite _ _ _) ∧ (ite _ _ _ : State α).indices node ≠ 0
    split_ifs with hzero
    · have hvisit := visit_spec hclosed depth hmem (hless s) hs hzero (by simp)
      exact ⟨hvisit.inv, hvisit.ext, hvisit.visited⟩
    · exact ⟨hs, .refl s, hzero⟩
  have hloop : ∀ (rest : List α) (s : State α), (∀ v ∈ rest, v ∈ points) → Inv successors [] s →
      Inv successors [] (rest.foldl step s) ∧ Extends s (rest.foldl step s) ∧
        ∀ v ∈ rest, (rest.foldl step s).indices v ≠ 0 := by
    intro rest
    induction rest with
    | nil => exact fun s _ hs => ⟨hs, .refl s, by simp⟩
    | cons node rest ih =>
      intro s hrest hs
      obtain ⟨hnode, hrest⟩ := forall_mem_cons.1 hrest
      obtain ⟨hinv, hext, hvisited⟩ := hstep s node hnode hs
      obtain ⟨hinv', hext', hvisited'⟩ := ih (step s node) hrest hinv
      refine ⟨hinv', hext.trans hext', forall_mem_cons.2 ⟨?_, hvisited'⟩⟩
      rw [foldl_cons, hext'.indices node hvisited]
      exact hvisited
  obtain ⟨hinv, -, hvisited⟩ := hloop nodes (.start α) (fun v hv => (hnodes v).1 hv) inv_start
  refine ⟨hinv.nodup, fun m hm => ((hinv.cycles m).1 hm).2, fun m hm hrep => (hinv.cycles m).2 ⟨⟨?_, ?_⟩, hrep⟩⟩
  · exact hvisited m ((hnodes m).2 hm)
  · rw [Inv.stack_nil hinv]
    exact not_mem_nil

end Tarjan

end AiOrg
