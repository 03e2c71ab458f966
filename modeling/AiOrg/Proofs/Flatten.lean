import AiOrg.FlatReview.Encode
import AiOrg.Proofs.Admission

/-!
# Rows

The rows of a carrier are its leaves with their paths, each once (`mem_flattenTo`): different paths
have different pointers. So carriers have the same rows when they have the same leaves at the same
paths (`sortedRows_eq_iff`).
-/

namespace AiOrg

open List

namespace FlatReview

open StrictJson (Node joinPointer escape replaceAll)
open SchemaGuard (elementPlaces memberPlaces)

section Paths

variable {node child value leaf : Node} {token : String} {path : List String}

theorem isLeaf_object {members : List (String × Node)} : IsLeaf (.object members) ↔ members = [] :=
  Iff.rfl

theorem isLeaf_array {elements : List Node} : IsLeaf (.array elements) ↔ elements = [] := by
  simp [IsLeaf, children]

theorem mem_children_array {elements : List Node} :
    (token, child) ∈ children (.array elements) ↔
      ∃ i : ℕ, elements[i]? = some child ∧ toString i = token := by
  simp only [children, mem_map, Prod.mk.injEq, Prod.exists, mem_zipIdx_iff_getElem?]
  constructor
  · rintro ⟨_, i, hi, rfl, rfl⟩
    exact ⟨i, hi, rfl⟩
  · rintro ⟨i, hi, rfl⟩
    exact ⟨child, i, hi, rfl, rfl⟩

theorem distinct_of_child (h : node.Distinct) (hchild : (token, child) ∈ children node) :
    child.Distinct := by
  cases node with
  | object members => exact h.of_mem hchild
  | array elements =>
    obtain ⟨i, hi, -⟩ := mem_children_array.1 hchild
    exact h.of_mem_array (mem_of_getElem? hi)
  | _ => cases hchild

theorem depth_lt_of_child (hchild : (token, child) ∈ children node) : child.depth < node.depth := by
  cases node with
  | object members => exact @Node.depth_lt_of_mem (.object members) _ _ hchild
  | array elements =>
    obtain ⟨i, hi, -⟩ := mem_children_array.1 hchild
    exact Node.depth_lt_of_mem_array (mem_of_getElem? hi)
  | _ => cases hchild

theorem children_nodup (h : node.Distinct) : ((children node).map (·.1)).Nodup := by
  cases node with
  | object members => exact h.nodup
  | array elements =>
    have hnames : (children (.array elements)).map (·.1) =
        (elements.zipIdx.map Prod.snd).map toString := by
      rw [children, map_map, map_map]
      rfl
    rw [hnames, zipIdx_map_snd]
    exact (nodup_range' 1).map fun _ _ => Nat.repr_inj.1
  | _ => exact nodup_nil

theorem lookup_children (h : node.Distinct) :
    (children node).lookup token = some child ↔ (token, child) ∈ children node :=
  ⟨mem_of_lookup, lookup_of_mem (children_nodup h)⟩

theorem valueAt_cons (h : node.Distinct) : valueAt node (token :: path) = some value ↔
    ∃ child, (token, child) ∈ children node ∧ valueAt child path = some value := by
  simp only [valueAt, Option.bind_eq_some_iff, lookup_children h]

theorem valueAt_leaf (h : IsLeaf node) : valueAt node path = some value ↔
    path = [] ∧ value = node := by
  cases path with
  | nil => simp [valueAt, eq_comm]
  | cons token path =>
    have hnone : valueAt node (token :: path) = none := by
      rw [valueAt, show children node = [] from h]
      rfl
    simp [hnone]

theorem exists_leaf (h : node.Distinct) :
    ∃ path leaf, IsLeaf leaf ∧ valueAt node path = some leaf := by
  induction hdepth : node.depth using Nat.strong_induction_on generalizing node with
  | _ depth ih =>
    by_cases hleaf : IsLeaf node
    · exact ⟨[], node, hleaf, rfl⟩
    · obtain ⟨⟨token, child⟩, hchild⟩ := exists_mem_of_ne_nil _ hleaf
      obtain ⟨path, leaf, hleaf, hvalue⟩ := ih child.depth (hdepth ▸ depth_lt_of_child hchild)
        (distinct_of_child h hchild) rfl
      exact ⟨token :: path, leaf, hleaf, (valueAt_cons h).2 ⟨child, hchild, hvalue⟩⟩

end Paths

section Pointers

variable {path other : List String} {base : String}

def escapeTokenChar (c : Char) : List Char :=
  if c = '~' then ['~', '0'] else if c = '/' then ['~', '1'] else [c]

theorem escape_eq (token : String) : escape token = token.toList.flatMap escapeTokenChar := by
  have hchar : ∀ c, (if c = '~' then "~0".toList else [c]).flatMap
      (fun c => if c = '/' then "~1".toList else [c]) = escapeTokenChar c := by
    intro c
    unfold escapeTokenChar
    split_ifs with htilde hslash <;> simp_all
  unfold escape replaceAll
  rw [flatMap_assoc]
  exact congrArg (fun f => token.toList.flatMap f) (funext hchar)

theorem escapeTokenChar_prefixFree : Coding.PrefixFree escapeTokenChar := by
  intro c d s t h
  unfold escapeTokenChar at h
  split_ifs at h with h1 h2 h3 h4 h5 h6 <;>
    simp only [cons_append, nil_append, List.cons.injEq, true_and] at h
  · exact ⟨h1.trans h2.symm, h⟩
  · exact absurd h.1 (by decide)
  · exact absurd h.1.symm h2
  · exact absurd h.1 (by decide)
  · exact ⟨h4.trans h6.symm, h⟩
  · exact absurd h.1.symm h5
  · exact absurd h.1 h1
  · exact absurd h.1 h1
  · exact h

theorem escape_injective : Function.Injective escape := by
  intro a b h
  rw [escape_eq, escape_eq] at h
  have hne : ∀ c, escapeTokenChar c ≠ [] := fun c => by
    unfold escapeTokenChar
    split_ifs <;> simp
  exact String.toList_inj.1 (escapeTokenChar_prefixFree.flatMap_injective hne h)

theorem slash_not_mem_escape (token : String) : '/' ∉ escape token := by
  rw [escape_eq]
  intro hmem
  obtain ⟨c, -, hc⟩ := mem_flatMap.1 hmem
  unfold escapeTokenChar at hc
  split_ifs at hc with htilde hslash
  · simp at hc
  · simp at hc
  · exact hslash (mem_singleton.1 hc).symm

theorem toList_pointer (path : List String) (base : String) :
    (path.foldl joinPointer base).toList = base.toList ++ (path.map escape).flatMap ('/' :: ·) := by
  induction path generalizing base with
  | nil => simp
  | cons token path ih =>
    rw [foldl_cons, ih, joinPointer, map_cons, flatMap_cons]
    simp

theorem pointer_injective (h : path.foldl joinPointer base = other.foldl joinPointer base) :
    path = other := by
  have htext := congrArg String.toList h
  rw [toList_pointer, toList_pointer] at htext
  have hslash : ∀ path : List String, ∀ text ∈ path.map escape, '/' ∉ text := by
    rintro path text htext
    obtain ⟨token, -, rfl⟩ := mem_map.1 htext
    exact slash_not_mem_escape token
  exact map_injective_iff.2 escape_injective
    (Coding.separated_injective (hslash path) (hslash other) (append_cancel_left htext))

end Pointers

section Rows

variable {node a b : Node} {depth : ℕ} {pointer : String} {row : Row}

def rowAt (pointer : String) (path : List String) (leaf : Node) : Row :=
  ⟨path.foldl joinPointer pointer, leaf⟩

theorem flattenTo_leaf (h : IsLeaf node) : flattenTo (depth + 1) node pointer = [⟨pointer, node⟩] := by
  cases node with
  | object members =>
    obtain rfl := isLeaf_object.1 h
    rfl
  | array elements =>
    obtain rfl := isLeaf_array.1 h
    rfl
  | _ => rfl

theorem flattenTo_children (h : ¬ IsLeaf node) :
    ∃ places : List (String × Node), places.Perm (children node) ∧
    flattenTo (depth + 1) node pointer =
      places.flatMap fun place => flattenTo depth place.2 (joinPointer pointer place.1) := by
  cases node with
  | object members =>
    have hperm := (Node.object members).sortedMembers_perm
    have hne : (Node.object members).sortedMembers ≠ [] := fun hnil => by
      rw [hnil, nil_perm] at hperm
      exact h (isLeaf_object.2 hperm)
    refine ⟨_, hperm, ?_⟩
    rw [flattenTo, if_neg hne, memberPlaces, flatMap_map]
  | array elements =>
    refine ⟨children (.array elements), List.Perm.refl _, ?_⟩
    rw [flattenTo, if_neg (isLeaf_array.not.1 h), elementPlaces, children, flatMap_map,
      flatMap_map]
  | _ => exact absurd rfl h

theorem mem_flattenTo (hdepth : node.depth ≤ depth) (h : node.Distinct) :
    row ∈ flattenTo depth node pointer ↔ ∃ path leaf, IsLeaf leaf ∧
      valueAt node path = some leaf ∧ row = rowAt pointer path leaf := by
  induction depth generalizing node pointer with
  | zero =>
    have := node.one_le_depth
    omega
  | succ depth ih =>
    by_cases hleaf : IsLeaf node
    · rw [flattenTo_leaf hleaf, mem_singleton]
      constructor
      · rintro rfl
        exact ⟨[], node, hleaf, rfl, rfl⟩
      · rintro ⟨path, leaf, -, hvalue, rfl⟩
        obtain ⟨rfl, rfl⟩ := (valueAt_leaf hleaf).1 hvalue
        rfl
    · obtain ⟨places, hperm, hplaces⟩ := @flattenTo_children node depth pointer hleaf
      have hchild : ∀ place ∈ children node, (row ∈ flattenTo depth place.2 (joinPointer pointer place.1) ↔
          ∃ path leaf, IsLeaf leaf ∧ valueAt place.2 path = some leaf ∧
            row = rowAt (joinPointer pointer place.1) path leaf) := fun place hplace => by
        have hlt := depth_lt_of_child hplace
        exact ih (by omega) (distinct_of_child h hplace)
      rw [hplaces, mem_flatMap]
      constructor
      · rintro ⟨place, hplace, hrow⟩
        have hmem := hperm.mem_iff.1 hplace
        obtain ⟨path, leaf, hleaf, hvalue, rfl⟩ := (hchild place hmem).1 hrow
        exact ⟨place.1 :: path, leaf, hleaf, (valueAt_cons h).2 ⟨place.2, hmem, hvalue⟩, rfl⟩
      · rintro ⟨path, leaf, hrowLeaf, hvalue, rfl⟩
        rcases path with _ | ⟨token, path⟩
        · cases hvalue
          exact absurd hrowLeaf hleaf
        · obtain ⟨child, hmem, hvalue⟩ := (valueAt_cons h).1 hvalue
          exact ⟨(token, child), hperm.mem_iff.2 hmem,
            (hchild _ hmem).2 ⟨path, leaf, hrowLeaf, hvalue, rfl⟩⟩

theorem nodup_flattenTo (hdepth : node.depth ≤ depth) (h : node.Distinct) :
    (flattenTo depth node pointer).Nodup := by
  induction depth generalizing node pointer with
  | zero =>
    have := node.one_le_depth
    omega
  | succ depth ih =>
    by_cases hleaf : IsLeaf node
    · rw [flattenTo_leaf hleaf]
      exact nodup_singleton _
    · obtain ⟨places, hperm, hplaces⟩ := @flattenTo_children node depth pointer hleaf
      have hfit : ∀ place ∈ places, place.2.depth ≤ depth ∧ place.2.Distinct := fun place hplace => by
        have hmem := hperm.mem_iff.1 hplace
        have hlt := depth_lt_of_child hmem
        exact ⟨by omega, distinct_of_child h hmem⟩
      rw [hplaces, nodup_flatMap]
      refine ⟨fun place hplace => ih (hfit place hplace).1 (hfit place hplace).2, ?_⟩
      have hnames : places.Pairwise fun p q => p.1 ≠ q.1 :=
        pairwise_map.1 ((hperm.map _).nodup_iff.2 (children_nodup h))
      refine hnames.imp_of_mem fun {p q} hp hq hne row hrow hrow' => hne ?_
      obtain ⟨path, leaf, -, -, rfl⟩ := (mem_flattenTo (hfit p hp).1 (hfit p hp).2).1 hrow
      obtain ⟨other, leaf', -, -, heq⟩ := (mem_flattenTo (hfit q hq).1 (hfit q hq).2).1 hrow'
      have hpath : p.1 :: path = q.1 :: other :=
        @pointer_injective _ _ pointer (Row.mk.inj heq).1
      exact (List.cons.inj hpath).1

theorem mem_sortedRows (h : node.Distinct) : row ∈ sortedRows node ↔ ∃ path leaf, IsLeaf leaf ∧
    valueAt node path = some leaf ∧ row = rowAt "" path leaf := by
  rw [sortedRows, mem_insertionSort]
  exact mem_flattenTo le_rfl h

theorem sortedRows_strict (h : node.Distinct) :
    (sortedRows node).Pairwise fun p q => p.pointer < q.pointer := by
  have hsorted : (sortedRows node).Pairwise fun p q => p.pointer ≤ q.pointer :=
    have : IsTrans Row fun p q => p.pointer ≤ q.pointer := ⟨fun _ _ _ => le_trans⟩
    have : Std.Total fun p q : Row => p.pointer ≤ q.pointer := ⟨fun _ _ => le_total _ _⟩
    pairwise_insertionSort _ _
  have hnodup : (sortedRows node).Nodup :=
    (perm_insertionSort _ _).nodup_iff.2 (nodup_flattenTo le_rfl h)
  refine (hsorted.and hnodup).imp_of_mem fun {p q} hp hq hpq => lt_of_le_of_ne hpq.1 fun heq => hpq.2 ?_
  obtain ⟨path, leaf, -, hvalue, rfl⟩ := (mem_sortedRows h).1 hp
  obtain ⟨other, leaf', -, hvalue', rfl⟩ := (mem_sortedRows h).1 hq
  obtain rfl := pointer_injective heq
  rw [Option.eq_some_unique hvalue hvalue']

/-- Carriers have the same rows when they have the same leaves at the same paths. -/
theorem sortedRows_eq_iff (ha : a.Distinct) (hb : b.Distinct) :
    sortedRows a = sortedRows b ↔ Alike a b := by
  have hmem : ∀ {node : Node}, node.Distinct → ∀ path leaf, IsLeaf leaf →
      (rowAt "" path leaf ∈ sortedRows node ↔ valueAt node path = some leaf) := by
    intro node h path leaf hleaf
    rw [mem_sortedRows h]
    constructor
    · rintro ⟨other, leaf', -, hvalue, heq⟩
      obtain ⟨hpointer, rfl⟩ := Row.mk.inj heq
      rw [pointer_injective hpointer, hvalue]
    · exact fun hvalue => ⟨path, leaf, hleaf, hvalue, rfl⟩
  constructor
  · intro heq path leaf hleaf
    rw [← hmem ha path leaf hleaf, ← hmem hb path leaf hleaf, heq]
  · intro halike
    have hsame : ∀ row, row ∈ sortedRows a ↔ row ∈ sortedRows b := fun row => by
      rw [mem_sortedRows ha, mem_sortedRows hb]
      exact exists₂_congr fun path leaf => and_congr_right fun hleaf =>
        and_congr_left fun _ => halike path leaf hleaf
    have hne : ∀ {node : Node}, node.Distinct → (sortedRows node).Nodup := fun h =>
      (sortedRows_strict h).imp fun hlt heq => (heq ▸ hlt).false
    have hperm := (perm_ext_iff_of_nodup (hne ha) (hne hb)).2 hsame
    refine hperm.eq_of_pairwise (fun p q _ _ hpq hqp => ?_) (sortedRows_strict ha)
      (sortedRows_strict hb)
    exact absurd (hpq.trans hqp) (lt_irrefl _)

end Rows

end FlatReview

end AiOrg
