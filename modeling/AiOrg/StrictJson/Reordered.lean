import AiOrg.Proofs.Admission
import AiOrg.Proofs.Decimal

/-!
# Equality of parsed values

Trees that differ in the order of members only (`Reordered`). `Equal` decides on parsed trees whether they are the same
value (`equal_iff`), which is an equivalence that the order of members has no part in (`equal_laws`).
-/

namespace AiOrg

open List

namespace StrictJson

open GoJson (isValidNumber)

/-- The values differ at most in the order in which objects have their members. -/
inductive Reordered : Node → Node → Prop
  | null : Reordered .null .null
  | bool {value : Bool} : Reordered (.bool value) (.bool value)
  | number {text : String} : Reordered (.number text) (.number text)
  | string {text : String} : Reordered (.string text) (.string text)
  | array {as bs : List Node} : as.length = bs.length →
      (∀ elements ∈ as.zip bs, Reordered elements.1 elements.2) → Reordered (.array as) (.array bs)
  | object {as bs : List (String × Node)} (cs : List (String × Node)) : as.map (·.1) = cs.map (·.1) →
      (∀ members ∈ as.zip cs, Reordered members.1.2 members.2.2) → cs.Perm bs →
      Reordered (.object as) (.object bs)

namespace Node

theorem Distinct.of_member {members : List (String × Node)} {member : String × Node}
    (h : (Node.object members).Distinct) (hmem : member ∈ members) : member.2.Distinct := by
  cases h with
  | object _ hmembers => exact hmembers _ hmem

theorem ValidNumbers.of_mem {members : List (String × Node)} {member : String × Node}
    (h : (Node.object members).ValidNumbers) (hmem : member ∈ members) : member.2.ValidNumbers := by
  cases h with
  | object hmembers => exact hmembers _ hmem

theorem ValidNumbers.of_mem_array {elements : List Node} {value : Node}
    (h : (Node.array elements).ValidNumbers) (hmem : value ∈ elements) : value.ValidNumbers := by
  cases h with
  | array helements => exact helements _ hmem

end Node

/-- What the strict parser makes of some bytes. -/
def Parsed (n : Node) : Prop := ∃ src, Parse GoJson.source src = .ok n

theorem Parsed.distinct {n : Node} (h : Parsed n) : n.Distinct := by
  obtain ⟨src, hparse⟩ := h
  exact parse_distinct hparse

theorem Parsed.validNumbers {n : Node} (h : Parsed n) : n.ValidNumbers := by
  obtain ⟨src, hparse⟩ := h
  obtain ⟨-, b, hbuilt, -⟩ := parse_ok hparse
  exact (((build_spec _).1 hbuilt).1 fun text stop hmem => GoJson.lexemesFrom_number hmem).1

/-! ### The same value -/

section Same

variable {a b c : Node}

theorem Denotes.unique {text : String} {p q : ℚ} (hp : Denotes text p) (hq : Denotes text q) : p = q := by
  obtain ⟨d, hd, rfl⟩ := denotes_iff.1 hp
  obtain ⟨e, he, rfl⟩ := denotes_iff.1 hq
  rw [Option.eq_some_unique hd he]

theorem SameValue.object_of_exists {as bs : List (String × Node)} (hlength : as.length = bs.length)
    (h : ∀ member ∈ as, ∃ value, (member.1, value) ∈ bs ∧ SameValue member.2 value) :
    SameValue (.object as) (.object bs) := by
  classical
  refine .object (fun member => if hm : member ∈ as then (h member hm).choose else .null) hlength
    (fun member hmember => ?_) fun member hmember => ?_
  · rw [dif_pos hmember]
    exact (h member hmember).choose_spec.1
  · rw [dif_pos hmember]
    exact (h member hmember).choose_spec.2

theorem SameValue.refl (h : a.ValidNumbers) : SameValue a a := by
  induction h with
  | null => exact .null
  | bool => exact .bool
  | number hvalid =>
    obtain ⟨q, hq⟩ := GoJson.denotes_of_isValidNumber hvalid
    exact .number hq hq
  | string => exact .string
  | array _ ih =>
    refine .array rfl fun elements helements => ?_
    obtain ⟨i, hi⟩ := mem_iff_getElem?.1 helements
    obtain ⟨hx, hy⟩ := getElem?_zip_eq_some.1 hi
    rw [← Option.eq_some_unique hx hy]
    exact ih _ (mem_of_getElem? hx)
  | object _ ih => exact .object_of_exists rfl fun member hmember => ⟨member.2, hmember, ih member hmember⟩

theorem value_unique {members : List (String × Node)} {name : String} {x y : Node}
    (h : (members.map (·.1)).Nodup) (hx : (name, x) ∈ members) (hy : (name, y) ∈ members) : x = y :=
  Option.some.inj ((lookup_of_mem h hx).symm.trans (lookup_of_mem h hy))

theorem swap_mem_zip {α β : Type*} {as : List α} {bs : List β} {pair : β × α} (h : pair ∈ bs.zip as) :
    (pair.2, pair.1) ∈ as.zip bs := by
  rw [← zip_swap]
  exact mem_map.2 ⟨pair, h, rfl⟩

theorem names_perm {as bs : List (String × Node)} (has : (as.map (·.1)).Nodup)
    (hlength : as.length = bs.length) (h : ∀ member ∈ as, ∃ value, (member.1, value) ∈ bs) :
    (as.map (·.1)).Perm (bs.map (·.1)) := by
  refine (subperm_of_subset has fun name hname => ?_).perm_of_length_le (by simp [hlength])
  obtain ⟨member, hmember, rfl⟩ := mem_map.1 hname
  obtain ⟨value, hvalue⟩ := h member hmember
  exact mem_map.2 ⟨_, hvalue, rfl⟩

theorem SameValue.symm (h : SameValue a b) (ha : a.Distinct) (hb : b.Distinct) : SameValue b a := by
  induction h with
  | null => exact .null
  | bool => exact .bool
  | number hp hq => exact .number hq hp
  | string => exact .string
  | array hlength helements ih =>
    refine .array hlength.symm fun elements hmem => ?_
    have hswap := swap_mem_zip hmem
    exact ih _ hswap (ha.of_mem_array (of_mem_zip hswap).1) (hb.of_mem_array (of_mem_zip hswap).2)
  | @object as bs pair hlength hpair _ ih =>
    refine .object_of_exists hlength.symm fun member hmember => ?_
    have hname : member.1 ∈ as.map (·.1) :=
      (names_perm ha.nodup hlength fun member hm => ⟨_, hpair member hm⟩).mem_iff.2
        (mem_map_of_mem hmember)
    obtain ⟨other, hother, heq⟩ := mem_map.1 hname
    have hvalue : pair other = member.2 := by
      have hpaired := hpair other hother
      rw [heq] at hpaired
      exact value_unique hb.nodup hpaired hmember
    refine ⟨other.2, by rw [← heq]; exact hother, ?_⟩
    rw [← hvalue]
    exact ih other hother (ha.of_member hother) (hb.of_mem (hpair other hother))

theorem SameValue.trans (h : SameValue a b) (h' : SameValue b c) : SameValue a c := by
  induction h generalizing c with
  | null => exact h'
  | bool => exact h'
  | number hp hq =>
    cases h' with
    | number hq' hr => exact .number hp (hq.unique hq' ▸ hr)
  | string => exact h'
  | @array as bs hlength helements ih =>
    cases h' with
    | @array _ cs hlength' helements' =>
      refine .array (hlength.trans hlength') fun elements hmem => ?_
      obtain ⟨i, hi⟩ := mem_iff_getElem?.1 hmem
      obtain ⟨hx, hz⟩ := getElem?_zip_eq_some.1 hi
      have hlt : i < bs.length := hlength ▸ (List.getElem?_eq_some_iff.1 hx).1
      have hy := getElem?_eq_getElem hlt
      exact ih (elements.1, bs[i]) (mem_of_getElem? (getElem?_zip_eq_some.2 ⟨hx, hy⟩))
        (helements' (bs[i], elements.2) (mem_of_getElem? (getElem?_zip_eq_some.2 ⟨hy, hz⟩)))
  | object pair hlength hpair _ ih =>
    cases h' with
    | object pair' hlength' hpair' hmembers' =>
      refine .object_of_exists (hlength.trans hlength') fun member hmember => ?_
      have hmiddle := hpair member hmember
      exact ⟨pair' (member.1, pair member), hpair' (member.1, pair member) hmiddle,
        ih member hmember (hmembers' (member.1, pair member) hmiddle)⟩

theorem names_eq_iff {as bs : List (String × Node)} : as.map (·.1) = bs.map (·.1) ↔
    as.length = bs.length ∧ ∀ members ∈ as.zip bs, members.1.1 = members.2.1 := by
  rw [← forall₂_eq_eq_eq, forall₂_map_left_iff, forall₂_map_right_iff, forall₂_iff_zip]
  simp only [Prod.forall]

theorem exists_zip {as cs : List (String × Node)} {member : String × Node}
    (hnames : as.map (·.1) = cs.map (·.1)) (hmember : member ∈ as) :
    ∃ value, (member, (member.1, value)) ∈ as.zip cs := by
  obtain ⟨i, hi⟩ := mem_iff_getElem?.1 hmember
  have hname : (as.map (·.1))[i]? = some member.1 := by rw [getElem?_map, hi, Option.map_some]
  rw [hnames, getElem?_map] at hname
  obtain ⟨other, hother, heq⟩ := Option.map_eq_some_iff.1 hname
  refine ⟨other.2, mem_of_getElem? (getElem?_zip_eq_some.2 ⟨hi, ?_⟩)⟩
  rw [hother, ← heq]

theorem mem_zip_right {α β : Type*} {as : List α} {bs : List β} (hlength : as.length = bs.length) {b : β} (h : b ∈ bs) :
    ∃ a, (a, b) ∈ as.zip bs := by
  obtain ⟨i, hi⟩ := mem_iff_getElem?.1 h
  have hlt := hlength ▸ (List.getElem?_eq_some_iff.1 hi).1
  exact ⟨_, mem_of_getElem? (getElem?_zip_eq_some.2 ⟨getElem?_eq_getElem hlt, hi⟩)⟩

theorem Reordered.sameValue (h : Reordered a b) (ha : a.ValidNumbers) : SameValue a b := by
  induction h with
  | null => exact .null
  | bool => exact .bool
  | number => exact .refl ha
  | string => exact .string
  | array hlength _ ih =>
    exact .array hlength fun elements hmem => ih elements hmem (ha.of_mem_array (of_mem_zip hmem).1)
  | @object as bs cs hnames _ hperm ih =>
    have hlength : as.length = cs.length := by simpa using congrArg List.length hnames
    refine .object_of_exists (hlength.trans hperm.length_eq) fun member hmember => ?_
    obtain ⟨value, hzip⟩ := exists_zip hnames hmember
    exact ⟨value, hperm.mem_iff.1 (of_mem_zip hzip).2, ih _ hzip (ha.of_mem hmember)⟩

theorem Reordered.distinct (h : Reordered a b) (ha : a.Distinct) : b.Distinct := by
  induction h with
  | null => exact .null
  | bool => exact .bool
  | number => exact .number
  | string => exact .string
  | array hlength _ ih =>
    refine .array fun element helement => ?_
    obtain ⟨other, hzip⟩ := mem_zip_right hlength helement
    exact ih _ hzip (ha.of_mem_array (of_mem_zip hzip).1)
  | object cs hnames _ hperm ih =>
    refine .object ((hperm.map _).nodup_iff.1 (hnames ▸ ha.nodup)) fun member hmember => ?_
    obtain ⟨value, hzip⟩ := exists_zip hnames.symm (hperm.mem_iff.2 hmember)
    have hswap := swap_mem_zip hzip
    exact ih _ hswap (ha.of_member (of_mem_zip hswap).1)

theorem Reordered.validNumbers (h : Reordered a b) (ha : a.ValidNumbers) : b.ValidNumbers := by
  induction h with
  | null => exact .null
  | bool => exact .bool
  | number => exact ha
  | string => exact .string
  | array hlength _ ih =>
    refine .array fun element helement => ?_
    obtain ⟨other, hzip⟩ := mem_zip_right hlength helement
    exact ih _ hzip (ha.of_mem_array (of_mem_zip hzip).1)
  | object cs hnames _ hperm ih =>
    refine .object fun member hmember => ?_
    obtain ⟨value, hzip⟩ := exists_zip hnames.symm (hperm.mem_iff.2 hmember)
    have hswap := swap_mem_zip hzip
    exact ih _ hswap (ha.of_mem (of_mem_zip hswap).1)

theorem sorted_names {as bs : List (String × Node)} (hperm : (as.map (·.1)).Perm (bs.map (·.1))) :
    (Node.object as).sortedMembers.map (·.1) = (Node.object bs).sortedMembers.map (·.1) := by
  have hsorted : ∀ members : List (String × Node),
      ((Node.object members).sortedMembers.map (·.1)).Pairwise (· ≤ ·) := fun members =>
    pairwise_map.2 (pairwise_insertionSort (fun a b : String × Node => a.1 ≤ b.1) members)
  refine List.Perm.eq_of_pairwise (fun _ _ _ _ => le_antisymm) (hsorted as) (hsorted bs) ?_
  exact (((Node.object as).sortedMembers_perm.map _).trans hperm).trans
    ((Node.object bs).sortedMembers_perm.map _).symm

theorem equalTo_iff {depth : ℕ} (hdepth : a.depth ≤ depth) (ha : a.Distinct) (hb : b.Distinct) :
    equalTo depth a b = true ↔ SameValue a b := by
  induction depth generalizing a b with
  | zero => exact absurd hdepth (by have := a.one_le_depth; omega)
  | succ depth ih =>
    cases a with
    | null => cases b <;> simp [equalTo] <;> first | exact .null | (intro h; cases h)
    | bool value =>
      cases b with
      | bool other =>
        rw [equalTo, beq_iff_eq]
        constructor
        · rintro rfl
          exact .bool
        · intro h
          cases h
          rfl
      | _ => exact iff_of_false (by simp [equalTo]) (by intro h; cases h)
    | number text =>
      cases b with
      | number other =>
        rw [equalTo, numberEqual_iff]
        constructor
        · rintro ⟨q, hp, hq⟩
          exact .number hp hq
        · intro h
          cases h with
          | number hp hq => exact ⟨_, hp, hq⟩
      | _ => exact iff_of_false (by simp [equalTo]) (by intro h; cases h)
    | string text =>
      cases b with
      | string other =>
        rw [equalTo, beq_iff_eq]
        constructor
        · rintro rfl
          exact .string
        · intro h
          cases h
          rfl
      | _ => exact iff_of_false (by simp [equalTo]) (by intro h; cases h)
    | array as =>
      cases b with
      | array bs =>
        have hsame : ∀ elements ∈ as.zip bs, equalTo depth elements.1 elements.2 = true ↔
            SameValue elements.1 elements.2 := fun elements hmem => by
          have hlt := Node.depth_lt_of_mem_array (of_mem_zip hmem).1
          exact ih (by omega) (ha.of_mem_array (of_mem_zip hmem).1) (hb.of_mem_array (of_mem_zip hmem).2)
        rw [equalTo, Bool.and_eq_true, beq_iff_eq, all_eq_true]
        constructor
        · rintro ⟨hlength, hall⟩
          exact .array hlength fun elements hmem => (hsame elements hmem).1 (hall elements hmem)
        · intro h
          cases h with
          | array hlength hall => exact ⟨hlength, fun elements hmem => (hsame elements hmem).2 (hall elements hmem)⟩
      | _ => exact iff_of_false (by simp [equalTo]) (by intro h; cases h)
    | object as =>
      cases b with
      | object bs =>
        have hsame : ∀ x ∈ as, ∀ y ∈ bs, equalTo depth x.2 y.2 = true ↔ SameValue x.2 y.2 := fun x hx y hy => by
          have hlt := @Node.depth_lt_of_mem (.object as) x.2 x.1 hx
          exact ih (by omega) (ha.of_member hx) (hb.of_member hy)
        have hsorted : ∀ members ∈ (Node.object as).sortedMembers.zip (Node.object bs).sortedMembers,
            members.1 ∈ as ∧ members.2 ∈ bs := fun members hmem =>
          ⟨Node.mem_sortedMembers.1 (of_mem_zip hmem).1, Node.mem_sortedMembers.1 (of_mem_zip hmem).2⟩
        rw [equalTo, Bool.and_eq_true, beq_iff_eq, all_eq_true]
        simp only [Bool.and_eq_true, beq_iff_eq]
        constructor
        · rintro ⟨hlength, hall⟩
          have hnames := names_eq_iff.2 ⟨?_, fun members hmem => (hall members hmem).1⟩
          swap
          · rw [(Node.sortedMembers_perm _).length_eq, (Node.sortedMembers_perm _).length_eq]
            exact hlength
          refine .object_of_exists hlength fun member hmember => ?_
          obtain ⟨value, hzip⟩ := exists_zip hnames (Node.mem_sortedMembers.2 hmember)
          exact ⟨value, (hsorted _ hzip).2, (hsame _ hmember _ (hsorted _ hzip).2).1 (hall _ hzip).2⟩
        · intro h
          cases h with
          | object pair hlength hpair hmembers =>
            have hnames := sorted_names (names_perm ha.nodup hlength fun member hmember =>
              ⟨_, hpair member hmember⟩)
            refine ⟨hlength, fun members hmem => ?_⟩
            obtain ⟨hx, hy⟩ := hsorted members hmem
            have hname := (names_eq_iff.1 hnames).2 members hmem
            have hvalue : pair members.1 = members.2.2 := by
              refine value_unique hb.nodup (hpair _ hx) ?_
              rw [hname]
              exact hy
            refine ⟨hname, (hsame _ hx _ hy).2 ?_⟩
            rw [← hvalue]
            exact hmembers _ hx
      | _ => exact iff_of_false (by simp [equalTo]) (by intro h; cases h)

/-- On values without a name twice, `Equal` decides whether they are the same. -/
theorem equal_iff (ha : a.Distinct) (hb : b.Distinct) : Equal a b = true ↔ SameValue a b :=
  equalTo_iff le_rfl ha hb

end Same

def DenotesOnly (text : String) (p : ℚ) : Prop := ∀ r, Denotes text r ↔ r = p

theorem exists_denotesOnly {text : String} (h : isValidNumber text.toList) : ∃ p, DenotesOnly text p := by
  obtain ⟨p, hp⟩ := GoJson.denotes_of_isValidNumber h
  exact ⟨p, fun r => ⟨fun hr => hr.unique hp, fun hr => hr ▸ hp⟩⟩

/-- Numbers are equal, and integers, by the rational that each denotes; on parsed values equality is an equivalence, and
members may be in any order. -/
theorem equal_laws :
    (∀ a b : String, isValidNumber a.toList → isValidNumber b.toList →
      ∃ p q, DenotesOnly a p ∧ DenotesOnly b q ∧ (Equal (.number a) (.number b) = true ↔ p = q) ∧
        (NumberIsInteger a = true ↔ ∃ z : ℤ, p = z)) ∧
    (∀ x, Parsed x → Equal x x = true) ∧
    (∀ x y, Parsed x → Parsed y → Equal x y = true → Equal y x = true) ∧
    (∀ x y z, Parsed x → Parsed y → Parsed z → Equal x y = true → Equal y z = true → Equal x z = true) ∧
    ∀ x x' y y', Parsed x → Parsed y → Reordered x x' → Reordered y y' → Equal x' y' = Equal x y := by
  refine ⟨fun a b ha hb => ?_, fun x hx => ?_, fun x y hx hy h => ?_, fun x y z hx hy hz h h' => ?_,
    fun x x' y y' hx hy hxx hyy => ?_⟩
  · obtain ⟨p, hp⟩ := exists_denotesOnly ha
    obtain ⟨q, hq⟩ := exists_denotesOnly hb
    refine ⟨p, q, hp, hq, ?_, ?_⟩
    · have hequal : Equal (.number a) (.number b) = numberEqual a b := rfl
      rw [hequal, numberEqual_iff]
      simp only [hp _, hq _, exists_eq_left]
    · rw [NumberIsInteger_iff]
      simp only [hp _, eq_comm]
  · exact (equal_iff hx.distinct hx.distinct).2 (.refl hx.validNumbers)
  · exact (equal_iff hy.distinct hx.distinct).2
      (((equal_iff hx.distinct hy.distinct).1 h).symm hx.distinct hy.distinct)
  · exact (equal_iff hx.distinct hz.distinct).2
      (((equal_iff hx.distinct hy.distinct).1 h).trans ((equal_iff hy.distinct hz.distinct).1 h'))
  · have hx' := hxx.distinct hx.distinct
    have hy' := hyy.distinct hy.distinct
    have hxsame := hxx.sameValue hx.validNumbers
    have hysame := hyy.sameValue hy.validNumbers
    rw [Bool.eq_iff_iff, equal_iff hx' hy', equal_iff hx.distinct hy.distinct]
    constructor
    · exact fun h => (hxsame.trans h).trans (hysame.symm hy.distinct hy')
    · exact fun h => ((hxsame.symm hx.distinct hx').trans h).trans hysame

theorem equal_laws_sample : ∃ p q, DenotesOnly "-0.10e+3" p ∧ DenotesOnly "-1E2" q ∧
    (Equal (.number "-0.10e+3") (.number "-1E2") = true ↔ p = q) ∧
    (NumberIsInteger "-0.10e+3" = true ↔ ∃ z : ℤ, p = z) :=
  equal_laws.1 "-0.10e+3" "-1E2" (by decide) (by decide)

end StrictJson

end AiOrg
