import AiOrg.Proofs.Flatten
import AiOrg.StrictJson.Canonical

/-!
# The order of members

The guard reads objects by name or in the order of their names, so every walk over a document does the same over the
sorted document (`visit_tidy`, `Checker.run_sorted`): reordering members changes no verdict (`guard_reordered`).
-/

namespace AiOrg

open List

namespace StrictJson

namespace Node

theorem lookup_orderedInsert {α : Type*} (member : String × α) (members : List (String × α)) (name : String) :
    (members.orderedInsert (fun a b => a.1 ≤ b.1) member).lookup name = (member :: members).lookup name := by
  induction members with
  | nil => rfl
  | cons other members ih =>
    rw [orderedInsert_cons]
    split_ifs with hle
    · rfl
    · have hne : member.1 ≠ other.1 := fun heq => hle heq.le
      rw [lookup_cons, ih, lookup_cons, lookup_cons, lookup_cons]
      rcases hname : name == other.1 with _ | _ <;> rcases hname' : name == member.1 with _ | _ <;> simp_all

theorem lookup_insertionSort {α : Type*} (members : List (String × α)) (name : String) :
    (members.insertionSort fun a b => a.1 ≤ b.1).lookup name = members.lookup name := by
  induction members with
  | nil => rfl
  | cons member members ih =>
    rw [insertionSort_cons, lookup_orderedInsert, lookup_cons, lookup_cons, ih]

theorem lookup_map {α β : Type*} (f : α → β) (members : List (String × α)) (name : String) :
    (members.map fun member => (member.1, f member.2)).lookup name = (members.lookup name).map f := by
  induction members with
  | nil => rfl
  | cons member members ih =>
    rw [map_cons, lookup_cons, lookup_cons, ih]
    split <;> rfl

def tidyMember (member : String × Node) : String × Node := (member.1, sorted member.2)

variable (n : Node)

theorem members_sorted : (sorted n).members = n.sortedMembers.map tidyMember := by
  cases n with
  | object members =>
    rw [sorted, sortedValues_eq]
    exact (map_insertionSort _ _ tidyMember members fun _ _ _ _ => Iff.rfl).symm
  | _ => rfl

@[simp] theorem sortedMembers_sorted : (sorted n).sortedMembers = n.sortedMembers.map tidyMember := by
  rw [sortedMembers, members_sorted]
  exact ((pairwise_insertionSort _ n.members).map tidyMember fun _ _ h => h).insertionSort_eq

@[simp] theorem lookup_sorted (name : String) : (sorted n).lookup name = (n.lookup name).map sorted := by
  rw [lookup, members_sorted]
  exact (lookup_map sorted _ name).trans (congrArg _ (lookup_insertionSort _ name))

@[simp] theorem isObject_sorted : (sorted n).isObject = n.isObject := by
  cases n <;> rfl

@[simp] theorem isString_sorted : (sorted n).isString = n.isString := by
  cases n <;> rfl

@[simp] theorem length_members_sorted : (sorted n).members.length = n.members.length := by
  rw [members_sorted, length_map, n.sortedMembers_perm.length_eq]

theorem all_members_sorted (p : String → Bool) :
    (sorted n).members.all (fun member => p member.1) = n.members.all fun member => p member.1 := by
  rw [members_sorted, all_map, Bool.eq_iff_iff, all_eq_true, all_eq_true]
  exact forall_congr' fun member => imp_congr_left mem_sortedMembers

theorem any_members_sorted (p : String → Bool) :
    (sorted n).members.any (fun member => p member.1) = n.members.any fun member => p member.1 := by
  rw [← Bool.not_inj_iff, not_any_eq_all_not, not_any_eq_all_not]
  exact n.all_members_sorted fun name => !p name

theorem membersDepth_eq (members : List (String × Node)) :
    membersDepth members = (members.map fun member => member.2.depth).foldr max 0 := by
  induction members with
  | nil => rfl
  | cons member members ih => rw [membersDepth, ih, map_cons, foldr_cons]

theorem membersDepth_perm {members others : List (String × Node)} (h : members.Perm others) :
    membersDepth members = membersDepth others := by
  rw [membersDepth_eq, membersDepth_eq]
  exact (h.map _).foldr_eq 0

mutual

@[simp] theorem depth_sorted : ∀ n : Node, (sorted n).depth = n.depth
  | .null | .bool _ | .number _ | .string _ => rfl
  | .array elements => by rw [sorted, depth, depth, elementsDepth_sorted elements]
  | .object members => by
    rw [sorted, depth, depth, membersDepth_perm (perm_insertionSort _ _), membersDepth_sorted members]

theorem elementsDepth_sorted : ∀ elements : List Node, elementsDepth (sortedElements elements) = elementsDepth elements
  | [] => rfl
  | element :: elements => by
    rw [sortedElements, elementsDepth, elementsDepth, depth_sorted element, elementsDepth_sorted elements]

theorem membersDepth_sorted : ∀ members : List (String × Node), membersDepth (sortedValues members) = membersDepth members
  | [] => rfl
  | (name, value) :: members => by
    rw [sortedValues, membersDepth, membersDepth, depth_sorted value, membersDepth_sorted members]

end

end Node

theorem equalTo_sorted (depth : ℕ) : ∀ a b : Node, equalTo depth (sorted a) (sorted b) = equalTo depth a b := by
  induction depth with
  | zero => intro a b; rfl
  | succ depth ih =>
    intro a b
    cases a <;> cases b <;> try rfl
    · rename_i as bs
      rw [sorted, sorted, equalTo, equalTo, sortedElements_eq, sortedElements_eq, zip_map, all_map]
      simp [ih, Function.comp_def]
    · rename_i as bs
      have hzip : ((sorted (.object as)).sortedMembers.zip (sorted (.object bs)).sortedMembers).all (fun pair =>
          pair.1.1 == pair.2.1 && equalTo depth pair.1.2 pair.2.2) =
            ((Node.object as).sortedMembers.zip (Node.object bs).sortedMembers).all fun pair =>
              pair.1.1 == pair.2.1 && equalTo depth pair.1.2 pair.2.2 := by
        rw [Node.sortedMembers_sorted, Node.sortedMembers_sorted, zip_map, all_map]
        simp [ih, Function.comp_def, Node.tidyMember]
      have hlength := (Node.object as).length_members_sorted
      have hlength' := (Node.object bs).length_members_sorted
      rw [equalTo, ← hzip]
      rw [sorted, sorted] at *
      rw [equalTo]
      exact congrArg₂ _ (congrArg₂ (· == ·) hlength hlength') rfl

@[simp] theorem Equal_sorted (a b : Node) : Equal (sorted a) (sorted b) = Equal a b := by
  rw [Equal, a.depth_sorted, equalTo_sorted, Equal]

/-! ### Repeated names -/

theorem mem_elementsRepeats {path p : String} {elements : List Node} : ∀ {index : ℕ},
    p ∈ elementsRepeats path index elements ↔
      ∃ i element, elements[i]? = some element ∧ p ∈ repeats (joinPointer path (toString (index + i))) element := by
  induction elements with
  | nil => simp [elementsRepeats]
  | cons element elements ih =>
    intro index
    rw [elementsRepeats, mem_append, ih]
    constructor
    · rintro (hp | ⟨i, e, hi, hp⟩)
      · exact ⟨0, element, rfl, hp⟩
      · exact ⟨i + 1, e, hi, by rwa [Nat.add_right_comm] at hp⟩
    · rintro ⟨_ | i, e, hi, hp⟩
      · exact .inl (Option.some.inj hi ▸ hp)
      · exact .inr ⟨i, e, hi, by rwa [Nat.add_right_comm]⟩

theorem mem_membersRepeats {path p : String} {members : List (String × Node)} : ∀ {seen : List String},
    p ∈ membersRepeats path seen members ↔
      (∃ name, (name ∈ seen ∧ name ∈ members.map (·.1) ∨ (members.map (·.1)).Duplicate name) ∧ p = joinPointer path name) ∨
      ∃ member ∈ members, p ∈ repeats (joinPointer path member.1) member.2 := by
  induction members with
  | nil => simp [membersRepeats]
  | cons member members ih =>
    intro seen
    rw [membersRepeats, mem_append, mem_append, ih, map_cons]
    simp only [duplicate_cons_iff, mem_cons]
    grind

theorem Reordered.mem_repeats {a b : Node} (h : Reordered a b) :
    ∀ path p : String, p ∈ repeats path a ↔ p ∈ repeats path b := by
  induction h with
  | null | bool | number | string => exact fun _ _ => Iff.rfl
  | array hlength _ ih =>
    intro path p
    rw [repeats, repeats, mem_elementsRepeats, mem_elementsRepeats]
    constructor
    · rintro ⟨i, element, hi, hp⟩
      have hlt := hlength ▸ (List.getElem?_eq_some_iff.1 hi).1
      have hother := getElem?_eq_getElem hlt
      exact ⟨i, _, hother, (ih (element, _) (mem_of_getElem? (getElem?_zip_eq_some.2 ⟨hi, hother⟩)) _ _).1 hp⟩
    · rintro ⟨i, element, hi, hp⟩
      have hlt := hlength.symm ▸ (List.getElem?_eq_some_iff.1 hi).1
      have hother := getElem?_eq_getElem hlt
      exact ⟨i, _, hother, (ih (_, element) (mem_of_getElem? (getElem?_zip_eq_some.2 ⟨hother, hi⟩)) _ _).2 hp⟩
  | @object as bs cs hnames _ hperm ih =>
    intro path p
    have hduplicate : ∀ name, (as.map (·.1)).Duplicate name ↔ (bs.map (·.1)).Duplicate name := fun name => by
      rw [hnames, duplicate_iff_two_le_count, duplicate_iff_two_le_count, (hperm.map _).count_eq]
    rw [repeats, repeats, mem_membersRepeats, mem_membersRepeats]
    simp only [not_mem_nil, false_and, false_or, hduplicate, ← hperm.mem_iff]
    refine or_congr Iff.rfl ⟨?_, ?_⟩
    · rintro ⟨member, hmember, hp⟩
      obtain ⟨value, hzip⟩ := exists_zip hnames hmember
      exact ⟨(member.1, value), (of_mem_zip hzip).2, (ih _ hzip _ _).1 hp⟩
    · rintro ⟨member, hmember, hp⟩
      obtain ⟨value, hzip⟩ := exists_zip hnames.symm hmember
      have hswap := swap_mem_zip hzip
      exact ⟨(member.1, value), (of_mem_zip hswap).1, (ih _ hswap _ _).2 hp⟩

theorem distinct_of_repeats {n : Node} {path : String} (h : repeats path n = []) : n.Distinct := by
  induction hdepth : n.depth using Nat.strong_induction_on generalizing n path with
  | _ depth ih =>
    rw [eq_nil_iff_forall_not_mem] at h
    cases n with
    | array elements =>
      refine .array fun element helement => ?_
      obtain ⟨i, hi⟩ := mem_iff_getElem?.1 helement
      exact ih _ (hdepth ▸ Node.depth_lt_of_mem_array helement) (eq_nil_iff_forall_not_mem.2 fun p hp =>
        h p (mem_elementsRepeats.2 ⟨i, element, hi, hp⟩)) rfl
    | object members =>
      refine .object (nodup_iff_forall_not_duplicate.2 fun name hname =>
        h _ (mem_membersRepeats.2 (.inl ⟨name, .inr hname, rfl⟩))) fun member hmember => ?_
      exact ih _ (hdepth ▸ @Node.depth_lt_of_mem (.object members) _ _ hmember) (eq_nil_iff_forall_not_mem.2
        fun p hp => h p (mem_membersRepeats.2 (.inr ⟨member, hmember, hp⟩))) rfl
    | null => exact .null
    | bool => exact .bool
    | number => exact .number
    | string => exact .string

theorem Repeated.pointers_eq_nil {errors : List Error} {pointers : List String} (h : Repeated errors pointers)
    (hselected : selectDuplicateError errors = none) : pointers = [] := by
  rw [selectDuplicateError_eq] at hselected
  cases errors with
  | nil => exact map_eq_nil_iff.1 h.symm
  | cons => cases hselected

theorem Repeated.selected {errors : List Error} {pointers : List String} {e : Error} (h : Repeated errors pointers)
    (hselected : selectDuplicateError errors = some e) :
    e.code = .duplicateKey ∧ e.path ∈ pointers ∧ ∀ p ∈ pointers, e.path ≤ p := by
  rw [selectDuplicateError_eq] at hselected
  have hmem : (e.code, e.path) ∈ pointers.map (ErrorCode.duplicateKey, ·) :=
    h ▸ mem_map.2 ⟨e, Selection.least_mem _ hselected, rfl⟩
  obtain ⟨p, hp, heq⟩ := mem_map.1 hmem
  obtain ⟨hcode, rfl⟩ := Prod.mk.inj heq
  refine ⟨hcode.symm, hp, fun q hq => ?_⟩
  obtain ⟨f, hf, heq⟩ := mem_map.1 (h ▸ mem_map.2 ⟨q, hq, rfl⟩ :
    (ErrorCode.duplicateKey, q) ∈ errors.map fun e => (e.code, e.path))
  obtain ⟨-, rfl⟩ := Prod.mk.inj heq
  exact not_lt.1 fun hlt => not_lt.2 (Selection.least_le _ hselected f hf) (duplicateKey_lt.2 (.inl hlt))

end StrictJson

namespace Search

theorem visit_map {α β ε : Type*} [DecidableEq α] [DecidableEq β] {steps : α → List (ε ⊕ α)} {steps' : β → List (ε ⊕ β)}
    {f : α → β} {U : Set α} (hinj : Set.InjOn f U) (hclosed : ∀ a ∈ U, ∀ b, Next steps a b → b ∈ U)
    (hsteps : ∀ a ∈ U, steps' (f a) = (steps a).map (Sum.map id f)) (depth : ℕ) :
    ∀ a ∈ U, ∀ s : Visiting α ε, (∀ b ∈ s.visited, b ∈ U) →
      visit steps' depth (f a) ⟨s.visited.map f, s.reports⟩ =
        ⟨(visit steps depth a s).visited.map f, (visit steps depth a s).reports⟩ ∧
      ∀ b ∈ (visit steps depth a s).visited, b ∈ U := by
  induction depth with
  | zero => exact fun a ha s hs => ⟨rfl, hs⟩
  | succ depth ih =>
    intro a ha s hs
    have hmem : f a ∈ s.visited.map f ↔ a ∈ s.visited := by
      rw [mem_map]
      exact ⟨fun ⟨b, hb, heq⟩ => hinj (hs b hb) ha heq ▸ hb, fun h => ⟨a, h, rfl⟩⟩
    have hfold : ∀ (l : List (ε ⊕ α)) (t : Visiting α ε), (∀ b, .inr b ∈ l → b ∈ U) → (∀ b ∈ t.visited, b ∈ U) →
        (l.map (Sum.map id f)).foldl (Visiting.act (visit steps' depth)) ⟨t.visited.map f, t.reports⟩ =
          ⟨(l.foldl (Visiting.act (visit steps depth)) t).visited.map f,
            (l.foldl (Visiting.act (visit steps depth)) t).reports⟩ ∧
        ∀ b ∈ (l.foldl (Visiting.act (visit steps depth)) t).visited, b ∈ U := by
      intro l
      induction l with
      | nil => exact fun t _ ht => ⟨rfl, ht⟩
      | cons step l ihl =>
        intro t hl ht
        have hrest : ∀ b, .inr b ∈ l → b ∈ U := fun b hb => hl b (mem_cons_of_mem _ hb)
        rcases step with e | b
        · exact ihl ⟨t.visited, t.reports ++ [e]⟩ hrest ht
        · obtain ⟨heq, hvisited⟩ := ih b (hl b mem_cons_self) t ht
          rw [map_cons, foldl_cons, foldl_cons]
          dsimp only [Sum.map_inr, Visiting.act]
          rw [heq]
          exact ihl _ hrest hvisited
    rw [visit, visit]
    simp only [hmem]
    split_ifs with hvisited
    · exact ⟨rfl, hs⟩
    · rw [hsteps a ha, ← map_cons]
      exact hfold (steps a) ⟨a :: s.visited, s.reports⟩ (fun b hb => hclosed a ha b hb)
        (forall_mem_cons.2 ⟨ha, hs⟩)

end Search

namespace SchemaGuard

open StrictJson (Node joinPointer Equal sortedElements_eq Spells Reordered parse_spells)
open StrictJson.Node (tidyMember)

def tidy (place : Place) : Place := (place.1, StrictJson.sorted place.2)

section Nodes

variable (n : Node)

@[simp] theorem typeText_sorted : typeText (StrictJson.sorted n) = typeText n := by
  unfold typeText
  rw [n.lookup_sorted]
  rcases n.lookup "type" with _ | (_ | _ | _ | _ | _ | _) <;> rfl

@[simp] theorem matchesScalarType_sorted (type : ScalarType) : matchesScalarType (StrictJson.sorted n) type = matchesScalarType n type := by
  cases n <;> cases type <;> rfl

@[simp] theorem referencedName_sorted : referencedName (StrictJson.sorted n) = referencedName n := by
  cases n <;> rfl

@[simp] theorem onlyKeywords_sorted (allowed : List String) : onlyKeywords (StrictJson.sorted n) allowed = onlyKeywords n allowed :=
  n.all_members_sorted _

@[simp] theorem hasForeignFormKeyword_sorted (allowed : List String) :
    hasForeignFormKeyword (StrictJson.sorted n) allowed = hasForeignFormKeyword n allowed :=
  n.any_members_sorted fun name => !(name == "description" || name == "$schema" || name == "$defs" ||
    !allowedKeyword name) && !allowed.contains name

@[simp] theorem hasUnsupportedKeyword_sorted : hasUnsupportedKeyword (StrictJson.sorted n) = hasUnsupportedKeyword n :=
  n.any_members_sorted fun name => !allowedKeyword name

@[simp] theorem requiredElements_sorted : requiredElements (StrictJson.sorted n) = (requiredElements n).map (List.map StrictJson.sorted) := by
  unfold requiredElements
  rw [n.lookup_sorted]
  rcases n.lookup "required" with _ | (_ | _ | _ | _ | elements | _) <;> try rfl
  exact congrArg some (sortedElements_eq elements)

@[simp] theorem propertiesObject_sorted : propertiesObject (StrictJson.sorted n) = (propertiesObject n).map StrictJson.sorted := by
  unfold propertiesObject
  rw [n.lookup_sorted]
  rcases n.lookup "properties" with _ | (_ | _ | _ | _ | _ | _) <;> rfl

@[simp] theorem definitions_sorted : definitions (StrictJson.sorted n) = (definitions n).map tidyMember := by
  unfold definitions
  rw [n.lookup_sorted]
  rcases n.lookup "$defs" with _ | defs
  · rfl
  · dsimp only [Option.map_some]
    rw [defs.sortedMembers_sorted, filter_map]
    exact congrArg _ (filter_congr fun definition _ => by simp [tidyMember])

@[simp] theorem requiredNames_sorted (elements : List Node) :
    requiredNames (elements.map StrictJson.sorted) = requiredNames elements := by
  rw [requiredNames, filterMap_map]
  exact filterMap_congr fun element _ => by cases element <;> rfl

@[simp] theorem memberPlaces_sorted (pointer : String) : memberPlaces pointer (StrictJson.sorted n) = (memberPlaces pointer n).map tidy := by
  rw [memberPlaces, n.sortedMembers_sorted, memberPlaces, map_map, map_map]
  rfl

@[simp] theorem elementPlaces_sorted (pointer : String) (elements : List Node) :
    elementPlaces pointer (elements.map StrictJson.sorted) = (elementPlaces pointer elements).map tidy := by
  rw [elementPlaces, zipIdx_map, elementPlaces, map_map, map_map]
  rfl

@[simp] theorem lookup_tidyMember (defs : List (String × Node)) (name : String) :
    (defs.map tidyMember).lookup name = (defs.lookup name).map StrictJson.sorted := Node.lookup_map StrictJson.sorted defs name

end Nodes

/-! ### Surface -/

section Surface

variable (quote : String → String) (defs : List (String × Node))

theorem keywordErrors_sorted (n : Node) (pointer : String) (isRoot : Bool) :
    keywordErrors (StrictJson.sorted n) pointer isRoot = keywordErrors n pointer isRoot := by
  unfold keywordErrors
  rw [n.sortedMembers_sorted, flatMap_map]
  simp [tidyMember]

theorem requiredErrors_sorted (pointer : String) (elements : List Node) : ∀ (i : ℕ) (seen : List String),
    requiredErrors pointer i seen (elements.map StrictJson.sorted) = requiredErrors pointer i seen elements := by
  induction elements with
  | nil => intro i seen; rfl
  | cons element elements ih =>
    intro i seen
    cases element <;> simp [StrictJson.sorted, requiredErrors, ih]

theorem candidateErrors_sorted (pointer : String) (type : ScalarType) (elements : List Node) :
    ∀ (i : ℕ) (before : List Node), candidateErrors pointer type i (before.map StrictJson.sorted) (elements.map StrictJson.sorted) =
      candidateErrors pointer type i before elements := by
  induction elements with
  | nil => intro i before; rfl
  | cons element elements ih =>
    intro i before
    have hrest := ih (i + 1) (before ++ [element])
    rw [map_append, map_singleton] at hrest
    rw [map_cons, candidateErrors, candidateErrors, hrest]
    simp [Function.comp_def]

theorem collectEnum_sorted (n : Node) (pointer : String) (type : ScalarType) :
    collectEnum (StrictJson.sorted n) pointer type = collectEnum n pointer type := by
  unfold collectEnum
  rw [n.lookup_sorted]
  rcases n.lookup "enum" with _ | (_ | _ | _ | _ | (_ | ⟨candidate, rest⟩) | _) <;> try rfl
  simpa [StrictJson.sorted, sortedElements_eq] using candidateErrors_sorted pointer type (candidate :: rest) 0 []

/-- Two walks report the same. -/
def SameWalk (walk walk' : Node → String → Bool → Bool → List Error) : Prop :=
  ∀ (n : Node) (pointer : String) (isRoot allowNull : Bool),
    walk' (StrictJson.sorted n) pointer isRoot allowNull = walk n pointer isRoot allowNull

variable {walk walk' : Node → String → Bool → Bool → List Error}

theorem collectObject_sorted (h : SameWalk walk walk') (n : Node) (pointer : String) :
    collectObject quote walk' (StrictJson.sorted n) pointer = collectObject quote walk n pointer := by
  have hclosed : (StrictJson.sorted n).lookup "additionalProperties" = some (.bool false) ↔
      n.lookup "additionalProperties" = some (.bool false) := by
    rw [n.lookup_sorted]
    rcases n.lookup "additionalProperties" with _ | (_ | _ | _ | _ | _ | _) <;> simp [StrictJson.sorted]
  unfold collectObject
  simp only [propertiesObject_sorted, requiredElements_sorted, Option.map_eq_none_iff, hclosed, ne_eq]
  rcases propertiesObject n with _ | properties <;> rcases requiredElements n with _ | elements <;>
    simp [requiredErrors_sorted, flatMap_map, tidyMember, h _ _ _ _]
  rfl

theorem collectUnion_sorted (h : SameWalk walk walk') (n anyOf : Node) (pointer : String) :
    collectUnion walk' (StrictJson.sorted n) (StrictJson.sorted anyOf) pointer = collectUnion walk n anyOf pointer := by
  unfold collectUnion
  cases anyOf with
  | array branches =>
    rw [StrictJson.sorted, sortedElements_eq]
    simp only [collectBranches, elementPlaces_sorted, flatMap_map]
    simp [tidy, h _ _ _ _]
  | _ => simp [StrictJson.sorted]

theorem collectTyped_sorted (h : SameWalk walk walk') (n : Node) (pointer : String) (isRoot allowNull : Bool) :
    collectTyped quote walk' (StrictJson.sorted n) pointer isRoot allowNull = collectTyped quote walk n pointer isRoot allowNull := by
  unfold collectTyped
  simp only [typeText_sorted, hasForeignFormKeyword_sorted, collectObject_sorted quote h, collectEnum_sorted,
    n.lookup_sorted]
  rcases (typeText n).bind admittedType with _ | (_ | _ | _ | _) <;> try rfl
  rcases n.lookup "items" with _ | (_ | _ | _ | _ | _ | members) <;> try rfl
  exact congrArg _ (h (.object members) _ _ _)

theorem surfaceWalk_sorted (depth : ℕ) :
    SameWalk (surfaceWalk quote defs depth) (surfaceWalk quote (defs.map tidyMember) depth) := by
  induction depth with
  | zero => intro n pointer isRoot allowNull; rfl
  | succ depth ih =>
    intro n pointer isRoot allowNull
    have hroot : rootErrors (StrictJson.sorted n) pointer isRoot = rootErrors n pointer isRoot := by
      simp [rootErrors]
    have href : ∀ ref, referenceErrors (defs.map tidyMember) (StrictJson.sorted n) (StrictJson.sorted ref) pointer =
        referenceErrors defs n ref pointer := fun ref => by
      simp only [referenceErrors, n.length_members_sorted, referencedName_sorted, lookup_tidyMember,
        Option.map_eq_none_iff]
    unfold surfaceWalk
    simp only [n.isObject_sorted, keywordErrors_sorted, hroot, n.lookup_sorted, hasUnsupportedKeyword_sorted,
      collectTyped_sorted quote ih]
    rcases n.lookup "$ref" with _ | ref <;> rcases n.lookup "anyOf" with _ | anyOf <;>
      rcases n.lookup "type" with _ | type <;> simp only [Option.map_none, Option.map_some, href,
        collectUnion_sorted ih]

theorem collectSurfaceDiagnostics_sorted (root : Node) :
    collectSurfaceDiagnostics quote (StrictJson.sorted root) = collectSurfaceDiagnostics quote root := by
  have hdialect : dialectErrors (StrictJson.sorted root) = dialectErrors root := by
    have hlookup : (StrictJson.sorted root).lookup "$schema" = some (.string draft202012URI) ↔
        root.lookup "$schema" = some (.string draft202012URI) := by
      rw [root.lookup_sorted]
      rcases root.lookup "$schema" with _ | (_ | _ | _ | _ | _ | _) <;> simp [StrictJson.sorted]
    simp only [dialectErrors, ne_eq, hlookup]
  have hdefs : definitionErrors (StrictJson.sorted root) = definitionErrors root := by
    unfold definitionErrors
    rw [root.lookup_sorted]
    rcases root.lookup "$defs" with _ | defs
    · rfl
    · simp [flatMap_map, tidyMember]
      rfl
  unfold collectSurfaceDiagnostics
  simp only [hdialect, hdefs, root.isObject_sorted, root.depth_sorted, definitions_sorted, root.lookup_sorted,
    surfaceWalk_sorted quote _ _ root]
  rcases root.lookup "$defs" with _ | defs
  · rfl
  · simp [flatMap_map, tidyMember, surfaceWalk_sorted quote _ _ _ _]

end Surface

section Places

variable {root : Node}

theorem places_eq (pointer : String) (n : Node) : places pointer n =
    (pointer, n) :: (FlatReview.children n).flatMap fun child => places (joinPointer pointer child.1) child.2 := by
  cases n with
  | array elements =>
    have helements : ∀ (i : ℕ) (elements : List Node), elementsPlaces pointer i elements =
        (elements.zipIdx i).flatMap fun element => places (joinPointer pointer (toString element.2)) element.1 := by
      intro i elements
      induction elements generalizing i with
      | nil => rfl
      | cons element elements ih => rw [elementsPlaces, ih, zipIdx_cons, flatMap_cons]
    rw [places, helements, FlatReview.children, flatMap_map]
  | object members =>
    rw [places, FlatReview.children]
    induction members with
    | nil => rfl
    | cons member members ih =>
      rw [membersPlaces, flatMap_cons, (List.cons.inj ih).2]
  | _ => rfl

theorem exists_path {n : Node} {pointer : String} {place : Place} (h : n.Distinct) (hplace : place ∈ places pointer n) :
    ∃ path, place.1 = path.foldl joinPointer pointer ∧ FlatReview.valueAt n path = some place.2 := by
  induction hdepth : n.depth using Nat.strong_induction_on generalizing n pointer with
  | _ depth ih =>
    rw [places_eq] at hplace
    rcases mem_cons.1 hplace with rfl | hplace
    · exact ⟨[], rfl, rfl⟩
    · obtain ⟨⟨token, child⟩, hchild, hplace⟩ := mem_flatMap.1 hplace
      obtain ⟨path, hpointer, hvalue⟩ := ih child.depth (hdepth ▸ FlatReview.depth_lt_of_child hchild)
        (FlatReview.distinct_of_child h hchild) hplace rfl
      exact ⟨token :: path, hpointer, (FlatReview.valueAt_cons h).2 ⟨child, hchild, hvalue⟩⟩

theorem tidy_injOn (h : root.Distinct) : Set.InjOn tidy {place | place ∈ places "" root} := by
  intro place hplace other hother heq
  have hpointer : place.1 = other.1 := (Prod.mk.inj heq).1
  obtain ⟨path, hpath, hvalue⟩ := exists_path h hplace
  obtain ⟨path', hpath', hvalue'⟩ := exists_path h hother
  have hpaths : path = path' := FlatReview.pointer_injective (hpath.symm.trans (hpointer.trans hpath'))
  rw [hpaths] at hvalue
  exact Prod.ext hpointer (Option.eq_some_unique hvalue hvalue')

theorem children_sorted (n : Node) :
    (FlatReview.children (StrictJson.sorted n)).Perm ((FlatReview.children n).map tidyMember) := by
  cases n with
  | array elements =>
    rw [StrictJson.sorted, sortedElements_eq, FlatReview.children, FlatReview.children, zipIdx_map, map_map,
      map_map]
    rfl
  | object members =>
    rw [StrictJson.sorted, StrictJson.sortedValues_eq]
    exact perm_insertionSort _ _
  | _ => exact .refl _

theorem length_places {n : Node} {pointer : String} :
    (places pointer (StrictJson.sorted n)).length = (places pointer n).length := by
  induction hdepth : n.depth using Nat.strong_induction_on generalizing n pointer with
  | _ depth ih =>
    have hchildren := ((children_sorted n).flatMap_right fun child => places (joinPointer pointer child.1) child.2).length_eq
    rw [places_eq, places_eq, length_cons, length_cons, hchildren, flatMap_map, length_flatMap,
      length_flatMap]
    exact congrArg (fun lengths => lengths.sum + 1) (map_congr_left fun child hchild =>
      ih child.2.depth (hdepth ▸ FlatReview.depth_lt_of_child hchild) rfl)

end Places

section Contexts

variable {root : Node} (defs : List (String × Node))

def tidyKey (key : ContextKey) : ContextKey := (tidy key.1, key.2)

theorem resolveChain_sorted (length : ℕ) : ∀ (seen : List String) (n : Node),
    resolveChain (defs.map tidyMember) length seen (StrictJson.sorted n) =
      (resolveChain defs length seen n).map StrictJson.sorted := by
  induction length with
  | zero => exact fun _ _ => rfl
  | succ length ih =>
    intro seen n
    rw [resolveChain, resolveChain, n.lookup_sorted, n.length_members_sorted]
    rcases n.lookup "$ref" with _ | ref
    · rfl
    · dsimp only [Option.map_some]
      rw [referencedName_sorted]
      rcases referencedName ref with _ | name
      · split_ifs <;> rfl
      · dsimp only
        rw [lookup_tidyMember]
        rcases defs.lookup name with _ | target
        · split_ifs <;> rfl
        · dsimp only [Option.map_some]
          rw [ih]
          split_ifs <;> rfl

theorem resolveBranch_sorted (branch : Node) : resolveBranch (defs.map tidyMember) (StrictJson.sorted branch) =
    (resolveBranch defs branch).map StrictJson.sorted := by
  rw [resolveBranch, resolveBranch, length_map, resolveChain_sorted]

theorem branchSteps_sorted (branches : List Place) : ∀ nullBranches : ℕ,
    branchSteps (defs.map tidyMember) nullBranches (branches.map tidy) =
      (branchSteps defs nullBranches branches).map (Sum.map id tidyKey) := by
  induction branches with
  | nil => exact fun _ => rfl
  | cons branch branches ih =>
    intro nullBranches
    obtain ⟨pointer, branch⟩ := branch
    rw [map_cons, tidy, branchSteps, branchSteps, branch.isObject_sorted, resolveBranch_sorted]
    rcases resolveBranch defs branch with _ | resolved <;> split_ifs <;>
      simp [ih, tidyKey, tidy, Function.comp_def]

theorem childSteps_sorted (children : List Place) :
    childSteps (children.map tidy) = (childSteps children).map (Sum.map id tidyKey) := by
  rw [childSteps, childSteps, filter_map]
  simp [tidy, tidyKey, Function.comp_def]

theorem contextSteps_sorted (key : ContextKey) : contextSteps (defs.map tidyMember) (tidyKey key) =
    (contextSteps defs key).map (Sum.map id tidyKey) := by
  obtain ⟨⟨pointer, n⟩, allowNull⟩ := key
  rw [tidyKey, tidy, contextSteps, contextSteps]
  simp only [n.lookup_sorted, n.length_members_sorted, typeText_sorted, propertiesObject_sorted]
  rcases n.lookup "$ref" with _ | ref
  · rcases n.lookup "anyOf" with _ | (_ | _ | _ | _ | branches | _) <;> try rfl
    · rcases (typeText n).bind admittedType with _ | (_ | _ | _ | _) <;> try rfl
      · rcases propertiesObject n with _ | properties
        · rfl
        · simp only [Option.map_some, Option.map_none, memberPlaces_sorted, childSteps_sorted]
      · rcases n.lookup "items" with _ | items
        · rfl
        · exact childSteps_sorted [(joinPointer pointer "items", items)]
      · simp [Function.comp_def]
    · rw [Option.map_some, Option.map_none, StrictJson.sorted, sortedElements_eq]
      simp only [elementPlaces_sorted, branchSteps_sorted]
  · simp only [Option.map_some, referencedName_sorted, lookup_tidyMember]
    rcases referencedName ref with _ | name
    · split_ifs <;> rfl
    · dsimp only
      rcases defs.lookup name with _ | target <;> split_ifs <;> rfl

theorem collectContextDiagnostics_sorted (h : root.Distinct) :
    collectContextDiagnostics (StrictJson.sorted root) = collectContextDiagnostics root := by
  have hinj : Set.InjOn tidyKey {key | key.1 ∈ places "" root} := fun key hkey other hother heq =>
    Prod.ext (tidy_injOn h hkey hother (Prod.mk.inj heq).1) (Prod.mk.inj heq).2
  have hvisit := (Search.visit_map (f := tidyKey) hinj (fun key hkey next hnext => mem_places_of_next hkey hnext)
    (fun key _ => contextSteps_sorted (definitions root) key) (2 * (places "" root).length) (("", root), false)
    (mem_places_self "" root) ⟨[], []⟩ (by simp)).1
  unfold collectContextDiagnostics
  rw [root.isObject_sorted, definitions_sorted, length_places]
  have hreports := congrArg Search.Visiting.reports hvisit
  exact ite_congr rfl (fun _ => rfl) fun _ => hreports

end Contexts

/-- Memos hold the same under keys and their images. -/
def Agrees {κ : Type*} [BEq κ] (f : κ → κ) (U : Set κ) (memo memo' : List (κ × Metrics)) : Prop :=
  ∀ key ∈ U, memo'.lookup (f key) = memo.lookup key

theorem Agrees.cons {κ : Type*} [BEq κ] [LawfulBEq κ] {f : κ → κ} {U : Set κ} {memo memo' : List (κ × Metrics)} {key : κ}
    (h : Agrees f U memo memo') (hinj : Set.InjOn f U) (hkey : key ∈ U) (m : Metrics) :
    Agrees f U ((key, m) :: memo) ((f key, m) :: memo') := by
  intro other hother
  rw [lookup_cons, lookup_cons, h other hother]
  have hbeq : (f other == f key) = (other == key) := by
    rw [Bool.eq_iff_iff, beq_iff_eq, beq_iff_eq]
    exact hinj.eq_iff hother hkey
  rw [hbeq]

namespace GraphWalker

variable {root : Node} {defs : List (String × Node)}

/-- The walkers are at the same point of the document and of the sorted one. -/
structure Agree (root : Node) (w w' : GraphWalker) : Prop where
  reached : w'.reached = w.reached
  diagnostics : w'.diagnostics = w.diagnostics
  memo : Agrees tidy {place | place ∈ places "" root} w.memo w'.memo

/-- The same was found. -/
def Same (root : Node) (out out' : (Metrics × Bool) × GraphWalker) : Prop := out'.1 = out.1 ∧ Agree root out.2 out'.2

/-- Two walks find the same at a place and in the sorted document. -/
def SameWalk (root : Node) (walk walk' : Place → GraphWalker → (Metrics × Bool) × GraphWalker) : Prop :=
  ∀ place ∈ places "" root, ∀ w w', Agree root w w' → Same root (walk place w) (walk' (tidy place) w')

variable {walk walk' : Place → GraphWalker → (Metrics × Bool) × GraphWalker} {w w' : GraphWalker} {place : Place}

theorem remember_same {out out' : (Metrics × Bool) × GraphWalker} (hroot : root.Distinct) (hplace : place ∈ places "" root)
    (h : Same root out out') : Same root (remember place out) (remember (tidy place) out') := by
  unfold remember
  rw [h.1]
  split_ifs
  · exact ⟨rfl, h.2.reached, h.2.diagnostics, h.2.memo.cons (tidy_injOn hroot) hplace out.1.1⟩
  · exact h

theorem visitChildren_same (hwalk : SameWalk root walk walk') (edge : ℕ) {children : List Place}
    (hchildren : ∀ child ∈ children, child ∈ places "" root) (result : Metrics) (h : Agree root w w') :
    Same root (visitChildren walk edge children result w) (visitChildren walk' edge (children.map tidy) result w') := by
  have hfold : ∀ (l : List Place) (out out' : (Metrics × Bool) × GraphWalker), (∀ child ∈ l, child ∈ places "" root) →
      Same root out out' →
        Same root (l.foldl (visitChild walk edge) out) ((l.map tidy).foldl (visitChild walk' edge) out') := by
    intro l
    induction l with
    | nil => exact fun _ _ _ h => h
    | cons child l ih =>
      intro out out' hl hsame
      obtain ⟨heq, hagree⟩ := hwalk child (hl child mem_cons_self) _ _ hsame.2
      refine ih _ _ (fun other hother => hl other (mem_cons_of_mem _ hother)) ⟨?_, hagree⟩
      rw [visitChild, visitChild]
      dsimp only
      rw [heq, hsame.1]
  have hfilter : (children.map tidy).filter (fun child => child.2.isObject) =
      (children.filter fun child => child.2.isObject).map tidy := by
    simp [filter_map, tidy, Function.comp_def]
  rw [visitChildren, visitChildren, hfilter]
  exact hfold _ _ _ (fun child hchild => hchildren child (mem_filter.1 hchild).1) ⟨rfl, h⟩

theorem visitItems_same (hwalk : SameWalk root walk walk') (hplace : place ∈ places "" root) (result : Metrics)
    (h : Agree root w w') : Same root (visitItems walk place result w) (visitItems walk' (tidy place) result w') := by
  obtain ⟨heq, hagree⟩ := hwalk place hplace _ _ h
  unfold visitItems
  dsimp only
  rw [heq]
  exact ⟨rfl, hagree⟩

theorem visitReference_same {walk walk' : Place → List String → GraphWalker → (Metrics × Bool) × GraphWalker}
    (hroot : root.Distinct) (hwalk : ∀ refStack, SameWalk root (walk · refStack) (walk' · refStack))
    (hplace : place ∈ places "" root) (ref : Node) (refStack : List String) (h : Agree root w w') :
    Same root (visitReference walk (definitions root) place ref refStack w)
      (visitReference walk' ((definitions root).map tidyMember) (tidy place) (StrictJson.sorted ref) refStack w') := by
  unfold visitReference
  rw [referencedName_sorted]
  dsimp only
  rcases referencedName ref with _ | name
  · exact ⟨rfl, h⟩
  · dsimp only
    rw [lookup_tidyMember]
    rcases hlookup : (definitions root).lookup name with _ | target
    · exact ⟨rfl, h⟩
    · have hreached : Agree root { w with reached := name :: w.reached } { w' with reached := name :: w'.reached } :=
        ⟨congrArg (name :: ·) h.reached, h.diagnostics, h.memo⟩
      dsimp only [Option.map_some]
      split_ifs
      · exact ⟨rfl, h⟩
      · exact ⟨rfl, hreached.reached, congrArg (· ++ _) h.diagnostics, h.memo⟩
      · exact remember_same hroot hplace (hwalk (name :: refStack) _
          (mem_places_definition (AiOrg.mem_of_lookup hlookup)) _ _ hreached)

theorem visitTyped_same (hwalk : SameWalk root walk walk') (hplace : place ∈ places "" root) (h : Agree root w w') :
    Same root (visitTyped walk place w) (visitTyped walk' (tidy place) w') := by
  obtain ⟨pointer, n⟩ := place
  unfold visitTyped tidy
  simp only [typeText_sorted, propertiesObject_sorted, n.lookup_sorted]
  rcases (typeText n).bind admittedType with _ | (_ | _ | _ | _)
  · exact ⟨rfl, h⟩
  · rcases propertiesObject_eq n with hnone | ⟨properties, hlookup, hsome⟩
    · rw [hnone]
      exact ⟨rfl, h⟩
    · rw [hsome]
      simp only [Option.map_some, memberPlaces_sorted, Node.length_members_sorted]
      exact visitChildren_same hwalk 1 (fun child hchild => mem_places_memberPlaces
        (mem_places_member hplace (Node.mem_of_lookup hlookup)) hchild) _ h
  · rcases hitems : n.lookup "items" with _ | (_ | _ | _ | _ | _ | members) <;> try exact ⟨rfl, h⟩
    exact visitItems_same hwalk (mem_places_member hplace (Node.mem_of_lookup hitems)) _ h
  · exact ⟨rfl, h⟩
  · exact ⟨rfl, h⟩

theorem walk_same (hroot : root.Distinct) (depth : ℕ) : ∀ refStack : List String,
    SameWalk root (GraphWalker.walk (definitions root) depth · refStack)
      (GraphWalker.walk ((definitions root).map tidyMember) depth · refStack) := by
  induction depth with
  | zero => exact fun _ _ _ _ _ h => ⟨rfl, h⟩
  | succ depth ih =>
    intro refStack place hplace w w' h
    dsimp only
    rw [GraphWalker.walk, GraphWalker.walk, h.memo place hplace]
    have hobject : (tidy place).2.isObject = place.2.isObject := place.2.isObject_sorted
    have hlookup : ∀ name, (tidy place).2.lookup name = (place.2.lookup name).map StrictJson.sorted :=
      place.2.lookup_sorted
    rw [hobject, hlookup]
    split_ifs
    · exact ⟨rfl, h⟩
    · rcases w.memo.lookup place with _ | cached
      · dsimp only
        rcases place.2.lookup "$ref" with _ | ref
        · refine remember_same hroot hplace ?_
          rw [hlookup]
          rcases hany : place.2.lookup "anyOf" with _ | (_ | _ | _ | _ | branches | _) <;>
            try exact visitTyped_same (ih refStack) hplace h
          rw [Option.map_some, StrictJson.sorted, sortedElements_eq]
          dsimp only
          rw [elementPlaces_sorted]
          exact visitChildren_same (ih refStack) 0 (fun child hchild => mem_places_element
            (mem_places_member hplace (Node.mem_of_lookup hany)) hchild) _ h
        · exact visitReference_same hroot ih hplace ref refStack h
      · exact ⟨rfl, h⟩

end GraphWalker

theorem collectGraphDiagnostics_sorted {root : Node} (h : root.Distinct) :
    collectGraphDiagnostics (StrictJson.sorted root) = collectGraphDiagnostics root := by
  have hwalk : GraphWalker.Same root (graphWalk root) (graphWalk (StrictJson.sorted root)) := by
    unfold graphWalk walkDepth
    rw [definitions_sorted, length_map, root.depth_sorted]
    exact GraphWalker.walk_same h _ [] ("", root) (mem_places_self "" root) _ _ ⟨rfl, rfl, fun _ _ => rfl⟩
  unfold collectGraphDiagnostics
  dsimp only
  rw [root.isObject_sorted, hwalk.1, hwalk.2.reached, hwalk.2.diagnostics, definitions_sorted, unreachableErrors,
    flatMap_map]
  rfl

/-! ### The checker -/

namespace Checker

section Checks

variable (quote : String → String) (defs : List (String × Node)) (n : Node) (path : String)

theorem checkKeywords_sorted (isRoot : Bool) (members : List (String × Node)) :
    checkKeywords path isRoot (members.map tidyMember) = checkKeywords path isRoot members := by
  induction members with
  | nil => rfl
  | cons member members ih =>
    rw [map_cons, checkKeywords, checkKeywords, ih]
    rfl

theorem checkDescription_sorted : checkDescription (StrictJson.sorted n) path = checkDescription n path := by
  unfold checkDescription
  rw [n.lookup_sorted]
  rcases n.lookup "description" with _ | text <;> simp

theorem checkRoot_sorted (isRoot : Bool) : checkRoot (StrictJson.sorted n) path isRoot = checkRoot n path isRoot := by
  simp [checkRoot]

theorem checkRequired_sorted (elements : List Node) : ∀ (i : ℕ) (seen : List String),
    checkRequired path i seen (elements.map StrictJson.sorted) = checkRequired path i seen elements := by
  induction elements with
  | nil => exact fun _ _ => rfl
  | cons element elements ih =>
    intro i seen
    cases element <;> simp [StrictJson.sorted, checkRequired, ih]

theorem checkProperties_sorted (required : List String) (members : List (String × Node)) :
    checkProperties quote path required (members.map tidyMember) = checkProperties quote path required members := by
  induction members with
  | nil => rfl
  | cons member members ih =>
    rw [map_cons, checkProperties, checkProperties, ih]
    rfl

theorem checkExtra_sorted (required : List String) :
    checkExtra quote path (StrictJson.sorted n) required = checkExtra quote path n required := by
  simp [checkExtra]

theorem checkCandidates_sorted (type : ScalarType) (elements : List Node) : ∀ (i : ℕ) (before : List Node),
    checkCandidates path type i (before.map StrictJson.sorted) (elements.map StrictJson.sorted) =
      checkCandidates path type i before elements := by
  induction elements with
  | nil => exact fun _ _ => rfl
  | cons element elements ih =>
    intro i before
    have hrest := ih (i + 1) (before ++ [element])
    rw [map_append, map_singleton] at hrest
    rw [map_cons, checkCandidates, checkCandidates, hrest]
    simp [Function.comp_def]

theorem validateEnum_sorted (type : ScalarType) :
    validateEnum (StrictJson.sorted n) path type = validateEnum n path type := by
  unfold validateEnum
  rw [n.lookup_sorted]
  rcases n.lookup "enum" with _ | (_ | _ | _ | _ | (_ | ⟨candidate, rest⟩) | _) <;> try rfl
  simpa [StrictJson.sorted, sortedElements_eq] using checkCandidates_sorted path type (candidate :: rest) 0 []

theorem isNullBranch_sorted : isNullBranch (defs.map tidyMember) (StrictJson.sorted n) = isNullBranch defs n := by
  unfold isNullBranch
  rw [resolveBranch_sorted]
  rcases resolveBranch defs n with _ | resolved
  · rfl
  · simp

theorem checkDefinitions_sorted (members : List (String × Node)) :
    checkDefinitions (members.map tidyMember) = checkDefinitions members := by
  induction members with
  | nil => rfl
  | cons member members ih =>
    rw [map_cons, checkDefinitions, checkDefinitions, ih]
    simp only [tidyMember, Node.isObject_sorted]
    rfl

end Checks

variable {root : Node}

theorem prepare_sorted : prepare (StrictJson.sorted root) = (prepare root).map (List.map tidyMember) := by
  have hdialect : (root.lookup "$schema").map StrictJson.sorted = some (.string draft202012URI) ↔
      root.lookup "$schema" = some (.string draft202012URI) := by
    rcases root.lookup "$schema" with _ | (_ | _ | _ | _ | _ | _) <;> simp [StrictJson.sorted]
  unfold prepare
  simp only [root.isObject_sorted, root.lookup_sorted, hdialect]
  rcases check _ _ with _ | _
  · rfl
  · rcases check _ _ with _ | _
    · rfl
    · rcases root.lookup "$defs" with _ | defs
      · rfl
      · simp only [Option.map_some, Node.isObject_sorted, Node.sortedMembers_sorted, checkDefinitions_sorted]
        rcases check _ _ with _ | _
        · rfl
        · rcases checkDefinitions _ with _ | _ <;> rfl

def checkerKey (key : Place × Bool × Bool) : Place × Bool × Bool := (tidy key.1, key.2)

/-- The checkers are at the same point of the document and of the sorted one. -/
structure Agree (root : Node) (c c' : Checker) : Prop where
  reached : c'.reached = c.reached
  memo : Agrees checkerKey {key | key.1 ∈ places "" root} c.memo c'.memo

inductive Same (root : Node) : Result → Result → Prop
  | error {e : Error} : Same root (.error e) (.error e)
  | ok {m : Metrics} {c c' : Checker} : Agree root c c' → Same root (.ok (m, c)) (.ok (m, c'))

theorem Same.bind {x x' : Result} {f f' : Metrics × Checker → Result} (h : Same root x x')
    (hf : ∀ m c c', Agree root c c' → Same root (f (m, c)) (f' (m, c'))) : Same root (x >>= f) (x' >>= f') := by
  cases h with
  | error => exact .error
  | ok h => exact hf _ _ _ h

theorem Same.after (x : Except Error Unit) {y y' : Result} (h : Same root y y') :
    Same root (x >>= fun _ => y) (x >>= fun _ => y') := by
  cases x with
  | error => exact .error
  | ok => exact h

/-- Two walks find the same at a place and in the sorted document. -/
def SameWalk (root : Node) (validate validate' : Place → Checker → Result) : Prop :=
  ∀ place ∈ places "" root, ∀ c c', Agree root c c' → Same root (validate place c) (validate' (tidy place) c')

variable {validate validate' : Place → Checker → Result} {c c' : Checker} {n : Node} {path : String}

theorem validateBranches_same (hvalidate : SameWalk root validate validate') (branches : List Place) :
    ∀ (nullBranches : ℕ) (result : Metrics) (c c' : Checker), (∀ branch ∈ branches, branch ∈ places "" root) →
      Agree root c c' → Same root (validateBranches validate (definitions root) nullBranches branches result c)
        (validateBranches validate' ((definitions root).map tidyMember) nullBranches (branches.map tidy) result c') := by
  induction branches with
  | nil => exact fun _ _ _ _ _ h => .ok h
  | cons branch branches ih =>
    intro nullBranches result c c' hbranches h
    have hresolved : ∀ o : Option Node, (o.map StrictJson.sorted).all (fun resolved => (resolved.lookup "anyOf").isNone) =
        o.all fun resolved => (resolved.lookup "anyOf").isNone := fun o => by
      rcases o with _ | resolved <;> simp
    rw [map_cons, validateBranches, validateBranches]
    simp only [tidy, Node.isObject_sorted, resolveBranch_sorted, hresolved, isNullBranch_sorted]
    refine .after _ (.after _ ((hvalidate branch (hbranches _ mem_cons_self) c c' h).bind fun m c c' h => ?_))
    exact .after _ (ih _ _ _ _ (fun other hother => hbranches other (mem_cons_of_mem _ hother)) h)

theorem validateAnyOf_same (hvalidate : SameWalk root validate validate') {anyOf : Node}
    (hplace : (joinPointer path "anyOf", anyOf) ∈ places "" root) (h : Agree root c c') :
    Same root (validateAnyOf validate (definitions root) anyOf path c)
      (validateAnyOf validate' ((definitions root).map tidyMember) (StrictJson.sorted anyOf) path c') := by
  unfold validateAnyOf
  cases anyOf with
  | array branches =>
    rw [StrictJson.sorted, sortedElements_eq]
    dsimp only
    rw [elementPlaces_sorted, length_map]
    exact .after _ (validateBranches_same hvalidate _ _ _ _ _ (fun branch hbranch => mem_places_element hplace hbranch) h)
  | _ => exact .error

theorem validateProperties_same (hvalidate : SameWalk root validate validate') (properties : List Place) :
    ∀ (result : Metrics) (c c' : Checker), (∀ property ∈ properties, property ∈ places "" root) → Agree root c c' →
      Same root (validateProperties validate properties result c)
        (validateProperties validate' (properties.map tidy) result c') := by
  induction properties with
  | nil => exact fun _ _ _ _ h => .ok h
  | cons property properties ih =>
    intro result c c' hproperties h
    rw [map_cons, validateProperties, validateProperties]
    simp only [tidy, Node.isObject_sorted]
    refine .after _ ((hvalidate property (hproperties _ mem_cons_self) c c' h).bind fun m c c' h => ?_)
    exact ih _ _ _ (fun other hother => hproperties other (mem_cons_of_mem _ hother)) h

theorem validateObject_same (quote : String → String) (hvalidate : SameWalk root validate validate')
    (hplace : (path, n) ∈ places "" root) (h : Agree root c c') :
    Same root (validateObject quote validate n path c) (validateObject quote validate' (StrictJson.sorted n) path c') := by
  have hclosed : (n.lookup "additionalProperties").map StrictJson.sorted = some (.bool false) ↔
      n.lookup "additionalProperties" = some (.bool false) := by
    rcases n.lookup "additionalProperties" with _ | (_ | _ | _ | _ | _ | _) <;> simp [StrictJson.sorted]
  unfold validateObject
  simp only [propertiesObject_sorted, requiredElements_sorted, n.lookup_sorted, hclosed]
  rcases propertiesObject_eq n with hnone | ⟨properties, hlookup, hsome⟩
  · rw [hnone]
    exact .error
  · rw [hsome]
    rcases requiredElements n with _ | required
    · exact .error
    · simp only [Option.map_some, checkRequired_sorted, requiredNames_sorted, Node.sortedMembers_sorted,
        checkProperties_sorted, checkExtra_sorted, memberPlaces_sorted, length_map]
      exact .after _ (.after _ (.after _ (.after _ (validateProperties_same hvalidate _ _ _ _ (fun property hproperty =>
        mem_places_memberPlaces (mem_places_member hplace (Node.mem_of_lookup hlookup)) hproperty) h))))

theorem validateArray_same (hvalidate : SameWalk root validate validate') (hplace : (path, n) ∈ places "" root)
    (h : Agree root c c') :
    Same root (validateArray validate n path c) (validateArray validate' (StrictJson.sorted n) path c') := by
  unfold validateArray
  rw [n.lookup_sorted]
  rcases hitems : n.lookup "items" with _ | (_ | _ | _ | _ | _ | members) <;> try exact .error
  exact (hvalidate _ (mem_places_member hplace (Node.mem_of_lookup hitems)) c c' h).bind fun m c c' h => .ok h

theorem validateTyped_same (quote : String → String) (hvalidate : SameWalk root validate validate')
    (hplace : (path, n) ∈ places "" root) (isRoot allowNull : Bool) (h : Agree root c c') :
    Same root (validateTyped quote validate n path isRoot allowNull c)
      (validateTyped quote validate' (StrictJson.sorted n) path isRoot allowNull c') := by
  unfold validateTyped
  simp only [typeText_sorted, onlyKeywords_sorted, validateEnum_sorted]
  rcases typeText n with _ | text
  · exact .error
  · dsimp only
    rcases admittedType text with _ | (_ | _ | _ | _)
    · exact .error
    · exact .after _ (validateObject_same quote hvalidate hplace h)
    · exact .after _ (validateArray_same hvalidate hplace h)
    · exact .after _ (.after _ (.ok h))
    · exact .after _ (.after _ (.ok h))

theorem validateReference_same {validate validate' : Place → List String → Checker → Result}
    (hvalidate : ∀ refStack, SameWalk root (validate · refStack) (validate' · refStack)) (ref : Node)
    (refStack : List String) (h : Agree root c c') :
    Same root (validateReference validate (definitions root) ref path refStack c)
      (validateReference validate' ((definitions root).map tidyMember) (StrictJson.sorted ref) path refStack c') := by
  unfold validateReference
  rw [referencedName_sorted]
  rcases referencedName ref with _ | name
  · exact .error
  · dsimp only
    rw [lookup_tidyMember]
    refine .after _ ?_
    rcases hlookup : (definitions root).lookup name with _ | target
    · exact .error
    · exact .after _ (hvalidate _ _ (mem_places_definition (AiOrg.mem_of_lookup hlookup)) _ _
        ⟨congrArg (name :: ·) h.reached, h.memo⟩)

theorem validateNode_same (quote : String → String) (hroot : root.Distinct) (depth : ℕ) :
    ∀ (isRoot allowNull : Bool) (refStack : List String),
      SameWalk root (fun place => validateNode quote (definitions root) depth place isRoot allowNull refStack)
        fun place => validateNode quote ((definitions root).map tidyMember) depth place isRoot allowNull refStack := by
  have hinj : Set.InjOn checkerKey {key | key.1 ∈ places "" root} := fun key hkey other hother heq =>
    Prod.ext (tidy_injOn hroot hkey hother (Prod.mk.inj heq).1) (Prod.mk.inj heq).2
  induction depth with
  | zero => exact fun _ _ _ _ _ _ _ _ => .error
  | succ depth ih =>
    intro isRoot allowNull refStack place hplace c c' h
    have hmemo := h.memo (place, isRoot, allowNull) hplace
    rw [checkerKey] at hmemo
    have hobject : (tidy place).2.isObject = place.2.isObject := place.2.isObject_sorted
    dsimp only
    rw [validateNode, validateNode, hmemo, hobject]
    refine .after _ ?_
    rcases c.memo.lookup (place, isRoot, allowNull) with _ | result
    · dsimp only
      rw [show (tidy place).2.sortedMembers = _ from place.2.sortedMembers_sorted, checkKeywords_sorted,
        show checkDescription (tidy place).2 (tidy place).1 = _ from checkDescription_sorted _ _,
        show checkRoot (tidy place).2 (tidy place).1 isRoot = _ from checkRoot_sorted _ _ _]
      refine .after _ (.after _ (.after _ (Same.bind ?_ fun m c c' h => .ok
        ⟨h.reached, h.memo.cons hinj hplace m⟩)))
      obtain ⟨path, n⟩ := place
      unfold validateForm tidy
      simp only [n.lookup_sorted, n.length_members_sorted, onlyKeywords_sorted]
      rcases n.lookup "$ref" with _ | ref
      · rcases hany : n.lookup "anyOf" with _ | anyOf
        · simp only [Option.map_none, Option.isSome_map]
          exact .after _ (validateTyped_same quote (ih false false refStack) hplace isRoot allowNull h)
        · simp only [Option.map_none, Option.map_some, Option.isNone_map]
          exact .after _ (.after _ (validateAnyOf_same (ih false true refStack)
            (mem_places_member hplace (Node.mem_of_lookup hany)) h))
      · exact .after _ (validateReference_same (ih false allowNull) ref refStack h)
    · exact .ok h

theorem run_sorted (quote : String → String) (hroot : root.Distinct) :
    Same root (run quote root) (run quote (StrictJson.sorted root)) := by
  unfold run
  rw [prepare_sorted]
  rcases hprepare : prepare root with e | defs
  · exact .error
  · obtain ⟨-, -, -, rfl⟩ := prepare_eq_ok.1 hprepare
    dsimp only [Except.map, bind, Except.bind]
    unfold walkDepth
    rw [length_map, root.depth_sorted]
    exact validateNode_same quote hroot _ true false [] _ (mem_places_self "" root) ⟨[], []⟩ ⟨[], []⟩ ⟨rfl, fun _ _ => rfl⟩

end Checker

section Guard

theorem selectGuardError_congr {candidates candidates' : List Error} (h : ∀ e, e ∈ candidates ↔ e ∈ candidates') :
    selectGuardError candidates = selectGuardError candidates' := by
  rw [selectGuardError_eq, selectGuardError_eq]
  rcases hleast : Selection.least guardKey candidates with _ | e <;>
    rcases hleast' : Selection.least guardKey candidates' with _ | f
  · rfl
  · have hmem := (h f).2 (Selection.least_mem _ hleast')
    rw [selectGuardError_eq_none.1 ((selectGuardError_eq _).trans hleast)] at hmem
    cases hmem
  · have hmem := (h e).1 (Selection.least_mem _ hleast)
    rw [selectGuardError_eq_none.1 ((selectGuardError_eq _).trans hleast')] at hmem
    cases hmem
  · have hkey : guardKey e = guardKey f := le_antisymm
      (Selection.least_le _ hleast f ((h f).2 (Selection.least_mem _ hleast')))
      (Selection.least_le _ hleast' e ((h e).1 (Selection.least_mem _ hleast)))
    obtain ⟨hpointer, hkey⟩ := Prod.mk.inj (toLex.injective hkey)
    obtain ⟨hrank, hdetail⟩ := Prod.mk.inj (toLex.injective hkey)
    have hcode : e.code = f.code :=
      (idxOf_inj (show e.code ∈ ruleOrder by cases e.code <;> decide)).1 (Nat.succ.inj hrank)
    obtain ⟨code, pointer, detail⟩ := e
    obtain ⟨code', pointer', detail'⟩ := f
    exact congrArg some (congr (congr (congrArg Error.mk hcode) (String.toList_inj.1 hpointer)) (String.toList_inj.1 hdetail))

theorem diagnostics_sorted (quote : String → String) {root : Node} (h : root.Distinct) :
    collectDiagnostics quote (StrictJson.sorted root) ++ checkerErrors quote (StrictJson.sorted root) =
      collectDiagnostics quote root ++ checkerErrors quote root := by
  have hchecker : checkerErrors quote (StrictJson.sorted root) = checkerErrors quote root := by
    have hsame := Checker.run_sorted quote h
    unfold checkerErrors
    generalize Checker.run quote root = x at hsame ⊢
    generalize Checker.run quote (StrictJson.sorted root) = x' at hsame ⊢
    cases hsame <;> rfl
  rw [collectDiagnostics, collectSurfaceDiagnostics_sorted, collectGraphDiagnostics_sorted h,
    collectContextDiagnostics_sorted h, hchecker, collectDiagnostics]

variable {Digest : Type} (source : StrictJson.Source) (quote : String → String) (sum256 : List UInt8 → Digest)

/-- The error that was returned, if any. -/
def rejection : Except Error (Admission Digest) → Option Error
  | .error e => some e
  | .ok _ => none

/-- Documents that differ in the order of members only are both admitted, or rejected with the same code, pointer and
detail, which go by the errors there are and not by their order. -/
theorem guard_reordered {src src' : List UInt8} {n n' : Node} (h : Spells source src n) (h' : Spells source src' n')
    (hreordered : Reordered n n') :
    rejection (Guard source quote sum256 src) = rejection (Guard source quote sum256 src') ∧
      ∀ candidates candidates' : List Error, (∀ e, e ∈ candidates ↔ e ∈ candidates') →
        selectGuardError candidates = selectGuardError candidates' := by
  refine ⟨?_, fun _ _ => selectGuardError_congr⟩
  obtain ⟨errors, herrors, hparse⟩ := parse_spells h
  obtain ⟨errors', herrors', hparse'⟩ := parse_spells h'
  have hmem := hreordered.mem_repeats ""
  unfold Guard
  rw [hparse, hparse']
  rcases hselected : StrictJson.selectDuplicateError errors with _ | e <;>
    rcases hselected' : StrictJson.selectDuplicateError errors' with _ | e'
  · have hdistinct := StrictJson.distinct_of_repeats (herrors.pointers_eq_nil hselected)
    have hdiagnostics := diagnostics_sorted quote hdistinct
    rw [hreordered.sorted_eq hdistinct, diagnostics_sorted quote (hreordered.distinct hdistinct)] at hdiagnostics
    dsimp only
    rw [hdiagnostics]
    rcases selectGuardError _ with _ | e <;> rfl
  · have hpath := (hmem _).2 (herrors'.selected hselected').2.1
    rw [herrors.pointers_eq_nil hselected] at hpath
    cases hpath
  · have hpath := (hmem _).1 (herrors.selected hselected).2.1
    rw [herrors'.pointers_eq_nil hselected'] at hpath
    cases hpath
  · obtain ⟨hcode, hpath, hleast⟩ := herrors.selected hselected
    obtain ⟨hcode', hpath', hleast'⟩ := herrors'.selected hselected'
    have hsame : e.path = e'.path := le_antisymm (hleast _ ((hmem _).2 hpath')) (hleast' _ ((hmem _).1 hpath))
    simp only [rejection, hcode, hcode', hsame]

end Guard

/-- A schema whose members are not in the order of their names. -/
def looseSchema : Node :=
  .object [("type", .string "object"), ("required", .array []), ("properties", .object [("b", .null), ("a", .null)])]

theorem guard_reordered_loose :
    rejection (Guard GoJson.source quoteName id (GoJson.utf8Bytes (StrictJson.plain looseSchema))) =
        rejection (Guard GoJson.source quoteName id
          (GoJson.utf8Bytes (StrictJson.plain (StrictJson.sorted looseSchema)))) ∧
      ∀ candidates candidates' : List Error, (∀ e, e ∈ candidates ↔ e ∈ candidates') →
        selectGuardError candidates = selectGuardError candidates' := by
  have hvalid : looseSchema.ValidNumbers := by
    refine .object (forall_mem_cons.2 ⟨.string, forall_mem_cons.2 ⟨.array (by simp), ?_⟩⟩)
    exact forall_mem_singleton.2 (.object (forall_mem_cons.2 ⟨.null, forall_mem_singleton.2 .null⟩))
  have hsorted := StrictJson.reordered_sorted looseSchema
  exact guard_reordered GoJson.source quoteName id (StrictJson.spells_plain hvalid)
    (StrictJson.spells_plain (hsorted.validNumbers hvalid)) hsorted

end SchemaGuard

end AiOrg
