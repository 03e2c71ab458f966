import AiOrg.Proofs.ProducerRead

/-!
# The joins of a root

What the comparisons of a root come to: the goals that require a deliverable, the requirements and the
obligations correspond to each other, the patch plan partitions the obligations, and every obligation
follows from the previous root.
-/

namespace AiOrg

open List

namespace Producer

open Checks

variable {py : PyLib} {nfc : List Char → List Char} {goals : List Goal}
  {requirements : List Requirement} {obligations : List Obligation} {items : List Assignment}

section Find

variable {α κ : Type} [DecidableEq κ] {key : α → κ} {xs : List α}

theorem find_eq_some_iff (hxs : (xs.map key).Nodup) {k : κ} {x : α} :
    xs.find? (fun y => key y = k) = some x ↔ x ∈ xs ∧ key x = k := by
  constructor
  · intro h
    exact ⟨mem_of_find?_eq_some h, of_decide_eq_true (find?_some (p := fun y => decide (key y = k)) h)⟩
  · rintro ⟨hx, rfl⟩
    obtain ⟨y, hy⟩ : ∃ y, xs.find? (fun y => key y = key x) = some y := by
      rw [← Option.isSome_iff_exists, find?_isSome]
      exact ⟨x, hx, decide_eq_true rfl⟩
    have hkey : key y = key x := of_decide_eq_true (find?_some (p := fun y => decide (key y = key x)) hy)
    rw [hy, inj_on_of_nodup_map hxs (mem_of_find?_eq_some hy) hx hkey]

theorem find_eq_none_iff {k : κ} : xs.find? (fun y => key y = k) = none ↔ ∀ x ∈ xs, key x ≠ k := by
  simp

omit [DecidableEq κ] in
theorem nodup_map_iff_pairwise : (xs.map key).Nodup ↔ xs.Pairwise fun a b => key a ≠ key b := by
  rw [List.Nodup, pairwise_map]

end Find

/-! ### Pairs -/

/-- A requirement and an obligation of one goal that name each other and the same deliverable. -/
def Linked (requirement : Requirement) (obligation : Obligation) : Prop :=
  obligation.requirementId = requirement.id ∧ requirement.obligationId = .str obligation.id ∧
    obligation.deliverable = requirement.deliverable

/-- The goals that require a deliverable, the requirements and the obligations, each with one of each. -/
structure Correspondence (goals : List Goal) (requirements : List Requirement)
    (obligations : List Obligation) : Prop where
  requirement : ∀ goal ∈ goals, goal.requires = true →
    ∃! requirement, requirement ∈ requirements ∧ requirement.goalId = goal.id
  obligation : ∀ goal ∈ goals, goal.requires = true →
    ∃! obligation, obligation ∈ obligations ∧ obligation.goalId = goal.id
  ofRequirement : ∀ requirement ∈ requirements,
    ∃ goal ∈ goals, goal.requires = true ∧ goal.id = requirement.goalId
  ofObligation : ∀ obligation ∈ obligations,
    ∃ goal ∈ goals, goal.requires = true ∧ goal.id = obligation.goalId
  linked : ∀ requirement ∈ requirements, ∀ obligation ∈ obligations,
    requirement.goalId = obligation.goalId → Linked requirement obligation

theorem checkPair_eq_ok_iff {pointer : String} {goal : Goal} :
    checkPair requirements obligations pointer goal = .ok () ↔
      (goal.requires = true ∧ ∃ requirement obligation,
        requirements.find? (·.goalId = goal.id) = some requirement ∧
        obligations.find? (·.goalId = goal.id) = some obligation ∧ Linked requirement obligation) ∨
      (goal.requires = false ∧ requirements.find? (·.goalId = goal.id) = none ∧
        obligations.find? (·.goalId = goal.id) = none) := by
  unfold checkPair
  generalize requirements.find? (fun requirement => requirement.goalId = goal.id) = requirement
  generalize obligations.find? (fun obligation => obligation.goalId = goal.id) = obligation
  rcases goal.requires <;> rcases requirement with _ | requirement <;>
    rcases obligation with _ | obligation
  case true.some.some =>
    simp only [require_bind_eq_ok_iff, require_eq_ok_iff, Linked]
    simp
  all_goals simp

theorem checkClosure_eq_ok_iff {pointer goalId : String} :
    checkClosure goals requirements obligations pointer goalId = .ok () ↔ ∃ goal ∈ goals, goal.id = goalId := by
  rw [checkClosure, require_eq_ok_iff, mem_map]

/-- The pairs of the goals and the closure of what they come from are the correspondence. -/
theorem correspondence_iff {pointer : String} (hgoals : (goals.map (·.id)).Nodup)
    (hrequirements : (requirements.map (·.goalId)).Nodup)
    (hobligations : (obligations.map (·.goalId)).Nodup) :
    ((∀ goal ∈ goals, checkPair requirements obligations pointer goal = .ok ()) ∧
      ∀ goalId ∈ sorted (requirements.map (·.goalId) ++ obligations.map (·.goalId)),
        checkClosure goals requirements obligations pointer goalId = .ok ()) ↔
    Correspondence goals requirements obligations := by
  simp only [checkPair_eq_ok_iff, checkClosure_eq_ok_iff, mem_sorted, mem_append, mem_map,
    find_eq_some_iff hrequirements, find_eq_some_iff hobligations, find_eq_none_iff]
  constructor
  · rintro ⟨hpairs, hclosed⟩
    have hrequires : ∀ goal ∈ goals, goal.requires = true → ∃ requirement obligation,
        (requirement ∈ requirements ∧ requirement.goalId = goal.id) ∧
        (obligation ∈ obligations ∧ obligation.goalId = goal.id) ∧ Linked requirement obligation := by
      intro goal hgoal hrequires
      rcases hpairs goal hgoal with ⟨-, h⟩ | ⟨hfalse, -⟩
      · exact h
      · exact absurd (hfalse.symm.trans hrequires) Bool.false_ne_true
    refine ⟨?_, ?_, ?_, ?_, ?_⟩
    · intro goal hgoal hgoalRequires
      obtain ⟨requirement, _, hrequirement, -, -⟩ := hrequires goal hgoal hgoalRequires
      refine ⟨requirement, hrequirement, fun other hother => ?_⟩
      exact inj_on_of_nodup_map hrequirements hother.1 hrequirement.1
        (hother.2.trans hrequirement.2.symm)
    · intro goal hgoal hgoalRequires
      obtain ⟨_, obligation, -, hobligation, -⟩ := hrequires goal hgoal hgoalRequires
      refine ⟨obligation, hobligation, fun other hother => ?_⟩
      exact inj_on_of_nodup_map hobligations hother.1 hobligation.1
        (hother.2.trans hobligation.2.symm)
    · intro requirement hrequirement
      obtain ⟨goal, hgoal, hid⟩ := hclosed _ (.inl ⟨requirement, hrequirement, rfl⟩)
      rcases hpairs goal hgoal with ⟨hgoalRequires, -⟩ | ⟨-, hnone, -⟩
      · exact ⟨goal, hgoal, hgoalRequires, hid⟩
      · exact absurd hid.symm (hnone requirement hrequirement)
    · intro obligation hobligation
      obtain ⟨goal, hgoal, hid⟩ := hclosed _ (.inr ⟨obligation, hobligation, rfl⟩)
      rcases hpairs goal hgoal with ⟨hgoalRequires, -⟩ | ⟨-, -, hnone⟩
      · exact ⟨goal, hgoal, hgoalRequires, hid⟩
      · exact absurd hid.symm (hnone obligation hobligation)
    · intro requirement hrequirement obligation hobligation hsame
      obtain ⟨goal, hgoal, hid⟩ := hclosed _ (.inl ⟨requirement, hrequirement, rfl⟩)
      rcases hpairs goal hgoal with ⟨-, r, o, hr, ho, hlinked⟩ | ⟨-, hnone, -⟩
      · have hr' : r = requirement := inj_on_of_nodup_map hrequirements hr.1 hrequirement
          (hr.2.trans hid)
        have ho' : o = obligation := inj_on_of_nodup_map hobligations ho.1 hobligation
          (ho.2.trans (hid.trans hsame))
        rw [← hr', ← ho']
        exact hlinked
      · exact absurd hid.symm (hnone requirement hrequirement)
  · intro h
    constructor
    · intro goal hgoal
      rcases hrequires : goal.requires with _ | _
      · -- a member of the pair would belong to another goal with this id
        have hnone : ∀ other ∈ goals, other.requires = true → other.id ≠ goal.id := by
          intro other hother hotherRequires hid
          have heq := inj_on_of_nodup_map hgoals hother hgoal hid
          rw [heq, hrequires] at hotherRequires
          cases hotherRequires
        refine .inr ⟨rfl, fun requirement hrequirement hid => ?_, fun obligation hobligation hid => ?_⟩
        · obtain ⟨other, hother, hotherRequires, hotherId⟩ := h.ofRequirement requirement hrequirement
          exact hnone other hother hotherRequires (hotherId.trans hid)
        · obtain ⟨other, hother, hotherRequires, hotherId⟩ := h.ofObligation obligation hobligation
          exact hnone other hother hotherRequires (hotherId.trans hid)
      · obtain ⟨requirement, hrequirement, -⟩ := h.requirement goal hgoal hrequires
        obtain ⟨obligation, hobligation, -⟩ := h.obligation goal hgoal hrequires
        exact .inl ⟨rfl, requirement, obligation, hrequirement, hobligation, h.linked requirement
          hrequirement.1 obligation hobligation.1 (hrequirement.2.trans hobligation.2.symm)⟩
    · rintro goalId (⟨requirement, hrequirement, rfl⟩ | ⟨obligation, hobligation, rfl⟩)
      · obtain ⟨goal, hgoal, -, hid⟩ := h.ofRequirement requirement hrequirement
        exact ⟨goal, hgoal, hid⟩
      · obtain ⟨goal, hgoal, -, hid⟩ := h.ofObligation obligation hobligation
        exact ⟨goal, hgoal, hid⟩

theorem Correspondence.requirementGoals (h : Correspondence goals requirements obligations)
    (hids : (requirements.map (·.id)).Nodup) : (requirements.map (·.goalId)).Nodup := by
  refine List.Nodup.map_on ?_ (List.Nodup.of_map _ hids)
  intro a ha b hb hgoal
  obtain ⟨goal, hmem, hrequires, hid⟩ := h.ofRequirement a ha
  exact (h.requirement goal hmem hrequires).unique ⟨ha, hid.symm⟩ ⟨hb, (hid.trans hgoal).symm⟩

theorem Correspondence.obligationGoals (h : Correspondence goals requirements obligations)
    (hids : (obligations.map (·.id)).Nodup) : (obligations.map (·.goalId)).Nodup := by
  refine List.Nodup.map_on ?_ (List.Nodup.of_map _ hids)
  intro a ha b hb hgoal
  obtain ⟨goal, hmem, hrequires, hid⟩ := h.ofObligation a ha
  exact (h.obligation goal hmem hrequires).unique ⟨ha, hid.symm⟩ ⟨hb, (hid.trans hgoal).symm⟩

/-- Every obligation is assigned once, and nothing else is. -/
def Partitions (items : List Assignment) (obligationIds : List String) : Prop :=
  (items.map (·.itemId)).Nodup ∧ (items.flatMap (·.obligationIds)).Perm obligationIds

theorem nodup_flatMap_of_apart (hitems : items.Pairwise Assignment.Apart)
    (hids : ∀ item ∈ items, item.obligationIds.Nodup) : (items.flatMap (·.obligationIds)).Nodup := by
  rw [nodup_flatMap]
  exact ⟨hids, hitems.imp fun h id ha hb => h.2 id hb ha⟩

theorem partition_eq_ok_iff {assignments : List Json} {pointer : String} {obligationIds : List String}
    (hobligations : obligationIds.Nodup) :
    _validate_patch_plan_partition py assignments pointer obligationIds = .ok () ↔
      ∃ items, Forall₂ ReadsAssignment assignments items ∧ Partitions items obligationIds := by
  have hread : ∀ (seen : List Assignment) index value assignment,
      readAssignment py pointer seen index value = .ok assignment ↔ ReadsAssignment value assignment ∧
        ∀ other ∈ seen, other.Apart assignment := fun _ _ _ _ => readAssignment_eq_ok_iff
  have hempty : ∀ {ids : List String} {p : String → Bool}, sorted (ids.filter p) = [] ↔
      ∀ id ∈ ids, p id = false := by
    intro ids p
    rw [← length_eq_zero_iff, length_sorted, length_eq_zero_iff, filter_eq_nil_iff]
    simp
  rw [_validate_patch_plan_partition, bind_eq_ok_iff]
  simp only [collect_nil_eq_ok_iff hread, require_eq_ok_iff, hempty, decide_eq_false_iff_not, not_not]
  constructor
  · rintro ⟨items, ⟨hreads, hapart⟩, hmissing, hsurplus⟩
    have hnodup := nodup_flatMap_of_apart hapart fun item hitem => by
      obtain ⟨value, -, _, -, -, -, -, -, -, hids⟩ := Traverse.exists_of_mem_right hreads hitem
      exact hids
    refine ⟨items, hreads, ?_, ?_⟩
    · exact nodup_map_iff_pairwise.2 (hapart.imp And.left)
    · exact (perm_ext_iff_of_nodup hnodup hobligations).2 fun id =>
        ⟨fun hid => hsurplus id hid, fun hid => hmissing id hid⟩
  · rintro ⟨items, hreads, hids, hperm⟩
    have hnodup : (items.flatMap (·.obligationIds)).Nodup := hperm.nodup_iff.2 hobligations
    refine ⟨items, ⟨hreads, ?_⟩, fun id hid => hperm.mem_iff.2 hid, fun id hid => hperm.mem_iff.1 hid⟩
    have hdisjoint := (nodup_flatMap.1 hnodup).2
    exact (nodup_map_iff_pairwise.1 hids).imp₂ (fun _ _ hne hdisj => ⟨hne, fun id hb ha => hdisj ha hb⟩)
      hdisjoint

end Producer

end AiOrg

/-!
## The lineage of the obligations

Which obligation of the previous root an obligation follows, what it has to keep of it or to change, and
that a root follows from itself (`lineageHolds_self`).
-/

namespace AiOrg

open List

namespace Producer

open Checks

variable {py : PyLib} {nfc : List Char → List Char} {requirements : List Requirement}
  {obligations : List Obligation} {obligation : Obligation} {requirement : Requirement}
  {lineage : Lineage} {currentGoals : List String} {pointer : String}

/-- The pairs of the previous root; before the first root there are none. -/
def HasLineage (py : PyLib) : Option Fields → Lineage → Prop
  | none, lineage => lineage = ⟨[], []⟩
  | some problem, lineage => ∃ obligations requirements,
      problem.get "production_obligations" = .arr obligations ∧
      problem.get "deliverable_requirements" = .arr requirements ∧
      lineage = ⟨byGoal py obligations, byGoal py requirements⟩

/-- An obligation follows the one of its goal, or else the one that it replaces, whose goal is gone. -/
inductive Precedes (py : PyLib) (lineage : Lineage) (currentGoals : List String)
    (obligation : Obligation) : String → Fields → Prop
  | retained {predecessor : Fields}
      (h : lineage.obligations.lookup obligation.goalId = some predecessor) :
      Precedes py lineage currentGoals obligation obligation.goalId predecessor
  | replaced {link : Link} {links : List Link} {goalId : String} {predecessor : Fields}
      (hnew : lineage.obligations.lookup obligation.goalId = none)
      (hlinks : obligation.links = link :: links)
      (howner : ((goalOfId py lineage.obligations).lookup link.replacesObligationId).getD "" = goalId)
      (h : lineage.obligations.lookup goalId = some predecessor) (hgone : goalId ∉ currentGoals) :
      Precedes py lineage currentGoals obligation goalId predecessor

/-- What an obligation and its requirement keep of a pair with the same goal and deliverable. -/
def Keeps (requirement : Requirement) (obligation : Obligation)
    (predecessorRequirement predecessor : Fields) : Prop :=
  .str obligation.id = predecessor.get "id" ∧ .str requirement.id = predecessorRequirement.get "id" ∧
    sameLinks obligation.links (predecessor.get "replacement_links") = true

/-- What they change of any other pair: both ids are new and the obligation names the one it replaces. -/
def Replaces (requirement : Requirement) (obligation : Obligation)
    (predecessorRequirement predecessor : Fields) : Prop :=
  .str obligation.id ≠ predecessor.get "id" ∧ .str requirement.id ≠ predecessorRequirement.get "id" ∧
    obligation.links.length = 1 ∧
    obligation.links.map (fun link => Json.str link.replacesObligationId) = [predecessor.get "id"]

/-- A pair against its predecessor. -/
def Succeeds (nfc : List Char → List Char) (lineage : Lineage) (requirement : Requirement)
    (obligation : Obligation) (goalId : String) (predecessor : Fields) : Prop :=
  ∃ deliverable predecessorRequirement,
    normalize_deliverable nfc (predecessor.get "deliverable") = .ok deliverable ∧
    lineage.requirements.lookup goalId = some predecessorRequirement ∧
    if goalId = obligation.goalId ∧ deliverable = obligation.deliverable then
      Keeps requirement obligation predecessorRequirement predecessor
    else Replaces requirement obligation predecessorRequirement predecessor

structure LineageRule (py : PyLib) (nfc : List Char → List Char) (initial : Bool) (lineage : Lineage)
    (currentGoals : List String) (requirement : Requirement) (obligation : Obligation)
    (claimed : Option String) : Prop where
  initial : initial = true → obligation.links = []
  owner : ∀ goalId ∈ (goalOfId py lineage.obligations).lookup obligation.id, goalId = obligation.goalId
  requirementOwner : ∀ goalId ∈ (goalOfId py lineage.requirements).lookup requirement.id,
    goalId = obligation.goalId
  predecessor :
    (claimed = none ∧ lineage.obligations.lookup obligation.goalId = none ∧ obligation.links = []) ∨
    ∃ goalId predecessor, Precedes py lineage currentGoals obligation goalId predecessor ∧
      claimed = some (py.strOr (predecessor.get "id") "") ∧
      Succeeds nfc lineage requirement obligation goalId predecessor

/-- No two obligations claim one predecessor. -/
def Unclaimed (a b : Option String) : Prop := ∀ id, a = some id → b ≠ some id

/-- Every obligation follows from the previous root. -/
def LineageHolds (py : PyLib) (nfc : List Char → List Char) (previous : Option Fields)
    (requirements : List Requirement) (obligations : List Obligation) : Prop :=
  ∃ lineage claims, HasLineage py previous lineage ∧ claims.Pairwise Unclaimed ∧
    Forall₂ (fun obligation claimed => ∃ requirement ∈ requirements,
      requirement.goalId = obligation.goalId ∧ LineageRule py nfc previous.isNone lineage
        (obligations.map (·.goalId)) requirement obligation claimed) obligations claims

theorem lineageOf_eq_ok_iff {previous : Option Fields} :
    lineageOf py pointer previous = .ok lineage ↔ HasLineage py previous lineage := by
  cases previous with
  | none =>
    rw [lineageOf, HasLineage, Except.ok.injEq]
    exact eq_comm
  | some problem =>
    rw [lineageOf, HasLineage]
    split
    · rename_i obligations requirements hobligations hrequirements
      rw [Except.ok.injEq]
      constructor
      · rintro rfl
        exact ⟨obligations, requirements, hobligations, hrequirements, rfl⟩
      · rintro ⟨_, _, hobligations', hrequirements', rfl⟩
        obtain rfl := Json.arr.inj (hobligations.symm.trans hobligations')
        obtain rfl := Json.arr.inj (hrequirements.symm.trans hrequirements')
        rfl
    · rename_i hnot
      simp only [reduceCtorEq, false_iff]
      rintro ⟨obligations, requirements, hobligations, hrequirements, -⟩
      exact hnot obligations requirements hobligations hrequirements

theorem predecessorOf_eq_ok_some_iff {goalId : String} {predecessor : Fields} :
    predecessorOf py lineage currentGoals pointer obligation = .ok (some (goalId, predecessor)) ↔
      Precedes py lineage currentGoals obligation goalId predecessor := by
  rw [predecessorOf]
  dsimp only
  constructor
  · intro h
    split at h
    · rename_i found _ hfound
      cases h
      exact .retained hfound
    · cases h
    · rename_i link links hnew hlinks
      split at h
      · cases h
      · rename_i found hfound
        split_ifs at h with hgone
        cases h
        exact .replaced hnew hlinks rfl hfound hgone
  · rintro (hfound | ⟨hnew, hlinks, howner, hfound, hgone⟩)
    · rw [hfound]
    · rw [hnew, hlinks]
      dsimp only
      rw [howner, hfound]
      dsimp only
      rw [if_neg hgone]

theorem predecessorOf_eq_ok_none_iff :
    predecessorOf py lineage currentGoals pointer obligation = .ok none ↔
      lineage.obligations.lookup obligation.goalId = none ∧ obligation.links = [] := by
  rw [predecessorOf]
  dsimp only
  constructor
  · intro h
    split at h
    · cases h
    · exact ⟨‹_›, ‹_›⟩
    · split at h
      · cases h
      · split_ifs at h
        cases h
  · rintro ⟨hnew, hlinks⟩
    rw [hnew, hlinks]

theorem checkPredecessor_eq_ok_iff {goalId : String} {predecessor : Fields} :
    checkPredecessor nfc lineage requirement pointer obligation goalId predecessor = .ok () ↔
      Succeeds nfc lineage requirement obligation goalId predecessor := by
  rw [checkPredecessor, Succeeds]
  rcases hdeliverable : normalize_deliverable nfc (predecessor.get "deliverable") with text | deliverable
  · simp [Except.mapError, bind, Except.bind]
  rcases hrequirement : lineage.requirements.lookup goalId with _ | predecessorRequirement
  · simp [Except.mapError, bind, Except.bind]
  have hbind : ∀ f : String → Except Raised Unit,
      ((Except.ok deliverable : Except String String).mapError Raised.python >>= f) = f deliverable :=
    fun _ => rfl
  rw [hbind]
  dsimp only
  split_ifs with hsame
  · simp [require_bind_eq_ok_iff, require_eq_ok_iff, hsame, Keeps, and_assoc]
  · simp only [require_bind_eq_ok_iff, require_eq_ok_iff, Except.ok.injEq, Option.some.injEq,
      exists_and_left, exists_eq_left', if_neg hsame, Replaces, Bool.or_eq_false_iff,
      decide_eq_false_iff_not, ne_eq, and_assoc]

theorem checkLineage_eq_ok_iff {initial : Bool} {seen : List (Option String)} {index : ℕ}
    {claimed : Option String} (hrequirements : (requirements.map (·.goalId)).Nodup) :
    checkLineage py nfc initial lineage currentGoals requirements pointer seen index obligation =
        .ok claimed ↔
      (∃ requirement ∈ requirements, requirement.goalId = obligation.goalId ∧
        LineageRule py nfc initial lineage currentGoals requirement obligation claimed) ∧
      ∀ other ∈ seen, Unclaimed other claimed := by
  rw [checkLineage]
  dsimp only
  generalize hfind : requirements.find? (fun requirement => requirement.goalId = obligation.goalId) = found
  rcases found with _ | requirement
  · simp only [reduceCtorEq, false_iff, not_and]
    rintro ⟨requirement, hmem, hgoal, -⟩
    exact absurd hgoal (find_eq_none_iff.1 hfind requirement hmem)
  · obtain ⟨hmem, hgoal⟩ := (find_eq_some_iff hrequirements).1 hfind
    have hunique : ∀ other ∈ requirements, other.goalId = obligation.goalId → other = requirement :=
      fun other hother hsame => inj_on_of_nodup_map hrequirements hother hmem (hsame.trans hgoal.symm)
    simp only [require_bind_eq_ok_iff]
    rw [bind_eq_ok_iff]
    constructor
    · rintro ⟨hinitial, howner, hrequirementOwner, predecessor, hpredecessor, h⟩
      rcases predecessor with _ | ⟨goalId, predecessor⟩
      · obtain rfl := Except.ok.inj h
        obtain ⟨hnew, hlinks⟩ := predecessorOf_eq_ok_none_iff.1 hpredecessor
        refine ⟨⟨requirement, hmem, hgoal, hinitial, howner, hrequirementOwner,
          .inl ⟨rfl, hnew, hlinks⟩⟩, fun _ _ _ _ heq => by cases heq⟩
      · obtain ⟨hseen, h⟩ := require_bind_eq_ok_iff.1 h
        obtain ⟨⟨⟩, hcheck, h⟩ := bind_eq_ok_iff.1 h
        obtain rfl := Except.ok.inj h
        refine ⟨⟨requirement, hmem, hgoal, hinitial, howner, hrequirementOwner, .inr ⟨goalId,
          predecessor, predecessorOf_eq_ok_some_iff.1 hpredecessor, rfl,
          checkPredecessor_eq_ok_iff.1 hcheck⟩⟩, ?_⟩
        rintro other hother id rfl heq
        exact hseen (heq ▸ hother)
    · rintro ⟨⟨other, hother, hsame, hrule⟩, hseen⟩
      obtain rfl := hunique other hother hsame
      refine ⟨hrule.initial, hrule.owner, hrule.requirementOwner, ?_⟩
      rcases hrule.predecessor with ⟨rfl, hnew, hlinks⟩ | ⟨goalId, predecessor, hprecedes, rfl, hsucceeds⟩
      · exact ⟨none, predecessorOf_eq_ok_none_iff.2 ⟨hnew, hlinks⟩, rfl⟩
      · refine ⟨some (goalId, predecessor), predecessorOf_eq_ok_some_iff.2 hprecedes, ?_⟩
        refine require_bind_eq_ok_iff.2 ⟨fun hmem' => hseen _ hmem' _ rfl rfl, ?_⟩
        exact bind_eq_ok_iff.2 ⟨(), checkPredecessor_eq_ok_iff.2 hsucceeds, rfl⟩

theorem validate_obligation_lineage_eq_ok_iff {previous : Option Fields}
    (hrequirements : (requirements.map (·.goalId)).Nodup) :
    _validate_obligation_lineage py nfc obligations requirements previous pointer = .ok () ↔
      LineageHolds py nfc previous requirements obligations := by
  rw [_validate_obligation_lineage, bind_eq_ok_iff]
  have hread : ∀ (lineage : Lineage) (seen : List (Option String)) index obligation claimed,
      checkLineage py nfc previous.isNone lineage (obligations.map (·.goalId)) requirements pointer seen
          index obligation = .ok claimed ↔
        (∃ requirement ∈ requirements, requirement.goalId = obligation.goalId ∧
          LineageRule py nfc previous.isNone lineage (obligations.map (·.goalId)) requirement obligation
            claimed) ∧ ∀ other ∈ seen, Unclaimed other claimed :=
    fun _ _ _ _ _ => checkLineage_eq_ok_iff hrequirements
  constructor
  · rintro ⟨lineage, hlineage, h⟩
    obtain ⟨claims, hclaims, -⟩ := bind_eq_ok_iff.1 h
    obtain ⟨hall, hpairs⟩ := (collect_nil_eq_ok_iff (hread lineage)).1 hclaims
    exact ⟨lineage, claims, lineageOf_eq_ok_iff.1 hlineage, hpairs, hall⟩
  · rintro ⟨lineage, claims, hlineage, hpairs, hall⟩
    refine ⟨lineage, lineageOf_eq_ok_iff.2 hlineage, bind_eq_ok_iff.2 ⟨claims, ?_, rfl⟩⟩
    exact (collect_nil_eq_ok_iff (hread lineage)).2 ⟨hall, hpairs⟩

theorem sameLinks_of_reads {value : Json} {links : List Link} (h : ReadsLinks value links) :
    sameLinks links value = true := by
  obtain ⟨items, rfl, -, h⟩ := h
  rw [sameLinks, Bool.and_eq_true]
  refine ⟨decide_eq_true h.length_eq, ?_⟩
  induction h with
  | nil => rfl
  | cons hlink _ ih =>
    obtain ⟨fields, rfl, hexact, hreplaces, -, hreason, -⟩ := hlink
    rw [zip_cons_cons, all_cons, ih, Bool.and_true]
    simp [hexact, hreplaces, hreason]

theorem byGoal_map {α : Type} {goalId : α → String} {fields : α → Fields} {xs : List α}
    (hn : (xs.map goalId).Nodup)
    (hget : ∀ x ∈ xs, (fields x).get "referee_goal_id" = .str (goalId x)) :
    byGoal py (xs.map fun x => .obj (fields x)) = xs.map fun x => (goalId x, fields x) := by
  have hself : dictOfEntries (xs.map fun x => (goalId x, fields x)) = xs.map fun x => (goalId x, fields x) :=
    dictOfEntries_eq_self (by rwa [map_map])
  refine Eq.trans (congrArg dictOfEntries ?_) hself
  clear hn hself
  induction xs with
  | nil => rfl
  | cons x xs ih =>
    rw [map_cons, filterMap_cons, map_cons,
      ih fun y hy => hget y (mem_cons_of_mem x hy)]
    dsimp only
    rw [hget x mem_cons_self, PyLib.str_str]

theorem goalOfId_map {α : Type} {id goalId : α → String} {fields : α → Fields} {xs : List α}
    (hn : (xs.map id).Nodup) (hget : ∀ x ∈ xs, (fields x).get "id" = .str (id x)) :
    goalOfId py (xs.map fun x => (goalId x, fields x)) = xs.map fun x => (id x, goalId x) := by
  have hentries : ((xs.map fun x => (goalId x, fields x)).map fun item =>
      (py.str (item.2.get "id"), item.1)) = xs.map fun x => (id x, goalId x) := by
    rw [map_map]
    refine map_congr_left fun x hx => ?_
    simp only [Function.comp_apply, hget x hx, PyLib.str_str]
  rw [goalOfId, hentries]
  refine dictOfEntries_eq_self ?_
  rwa [map_map]

/-- Normalized pairs follow from themselves. -/
theorem lineageHolds_self {problem : Fields} (hids : (obligations.map (·.id)).Nodup)
    (hgoals : (obligations.map (·.goalId)).Nodup) (hrequirementIds : (requirements.map (·.id)).Nodup)
    (hrequirementGoals : (requirements.map (·.goalId)).Nodup)
    (hobligations : ∀ obligation ∈ obligations, ReadsObligation nfc (.obj obligation.fields) obligation)
    (hrequirements : ∀ requirement ∈ requirements,
      ReadsRequirement nfc (.obj requirement.fields) requirement)
    (hpairs : ∀ obligation ∈ obligations, ∃ requirement ∈ requirements,
      requirement.goalId = obligation.goalId)
    (hobligationList : problem.get "production_obligations" =
      .arr (obligations.map fun obligation => .obj obligation.fields))
    (hrequirementList : problem.get "deliverable_requirements" =
      .arr (requirements.map fun requirement => .obj requirement.fields)) :
    LineageHolds py nfc (some problem) requirements obligations := by
  have hobligation : ∀ obligation ∈ obligations,
      obligation.fields.get "id" = .str obligation.id ∧
      obligation.fields.get "referee_goal_id" = .str obligation.goalId ∧
      normalize_deliverable nfc (obligation.fields.get "deliverable") = .ok obligation.deliverable ∧
      ReadsLinks (obligation.fields.get "replacement_links") obligation.links := by
    intro obligation hmem
    obtain ⟨fields, heq, -, hid, -, hgoal, -, -, -, -, hdeliverable, hlinks, -⟩ := hobligations obligation hmem
    obtain rfl := Json.obj.inj heq
    exact ⟨hid, hgoal, hdeliverable, hlinks⟩
  have hrequirement : ∀ requirement ∈ requirements,
      requirement.fields.get "id" = .str requirement.id ∧
      requirement.fields.get "referee_goal_id" = .str requirement.goalId := by
    intro requirement hmem
    obtain ⟨fields, heq, -, hid, -, hgoal, -⟩ := hrequirements requirement hmem
    obtain rfl := Json.obj.inj heq
    exact ⟨hid, hgoal⟩
  have hby := @byGoal_map py _ _ _ _ hgoals fun o ho => (hobligation o ho).2.1
  have hrequirementBy := @byGoal_map py _ _ _ _ hrequirementGoals fun r hr => (hrequirement r hr).2
  refine ⟨_, obligations.map fun obligation => some obligation.id, ⟨_, _, hobligationList,
    hrequirementList, rfl⟩, ?_, ?_⟩
  · rw [pairwise_map]
    refine (nodup_map_iff_pairwise.1 hids).imp fun hne id ha hb => hne ?_
    exact Option.some.inj (ha.trans hb.symm)
  · rw [forall₂_map_right_iff, forall₂_same]
    intro obligation hmem
    obtain ⟨requirement, hrequirementMem, hgoal⟩ := hpairs obligation hmem
    obtain ⟨hid, -, hdeliverable, hlinks⟩ := hobligation obligation hmem
    have hself : (byGoal py (obligations.map fun obligation => .obj obligation.fields)).lookup
        obligation.goalId = some obligation.fields := by
      rw [hby]
      exact (lookup_map_iff ‹_›).2 ⟨obligation, hmem, rfl, rfl⟩
    have hrequirementSelf : (byGoal py (requirements.map fun requirement => .obj requirement.fields)).lookup
        obligation.goalId = some requirement.fields := by
      rw [hrequirementBy, ← hgoal]
      exact (lookup_map_iff ‹_›).2 ⟨requirement, hrequirementMem, rfl, rfl⟩
    have hown : (obligations.map fun x => (x.id, x.goalId)).lookup obligation.id =
        some obligation.goalId :=
      (lookup_map_iff ‹_›).2 ⟨obligation, hmem, rfl, rfl⟩
    have hrequirementOwn : (requirements.map fun x => (x.id, x.goalId)).lookup requirement.id =
        some requirement.goalId :=
      (lookup_map_iff ‹_›).2 ⟨requirement, hrequirementMem, rfl, rfl⟩
    refine ⟨requirement, hrequirementMem, hgoal, nofun, ?_, ?_, .inr ⟨obligation.goalId,
      obligation.fields, .retained hself, ?_, ?_⟩⟩
    · rw [hby, goalOfId_map hids fun o ho => (hobligation o ho).1, hown]
      simp
    · rw [hrequirementBy, goalOfId_map hrequirementIds fun r hr => (hrequirement r hr).1, hrequirementOwn]
      simp [hgoal]
    · rw [hid, PyLib.strOr_str]
    · refine ⟨obligation.deliverable, requirement.fields, hdeliverable, hrequirementSelf, ?_⟩
      rw [if_pos ⟨rfl, rfl⟩]
      exact ⟨hid.symm, (hrequirement requirement hrequirementMem).1.symm, sameLinks_of_reads hlinks⟩

end Producer

end AiOrg
