import AiOrg.Proofs.ProducerRoot
import AiOrg.Run.Generations

/-!
# Chains of roots

The obligations along a chain of accepted roots are generations in the sense of `Generations`: what a root
says an obligation replaces was said when the obligation was new, of one that went at that moment. An id can
come back with the wording that it is made of, so a replaced id is seen again exactly where one comes back.
-/

namespace AiOrg

open List

namespace Producer

open Checks

variable {py : PyLib} {nfc : List Char → List Char} {root : Fields}
  {obligations previousObligations : List Obligation} {requirements : List Requirement}
  {obligation : Obligation} {problem : Fields}

def HasObligation (root : Fields) (id : String) : Prop :=
  ∃ problem pointer records record, _producer_problem root = .ok (problem, pointer) ∧
    problem.get "production_obligations" = .arr records ∧ .obj record ∈ records ∧
    Fields.get record "id" = .str id

def NamesReplaced (root : Fields) (id replaced : String) : Prop :=
  ∃ problem pointer records record links link, _producer_problem root = .ok (problem, pointer) ∧
    problem.get "production_obligations" = .arr records ∧ .obj record ∈ records ∧
    Fields.get record "id" = .str id ∧ Fields.get record "replacement_links" = .arr links ∧
    .obj link ∈ links ∧ Fields.get link "replaces_obligation_id" = .str replaced

structure ListsObligations (problem : Fields) (obligations : List Obligation) : Prop where
  records : problem.get "production_obligations" =
    .arr (obligations.map fun obligation => .obj obligation.fields)
  reads : ∀ obligation ∈ obligations, obligation.fields.get "id" = .str obligation.id ∧
    obligation.fields.get "referee_goal_id" = .str obligation.goalId ∧
    ReadsLinks (obligation.fields.get "replacement_links") obligation.links
  ids : (obligations.map (·.id)).Nodup
  goals : (obligations.map (·.goalId)).Nodup

theorem reads_fields {value : Json} (h : ReadsObligation nfc value obligation) :
    obligation.fields.get "id" = .str obligation.id ∧
    obligation.fields.get "referee_goal_id" = .str obligation.goalId ∧
    ReadsLinks (obligation.fields.get "replacement_links") obligation.links := by
  obtain ⟨fields, -, -, hid, -, hgoal, -, -, -, -, -, hlinks, hfields⟩ := h
  rw [hfields, Fields.get_set_of_ne _ _ (by decide), Fields.get_set_of_ne _ _ (by decide),
    Fields.get_set_of_ne _ _ (by decide)]
  exact ⟨hid, hgoal, hlinks⟩

theorem lists_of_validate {candidate : Json} {previous : Option Json} {result : Fields}
    (h : validate_canonical_root_technical_approach py nfc candidate previous = .ok result) :
    ∃ problem pointer prev requirements obligations, _producer_problem result = .ok (problem, pointer) ∧
      previousProblem previous = .ok prev ∧ ListsObligations problem obligations ∧
      LineageHolds py nfc prev requirements obligations := by
  obtain ⟨root, parts, prev, goals, requirements, obligations, -, hparts, hprev, haccepted, rfl⟩ :=
    validate_eq_ok_iff.1 h
  refine ⟨_, _, prev, requirements, obligations,
    producer_problem_normalizedRoot (hasParts_of_readParts hparts), hprev, ⟨?_, ?_,
      haccepted.obligationIds, haccepted.correspondence.obligationGoals haccepted.obligationIds⟩,
    haccepted.lineage⟩
  · rw [Fields.get, lookup_normalizedProblem_obligations, Option.getD_some]
  · intro obligation hmem
    obtain ⟨value, -, hread⟩ := Traverse.exists_of_mem_right haccepted.readObligations hmem
    exact reads_fields hread

theorem hasObligation_iff {pointer id : String} (hproblem : _producer_problem root = .ok (problem, pointer))
    (h : ListsObligations problem obligations) :
    HasObligation root id ↔ ∃ obligation ∈ obligations, obligation.id = id := by
  constructor
  · rintro ⟨problem', pointer', records, record, hproblem', hrecords, hmem, hid⟩
    obtain ⟨rfl, rfl⟩ := Prod.mk.inj (Except.ok.inj (hproblem.symm.trans hproblem'))
    obtain rfl := Json.arr.inj (hrecords.symm.trans h.records)
    obtain ⟨obligation, hobligation, heq⟩ := mem_map.1 hmem
    obtain rfl := Json.obj.inj heq
    exact ⟨obligation, hobligation, Json.str.inj ((h.reads obligation hobligation).1.symm.trans hid)⟩
  · rintro ⟨obligation, hobligation, rfl⟩
    exact ⟨problem, pointer, _, obligation.fields, hproblem, h.records,
      mem_map_of_mem hobligation, (h.reads obligation hobligation).1⟩

theorem namesReplaced_iff {pointer id replaced : String}
    (hproblem : _producer_problem root = .ok (problem, pointer))
    (h : ListsObligations problem obligations) :
    NamesReplaced root id replaced ↔ ∃ obligation ∈ obligations, obligation.id = id ∧
      ∃ link ∈ obligation.links, link.replacesObligationId = replaced := by
  constructor
  · rintro ⟨problem', pointer', records, record, values, fields, hproblem', hrecords, hmem, hid, hvalues,
      hvalue, hreplaced⟩
    obtain ⟨rfl, rfl⟩ := Prod.mk.inj (Except.ok.inj (hproblem.symm.trans hproblem'))
    obtain rfl := Json.arr.inj (hrecords.symm.trans h.records)
    obtain ⟨obligation, hobligation, heq⟩ := mem_map.1 hmem
    obtain rfl := Json.obj.inj heq
    obtain ⟨hid', -, items, hitems, -, hlinks⟩ := h.reads obligation hobligation
    obtain rfl := Json.arr.inj (hitems.symm.trans hvalues)
    obtain ⟨link, hlink, other, hother, -, hnamed, -⟩ := Traverse.exists_of_mem_right hlinks.flip hvalue
    obtain rfl := Json.obj.inj hother
    exact ⟨obligation, hobligation, Json.str.inj (hid'.symm.trans hid), link, hlink,
      Json.str.inj (hnamed.symm.trans hreplaced)⟩
  · rintro ⟨obligation, hobligation, rfl, link, hlink, rfl⟩
    obtain ⟨hid, -, items, hitems, -, hlinks⟩ := h.reads obligation hobligation
    obtain ⟨value, hvalue, fields, rfl, -, hnamed, -⟩ := Traverse.exists_of_mem_right hlinks hlink
    exact ⟨problem, pointer, _, obligation.fields, items, fields, hproblem, h.records,
      mem_map_of_mem hobligation, hid, hitems, hvalue, hnamed⟩

/-! ### One step -/

theorem eq_of_sameLinks {value : Json} {links links' : List Link} (h : ReadsLinks value links')
    (hsame : sameLinks links value = true) : links = links' := by
  obtain ⟨items, rfl, -, h⟩ := h
  rw [sameLinks, Bool.and_eq_true, decide_eq_true_eq] at hsame
  obtain ⟨hlength, hall⟩ := hsame
  induction h generalizing links with
  | nil => exact eq_nil_of_length_eq_zero hlength.symm
  | @cons item link' items links' hread hrest ih =>
    obtain ⟨link, links, rfl⟩ := exists_cons_of_length_eq_add_one hlength.symm
    rw [zip_cons_cons, all_cons, Bool.and_eq_true] at hall
    obtain ⟨fields, rfl, -, hreplaces, -, hreason, -⟩ := hread
    obtain ⟨hlink, hall⟩ := hall
    simp only [hreplaces, hreason, Bool.and_eq_true, decide_eq_true_eq, Json.str.injEq] at hlink
    have hhead : link = link' := by
      cases link
      cases link'
      simp_all
    rw [hhead, ih (by simpa using hlength) hall]

/-- What the obligations of a root keep of those before and what the new ones replace. -/
structure Follows (previousObligations obligations : List Obligation) : Prop where
  kept : ∀ obligation ∈ obligations, ∀ predecessor ∈ previousObligations,
    predecessor.id = obligation.id → obligation.links = predecessor.links
  minted : ∀ obligation ∈ obligations,
    (∀ predecessor ∈ previousObligations, predecessor.id ≠ obligation.id) →
    ∀ link ∈ obligation.links,
      (∃ predecessor ∈ previousObligations, predecessor.id = link.replacesObligationId) ∧
      ∀ other ∈ obligations, other.id ≠ link.replacesObligationId

theorem obligations_by_goal (h : ListsObligations problem previousObligations) {records : List Json}
    (hrecords : problem.get "production_obligations" = .arr records) :
    byGoal py records = (previousObligations.map fun predecessor =>
      (predecessor.goalId, predecessor.fields)) ∧
    goalOfId py (byGoal py records) =
      previousObligations.map fun predecessor => (predecessor.id, predecessor.goalId) := by
  obtain rfl := Json.arr.inj (h.records.symm.trans hrecords)
  have hby := @byGoal_map py _ _ _ _ h.goals fun predecessor hmem => (h.reads predecessor hmem).2.1
  refine ⟨hby, ?_⟩
  rw [hby, goalOfId_map h.ids fun predecessor hmem => (h.reads predecessor hmem).1]

/-- One obligation after those of the previous root. -/
theorem follows_one (h : ListsObligations problem previousObligations) {records : List Json}
    (hrecords : problem.get "production_obligations" = .arr records) {lineage : Lineage}
    (hlineage : lineage.obligations = byGoal py records) {currentGoals : List String} {initial : Bool}
    {requirement : Requirement} {claimed : Option String}
    (hrule : LineageRule py nfc initial lineage currentGoals requirement obligation claimed) :
    (∀ predecessor ∈ previousObligations, predecessor.id = obligation.id →
      predecessor.goalId = obligation.goalId ∧ obligation.links = predecessor.links) ∧
    ((∀ predecessor ∈ previousObligations, predecessor.id ≠ obligation.id) →
      obligation.links = [] ∨ ∃ predecessor ∈ previousObligations,
        (∀ link ∈ obligation.links, link.replacesObligationId = predecessor.id) ∧
        (predecessor.goalId = obligation.goalId ∨ predecessor.goalId ∉ currentGoals)) := by
  obtain ⟨hby, howners⟩ := @obligations_by_goal py _ _ h _ hrecords
  rw [← hlineage] at hby howners
  have hgoalOf : ∀ predecessor ∈ previousObligations,
      (goalOfId py lineage.obligations).lookup predecessor.id = some predecessor.goalId := by
    intro predecessor hmem
    rw [howners]
    exact (lookup_map_iff h.ids).2 ⟨predecessor, hmem, rfl, rfl⟩
  have hat : ∀ predecessor ∈ previousObligations,
      lineage.obligations.lookup predecessor.goalId = some predecessor.fields := by
    intro predecessor hmem
    rw [hby]
    exact (lookup_map_iff h.goals).2 ⟨predecessor, hmem, rfl, rfl⟩
  have hfound : ∀ goalId fields, lineage.obligations.lookup goalId = some fields →
      ∃ predecessor ∈ previousObligations, predecessor.goalId = goalId ∧ predecessor.fields = fields := by
    intro goalId fields hlookup
    rw [hby] at hlookup
    exact (lookup_map_iff h.goals).1 hlookup
  constructor
  · intro predecessor hmem hid
    have hgoal : predecessor.goalId = obligation.goalId := by
      have howner := hgoalOf predecessor hmem
      rw [hid] at howner
      exact hrule.owner _ howner
    have hhere := hat predecessor hmem
    rw [hgoal] at hhere
    refine ⟨hgoal, ?_⟩
    obtain ⟨hpid, -, hplinks⟩ := h.reads predecessor hmem
    rcases hrule.predecessor with ⟨-, hnew, -⟩ | ⟨goalId, fields, hprecedes, -, hsucceeds⟩
    · rw [hhere] at hnew
      cases hnew
    · rcases hprecedes with hretained | ⟨hnew, -⟩
      · obtain rfl := Option.eq_some_unique hhere hretained
        obtain ⟨_, _, -, -, hsucceeds⟩ := hsucceeds
        split_ifs at hsucceeds
        · exact eq_of_sameLinks hplinks hsucceeds.2.2
        · exact absurd (hpid.trans (congrArg _ hid)).symm hsucceeds.1
      · rw [hhere] at hnew
        cases hnew
  · intro hfresh
    rcases hrule.predecessor with ⟨-, -, hlinks⟩ | ⟨goalId, fields, hprecedes, -, hsucceeds⟩
    · exact .inl hlinks
    · obtain ⟨hlookup, hgoal⟩ : lineage.obligations.lookup goalId = some fields ∧
          (goalId = obligation.goalId ∨ goalId ∉ currentGoals) := by
        rcases hprecedes with hretained | ⟨-, -, -, hlookup, hgone⟩
        · exact ⟨hretained, .inl rfl⟩
        · exact ⟨hlookup, .inr hgone⟩
      obtain ⟨predecessor, hmem, rfl, rfl⟩ := hfound goalId fields hlookup
      obtain ⟨hpid, -⟩ := h.reads predecessor hmem
      obtain ⟨_, _, -, -, hsucceeds⟩ := hsucceeds
      have hreplaces : obligation.links.map (fun link => Json.str link.replacesObligationId) =
          [predecessor.fields.get "id"] := by
        split_ifs at hsucceeds
        · exact absurd (Json.str.inj (hsucceeds.1.trans hpid)).symm (hfresh predecessor hmem)
        · exact hsucceeds.2.2.2
      refine .inr ⟨predecessor, hmem, fun link hlink => ?_, hgoal⟩
      have hnamed : Json.str link.replacesObligationId ∈ [predecessor.fields.get "id"] := by
        rw [← hreplaces]
        exact mem_map.2 ⟨link, hlink, rfl⟩
      rw [hpid, mem_singleton] at hnamed
      exact Json.str.inj hnamed

theorem follows_of_lineage (h : ListsObligations problem previousObligations)
    (hcurrent : ListsObligations root obligations)
    (hlineage : LineageHolds py nfc (some problem) requirements obligations) :
    Follows previousObligations obligations := by
  obtain ⟨lineage, claims, ⟨records, requirementRecords, hrecords, -, rfl⟩, -, hall⟩ := hlineage
  have hone : ∀ obligation ∈ obligations, ∃ requirement claimed,
      LineageRule py nfc false ⟨byGoal py records, byGoal py requirementRecords⟩
        (obligations.map (·.goalId)) requirement obligation claimed := by
    intro obligation hmem
    obtain ⟨claimed, -, requirement, -, -, hrule⟩ := Traverse.exists_of_mem_right hall.flip hmem
    exact ⟨requirement, claimed, hrule⟩
  refine ⟨fun obligation hmem predecessor hpredecessor hid => ?_, fun obligation hmem hfresh link hlink => ?_⟩
  · obtain ⟨requirement, claimed, hrule⟩ := hone obligation hmem
    exact ((follows_one h hrecords rfl hrule).1 predecessor hpredecessor hid).2
  · obtain ⟨requirement, claimed, hrule⟩ := hone obligation hmem
    rcases (follows_one h hrecords rfl hrule).2 hfresh with hnil | ⟨predecessor, hpredecessor, hlinks, hgoal⟩
    · rw [hnil] at hlink
      cases hlink
    · rw [hlinks link hlink]
      refine ⟨⟨predecessor, hpredecessor, rfl⟩, fun other hother hid => ?_⟩
      obtain ⟨otherRequirement, otherClaimed, hotherRule⟩ := hone other hother
      obtain ⟨hsame, -⟩ := (follows_one h hrecords rfl hotherRule).1 predecessor hpredecessor hid.symm
      rcases hgoal with hgoal | hgone
      · have heq : other = obligation :=
          inj_on_of_nodup_map hcurrent.goals hother hmem (hsame.symm.trans hgoal)
        exact hfresh predecessor hpredecessor (heq ▸ hid.symm)
      · exact hgone (hsame ▸ mem_map_of_mem hother)

structure Chain (py : PyLib) (nfc : List Char → List Char) (roots : ℕ → Fields) (last : ℕ) : Prop where
  first : ∃ candidate, validate_canonical_root_technical_approach py nfc candidate none = .ok (roots 0)
  next : ∀ i < last, ∃ candidate, validate_canonical_root_technical_approach py nfc candidate
    (some (.obj (roots i))) = .ok (roots (i + 1))

variable {roots : ℕ → Fields} {last : ℕ}

theorem Chain.lists (h : Chain py nfc roots last) {i : ℕ} (hi : i ≤ last) :
    ∃ problem pointer obligations, _producer_problem (roots i) = .ok (problem, pointer) ∧
      ListsObligations problem obligations := by
  cases i with
  | zero =>
    obtain ⟨candidate, hcandidate⟩ := h.first
    obtain ⟨problem, pointer, -, -, obligations, hproblem, -, hlists, -⟩ := lists_of_validate hcandidate
    exact ⟨problem, pointer, obligations, hproblem, hlists⟩
  | succ i =>
    obtain ⟨candidate, hcandidate⟩ := h.next i (by omega)
    obtain ⟨problem, pointer, -, -, obligations, hproblem, -, hlists, -⟩ := lists_of_validate hcandidate
    exact ⟨problem, pointer, obligations, hproblem, hlists⟩

theorem Chain.not_namesReplaced (h : Chain py nfc roots last) (id replaced : String) :
    ¬ NamesReplaced (roots 0) id replaced := by
  obtain ⟨candidate, hcandidate⟩ := h.first
  obtain ⟨problem, pointer, prev, requirements, obligations, hproblem, hprev, hlists, hlineage⟩ :=
    lists_of_validate hcandidate
  obtain rfl := Except.ok.inj hprev
  rw [namesReplaced_iff hproblem hlists]
  rintro ⟨obligation, hmem, -, link, hlink, -⟩
  obtain ⟨lineage, claims, -, -, hall⟩ := hlineage
  obtain ⟨claimed, -, requirement, -, -, hrule⟩ := Traverse.exists_of_mem_right hall.flip hmem
  rw [hrule.initial rfl] at hlink
  cases hlink

theorem Chain.follows (h : Chain py nfc roots last) {i : ℕ} (hi : i < last) :
    ∃ problem pointer previousObligations problem' pointer' obligations,
      _producer_problem (roots i) = .ok (problem, pointer) ∧
      ListsObligations problem previousObligations ∧
      _producer_problem (roots (i + 1)) = .ok (problem', pointer') ∧
      ListsObligations problem' obligations ∧ Follows previousObligations obligations := by
  obtain ⟨problem, pointer, previousObligations, hproblem, hlists⟩ := h.lists hi.le
  obtain ⟨candidate, hcandidate⟩ := h.next i hi
  obtain ⟨problem', pointer', prev, requirements, obligations, hproblem', hprev, hlists', hlineage⟩ :=
    lists_of_validate hcandidate
  have hprevious : prev = some problem := by
    rw [previousProblem, hproblem] at hprev
    exact (Except.ok.inj hprev).symm
  subst hprevious
  exact ⟨problem, pointer, previousObligations, problem', pointer', obligations, hproblem, hlists,
    hproblem', hlists', follows_of_lineage hlists hlists' hlineage⟩

def Chain.generations (h : Chain py nfc roots last) : Generations String where
  last := last
  Held i := HasObligation (roots i)
  Link i := NamesReplaced (roots i)
  start := h.not_namesReplaced
  held i id replaced hi hnames := by
    obtain ⟨problem, pointer, obligations, hproblem, hlists⟩ := h.lists hi
    obtain ⟨obligation, hmem, hid, -⟩ := (namesReplaced_iff hproblem hlists).1 hnames
    exact (hasObligation_iff hproblem hlists).2 ⟨obligation, hmem, hid⟩
  retained i id replaced hi hheld hnames := by
    obtain ⟨_, _, _, _, _, _, hproblem, hlists, hproblem', hlists', hfollows⟩ := h.follows hi
    obtain ⟨predecessor, hpredecessor, hpid⟩ := (hasObligation_iff hproblem hlists).1 hheld
    obtain ⟨obligation, hmem, hid, link, hlink, hreplaced⟩ := (namesReplaced_iff hproblem' hlists').1 hnames
    have hlinks := hfollows.kept obligation hmem predecessor hpredecessor (hpid.trans hid.symm)
    exact (namesReplaced_iff hproblem hlists).2 ⟨predecessor, hpredecessor, hpid, link, hlinks ▸ hlink,
      hreplaced⟩
  minted i id replaced hi hfresh hnames := by
    obtain ⟨_, _, _, _, _, _, hproblem, hlists, hproblem', hlists', hfollows⟩ := h.follows hi
    rw [hasObligation_iff hproblem hlists] at hfresh
    obtain ⟨obligation, hmem, rfl, link, hlink, rfl⟩ := (namesReplaced_iff hproblem' hlists').1 hnames
    obtain ⟨hold, hgone⟩ := hfollows.minted obligation hmem
      (fun predecessor hpredecessor hid => hfresh ⟨predecessor, hpredecessor, hid⟩) link hlink
    rw [hasObligation_iff hproblem hlists, hasObligation_iff hproblem' hlists']
    exact ⟨hold, fun ⟨other, hother, hid⟩ => hgone other hother hid⟩

/-- An id of an obligation comes back after a root without it. -/
def Returns (roots : ℕ → Fields) (last : ℕ) (id : String) : Prop :=
  ∃ i j k, i < j ∧ j < k ∧ k ≤ last ∧ HasObligation (roots i) id ∧ ¬ HasObligation (roots j) id ∧
    HasObligation (roots k) id

/-- A replaced obligation went when the one that replaces it was new. Its id is of an obligation of this or
a later root only where it comes back, and where no replaced id does, the replacements have no cycle. -/
theorem chain_lineage (h : Chain py nfc roots last) :
    (∀ i ≤ last, ∀ id replaced, NamesReplaced (roots i) id replaced →
      ∃ k < i, ¬ HasObligation (roots k) id ∧ HasObligation (roots (k + 1)) id ∧
        HasObligation (roots k) replaced ∧ ¬ HasObligation (roots (k + 1)) replaced) ∧
    (∀ i j, i ≤ j → j ≤ last → ∀ id replaced, NamesReplaced (roots i) id replaced →
      HasObligation (roots j) replaced → Returns roots last replaced) ∧
    ((∀ i ≤ last, ∀ id replaced, NamesReplaced (roots i) id replaced → ¬ Returns roots last replaced) →
      ∀ id, ¬ Relation.TransGen (fun a b => ∃ i ≤ last, NamesReplaced (roots i) a b) id id) := by
  refine ⟨fun i hi id replaced hnames => ?_, fun i j hij hj id replaced hnames hheld => ?_, fun hreturn => ?_⟩
  · exact Generations.exists_minted (g := h.generations) hi hnames
  · by_contra hreturn
    exact Generations.not_held_of_link (g := h.generations) hreturn hnames hij hj hheld
  · refine Generations.acyclic (g := h.generations) ?_
    rintro id replaced ⟨i, hi, hnames⟩
    exact hreturn i hi id replaced hnames

section Example

/-- A root of one goal whose obligation may replace another. -/
def wordedRoot (id deliverable : String) (links : List Json) : Fields :=
  [("goals", .arr [.obj [("id", .str "goal:1"), ("actor", .str "reader"),
      ("capability", .obj [("action", .str "read"), ("preconditions", .arr [])]),
      ("requires_deliverable", .bool true), ("ux_trace", .str "screen"),
      ("verifiable_outcome", .obj [("evidence", .str "log"), ("expected_state", .str "read")]),
      ("verification", .obj [("check", .str "look"), ("method", .str "manual_check")])]]),
    ("deliverable_requirements", .arr [.obj [("id", .str ("required:" ++ id)),
      ("referee_goal_id", .str "goal:1"), ("production_obligation_id", .str id),
      ("deliverable", .str deliverable)]]),
    ("production_obligations", .arr [.obj [("id", .str id),
      ("referee_goal_id", .str "goal:1"), ("deliverable_requirement_id", .str ("required:" ++ id)),
      ("deliverable", .str deliverable), ("eligibility_predicate", .str "can be read"),
      ("replacement_links", .arr links)]]),
    ("patch_plan", .arr [.obj [("item_id", .str "item"), ("production_obligation_ids", .arr [.str id])]])]

/-- The one replacement of an obligation. -/
def replacing (id : String) : List Json :=
  [.obj [("replaces_obligation_id", .str id), ("replacement_reason", .str "another wording")]]

/-- A report, then a table, then the report again. -/
def returningRoots : ℕ → Fields
  | 0 => wordedRoot "report" "a report" []
  | 1 => wordedRoot "table" "a table" (replacing "report")
  | _ => wordedRoot "report" "a report" (replacing "table")

theorem returningRoots_chain : Chain asciiLib id returningRoots 2 := by
  refine ⟨⟨.obj (returningRoots 0), by decide +kernel⟩, fun i hi => ?_⟩
  obtain rfl | rfl : i = 0 ∨ i = 1 := by omega
  · exact ⟨.obj (returningRoots 1), by decide +kernel⟩
  · exact ⟨.obj (returningRoots 2), by decide +kernel⟩

theorem namesReplaced_wordedRoot (id replaced deliverable : String) :
    NamesReplaced (wordedRoot id deliverable (replacing replaced)) id replaced :=
  ⟨_, _, _, _, _, _, rfl, rfl, mem_singleton_self _, rfl, rfl, mem_singleton_self _, rfl⟩

/-- The replaced report is in the last root, and the two replacements are a cycle. -/
theorem replaced_returns : Chain asciiLib id returningRoots 2 ∧
    NamesReplaced (returningRoots 1) "table" "report" ∧ HasObligation (returningRoots 2) "report" ∧
    Relation.TransGen (fun a b => ∃ i ≤ 2, NamesReplaced (returningRoots i) a b) "report" "report" := by
  have hfirst : NamesReplaced (returningRoots 1) "table" "report" := namesReplaced_wordedRoot _ _ _
  have hsecond : NamesReplaced (returningRoots 2) "report" "table" := namesReplaced_wordedRoot _ _ _
  refine ⟨returningRoots_chain, hfirst, ?_, ?_⟩
  · exact ⟨_, _, _, _, rfl, rfl, mem_singleton_self _, rfl⟩
  · exact .tail (.single ⟨2, le_rfl, hsecond⟩) ⟨1, by omega, hfirst⟩

/-- In the chain of the first two, the table was new where the report went. -/
theorem chain_lineage_replaced : ∃ k < 1,
    HasObligation (returningRoots k) "report" ∧ ¬ HasObligation (returningRoots (k + 1)) "report" := by
  have hchain : Chain asciiLib id returningRoots 1 :=
    ⟨returningRoots_chain.first, fun i hi => returningRoots_chain.next i (by omega)⟩
  obtain ⟨k, hk, -, -, hheld, hgone⟩ :=
    (chain_lineage hchain).1 1 le_rfl "table" "report" (namesReplaced_wordedRoot _ _ _)
  exact ⟨k, hk, hheld, hgone⟩

end Example

end Producer

end AiOrg
