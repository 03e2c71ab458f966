import AiOrg.PatchAuthor.Drive

/-!
# Item commits

The harvest reads the subjects of a branch from its tip: it passes over results and acceptance markers, takes what ends
in the id of an item, and stops at the first other commit.
-/

namespace AiOrg

open List

namespace Harvest

open CodeWorker (Commit ItemCommit)

def _IMPLEMENTATION_RESULT_PREFIX : String := "patch: implementation result for "

def _ACCEPTANCE_SUBJECTS : List String := ["acceptance: reachable", "acceptance: blocked"]

/-- What stands between the brackets of an item. -/
def isInner (c : Char) : Bool := c != '[' && c != ']' && c != '\r' && c != '\n'

/-- The group of `\[([^\[\]\r\n]+#[^\[\]\r\n]+)\]\Z` in a subject. -/
def itemOf (subject : String) : Option String :=
  if subject.toList.getLast? = some ']' then
    let front := subject.toList.dropLast
    let inner := front.rtakeWhile isInner
    if (front.rdropWhile isInner).getLast? = some '[' ∧ '#' ∈ inner.tail.dropLast then some (String.ofList inner)
    else none
  else none

inductive Reading
  | passed
  | item (item_id : String)
  | other
  deriving DecidableEq

/-- What a subject is to the harvest. -/
def readSubject (subject : String) : Reading :=
  if subject ∈ _ACCEPTANCE_SUBJECTS ∨ _IMPLEMENTATION_RESULT_PREFIX.toList.isPrefixOf subject.toList then .passed
  else match itemOf subject with
  | some item_id => .item item_id
  | none => .other

def newestFirst : List Commit → List ItemCommit
  | [] => []
  | commit :: commits =>
    match readSubject commit.subject with
    | .passed => newestFirst commits
    | .item item_id => ⟨commit.sha, commit.committed_at, item_id⟩ :: newestFirst commits
    | .other => []

/-- `_item_commits` of the commits of a branch, newest first. -/
def _item_commits (log : List Commit) : List ItemCommit := (newestFirst log).reverse

/-- The first subject that is not passed over is that of no item. -/
def Quiet (subjects : List String) : Prop :=
  ∀ subject, (subjects.find? fun subject => readSubject subject ≠ .passed) = some subject →
    readSubject subject = .other

/-- Acceptance markers on top of a branch. -/
def Accepted (marked log : List Commit) : Prop :=
  ∃ markers, marked = markers ++ log ∧ ∀ commit ∈ markers, commit.subject ∈ _ACCEPTANCE_SUBJECTS

section Drive

open CodeWorker

variable (py : PyLib) (world : World) (brief : Brief)

/-- The number of commits that the checks of the questions find, without a task binding. -/
def checkedHeight (base : List Commit) : ℕ :=
  base.length + (contingency_elaboration_items py brief.must_answer_questions).length +
    (plan_items py brief.patch_plan brief.plan_id).length

/-- A drive on a base leaves its items where the harvest finds them, and nothing else. -/
structure Harvested (base : List Commit) : Prop where
  /-- No completion assertion stands in front of the items. -/
  unbound : world.binding ≠ some true
  /-- Nor does a pivot. -/
  answered : ∀ question ∈ questionsOf brief.must_answer_questions,
    world.passes (checkedHeight py brief base) question = true
  result : readSubject (Git.subject (resultSubject brief)) = .passed
  items : ∀ item ∈ plan_items py brief.patch_plan brief.plan_id,
    readSubject (Git.subject (itemSubject py brief item.item_id)) = .item item.item_id
  /-- The harvest stops behind the items. -/
  quiet : Quiet (((contingency_elaboration_items py brief.must_answer_questions).map
    fun id => Git.subject (planSubject id)).reverse ++ base.map Commit.subject)

end Drive

end Harvest

end AiOrg

/-!
## The harvest finds the items of a drive

A drive puts its items on top of what was there, and the answers, the completion assertion and the result on top of
them. The harvest reads down from the tip, so it finds the items exactly when it passes over all that stands in front of
them, takes each of them, and stops behind them (`items_harvested_iff`).
-/

namespace AiOrg

open List

namespace Harvest

open CodeWorker

variable {py : PyLib} {world : World} {brief : Brief} {base log : List Commit} {progress : Progress}

theorem newestFirst_eq_nil_iff (log : List Commit) : newestFirst log = [] ↔ Quiet (log.map Commit.subject) := by
  unfold Quiet
  induction log with
  | nil => simp [newestFirst]
  | cons commit log ih =>
    rw [newestFirst, map_cons, find?_cons]
    cases hread : readSubject commit.subject with
    | passed => simpa using ih
    | item item_id => simp [hread]
    | other => simp [hread]

theorem newestFirst_markers {markers : List Commit} (h : ∀ commit ∈ markers, commit.subject ∈ _ACCEPTANCE_SUBJECTS)
    (log : List Commit) : newestFirst (markers ++ log) = newestFirst log := by
  induction markers with
  | nil => rfl
  | cons commit markers ih =>
    have hread : readSubject commit.subject = .passed := by
      rw [readSubject, if_pos (.inl (h commit mem_cons_self))]
    rw [cons_append, newestFirst, hread]
    exact ih fun other hother => h other (mem_cons_of_mem commit hother)

theorem readSubject_ne_passed {front : List Char} {subject : String} (h : front <+: subject.toList)
    (hresult : ¬ (front <+: _IMPLEMENTATION_RESULT_PREFIX.toList ∨ _IMPLEMENTATION_RESULT_PREFIX.toList <+: front))
    (haccepted : ∀ text ∈ _ACCEPTANCE_SUBJECTS, ¬ front <+: text.toList) : readSubject subject ≠ .passed := by
  have hnot : ¬ (subject ∈ _ACCEPTANCE_SUBJECTS ∨
      _IMPLEMENTATION_RESULT_PREFIX.toList.isPrefixOf subject.toList = true) := by
    rintro (hmem | hprefix)
    · exact haccepted subject hmem h
    · exact hresult ( prefix_or_prefix_of_prefix h ( isPrefixOf_iff_prefix.1 hprefix))
  rw [readSubject, if_neg hnot]
  cases itemOf subject <;> nofun

theorem prefix_subject_append {front : String} (rest : String) (hline : ∀ c ∈ front.toList, c ≠ '\n')
    (hlast : ∃ init c, front.toList = init ++ [c] ∧ Git.isSpace c = false) :
    front.toList <+: (Git.subject (front ++ rest)).toList := by
  have h := Git.prefix_subject rest.toList hline hlast
  rwa [← String.toList_append, String.ofList_toList] at h

theorem pivotSubject_ne_passed (objection_id : String) :
    readSubject (Git.subject (pivotSubject objection_id)) ≠ .passed := by
  have h := @prefix_subject_append "patch: contingency" (" engaged for " ++ objection_id) (by simp)
    ⟨"patch: contingenc".toList, 'y', by simp, by decide⟩
  rw [← String.append_assoc] at h
  exact readSubject_ne_passed h (by simp [_IMPLEMENTATION_RESULT_PREFIX]) (by simp [_ACCEPTANCE_SUBJECTS])

theorem planSubject_ne_passed (objection_id : String) :
    readSubject (Git.subject (planSubject objection_id)) ≠ .passed := by
  have h := @prefix_subject_append "patch: contingency" (" plan for " ++ objection_id) (by simp)
    ⟨"patch: contingenc".toList, 'y', by simp, by decide⟩
  rw [← String.append_assoc] at h
  exact readSubject_ne_passed h (by simp [_IMPLEMENTATION_RESULT_PREFIX]) (by simp [_ACCEPTANCE_SUBJECTS])

theorem assertionSubject_ne_passed (implementation_oid : String) :
    readSubject (Git.subject (assertionSubject implementation_oid)) ≠ .passed := by
  have h := @prefix_subject_append "producer-completion:" (" assert " ++ implementation_oid) (by simp)
    ⟨"producer-completion".toList, ':', by simp, by decide⟩
  rw [← String.append_assoc] at h
  exact readSubject_ne_passed h (by simp [_IMPLEMENTATION_RESULT_PREFIX]) (by simp [_ACCEPTANCE_SUBJECTS])

/-- What a commit is to the harvest that finds it: the item it was made for, or nothing to take. -/
def Found (made : Commit × Option String) : Prop :=
  readSubject made.1.subject = made.2.elim .passed .item

def authoredOf (made : List (Commit × Option String)) : List ItemCommit :=
  made.filterMap fun one => one.2.map fun item_id => ⟨one.1.sha, one.1.committed_at, item_id⟩

theorem sha_of_mem_newestFirst {entry : ItemCommit} (h : entry ∈ newestFirst log) :
    entry.sha ∈ log.map Commit.sha := by
  induction log with
  | nil => exact nomatch h
  | cons commit log ih =>
    rw [newestFirst] at h
    rw [map_cons, mem_cons]
    cases hread : readSubject commit.subject with
    | passed =>
      rw [hread] at h
      exact .inr (ih h)
    | item item_id =>
      rw [hread] at h
      rcases mem_cons.1 h with rfl | h
      · exact .inl rfl
      · exact .inr (ih h)
    | other =>
      rw [hread] at h
      exact nomatch h

theorem sha_of_mem_authoredOf {made : List (Commit × Option String)} {entry : ItemCommit}
    (h : entry ∈ authoredOf made) : entry.sha ∈ (made.map Prod.fst).map Commit.sha := by
  obtain ⟨one, hone, hentry⟩ := mem_filterMap.1 h
  obtain ⟨item_id, -, rfl⟩ := Option.map_eq_some_iff.1 hentry
  exact mem_map_of_mem (mem_map_of_mem hone)

/-- The harvest of commits of which the oldest is that of an item, on top of others. -/
theorem newestFirst_eq_iff {made : List (Commit × Option String)} {older : List Commit}
    (hdistinct : ((made.map Prod.fst ++ older).map Commit.sha).Nodup)
    (hlast : ∀ one, made.getLast? = some one → one.2 ≠ none) :
    newestFirst (made.map Prod.fst ++ older) = authoredOf made ↔
      (∀ one ∈ made, Found one) ∧ newestFirst older = [] := by
  induction made with
  | nil => simp [authoredOf]
  | cons one made ih =>
    obtain ⟨commit, item⟩ := one
    rw [map_cons, cons_append, map_cons, nodup_cons] at hdistinct
    obtain ⟨hfresh, hdistinct⟩ := hdistinct
    have hrest : ∀ one, made.getLast? = some one → one.2 ≠ none := by
      intro one hone
      exact hlast one (by rw [getLast?_cons, hone]; rfl)
    have hnotFound : ∀ item_id, readSubject commit.subject = .item item_id →
        ∀ entries : List ItemCommit, (∀ entry ∈ entries, entry.sha ∈ (made.map Prod.fst ++ older).map Commit.sha) →
          newestFirst (commit :: (made.map Prod.fst ++ older)) ≠ entries := by
      rintro item_id hread entries hentries rfl
      rw [newestFirst, hread] at hentries
      exact hfresh (hentries _ mem_cons_self)
    have hauthored : ∀ entry ∈ authoredOf made, entry.sha ∈ (made.map Prod.fst ++ older).map Commit.sha := by
      intro entry hentry
      rw [map_append]
      exact mem_append_left _ (sha_of_mem_authoredOf hentry)
    rw [map_cons, cons_append, forall_mem_cons]
    cases item with
    | none =>
      have hsome : made ≠ [] := by
        rintro rfl
        exact hlast (commit, none) rfl rfl
      have hcons : authoredOf ((commit, none) :: made) = authoredOf made := rfl
      rw [hcons, Found, Option.elim_none]
      cases hread : readSubject commit.subject with
      | passed => rw [newestFirst, hread, ih hdistinct hrest]; simp
      | item item_id => exact iff_of_false (hnotFound item_id hread _ hauthored) (by rintro ⟨⟨h, -⟩, -⟩; exact nomatch h)
      | other =>
        refine iff_of_false ?_ (by rintro ⟨⟨h, -⟩, -⟩; exact nomatch h)
        rw [newestFirst, hread]
        intro hnil
        obtain ⟨last, hlastMem⟩ := Option.ne_none_iff_exists'.1 (mt getLast?_eq_none_iff.1 hsome)
        obtain ⟨item_id, hitem⟩ := Option.ne_none_iff_exists'.1 (hrest last hlastMem)
        have hmem : (⟨last.1.sha, last.1.committed_at, item_id⟩ : ItemCommit) ∈ authoredOf made :=
          mem_filterMap.2 ⟨last, mem_of_getLast? hlastMem, by rw [hitem]; rfl⟩
        rw [← hnil] at hmem
        exact nomatch hmem
    | some item_id =>
      have hcons : authoredOf ((commit, some item_id) :: made) =
          ⟨commit.sha, commit.committed_at, item_id⟩ :: authoredOf made := rfl
      rw [hcons, Found, Option.elim_some]
      cases hread : readSubject commit.subject with
      | passed =>
        refine iff_of_false ?_ (by rintro ⟨⟨h, -⟩, -⟩; exact nomatch h)
        rw [newestFirst, hread]
        intro heq
        have heq : newestFirst (made.map Prod.fst ++ older) = _ := heq
        have hmem : (⟨commit.sha, commit.committed_at, item_id⟩ : ItemCommit) ∈
            newestFirst (made.map Prod.fst ++ older) := heq ▸ mem_cons_self
        exact hfresh (sha_of_mem_newestFirst hmem)
      | item other =>
        rw [newestFirst, hread]
        simp only [List.cons.injEq, ItemCommit.mk.injEq, true_and, Reading.item.injEq]
        rw [ih hdistinct hrest, and_assoc]
      | other =>
        refine iff_of_false ?_ (by rintro ⟨⟨h, -⟩, -⟩; exact nomatch h)
        rw [newestFirst, hread]
        exact nofun

theorem flatten_slices {α : Type} (sizes : List ℕ) (items : List α) (h : items.length ≤ sizes.sum) :
    (slices sizes items).flatten = items := by
  induction sizes generalizing items with
  | nil => simpa [slices, eq_comm] using h
  | cons size sizes ih =>
    rw [sum_cons] at h
    rw [slices, flatten_cons, ih _ (by rw [length_drop]; omega), take_append_drop]

theorem sum_sizes (base remainder count : ℕ) :
    ((List.range count).map fun child => base + if child < remainder then 1 else 0).sum =
      count * base + min remainder count := by
  induction count with
  | zero => simp
  | succ count ih =>
    rw [range_succ, map_append, sum_append, ih, map_singleton, sum_singleton, Nat.succ_mul]
    split_ifs <;> omega

theorem flatten_partition_items {α : Type} (items : List α) (child_count : Option ℕ) :
    (partition_items items child_count).flatten = items := by
  rw [partition_items]
  split_ifs with hempty
  · rw [List.isEmpty_iff.1 hempty]
    rfl
  have hlength : 0 < items.length := length_pos_iff.2 (mt List.isEmpty_iff.2 hempty)
  dsimp only
  generalize hcount : child_count.elim items.length (fun n => max 1 (min n items.length)) = count
  have hpos : 0 < count := by
    rw [← hcount]
    cases child_count <;> simp [hlength]
  refine flatten_slices _ items ?_
  rw [sum_sizes, min_eq_left (Nat.mod_lt _ hpos).le, Nat.div_add_mod]

theorem authorPartitions_eq (partitions : List (List Work)) (progress : Progress) :
    authorPartitions py world brief partitions progress =
      partitions.flatten.foldlM (authorOne py world brief) progress := by
  rw [authorPartitions]
  induction partitions generalizing progress with
  | nil => rfl
  | cons partition partitions ih =>
    rw [foldlM_cons, flatten_cons, foldlM_append]
    exact congrArg _ (funext ih)

/-! ### What a drive commits -/

theorem elaborations_log {ids : List String} {next : Progress}
    (h : (ids.map Work.elaboration).foldlM (authorOne py world brief) progress = some next) :
    next.authored = progress.authored ∧ ∃ commits, next.log = commits ++ progress.log ∧
      commits.map Commit.subject = (ids.map fun id => Git.subject (planSubject id)).reverse := by
  induction ids generalizing progress with
  | nil =>
    obtain rfl := Option.some.inj h
    exact ⟨rfl, [], rfl, rfl⟩
  | cons id ids ih =>
    rw [map_cons, foldlM_cons, authorOne, _elaborate_contingency] at h
    split_ifs at h
    · obtain ⟨hauthored, commits, hlog, hsubjects⟩ := ih h
      refine ⟨hauthored, commits ++ [⟨world.oid progress.log.length, world.committed_at progress.log.length,
        Git.subject (planSubject id)⟩], ?_, ?_⟩
      · rw [hlog, append_assoc]
        rfl
      · rw [map_append, hsubjects, @map_cons _ _ _ id ids, reverse_cons]
        rfl
    · exact nomatch h

theorem items_log {items : List PlanItem} {next : Progress}
    (h : (items.map Work.item).foldlM (authorOne py world brief) progress = some next) :
    ∃ made, next.log = made.map Prod.fst ++ progress.log ∧
      next.authored = progress.authored ++ (authoredOf made).reverse ∧
      made.map (fun one => (one.1.subject, one.2)) =
        (items.map fun item => (Git.subject (itemSubject py brief item.item_id), some item.item_id)).reverse := by
  induction items generalizing progress with
  | nil =>
    obtain rfl := Option.some.inj h
    exact ⟨[], rfl, (append_nil _).symm, rfl⟩
  | cons item items ih =>
    rw [map_cons, foldlM_cons, authorOne] at h
    split_ifs at h
    · obtain ⟨made, hlog, hauthored, hsubjects⟩ := ih h
      refine ⟨made ++ [(⟨world.oid progress.log.length, world.committed_at progress.log.length,
        Git.subject (itemSubject py brief item.item_id)⟩, some item.item_id)], ?_, ?_, ?_⟩
      · rw [hlog, map_append, append_assoc]
        rfl
      · rw [hauthored, authoredOf, authoredOf, filterMap_append, reverse_append, _commit_item,
          append_assoc]
        rfl
      · rw [map_append, hsubjects, @map_cons _ _ _ item items, reverse_cons]
        rfl
    · exact nomatch h

theorem exists_commit (world : World) (text : String) (log : List Commit) :
    ∃ commit : Commit, world.commit text log = commit :: log ∧ commit.subject = Git.subject text :=
  ⟨_, rfl, rfl⟩

theorem answers_log {questions : List Fields} {next : List Commit}
    (h : _answer_must_answer_questions py world questions log = some next) :
    ∃ commits, next = commits ++ log ∧ (∀ commit ∈ commits, readSubject commit.subject ≠ .passed) ∧
      (commits = [] ↔ ∀ question ∈ questions, world.passes log.length question = true) := by
  induction questions generalizing log with
  | nil =>
    obtain rfl := Option.some.inj h
    exact ⟨[], rfl, nofun, iff_of_true rfl nofun⟩
  | cons question questions ih =>
    rw [_answer_must_answer_questions] at h
    dsimp only at h
    by_cases hpasses : world.passes log.length question = true
    · rw [if_pos hpasses] at h
      obtain ⟨commits, hnext, hcommits, hnil⟩ := ih h
      refine ⟨commits, hnext, hcommits, hnil.trans ?_⟩
      rw [forall_mem_cons, and_iff_right hpasses]
    · rw [if_neg hpasses] at h
      obtain ⟨planned, hplanned, h⟩ := Option.bind_eq_some_iff.1 h
      -- The plan of the question is there already, or is committed now.
      have hplan : ∃ plans, planned = plans ++ log ∧ ∀ commit ∈ plans, readSubject commit.subject ≠ .passed := by
        rw [withPlan] at hplanned
        split_ifs at hplanned
        · obtain rfl := Option.some.inj hplanned
          exact ⟨[], rfl, nofun⟩
        · rw [_elaborate_contingency] at hplanned
          split_ifs at hplanned
          obtain rfl := Option.some.inj hplanned
          refine ⟨[_], rfl, fun commit hcommit => ?_⟩
          rw [mem_singleton.1 hcommit]
          exact planSubject_ne_passed _
      obtain ⟨plans, rfl, hplans⟩ := hplan
      split_ifs at h
      obtain ⟨commits, hnext, hcommits, -⟩ := ih h
      obtain ⟨pivot, hpivot, hsubject⟩ := exists_commit world (pivotSubject (objectionId py question)) (plans ++ log)
      refine ⟨commits ++ pivot :: plans, ?_, ?_, ?_⟩
      · rw [hnext, hpivot, append_assoc, cons_append]
      · intro commit hcommit
        rcases mem_append.1 hcommit with hcommit | hcommit
        · exact hcommits commit hcommit
        · rcases mem_cons.1 hcommit with rfl | hcommit
          · rw [hsubject]
            exact pivotSubject_ne_passed _
          · exact hplans commit hcommit
      · refine iff_of_false (append_ne_nil_of_right_ne_nil _ (cons_ne_nil _ _)) fun hall => ?_
        exact hpasses (hall question mem_cons_self)

theorem binding_log {active : Bool} {bound : List Commit}
    (h : _materialize_producer_task_binding world brief base = some (active, bound)) :
    (active = true ↔ world.binding = some true) ∧ ∃ bindings, bound = bindings ++ base ∧
      (active = false → bindings = []) := by
  obtain ⟨flag, hflag, hpair⟩ := Option.map_eq_some_iff.1 h
  obtain ⟨rfl, rfl⟩ := Prod.mk.inj hpair
  cases flag with
  | true =>
    obtain ⟨commit, hcommit, -⟩ := exists_commit world (bindingSubject brief) base
    exact ⟨iff_of_true rfl hflag, [commit], by rw [if_pos rfl, hcommit]; rfl, nofun⟩
  | false => exact ⟨iff_of_false Bool.false_ne_true (by rw [hflag]; decide), [], rfl, fun _ => rfl⟩

theorem assertion_log {active : Bool} {asserted : List Commit} (h : withAssertion world active log = some asserted) :
    ∃ assertions, asserted = assertions ++ log ∧ (∀ commit ∈ assertions, readSubject commit.subject ≠ .passed) ∧
      (assertions = [] ↔ active ≠ true) := by
  rw [withAssertion] at h
  split_ifs at h with hactive
  · rw [_write_producer_completion_assertion] at h
    split_ifs at h
    obtain rfl := Option.some.inj h
    obtain ⟨commit, hcommit, hsubject⟩ :=
      exists_commit world (assertionSubject ((log.head?.map Commit.sha).getD "")) log
    refine ⟨[commit], hcommit, fun other hother => ?_, iff_of_false (cons_ne_nil _ _) (not_not.2 hactive)⟩
    rw [mem_singleton.1 hother, hsubject]
    exact assertionSubject_ne_passed _
  · obtain rfl := Option.some.inj h
    exact ⟨[], rfl, nofun, iff_of_true rfl hactive⟩

theorem result_log {written : List Commit} (h : _write_result_artifact world brief log = some written) :
    ∃ result : Commit, written = result :: log ∧ result.subject = Git.subject (resultSubject brief) := by
  rw [_write_result_artifact] at h
  split_ifs at h
  obtain rfl := Option.some.inj h
  exact exists_commit world (resultSubject brief) log

theorem drive_log (h : drive py world brief base = some progress) :
    ∃ result assertions answers made plans bindings,
      progress.log = result :: (assertions ++ (answers ++ (made.map Prod.fst ++ (plans ++ (bindings ++ base))))) ∧
      progress.authored = (authoredOf made).reverse ∧
      result.subject = Git.subject (resultSubject brief) ∧
      (∀ commit ∈ assertions, readSubject commit.subject ≠ .passed) ∧
      (assertions = [] ↔ world.binding ≠ some true) ∧
      (∀ commit ∈ answers, readSubject commit.subject ≠ .passed) ∧
      (answers = [] ↔ ∀ question ∈ questionsOf brief.must_answer_questions,
        world.passes (made.map Prod.fst ++ (plans ++ (bindings ++ base))).length question = true) ∧
      made ≠ [] ∧
      made.map (fun one => (one.1.subject, one.2)) = ((plan_items py brief.patch_plan brief.plan_id).map
        fun item => (Git.subject (itemSubject py brief item.item_id), some item.item_id)).reverse ∧
      plans.map Commit.subject = ((contingency_elaboration_items py brief.must_answer_questions).map
        fun id => Git.subject (planSubject id)).reverse ∧
      (world.binding ≠ some true → bindings = []) := by
  rw [drive] at h
  dsimp only at h
  split_ifs at h with hempty
  rw [_drive_in_worktree] at h
  obtain ⟨⟨active, bound⟩, hbound, h⟩ := Option.bind_eq_some_iff.1 h
  obtain ⟨driven, hdriven, h⟩ := Option.bind_eq_some_iff.1 h
  obtain ⟨answered, hanswered, h⟩ := Option.bind_eq_some_iff.1 h
  obtain ⟨asserted, hasserted, h⟩ := Option.bind_eq_some_iff.1 h
  obtain ⟨written, hwritten, h⟩ := Option.bind_eq_some_iff.1 h
  obtain rfl := Option.some.inj h
  rw [authorPartitions_eq, flatten_partition_items, foldlM_append] at hdriven
  obtain ⟨planned, hplanned, hdriven⟩ := Option.bind_eq_some_iff.1 hdriven
  obtain ⟨hnone, plans, hplansLog, hplans⟩ := elaborations_log hplanned
  obtain ⟨made, hmadeLog, hauthored, hmade⟩ := items_log hdriven
  obtain ⟨answers, hanswersLog, hanswers, hnil⟩ := answers_log hanswered
  obtain ⟨hactive, bindings, rfl, hbindings⟩ := binding_log hbound
  obtain ⟨assertions, rfl, hassertions, hassertionsNil⟩ := assertion_log hasserted
  obtain ⟨result, rfl, hresult⟩ := result_log hwritten
  have hlog : driven.log = made.map Prod.fst ++ (plans ++ (bindings ++ base)) := by rw [hmadeLog, hplansLog]
  refine ⟨result, assertions, answers, made, plans, bindings, ?_, ?_, hresult, hassertions, ?_, hanswers, ?_, ?_,
    hmade, hplans, ?_⟩
  · rw [hanswersLog, hlog]
  · rw [hauthored, hnone, nil_append]
  · rw [hassertionsNil, Ne, hactive]
  · rw [← hlog]
    exact hnil
  · rintro rfl
    have hlength := congrArg List.length hmade
    rw [map_nil, length_nil, length_reverse, length_map] at hlength
    exact hempty (List.isEmpty_iff.2 (length_eq_zero_iff.1 hlength.symm))
  · intro hunbound
    exact hbindings (by simpa using mt hactive.1 hunbound)

def untaken (commits : List Commit) : List (Commit × Option String) := commits.map fun commit => (commit, none)

theorem untaken_fst (commits : List Commit) : (untaken commits).map Prod.fst = commits := by
  simp [untaken, Function.comp_def]

theorem authoredOf_untaken_append (commits : List Commit) (made : List (Commit × Option String)) :
    authoredOf (untaken commits ++ made) = authoredOf made := by
  simp [authoredOf, untaken, filterMap_append]

theorem found_untaken_iff {commits : List Commit} (h : ∀ commit ∈ commits, readSubject commit.subject ≠ .passed) :
    (∀ one ∈ untaken commits, Found one) ↔ commits = [] := by
  constructor
  · intro hfound
    refine eq_nil_iff_forall_not_mem.2 fun commit hcommit => ?_
    exact h commit hcommit (hfound (commit, none) (mem_map_of_mem hcommit))
  · rintro rfl
    exact nofun

theorem found_made_iff {made : List (Commit × Option String)}
    (hsubjects : made.map (fun one => (one.1.subject, one.2)) =
      ((plan_items py brief.patch_plan brief.plan_id).map
        fun item => (Git.subject (itemSubject py brief item.item_id), some item.item_id)).reverse) :
    (∀ one ∈ made, Found one) ↔ ∀ item ∈ plan_items py brief.patch_plan brief.plan_id,
      readSubject (Git.subject (itemSubject py brief item.item_id)) = .item item.item_id := by
  have hmade : (∀ one ∈ made, Found one) ↔
      ∀ one ∈ made.map (fun one => (one.1.subject, one.2)), readSubject one.1 = one.2.elim .passed .item := by
    rw [forall_mem_map]
    rfl
  rw [hmade, hsubjects]
  simp

/-- The harvest of a branch that a drive left returns the commits of the items, exactly when nothing but the result
and acceptance markers stands in front of them, they all end in their ids, and it stops behind them. -/
theorem items_harvested_iff {marked : List Commit} (h : drive py world brief base = some progress)
    (haccepted : Accepted marked progress.log) (hdistinct : (progress.log.map Commit.sha).Nodup) :
    _item_commits marked = progress.authored ↔ Harvested py world brief base := by
  obtain ⟨markers, rfl, hmarkers⟩ := haccepted
  obtain ⟨result, assertions, answers, made, plans, bindings, hlog, hauthored, hresult, hassertions, hassertionsNil,
    hanswers, hanswersNil, hmade, hsubjects, hplans, hbindings⟩ := drive_log h
  -- The commits down to the oldest one of an item.
  have hfront : progress.log = (untaken [result] ++ (untaken assertions ++ (untaken answers ++ made))).map Prod.fst ++
      (plans ++ (bindings ++ base)) := by
    rw [hlog]
    simp only [map_append, untaken_fst, nil_append, cons_append, append_assoc]
  have hlast : ∀ one, (untaken [result] ++ (untaken assertions ++ (untaken answers ++ made))).getLast? = some one →
      one.2 ≠ none := by
    intro one hone
    rw [← append_assoc, ← append_assoc, getLast?_append_of_ne_nil _ hmade] at hone
    have hmem : (one.1.subject, one.2) ∈ made.map fun one => (one.1.subject, one.2) :=
      mem_map.2 ⟨one, mem_of_getLast? hone, rfl⟩
    rw [hsubjects, mem_reverse] at hmem
    obtain ⟨item, -, heq⟩ := mem_map.1 hmem
    rw [← (Prod.mk.inj heq).2]
    exact Option.some_ne_none _
  have hharvest := newestFirst_eq_iff (hfront ▸ hdistinct) hlast
  rw [← hfront, authoredOf_untaken_append, authoredOf_untaken_append, authoredOf_untaken_append,
    newestFirst_eq_nil_iff] at hharvest
  rw [_item_commits, newestFirst_markers hmarkers, hauthored, reverse_inj, hharvest]
  simp only [forall_mem_append]
  rw [found_untaken_iff hassertions, found_untaken_iff hanswers, found_made_iff hsubjects, hassertionsNil, hanswersNil]
  have hresultFound : (∀ one ∈ untaken [result], Found one) ↔
      readSubject (Git.subject (resultSubject brief)) = .passed := by
    simp [untaken, Found, hresult]
  rw [hresultFound]
  -- Without a task binding the questions are checked on the items and the plans, and these stand on the base.
  have hunbound : world.binding ≠ some true →
      (made.map Prod.fst ++ (plans ++ (bindings ++ base))).length = checkedHeight py brief base ∧
      (plans ++ (bindings ++ base)).map Commit.subject =
        ((contingency_elaboration_items py brief.must_answer_questions).map
          fun id => Git.subject (planSubject id)).reverse ++ base.map Commit.subject := by
    intro hinactive
    have hmadeLength := congrArg List.length hsubjects
    have hplansLength := congrArg List.length hplans
    simp only [length_map, length_reverse] at hmadeLength hplansLength
    rw [hbindings hinactive, nil_append, map_append, hplans]
    refine ⟨?_, rfl⟩
    rw [length_append, length_append, length_map, hmadeLength, hplansLength, checkedHeight]
    omega
  constructor
  · rintro ⟨⟨hres, hbind, hpass, hitems⟩, hquiet⟩
    obtain ⟨hheight, holder⟩ := hunbound hbind
    rw [hheight] at hpass
    exact ⟨hbind, hpass, hres, hitems, holder ▸ hquiet⟩
  · intro hharvested
    obtain ⟨hheight, holder⟩ := hunbound hharvested.unbound
    rw [hheight, holder]
    exact ⟨⟨hharvested.result, hharvested.unbound, hharvested.answered, hharvested.items⟩, hharvested.quiet⟩

def plainWorld : World where
  oid height := "c" ++ toString height
  committed_at height := "t" ++ toString height
  binding := some false
  elaborates _ := true
  authors _ := true
  planned _ := false
  rewinds _ := false
  pivots _ := true
  passes _ _ := true
  asserts := true
  writes := true

def plainBrief (patch_plan : Json) : Brief where
  series_branch := "ai-org/patch-series/demo"
  node_key := "root"
  plan_id := "P1"
  cover_letter := [("working_title", .str "Demo feature")]
  patch_plan := patch_plan
  must_answer_questions := []

def plainBase : List Commit := [⟨"c0", "t0", "base"⟩]

def positionalPlan : Json := .obj [("first_proof_moment", .obj [])]

def assignedPlan : Json := .arr [.obj [("item_id", .str "parser")]]

/-- The law at a positional plan. -/
theorem items_harvested_positional : ∃ progress, drive asciiLib plainWorld (plainBrief positionalPlan) plainBase =
      some progress ∧ progress.authored ≠ [] ∧
    _item_commits (⟨"c3", "t3", "acceptance: reachable"⟩ :: progress.log) = progress.authored := by
  have hdrive : drive asciiLib plainWorld (plainBrief positionalPlan) plainBase =
      some ⟨[⟨"c2", "t2", "patch: implementation result for root"⟩,
        ⟨"c1", "t1", "patch: Demo feature [P1#first_proof_moment]"⟩, ⟨"c0", "t0", "base"⟩],
        [⟨"c1", "t1", "P1#first_proof_moment"⟩]⟩ := by decide +kernel
  refine ⟨_, hdrive, by decide, (items_harvested_iff hdrive ⟨[_], rfl, by decide +kernel⟩ (by decide)).2
    ⟨by decide, by decide +kernel, by decide +kernel, by decide +kernel, ?_⟩⟩
  exact (newestFirst_eq_nil_iff plainBase).1 (by decide +kernel)

/-- An item whose id has no hash is not found. -/
theorem assigned_not_harvested : ∃ progress, drive asciiLib plainWorld (plainBrief assignedPlan) plainBase =
      some progress ∧ (progress.log.map Commit.sha).Nodup ∧ _item_commits progress.log ≠ progress.authored := by
  have hdrive : drive asciiLib plainWorld (plainBrief assignedPlan) plainBase =
      some ⟨[⟨"c2", "t2", "patch: implementation result for root"⟩,
        ⟨"c1", "t1", "patch: Demo feature [parser]"⟩, ⟨"c0", "t0", "base"⟩], [⟨"c1", "t1", "parser"⟩]⟩ := by
    decide +kernel
  exact ⟨_, hdrive, by decide, by decide +kernel⟩

end Harvest

end AiOrg
