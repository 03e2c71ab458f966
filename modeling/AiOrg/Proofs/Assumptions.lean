import AiOrg.Proofs.JsonPlain
import AiOrg.Review.Assumptions

/-!
# Recorded assumptions and verdicts

Recording keeps the entries that are read back from the cover in step with those it knows
(`record_entries`), so after a round the recorded ids are those of the cover before it and the stripped
ids of what the requester has to decide. The verdict looks at nothing but the ids, so it overlooks an
objection of the author whose id is one of them (`keepsAuthority_iff`).
-/

namespace AiOrg

open List

namespace Review

variable {py : PyLib} {approach : Json} {id item : String} {items : List String}
  {entry : AssumptionEntry} {entries known : Entries} {view : CoverView}

section Entries

theorem mem_stringFields {members : List (String × String)} {key value : String} :
    (key, Json.str value) ∈ stringFields members ↔ (key, value) ∈ members := by
  simp [stringFields]

theorem entryOf_dumps (hid : entry.objectionId ≠ "") :
    entryOf py (dumpsStrings entry.members) = .ok (some entry) := by
  have hnames : (entry.members.map Prod.fst).Nodup := by
    simp [AssumptionEntry.members]
  have hperm : (entry.members.insertionSort fun a b => a.1 ≤ b.1).Perm entry.members :=
    perm_insertionSort _ _
  have hsorted : ((stringFields (entry.members.insertionSort fun a b => a.1 ≤ b.1)).map
      Prod.fst).Nodup := by
    rw [stringFields, map_map]
    exact (hperm.map Prod.fst).nodup_iff.2 hnames
  have hget : ∀ key value, (key, value) ∈ entry.members →
      textOr (Fields.get (stringFields (entry.members.insertionSort fun a b => a.1 ≤ b.1)) key) =
        value := by
    intro key value hmem
    have hfield : (key, Json.str value) ∈
        stringFields (entry.members.insertionSort fun a b => a.1 ≤ b.1) :=
      mem_stringFields.2 (hperm.mem_iff.2 hmem)
    rw [Fields.get, AiOrg.lookup_of_mem hsorted hfield]
    rfl
  rw [entryOf, loadsPlain_dumpsStrings hnames]
  dsimp only
  rw [hget "objection_id" entry.objectionId (by simp [AssumptionEntry.members]), if_neg hid,
    hget "question" entry.question (by simp [AssumptionEntry.members]),
    hget "adopted_default" entry.adoptedDefault (by simp [AssumptionEntry.members]),
    hget "default_provenance" entry.defaultProvenance (by simp [AssumptionEntry.members]),
    hget "rationale" entry.rationale (by simp [AssumptionEntry.members])]

theorem entriesOf_append (items : List String) (item : String) :
    entriesOf py (items ++ [item]) = (do
      let entries ← entriesOf py items
      match ← entryOf py item with
      | some entry => return (entry.objectionId, entry) :: entries
      | none => return entries) := by
  rw [entriesOf, foldlM_append, entriesOf]
  rcases items.foldlM _ [] with e | entries
  · rfl
  · exact @bind_pure (Except _) _ _ _ _

theorem entriesOf_append_some (h : entriesOf py items = .ok entries)
    (hitem : entryOf py item = .ok (some entry)) :
    entriesOf py (items ++ [item]) = .ok ((entry.objectionId, entry) :: entries) := by
  rw [entriesOf_append, h, hitem]
  rfl

theorem mem_entriesOf (h : entriesOf py items = .ok entries) (hmem : item ∈ items)
    (hitem : entryOf py item = .ok (some entry)) : entry.objectionId ∈ entries.map (·.1) := by
  induction items using reverseRecOn generalizing entries with
  | nil => cases hmem
  | append_singleton items last ih =>
    rw [entriesOf_append] at h
    rcases hbefore : entriesOf py items with e | before
    · rw [hbefore] at h
      cases h
    · rw [hbefore] at h
      rcases hlast : entryOf py last with e | found
      · rw [hlast] at h
        cases h
      · rw [hlast] at h
        rcases mem_append.1 hmem with hmem | hmem
        · cases found with
          | none =>
            cases h
            exact ih hbefore hmem
          | some other =>
            cases h
            exact mem_cons_of_mem _ (ih hbefore hmem)
        · rw [mem_singleton] at hmem
          rw [← hmem, hitem] at hlast
          cases hlast
          cases h
          exact mem_cons_self

end Entries

section Recording

variable {state : Recording} {objection : Objection} {objections : List Objection}

theorem mem_keys_iff_lookup {known : Entries} :
    id ∈ known.map (·.1) ↔ ∃ entry, known.lookup id = some entry := by
  rw [← Option.isSome_iff_exists]
  induction known with
  | nil => simp
  | cons pair known ih =>
    obtain ⟨k, v⟩ := pair
    rw [map_cons, mem_cons, lookup_cons]
    by_cases hk : id = k
    · simp [hk]
    · rw [beq_eq_false_iff_ne.2 hk, ← ih]
      simp [hk]

theorem dumpsStrings_ne_empty (members : List (String × String)) : dumpsStrings members ≠ "" := by
  intro h
  have := congrArg String.toList h
  simp [dumpsStrings] at this

/-- The entries read from the cover are the known ones. -/
def InStep (py : PyLib) (state : Recording) : Prop :=
  entriesOf py state.revised.constraintsAssumptions = .ok state.existing

theorem recordObjection_inStep (h : InStep py state) :
    InStep py (recordObjection approach state objection) := by
  unfold recordObjection
  dsimp only
  split_ifs with hid
  · exact h
  · split
    · exact h
    · rename_i hlookup
      have hentry : entryOf py (dumpsStrings
          (newEntry approach (pyStrip objection.objectionId) objection).members) =
            .ok (some (newEntry approach (pyStrip objection.objectionId) objection)) :=
        entryOf_dumps hid
      have hnew : dumpsStrings (newEntry approach (pyStrip objection.objectionId) objection).members ∉
          state.revised.constraintsAssumptions := fun hmem => by
        obtain ⟨entry, hfound⟩ := mem_keys_iff_lookup.1 (mem_entriesOf h hmem hentry)
        rw [show (newEntry approach (pyStrip objection.objectionId) objection).objectionId =
          pyStrip objection.objectionId from rfl, hlookup] at hfound
        cases hfound
      rw [InStep, appendUnique, if_neg (not_or.2 ⟨dumpsStrings_ne_empty _, hnew⟩)]
      exact entriesOf_append_some h hentry

theorem mem_recordObjection : id ∈ (recordObjection approach state objection).existing.map (·.1) ↔
    id ∈ state.existing.map (·.1) ∨ pyStrip objection.objectionId = id ∧ id ≠ "" := by
  unfold recordObjection
  dsimp only
  split_ifs with hid
  · constructor
    · exact .inl
    · rintro (h | ⟨rfl, hne⟩)
      · exact h
      · exact absurd hid hne
  · split
    · rename_i entry hlookup
      constructor
      · exact .inl
      · rintro (h | ⟨rfl, -⟩)
        · exact h
        · exact mem_keys_iff_lookup.2 ⟨entry, hlookup⟩
    · rw [map_cons, mem_cons, or_comm]
      refine or_congr_right ⟨?_, fun h => h.1.symm⟩
      rintro rfl
      exact ⟨rfl, hid⟩

theorem record_loop (h : InStep py state) :
    InStep py (objections.foldl (recordObjection approach) state) ∧ ∀ id,
      id ∈ (objections.foldl (recordObjection approach) state).existing.map (·.1) ↔
        id ∈ state.existing.map (·.1) ∨
          ∃ objection ∈ objections, pyStrip objection.objectionId = id ∧ id ≠ "" := by
  induction objections generalizing state with
  | nil => exact ⟨h, by simp⟩
  | cons objection objections ih =>
    obtain ⟨hstep, hids⟩ := ih (@recordObjection_inStep _ approach _ objection h)
    refine ⟨hstep, fun id => ?_⟩
    rw [foldl_cons, hids, mem_recordObjection, or_assoc, exists_mem_cons_iff]

theorem record_entries (h : requester_assumption_entries_by_objection_id py view = .ok known) :
    ∃ revised entries changed recorded,
      record_requester_authority_assumptions py view approach objections =
        .ok (revised, entries, changed) ∧
      recorded_assumption_objection_ids py revised = .ok recorded ∧
      ∀ id, id ∈ recorded ↔ id ∈ known.map (·.1) ∨
        ∃ objection ∈ objections, pyStrip objection.objectionId = id ∧ id ≠ "" := by
  obtain ⟨hstep, hids⟩ := @record_loop _ approach _ objections
    (show InStep py ⟨view, known, [], false⟩ from h)
  set state := objections.foldl (recordObjection approach) ⟨view, known, [], false⟩
  refine ⟨state.revised, state.entries, state.changed, state.existing.map (·.1), ?_, ?_, hids⟩
  · rw [record_requester_authority_assumptions, h]
    rfl
  · rw [recorded_assumption_objection_ids, requester_assumption_entries_by_objection_id, hstep]
    rfl

end Recording

section Verdicts

variable {normalized : List Objection} {recorded : List String} {consolidation : Consolidation}

theorem any_openBlocking_status :
    (normalized.map (_with_assumption_status recorded)).any (·.openBlocking) ↔
      ∃ o ∈ normalized, o.openBlocking ∧ o.objectionId ∉ recorded := by
  rw [any_map, any_eq_true]
  refine exists_congr fun o => and_congr_right fun _ => ?_
  rw [Function.comp_apply, _with_assumption_status]
  by_cases h : o.objectionId ∈ recorded
  · rw [if_pos h]
    simp [Objection.openBlocking, h]
  · rw [if_neg h]
    simp [h]

theorem derive_verdict_ne_revision {objections : List Objection}
    (h : ¬ objections.any (·.openBlocking)) :
    _derive_verdict consolidation objections ≠ .needsRevision := by
  unfold _derive_verdict
  split_ifs <;> simp

theorem derive_verdict_author {o : Objection} (ho : o ∈ normalized) (hopen : o.openBlocking)
    (hauthor : o.resolutionAuthority = .author) :
    _derive_verdict consolidation (normalized.map (_with_assumption_status recorded)) ≠ .directionOk ↔
      consolidation.evidencedNak ∨ ∃ o ∈ normalized, o.openBlocking ∧ o.objectionId ∉ recorded := by
  have hmem : _with_assumption_status recorded o ∈
      normalized.map (_with_assumption_status recorded) := mem_map_of_mem ho
  have hstatus : o.status = .opened := by
    have := (Bool.and_eq_true _ _).mp hopen
    exact of_decide_eq_true this.1
  have hrequester : _nak_rests_solely_on_requester_authority
      (normalized.map (_with_assumption_status recorded)) = false := by
    rw [_nak_rests_solely_on_requester_authority, Bool.and_eq_false_iff, all_eq_false]
    refine .inr ⟨_, hmem, ?_⟩
    unfold _with_assumption_status
    split_ifs <;> simp [hauthor]
  have hsuperseded : _nak_rests_solely_on_superseded
      (normalized.map (_with_assumption_status recorded)) = false := by
    rw [_nak_rests_solely_on_superseded, Bool.and_eq_false_iff, all_eq_false]
    refine .inr ⟨_, hmem, ?_⟩
    unfold _with_assumption_status
    split_ifs <;> simp [hstatus]
  rw [← any_openBlocking_status, _derive_verdict, hrequester, hsuperseded]
  rcases consolidation.evidencedNak with _ | _
  · rcases (normalized.map (_with_assumption_status recorded)).any (·.openBlocking) with _ | _ <;> simp
  · simp

end Verdicts

section Rounds

variable {proposals : List String} {consolidation : Consolidation} {objections : List Objection}

/-- An id is recorded in the cover or is the stripped id of a blocker of the requester. -/
def Covered (known : Entries) (normalized : List Objection) (id : String) : Prop :=
  id ∈ known.map (·.1) ∨ ∃ o ∈ normalized, o.openBlocking ∧ o.resolutionAuthority = .requester ∧
    pyStrip o.objectionId = id ∧ id ≠ ""

/-- A blocker of the author keeps a round from direction-ok. Where all blockers are the requester's,
each is recorded and none makes the verdict needs-revision. -/
structure KeepsAuthority (py : PyLib) (normalized : List Objection) (round : Round) : Prop where
  author : (∃ o ∈ normalized, o.openBlocking ∧ o.resolutionAuthority = .author) →
    round.verdict ≠ .directionOk
  requester : (∀ o ∈ normalized, o.openBlocking → o.resolutionAuthority = .requester) →
    (∀ o ∈ normalized, o.openBlocking →
      ∃ recorded, recorded_assumption_objection_ids py round.view = .ok recorded ∧
        o.objectionId ∈ recorded) ∧ round.verdict ≠ .needsRevision

/-- With a blocker of the author, there is an evidenced nak or a blocker with an id that is not covered;
where all blockers are the requester's, their ids are covered as they are spelled. -/
structure IdsApart (known : Entries) (normalized : List Objection) (consolidation : Consolidation) :
    Prop where
  author : (∃ o ∈ normalized, o.openBlocking ∧ o.resolutionAuthority = .author) →
    consolidation.evidencedNak ∨ ∃ o ∈ normalized, o.openBlocking ∧ ¬ Covered known normalized o.objectionId
  requester : (∀ o ∈ normalized, o.openBlocking → o.resolutionAuthority = .requester) →
    ∀ o ∈ normalized, o.openBlocking → Covered known normalized o.objectionId

/-- The bookkeeping of a round on a cover whose assumptions can be read, and when it keeps the author's
blockers in view. -/
theorem keepsAuthority_iff (py : PyLib) (view : CoverView) (approach : Json) (proposals : List String)
    (consolidation : Consolidation) (objections : List Objection) (known : Entries)
    (hknown : requester_assumption_entries_by_objection_id py view = .ok known) :
    ∃ round, bookkeeping py view approach proposals consolidation objections = .ok round ∧
      (KeepsAuthority py (normalizeDeferrals proposals objections).normalized round ↔
        IdsApart known (normalizeDeferrals proposals objections).normalized consolidation) := by
  obtain ⟨revised, entries, changed, recorded, hrecord, hids, hmem⟩ := @record_entries _ approach _ _ (requester_authority_objections
      ((normalizeDeferrals proposals objections).normalized.filter (·.openBlocking))) hknown
  refine ⟨_, by rw [bookkeeping, hrecord]; simp only [bind, Except.bind, hids]; rfl, ?_⟩
  generalize (normalizeDeferrals proposals objections).normalized = normalized at hmem ⊢
  have hcovered : ∀ id, id ∈ recorded ↔ Covered known normalized id := fun id => by
    rw [hmem, Covered]
    refine or_congr_right (exists_congr fun o => ?_)
    simp only [requester_authority_objections, mem_filter, decide_eq_true_eq, and_assoc]
  have hauthor : ∀ o ∈ normalized, o.openBlocking → o.resolutionAuthority = .author →
      (_derive_verdict
          { consolidation with
            deduplicatedObjections := normalized.map (_with_assumption_status recorded) }
          (normalized.map (_with_assumption_status recorded)) ≠ .directionOk ↔
      consolidation.evidencedNak ∨
        ∃ o ∈ normalized, o.openBlocking ∧ ¬ Covered known normalized o.objectionId) := by
    intro o ho hopen hauthor
    simp only [derive_verdict_author ho hopen hauthor, hcovered]
    rfl
  constructor
  · rintro ⟨hkeeps, hrequester⟩
    refine ⟨fun hexists => ?_, fun hall o ho hopen => ?_⟩
    · obtain ⟨o, ho, hopen, howner⟩ := hexists
      exact (hauthor o ho hopen howner).1 (hkeeps ⟨o, ho, hopen, howner⟩)
    · obtain ⟨recorded', hrecorded', hid⟩ := (hrequester hall).1 o ho hopen
      cases hids.symm.trans hrecorded'
      exact (hcovered _).1 hid
  · rintro ⟨hkeeps, hrequester⟩
    refine ⟨fun hexists => ?_, fun hall => ⟨fun o ho hopen => ⟨recorded, hids, ?_⟩, ?_⟩⟩
    · obtain ⟨o, ho, hopen, howner⟩ := hexists
      exact (hauthor o ho hopen howner).2 (hkeeps ⟨o, ho, hopen, howner⟩)
    · exact (hcovered _).2 (hrequester hall o ho hopen)
    · refine derive_verdict_ne_revision fun hany => ?_
      obtain ⟨o, ho, hopen, hid⟩ := any_openBlocking_status.1 hany
      exact hid ((hcovered _).2 (hrequester hall o ho hopen))

end Rounds

section Example

def sampleBlocker (id : String) (authority : Authority) : Objection where
  objectionId := id
  anchorNodeIds := ["problem"]
  axis := "need"
  type := .blocking
  claim := "no rollback"
  evidence := [⟨"tree_node", "problem", []⟩]
  impact := "data loss"
  requestedAuthorAction := .reviseSubtree
  resolutionAuthority := authority
  status := .opened
  reviewerConfidence := "high"
  reviewedScope := "problem"

/-- A cover with an assumption from an earlier round. -/
def sampleView : CoverView := ⟨["\x7b\"objection_id\": \"o1\"\x7d"], []⟩

def revisionConsolidation : Consolidation := ⟨.needsRevision, "", [], "", [], []⟩

theorem entries_sampleView : requester_assumption_entries_by_objection_id asciiLib sampleView =
    .ok [("o1", ⟨"o1", "", "", "", ""⟩)] := by decide +kernel

/-- A blocker of the author with a recorded id is not seen by the verdict. -/
theorem author_blocker_hidden :
    sampleBlocker "o1" .author ∈ (normalizeDeferrals [] [sampleBlocker "o1" .author]).normalized ∧
    (sampleBlocker "o1" .author).openBlocking ∧
    (bookkeeping asciiLib sampleView (.obj []) [] revisionConsolidation
      [sampleBlocker "o1" .author]).map (·.verdict) = .ok .directionOk :=
  ⟨by decide +kernel, by decide +kernel, by decide +kernel⟩

theorem keepsAuthority_iff_sample : ∃ round,
    bookkeeping asciiLib sampleView (.obj []) [] revisionConsolidation
      [sampleBlocker "o1" .author] = .ok round ∧
    (KeepsAuthority asciiLib (normalizeDeferrals [] [sampleBlocker "o1" .author]).normalized round ↔
      IdsApart [("o1", ⟨"o1", "", "", "", ""⟩)]
        (normalizeDeferrals [] [sampleBlocker "o1" .author]).normalized revisionConsolidation) :=
  keepsAuthority_iff asciiLib sampleView (.obj []) [] revisionConsolidation
    [sampleBlocker "o1" .author] _ entries_sampleView

end Example

end Review

end AiOrg
