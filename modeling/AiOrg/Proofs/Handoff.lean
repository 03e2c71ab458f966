import AiOrg.Proofs.Reform
import AiOrg.Run.Checks

/-!
# The handoffs in a reform

Where the questions for the patch and the experience reports are among the files of a reform, they are
committed as they are; where they are not, the commit leaves them alone.
-/

namespace AiOrg

open List

namespace Reform

variable {py : PyLib} {canonical : Json → String} {preflight : Preflight} {calls : Calls}
  {source : Source} {committed : Committed} {files output : Files}

theorem reform_inv (h : reform_patch_series py canonical preflight calls source = .ok committed) :
    ∃ view previous reviewRound revision normalized, source.coverLetter = .obj view ∧
      source.technicalApproach = .obj previous ∧ source.latest = some reviewRound ∧
      calls.revise source view previous = .ok revision ∧
      calls.prepare (_remap_root_reference_ids py (.obj previous) revision.technicalApproach) previous =
        .ok normalized ∧
      ∃ patchSeries, commitRoot py canonical preflight calls source reviewRound view previous revision
        patchSeries (preview_canonical_root_technical_approach patchSeries calls.provenance normalized) =
          .ok committed := by
  have hmap : ∀ {α : Type} {result : Except String α} {failure : String → Failure} {x : α},
      result.mapError failure = .ok x → result = .ok x := by
    intro α result failure x hresult
    cases result with
    | error => cases hresult
    | ok y => exact congrArg Except.ok (Except.ok.inj hresult)
  unfold reform_patch_series at h
  split at h
  · cases h
  split at h
  · cases h
  rename_i reviewRound hlatest
  split at h
  · cases h
  split at h
  swap
  · cases h
  rename_i view hview
  split at h
  · cases h
  split at h
  swap
  · cases h
  rename_i previous hprevious
  obtain ⟨revision, hrevise, h⟩ := Checks.bind_eq_ok_iff.1 h
  obtain ⟨normalized, hprepare, h⟩ := Checks.bind_eq_ok_iff.1 h
  exact ⟨view, previous, reviewRound, revision, normalized, hview, hprevious, hlatest, hmap hrevise,
    hmap hprepare, _, h⟩

theorem commitRoot_files {reviewRound : ℤ} {view previous patchSeries : Fields} {revision : Revision}
    {producerRoot : Preview} (h : commitRoot py canonical preflight calls source reviewRound view previous
      revision patchSeries producerRoot = .ok committed) :
    ∃ revised noSuccessor changed changedNodes, prepare_immutable_tree preflight (reformFiles py canonical
      calls source reviewRound previous revision producerRoot revised noSuccessor changed changedNodes) =
        some committed.files := by
  rw [commitRoot] at h
  dsimp only at h
  split at h
  · cases h
  split at h
  · cases h
  split at h
  · cases h
  rename_i aggregate haggregate
  obtain rfl := Except.ok.inj h
  exact ⟨_, _, _, _, haggregate⟩

theorem reform_files
    (h : reform_patch_series py canonical preflight calls source = .ok committed) :
    ∃ view previous reviewRound revision patchSeries normalized revised noSuccessor changed changedNodes,
      calls.revise source view previous = .ok revision ∧ source.latest = some reviewRound ∧
      prepare_immutable_tree preflight (reformFiles py canonical calls source reviewRound previous
        revision (preview_canonical_root_technical_approach patchSeries calls.provenance normalized)
        revised noSuccessor changed changedNodes) = some committed.files := by
  obtain ⟨view, previous, reviewRound, revision, normalized, -, -, hlatest, hrevise, -, patchSeries, h⟩ :=
    reform_inv h
  obtain ⟨revised, noSuccessor, changed, changedNodes, hfiles⟩ := commitRoot_files h
  exact ⟨view, previous, reviewRound, revision, patchSeries, normalized, _, _, _, _, hrevise, hlatest,
    hfiles⟩

theorem prepareFile_path {file prepared : String × Content}
    (h : prepareFile preflight file = some prepared) :
    prepared.1 = file.1 ∨ _is_review_record_path file.1 = true ∧ prepared.1 = canonical_path file.1 := by
  unfold prepareFile at h
  dsimp only at h
  split at h <;> split_ifs at h with hround <;> obtain rfl := Option.some.inj h
  all_goals first | exact .inl rfl | exact .inr ⟨hround, rfl⟩

theorem canonical_path_eq {path name : String} (h : canonical_path path = name ++ ".cue") :
    path = name ++ ".cue" ∨ path = name ++ ".json" := by
  rw [canonical_path] at h
  split_ifs at h with hjson
  · obtain ⟨stem, hstem⟩ : ∃ stem, path.toList = stem ++ ".json".toList := by
      obtain ⟨back, hback, stem, hstem⟩ := endsWith_iff.1 hjson
      rw [mem_singleton] at hback
      exact ⟨stem, by rw [← hstem, hback]⟩
    have htake : path.toList.take (path.length - 5) = stem := by
      have hlength : path.length = stem.length + 5 := by
        rw [← String.length_toList, hstem, length_append]
        rfl
      rw [hstem, hlength, Nat.add_sub_cancel, take_left]
    rw [htake] at h
    have hname : stem = name.toList := by
      have hlist := congrArg String.toList h
      rw [String.toList_append, String.toList_append, String.toList_ofList] at hlist
      exact append_cancel_right hlist
    refine .inr (String.toList_injective ?_)
    rw [hstem, hname, String.toList_append]
  · exact .inl h

/-- The paths of the bodies that the author of a patch and a reform hand to each other. -/
def IsHandoff (path : String) : Prop :=
  path ∈ [PATCH_MUST_ANSWER_QUESTIONS_PATH, IMPLEMENTATION_EXPERIENCE_REPORT_PATH]

theorem IsHandoff.not_review {path : String} (h : IsHandoff path) :
    _is_review_record_path path = false := by
  rcases mem_cons.1 h with rfl | h
  · decide +kernel
  · obtain rfl := mem_singleton.1 h
    decide +kernel

theorem IsHandoff.eq_of_prepareFile {path : String} (hpath : IsHandoff path)
    {file prepared : String × Content} (h : prepareFile preflight file = some prepared)
    (hprepared : prepared.1 = path) : file.1 = path := by
  rcases prepareFile_path h with hsame | ⟨hround, hcanonical⟩
  · exact hsame.symm.trans hprepared
  · exfalso
    obtain ⟨name, hname, hlegacy⟩ : ∃ name, path = name ++ ".cue" ∧
        _is_review_record_path (name ++ ".json") = false := by
      rcases mem_cons.1 hpath with rfl | h
      · exact ⟨"questions-the-patch-must-answer", by decide +kernel, by decide +kernel⟩
      · obtain rfl := mem_singleton.1 h
        exact ⟨"implementation-experience-report", by decide +kernel, by decide +kernel⟩
    rcases canonical_path_eq (hcanonical.symm.trans (hprepared.trans hname)) with heq | heq
    · rw [heq, ← hname, hpath.not_review] at hround
      cases hround
    · rw [heq, hlegacy] at hround
      cases hround

theorem lookup_prepared_none {path : String} (hpath : IsHandoff path)
    (h : prepare_immutable_tree preflight files = some output) (hfile : files.lookup path = none) :
    output.lookup path = none := by
  rw [prepare_immutable_tree] at h
  obtain ⟨members, hmembers, h⟩ := Option.bind_eq_some_iff.1 h
  split_ifs at h with hnodup
  obtain rfl := Option.some.inj h
  rcases hlookup : members.lookup path with _ | content
  · rfl
  · obtain ⟨file, hmem, hprepare⟩ :=
      Traverse.exists_of_mem_right (Traverse.forall₂_of_mapM_some hmembers) (mem_of_lookup hlookup)
    have hkey := hpath.eq_of_prepareFile hprepare rfl
    have habsent : (files.lookup path).isSome = true :=
      lookup_isSome_iff.2 (mem_map.2 ⟨file, hmem, hkey⟩)
    rw [hfile] at habsent
    cases habsent

theorem lookup_prepared_handoff {path : String} {body : Json} (hpath : IsHandoff path)
    (h : prepare_immutable_tree preflight files = some output)
    (hfile : files.lookup path = some (.value body)) :
    output.lookup path = some (.canonical body) ∧ preflight.accepts path body = true := by
  have hprepare : ∀ file, prepareFile preflight (path, .value body) = some file →
      file = (path, .canonical body) ∧ preflight.accepts path body = true := by
    intro file hprepared
    have hhandoff : path ∈ [PATCH_MUST_ANSWER_QUESTIONS_PATH, IMPLEMENTATION_EXPERIENCE_REPORT_PATH] :=
      hpath
    simp only [prepareFile, hpath.not_review, Bool.false_eq_true, ↓reduceIte, if_pos hhandoff]
      at hprepared
    split_ifs at hprepared with hupdates haccepts
    exact ⟨(Option.some.inj hprepared).symm, haccepts⟩
  refine ⟨lookup_prepared h hfile fun file hfile => (hprepare file hfile).1, ?_⟩
  obtain ⟨members, hmembers, -⟩ := Option.bind_eq_some_iff.1 h
  obtain ⟨file, -, hfile'⟩ :=
    Traverse.exists_of_mem_left (Traverse.forall₂_of_mapM_some hmembers) (mem_of_lookup hfile)
  exact (hprepare file hfile').2

end Reform

end AiOrg
