import AiOrg.Python.Base64
import AiOrg.Review.Records

/-!
# When the history of rounds is read

Sorting compares the records of two files whose names have one number, and dicts cannot be compared. So the history
is read, and has one record for each round, exactly when the record files that the codec takes have different numbers
(`projected_iff`). The files off git never take a number that is there (`addOffGit_keys`).
-/

namespace AiOrg

open List

namespace Review

open Selection

section Projection

variable {parse : String → Option Fields} {py : PyLib} {directory : String} {files : RoundFiles}

/-- `_review_round_records` returns records in the order of their numbers, one for each number, and the last one is
that of the highest round. -/
def Projected (parse : String → Option Fields) (py : PyLib) (directory : String) (files : RoundFiles) : Prop :=
  ∃ numbered, sortedRecords parse py directory files = .ok numbered ∧
    _review_round_records parse py directory files = .ok (numbered.map Prod.snd) ∧
    (numbered.map Prod.fst).Pairwise (· < ·) ∧
    ∀ record ∈ readRecords parse directory files, ∃ last, numbered.getLast? = some last ∧ record.1 ≤ last.1

/-- Two record files of the branch that are read have different numbers. -/
def DistinctRounds (parse : String → Option Fields) (files : RoundFiles) : Prop :=
  ∀ p ∈ recordPaths files, ∀ q ∈ recordPaths files, ∀ number,
    (recordAt parse files p).map Prod.fst = some number → (recordAt parse files q).map Prod.fst = some number → p = q

theorem recordLt_comparesBy (py : PyLib) : ComparesBy (recordLt py) Prod.fst := fun _ _ hne => if_pos hne

theorem recordPaths_nodup (files : RoundFiles) : (recordPaths files).Nodup := files.distinct.filter _

theorem branchRecords_keys (parse : String → Option Fields) (files : RoundFiles) :
    ((branchRecords parse files).map Prod.fst).Nodup ↔ DistinctRounds parse files := by
  have hkeys : (branchRecords parse files).map Prod.fst =
      (recordPaths files).filterMap fun path => (recordAt parse files path).map Prod.fst := map_filterMap
  rw [hkeys, List.Nodup, pairwise_filterMap]
  constructor
  · intro h p hp q hq number hpn hqn
    by_contra hne
    have hsymm : Std.Symm fun p q => ∀ m, (recordAt parse files p).map Prod.fst = some m →
        ∀ n, (recordAt parse files q).map Prod.fst = some n → m ≠ n :=
      ⟨fun _ _ hall m hm n hn => (hall n hn m hm).symm⟩
    exact h.forall hp hq hne number hpn number hqn rfl
  · intro h
    refine (recordPaths_nodup files).pairwise_of_forall_ne fun p hp q hq hne m hm n hn hmn => ?_
    subst hmn
    exact hne (h p hp q hq m hm hn)

/-- What is read off git is put after the records of the branch, under numbers that are new. -/
theorem addOffGit_keys (directory : String) (records : List (ℤ × Fields)) (offGit : List (String × Option Json)) :
    ∃ added, addOffGit directory records offGit = records ++ added ∧
      ((records.map Prod.fst).Nodup → ((addOffGit directory records offGit).map Prod.fst).Nodup) := by
  induction offGit generalizing records with
  | nil => exact ⟨[], by simp [addOffGit], fun h => h⟩
  | cons file offGit ih =>
    obtain ⟨stem, content⟩ := file
    have hstep : addOffGit directory records ((stem, content) :: offGit) = addOffGit directory records offGit ∨
        ∃ record : ℤ × Fields, record.1 ∉ records.map Prod.fst ∧
          addOffGit directory records ((stem, content) :: offGit) =
            addOffGit directory (records ++ [record]) offGit := by
      rw [addOffGit.eq_def directory records ((stem, content) :: offGit)]
      dsimp only
      split
      · split_ifs with hmem
        · exact .inl rfl
        · exact .inr ⟨_, hmem, rfl⟩
      · exact .inl rfl
    rcases hstep with hstep | ⟨record, hnew, hstep⟩
    · rw [hstep]
      exact ih records
    · obtain ⟨added, hadded, hkeys⟩ := ih (records ++ [record])
      rw [hstep]
      refine ⟨record :: added, by rw [hadded, append_assoc]; rfl, fun h => hkeys ?_⟩
      rw [map_append, map_singleton]
      refine nodup_append.2 ⟨h, nodup_singleton _, ?_⟩
      rintro a ha b hb rfl
      exact hnew (mem_singleton.1 hb ▸ ha)

theorem readRecords_keys (parse : String → Option Fields) (directory : String) (files : RoundFiles) :
    ((readRecords parse directory files).map Prod.fst).Nodup ↔ DistinctRounds parse files := by
  obtain ⟨added, hadded, hkeys⟩ := addOffGit_keys directory (branchRecords parse files) files.offGit
  rw [← branchRecords_keys]
  constructor
  · intro h
    rw [readRecords, hadded, map_append] at h
    exact (nodup_append.1 h).1
  · exact hkeys

theorem le_getLast {numbered : List (ℤ × Fields)} (hsorted : (numbered.map Prod.fst).Pairwise (· < ·))
    {record : ℤ × Fields} (h : record ∈ numbered) : ∃ last, numbered.getLast? = some last ∧ record.1 ≤ last.1 := by
  have hne : numbered ≠ [] := ne_nil_of_mem h
  refine ⟨numbered.getLast hne, getLast?_eq_some_getLast hne, ?_⟩
  have hsplit := dropLast_append_getLast hne
  rw [← hsplit, mem_append, mem_singleton] at h
  rcases h with h | h
  · rw [← hsplit, map_append, pairwise_append] at hsorted
    exact (hsorted.2.2 _ (mem_map_of_mem h) _ (by simp)).le
  · rw [h]

variable (py directory) in
theorem projected_of_distinct (h : DistinctRounds parse files) : Projected parse py directory files := by
  have hnodup : (([] ++ readRecords parse directory files).map Prod.fst).Nodup := (readRecords_keys parse directory files).2 h
  obtain ⟨numbered, (hnumbered : sortedRecords parse py directory files = .ok numbered), hsorted⟩ :=
    sortBy_eq_ok (recordLt_comparesBy py) List.Pairwise.nil hnodup
  refine ⟨numbered, hnumbered, ?_, hsorted, fun record hrecord => ?_⟩
  · rw [_review_round_records, hnumbered]
    rfl
  · exact le_getLast hsorted ((sortBy_perm hnumbered).mem_iff.2 hrecord)

/-- The history of rounds is read exactly when no two record files of the branch are of one round. -/
theorem projected_iff (parse : String → Option Fields) (py : PyLib) (directory : String) (files : RoundFiles) :
    Projected parse py directory files ↔ DistinctRounds parse files := by
  refine ⟨?_, projected_of_distinct py directory⟩
  rintro ⟨numbered, hnumbered, -, hsorted, -⟩
  rw [← readRecords_keys parse directory files]
  have hperm := (sortBy_perm hnumbered).map Prod.fst
  rw [nil_append] at hperm
  exact hperm.nodup_iff.1 (hsorted.imp fun hlt => ne_of_lt hlt)

end Projection

/-- A branch with the record of the first round under two names. -/
def twiceRecorded : RoundFiles where
  tree := [("patch-series-review-rounds/round-0001-direction-review-record.cue", "0001"),
    ("patch-series-review-rounds/round-1-direction-review-record.cue", "1")]
  offGit := []
  distinct := by decide

def sampleRecord : String → Option Fields := fun _ => some [("round", .int 1), ("verdict", .str "needs_revision")]

theorem twiceRecorded_raises : ¬ Projected sampleRecord asciiLib ".ai-org/review/series/" twiceRecorded := by
  rintro ⟨numbered, hnumbered, -⟩
  have hraises : (sortedRecords sampleRecord asciiLib ".ai-org/review/series/" twiceRecorded).isOk = false := by
    decide +kernel
  rw [hnumbered] at hraises
  cases hraises

end Review

end AiOrg
