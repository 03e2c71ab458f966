import AiOrg.Proofs.Records
import AiOrg.Review.Rounds
import AiOrg.Run.Checks

/-!
# Rounds are bounded

After some rounds the record files of the branch are those of the rounds so far, each under its own number
(`Recorded`), and the next round reads all of them and takes the next number (`Recorded.next`). So the rounds that
ask for a revision have the numbers up to the cap, once each (`rounds_bounded`).
-/

namespace AiOrg

open List

namespace Review

open Text Selection

theorem padded_isDigit (n : ℕ) : ∀ c ∈ (Reform.padded n).toList, c.isDigit = true := by
  intro c hc
  rw [Reform.padded, if_neg (by omega), Reform.paddedDigits, String.toList_append, String.toList_ofList,
    Int.natAbs_natCast, toList_toString] at hc
  rcases mem_append.1 hc with hc | hc
  · rw [eq_of_mem_replicate hc]
    decide
  · exact isDigit_of_mem_toDigits c hc

theorem pyInt_padded {n : ℕ} (h : (toString n).length ≤ 4300) : pyInt (Reform.padded n).toList = some (n : ℤ) := by
  have htext : (Reform.padded n).toList = replicate (4 - (toString n).length) '0' ++ Nat.toDigits 10 n := by
    rw [Reform.padded, if_neg (by omega), Reform.paddedDigits, String.toList_append, String.toList_ofList,
      Int.natAbs_natCast, toList_toString]
  have hlength : (toString n).length = (Nat.toDigits 10 n).length := by
    rw [← String.length_toList, toList_toString]
  have hne : Nat.toDigits 10 n ≠ [] := Nat.toDigits_ne_nil
  rw [htext, pyInt_digits (by simp [hne]) ?_ ?_, intOf_zeros, intOf_toDigits]
  · intro c hc
    rcases mem_append.1 hc with hc | hc
    · rw [eq_of_mem_replicate hc]
      decide
    · exact isDigit_of_mem_toDigits c hc
  · rw [length_append, length_replicate]
    omega

theorem ne_mark {mark : Char} {text : List Char} (h : (text.all fun c => c != mark) = true) :
    ∀ c ∈ text, (c == mark) = false := by
  intro c hc
  simpa using all_eq_true.1 h c hc

theorem padded_ne_mark {mark : Char} (hmark : mark.isDigit = false) (n : ℕ) :
    ∀ c ∈ (Reform.padded n).toList, (c == mark) = false := by
  intro c hc
  rw [beq_eq_false_iff_ne]
  rintro rfl
  rw [padded_isDigit n _ hc] at hmark
  cases hmark

theorem nameOf_round_record_path (n : ℕ) : nameOf (round_record_path n) =
    "round".toList ++ '-' :: ((Reform.padded n).toList ++ '-' :: "direction-review-record.cue".toList) := by
  have htext : (round_record_path n).toList = reviewRecordDir.toList ++ '/' ::
      ("round".toList ++ '-' :: ((Reform.padded n).toList ++ '-' :: "direction-review-record.cue".toList)) := by
    simp [round_record_path, String.toList_append, reviewRecordDir]
  have hname : ("round".toList ++ '-' :: ((Reform.padded n).toList ++ '-' :: "direction-review-record.cue".toList)).splitOnP
      (· == '/') = ["round".toList ++ '-' :: ((Reform.padded n).toList ++ '-' :: "direction-review-record.cue".toList)] := by
    refine splitOnP_eq_singleton fun c hc => ?_
    simp only [mem_append, mem_cons] at hc
    rcases hc with hc | rfl | hc | rfl | hc
    · exact ne_mark (by decide +kernel) c hc
    · decide
    · exact padded_ne_mark (by decide) n c hc
    · decide
    · exact ne_mark (by decide +kernel) c hc
  have hdir : ∀ c ∈ reviewRecordDir.toList, (c == '/') = false := ne_mark (by decide +kernel)
  rw [nameOf, htext, List.splitOn, splitOnP_append_cons_of_forall_mem hdir '/' (by decide), hname]
  rfl

theorem roundOfName_round_record_path {n : ℕ} (h : (toString n).length ≤ 4300) :
    roundOfName (nameOf (round_record_path n)) = some (n : ℤ) := by
  have hround : ∀ c ∈ "round".toList, (c == '-') = false := ne_mark (by decide +kernel)
  rw [roundOfName, nameOf_round_record_path, List.splitOn,
    splitOnP_append_cons_of_forall_mem hround '-' (by decide),
    splitOnP_append_cons_of_forall_mem (padded_ne_mark (by decide) n) '-' (by decide),
    getElem?_cons_succ, getElem?_cons_zero, Option.bind_some, pyInt_padded h]

theorem isRecordName_round_record_path (n : ℕ) : isRecordName (nameOf (round_record_path n)) = true := by
  rw [isRecordName, Bool.or_eq_true]
  left
  rw [isSuffixOf_iff_suffix, nameOf_round_record_path]
  exact ⟨"round".toList ++ '-' :: (Reform.padded n).toList, by simp⟩

theorem canonical_round_record_path (n : ℕ) : Reform.canonical_path (round_record_path n) = round_record_path n := by
  refine if_neg ?_
  have hsuffix : ".cue".toList <:+ (round_record_path n).toList := by
    refine ⟨(reviewRecordDir ++ "/round-" ++ Reform.padded n ++ "-direction-review-record").toList, ?_⟩
    simp [round_record_path, String.toList_append]
  rw [Reform.endsWith, any_cons, any_nil, Bool.or_false, isSuffixOf_iff_suffix]
  intro hjson
  obtain ⟨front, hfront⟩ := hsuffix
  obtain ⟨front', hfront'⟩ := hjson
  have hlast := congrArg List.getLast? (hfront.trans hfront'.symm)
  rw [getLast?_append_of_ne_nil _ (by decide), getLast?_append_of_ne_nil _ (by decide)] at hlast
  exact absurd hlast (by decide)

theorem foldl_max_eq {numbers : List ℤ} {top start : ℤ} (hle : ∀ n ∈ numbers, n ≤ top) (hstart : start ≤ top)
    (hmem : top ∈ numbers ∨ start = top) : numbers.foldl max start = top := by
  induction numbers generalizing start with
  | nil => simpa using hmem
  | cons n numbers ih =>
    obtain ⟨hn, hnumbers⟩ := forall_mem_cons.1 hle
    refine ih hnumbers (max_le hstart hn) ?_
    rcases hmem with hmem | rfl
    · rcases mem_cons.1 hmem with rfl | hmem
      · exact .inr (max_eq_right hstart)
      · exact .inl hmem
    · exact .inr (max_eq_left hn)

section Recorded

variable {parse : String → Option Fields} {truncate : String → Option ℤ} {directory : String}

/-- A series without round records. -/
structure NoRecords (files : RoundFiles) : Prop where
  tree : ∀ path ∈ files.tree.map Prod.fst, isRecordName (nameOf path) = false
  offGit : ∀ file ∈ files.offGit, roundOfStem file.1 = none

/-- The record files are those of the rounds up to a number, and each is read as the record of its round. -/
structure Recorded (parse : String → Option Fields) (count : ℕ) (files : RoundFiles) : Prop where
  paths : ∀ path ∈ files.tree.map Prod.fst, isRecordName (nameOf path) = true →
    ∃ i, 1 ≤ i ∧ i ≤ count ∧ path = round_record_path i
  present : ∀ i, 1 ≤ i → i ≤ count → round_record_path i ∈ files.tree.map Prod.fst
  number : ∀ i, 1 ≤ i → i ≤ count → roundOfName (nameOf (round_record_path i)) = some (i : ℤ)
  read : ∀ i, 1 ≤ i → i ≤ count → ∃ parsed,
    read_record parse files (round_record_path i) = some parsed ∧ parsed.get "round" = .int i
  offGit : ∀ file ∈ files.offGit, roundOfStem file.1 = none

theorem NoRecords.recorded {files : RoundFiles} (h : NoRecords files) (parse : String → Option Fields) :
    Recorded parse 0 files where
  paths path hpath hname := by
    rw [h.tree path hpath] at hname
    cases hname
  present i hi hle := by omega
  number i hi hle := by omega
  read i hi hle := by omega
  offGit := h.offGit

theorem addOffGit_of_none {offGit : List (String × Option Json)} (h : ∀ file ∈ offGit, roundOfStem file.1 = none)
    (records : List (ℤ × Fields)) : addOffGit directory records offGit = records := by
  induction offGit with
  | nil => rfl
  | cons file offGit ih =>
    obtain ⟨stem, content⟩ := file
    obtain ⟨hstem, hrest⟩ := forall_mem_cons.1 h
    simp only [addOffGit, show roundOfStem stem = none from hstem]
    exact ih hrest

theorem review_round_number_setdefault {parsed : Fields} {i : ℕ} (h : parsed.get "round" = .int i) (hi : 1 ≤ i)
    (path : Json) : _review_round_number truncate (setdefault parsed "record_path" path) = i := by
  have hround : (setdefault parsed "record_path" path).get "round" = .int i := by
    rw [setdefault]
    split_ifs
    · exact h
    · rw [Fields.get_set_of_ne _ _ (by decide), h]
  have htruthy : (Json.int (i : ℤ)).truthy = true := by
    simp only [Json.truthy, bne_iff_ne]
    omega
  simp only [_review_round_number, hround, htruthy, ↓reduceIte]

namespace Recorded

variable {count : ℕ} {files : RoundFiles}

variable (truncate) in
theorem recordAt_path (h : Recorded parse count files) {i : ℕ} (hi : 1 ≤ i) (hle : i ≤ count) :
    ∃ record, recordAt parse files (round_record_path i) = some ((i : ℤ), record) ∧
      _review_round_number truncate record = i := by
  obtain ⟨parsed, hparsed, hround⟩ := h.read i hi hle
  refine ⟨setdefault parsed "record_path" (.str (round_record_path i)), ?_, review_round_number_setdefault hround hi _⟩
  rw [recordAt, if_pos (isRecordName_round_record_path i), h.number i hi hle, hparsed]
  rfl

theorem path_of_recordAt (h : Recorded parse count files) {path : String} (hpath : path ∈ files.tree.map Prod.fst)
    {record : ℤ × Fields} (hrecord : recordAt parse files path = some record) :
    ∃ i, 1 ≤ i ∧ i ≤ count ∧ path = round_record_path i := by
  refine h.paths path hpath ?_
  by_contra hname
  rw [recordAt, if_neg hname] at hrecord
  cases hrecord

variable (truncate) in
theorem mem_branchRecords (h : Recorded parse count files) {record : ℤ × Fields}
    (hrecord : record ∈ branchRecords parse files) :
    _review_round_number truncate record.2 = record.1 ∧ ∃ i : ℕ, 1 ≤ i ∧ i ≤ count ∧ record.1 = i := by
  obtain ⟨path, hpath, hat⟩ := mem_filterMap.1 hrecord
  obtain ⟨i, hi, hle, rfl⟩ := h.path_of_recordAt (mem_of_mem_filter hpath) hat
  obtain ⟨parsed, hparsed, hround⟩ := h.recordAt_path truncate hi hle
  obtain rfl := Option.eq_some_unique hparsed hat
  exact ⟨hround, i, hi, hle, rfl⟩

theorem round_record_path_mem (h : Recorded parse count files) {i : ℕ} (hi : 1 ≤ i) (hle : i ≤ count) :
    round_record_path i ∈ recordPaths files := by
  rw [recordPaths, mem_filter]
  refine ⟨h.present i hi hle, ?_⟩
  rw [Bool.or_eq_true, isPrefixOf_iff_prefix]
  right
  refine ⟨("round-" ++ Reform.padded i ++ "-direction-review-record.cue").toList, ?_⟩
  simp [round_record_path, String.toList_append, reviewRecordDir]

theorem distinctRounds (h : Recorded parse count files) : DistinctRounds parse files := by
  have hpath : ∀ p ∈ recordPaths files, ∀ number, (recordAt parse files p).map Prod.fst = some number →
      p = round_record_path number.toNat := by
    intro p hp number hnumber
    obtain ⟨record, hrecord, rfl⟩ := Option.map_eq_some_iff.1 hnumber
    obtain ⟨i, hi, hle, rfl⟩ := h.path_of_recordAt (mem_of_mem_filter hp) hrecord
    obtain ⟨parsed, hparsed, -⟩ := h.recordAt_path (fun _ => none) hi hle
    obtain rfl := Option.eq_some_unique hparsed hrecord
    rw [Int.toNat_natCast]
  intro p hp q hq number hpn hqn
  rw [hpath p hp number hpn, hpath q hq number hqn]

theorem keys_perm (h : Recorded parse count files) :
    ((branchRecords parse files).map Prod.fst).Perm ((List.range count).map fun i : ℕ => (i : ℤ) + 1) := by
  have hrange : ((List.range count).map fun i : ℕ => (i : ℤ) + 1).Nodup :=
    nodup_range.map fun a b hab => by simpa using hab
  rw [perm_ext_iff_of_nodup ((branchRecords_keys parse files).2 h.distinctRounds) hrange]
  intro n
  simp only [mem_map, mem_range]
  constructor
  · rintro ⟨record, hrecord, rfl⟩
    obtain ⟨-, i, hi, hle, hn⟩ := h.mem_branchRecords (fun _ => none) hrecord
    exact ⟨i - 1, by omega, by omega⟩
  · rintro ⟨i, hi, rfl⟩
    obtain ⟨parsed, hparsed, -⟩ := h.recordAt_path (fun _ => none) (Nat.succ_pos i) hi
    exact ⟨_, mem_filterMap.2 ⟨_, h.round_record_path_mem (Nat.succ_pos i) hi, hparsed⟩, by push_cast; rfl⟩

variable (truncate) in
theorem next (h : Recorded parse count files) (py : PyLib) (directory : String) : ∃ records,
    _review_round_records parse py directory files = .ok records ∧ records.length = count ∧
      _next_round_number truncate records = count + 1 := by
  obtain ⟨numbered, hnumbered, hrecords, -, -⟩ := projected_of_distinct py directory h.distinctRounds
  have hperm : numbered.Perm (branchRecords parse files) := by
    have := sortBy_perm hnumbered
    rwa [nil_append, readRecords, addOffGit_of_none h.offGit] at this
  have hkeys := (hperm.map Prod.fst).trans h.keys_perm
  refine ⟨numbered.map Prod.snd, hrecords, ?_, ?_⟩
  · simpa using hkeys.length_eq
  · have hnumbers : (numbered.map Prod.snd).map (_review_round_number truncate) = numbered.map Prod.fst := by
      rw [map_map]
      exact map_congr_left fun record hrecord => (h.mem_branchRecords truncate (hperm.mem_iff.1 hrecord)).1
    have hmem : ∀ n, n ∈ numbered.map Prod.fst ↔ ∃ i < count, (i : ℤ) + 1 = n := by
      intro n
      rw [hkeys.mem_iff, mem_map]
      simp only [mem_range]
    have hfilter : (numbered.map Prod.fst).filter (0 < ·) = numbered.map Prod.fst := by
      refine filter_eq_self.2 fun n hn => ?_
      obtain ⟨i, -, rfl⟩ := (hmem n).1 hn
      rw [decide_eq_true_eq]
      omega
    have htop : (numbered.map Prod.fst).foldl max 0 = count := by
      refine foldl_max_eq (fun n hn => ?_) (by omega) ?_
      · obtain ⟨i, hi, rfl⟩ := (hmem n).1 hn
        omega
      · rcases Nat.eq_zero_or_pos count with rfl | hpos
        · exact .inr rfl
        · exact .inl ((hmem _).2 ⟨count - 1, by omega, by omega⟩)
    rw [_next_round_number, hnumbers, hfilter, htop, Int.toNat_natCast]

end Recorded

end Recorded

/-! ### Rounds -/

section Run

variable {parse : String → Option Fields} {emit : Fields → Option String} {py : PyLib} {truncate : String → Option ℤ}
  {directory : String} {cap : ℕ} {files files' : RoundFiles} {hearing : Hearing} {last : Returned}

theorem isSome_of_terminal {previous : List Fields} {terminal : Option (List Json)} (hcap : cap ≤ previous.length)
    (h : _bounded_rounds_terminal_context py cap previous = .ok terminal) : terminal.isSome = true := by
  rw [_bounded_rounds_terminal_context, if_neg (not_lt.2 hcap), Checks.map_eq_ok_iff] at h
  obtain ⟨history, -, rfl⟩ := h
  rfl

theorem converted_ne (derived : RoundVerdict) :
    (if converted true derived = true then RoundVerdict.nak else derived) ≠ .needsRevision := by
  cases derived <;> decide

theorem review_spec
    (h : _run_patch_series_review parse emit py truncate directory cap files hearing = .ok (.inr (last, files'))) :
    ∃ records text, _review_round_records parse py directory files = .ok records ∧
      last.number = _next_round_number truncate records ∧ last.prior = records.length ∧
      files' = files.write (round_record_path last.number) text ∧
      (cap ≤ records.length → last.verdict ≠ .needsRevision) := by
  rw [_run_patch_series_review, Checks.bind_eq_ok_iff] at h
  obtain ⟨records, hrecords, h⟩ := h
  rw [Checks.bind_eq_ok_iff] at h
  obtain ⟨terminal, hterminal, h⟩ := h
  cases hroot : hearing.root with
  | closed disposition => simp [hroot, pure, Except.pure] at h
  | unusable reason =>
    simp only [hroot] at h
    split at h
    · cases h
    · rename_i text _
      simp only [Except.ok.injEq, Sum.inr.injEq, Prod.mk.injEq] at h
      obtain ⟨rfl, rfl⟩ := h
      exact ⟨records, text, hrecords, rfl, rfl, rfl, fun _ => by simp⟩
  | ready view approach =>
    simp only [hroot] at h
    rw [Checks.bind_eq_ok_iff] at h
    obtain ⟨⟨derived, objections⟩, -, h⟩ := h
    split at h
    · cases h
    · rename_i text _
      simp only [Except.ok.injEq, Sum.inr.injEq, Prod.mk.injEq] at h
      obtain ⟨rfl, rfl⟩ := h
      refine ⟨records, text, hrecords, rfl, rfl, rfl, fun hcap => ?_⟩
      rw [isSome_of_terminal hcap hterminal]
      exact converted_ne derived

theorem keys_write (path text : String) : (files.write path text).tree.map Prod.fst =
    if path ∈ files.tree.map Prod.fst then files.tree.map Prod.fst else files.tree.map Prod.fst ++ [path] :=
  keys_assign path text files.tree

theorem read_record_write {path text : String} {i : ℕ} (hne : round_record_path i ≠ path)
    (hmem : round_record_path i ∈ files.tree.map Prod.fst) :
    read_record parse (files.write path text) (round_record_path i) = read_record parse files (round_record_path i) := by
  obtain ⟨content, hcontent⟩ := Option.isSome_iff_exists.1 (lookup_isSome_iff.2 hmem)
  have hwritten : (files.write path text).tree.lookup (round_record_path i) = some content :=
    (lookup_assign path _ text files.tree).trans ((if_neg hne).trans hcontent)
  simp only [read_record, canonical_round_record_path, hwritten, hcontent, Option.some_or]

theorem Recorded.write {count : ℕ} {text : String} (h : Recorded parse count files)
    (hreadable : Readable parse last (files.write (round_record_path (count + 1)) text))
    (hnumber : last.number = count + 1) :
    Recorded parse (count + 1) (files.write (round_record_path (count + 1)) text) := by
  have hnew : roundOfName (nameOf (round_record_path (count + 1))) = some ((count + 1 : ℕ) : ℤ) :=
    roundOfName_round_record_path (hnumber ▸ hreadable.printed)
  have hne : ∀ i, 1 ≤ i → i ≤ count → round_record_path i ≠ round_record_path (count + 1) := by
    intro i hi hle heq
    have hold := h.number i hi hle
    rw [heq, hnew] at hold
    simp only [Option.some.injEq, Nat.cast_inj] at hold
    omega
  constructor
  case paths =>
    intro path hpath hname
    have hmem : path ∈ files.tree.map Prod.fst ∨ path = round_record_path (count + 1) := by
      rw [keys_write] at hpath
      split_ifs at hpath with hthere
      · exact .inl hpath
      · simpa using hpath
    rcases hmem with hmem | rfl
    · obtain ⟨i, hi, hle, rfl⟩ := h.paths path hmem hname
      exact ⟨i, hi, by omega, rfl⟩
    · exact ⟨count + 1, by omega, le_rfl, rfl⟩
  case present =>
    intro i hi hle
    rw [keys_write]
    rcases Nat.lt_or_ge count i with hlt | hle'
    · obtain rfl : i = count + 1 := by omega
      split_ifs with hthere
      · exact hthere
      · simp
    · split_ifs
      · exact h.present i hi hle'
      · exact mem_append_left _ (h.present i hi hle')
  case number =>
    intro i hi hle
    rcases Nat.lt_or_ge count i with hlt | hle'
    · obtain rfl : i = count + 1 := by omega
      exact hnew
    · exact h.number i hi hle'
  case read =>
    intro i hi hle
    rcases Nat.lt_or_ge count i with hlt | hle'
    · obtain rfl : i = count + 1 := by omega
      obtain ⟨parsed, hparsed, hround⟩ := hreadable.read
      rw [hnumber] at hparsed hround
      exact ⟨parsed, hparsed, hround⟩
    · obtain ⟨parsed, hparsed, hround⟩ := h.read i hi hle'
      exact ⟨parsed, (read_record_write (hne i hi hle') (h.present i hi hle')).trans hparsed, hround⟩
  case offGit => exact h.offGit

variable {start : RoundFiles} {returned : List Returned}

theorem Rounds.recorded (hstart : NoRecords start)
    (hrun : Rounds parse emit py truncate directory cap start returned files) :
    Recorded parse returned.length files ∧
      returned.map (·.number) = (List.range returned.length).map (· + 1) ∧
      ∀ round ∈ returned, round.number = round.prior + 1 ∧ (cap ≤ round.prior → round.verdict ≠ .needsRevision) := by
  induction hrun with
  | start => exact ⟨hstart.recorded parse, rfl, by simp⟩
  | @round returned files files' hearing last hrun hreview hreadable ih =>
    obtain ⟨hrecorded, hnumbers, hrounds⟩ := ih
    obtain ⟨records, text, hrecords, hnumber, hprior, rfl, hverdict⟩ := review_spec hreview
    obtain ⟨records', hrecords', hlength, hnext⟩ := hrecorded.next truncate py directory
    obtain rfl := Except.ok.inj (hrecords.symm.trans hrecords')
    have hlast : last.number = returned.length + 1 := hnumber.trans hnext
    refine ⟨?_, ?_, ?_⟩
    · rw [length_append, length_singleton]
      rw [hlast] at hreadable ⊢
      exact hrecorded.write hreadable hlast
    · rw [map_append, hnumbers, length_append, length_singleton, range_succ, map_append]
      simp [hlast]
    · intro round hround
      rcases mem_append.1 hround with hround | hround
      · exact hrounds round hround
      · obtain rfl := mem_singleton.1 hround
        exact ⟨by omega, fun hcap => hverdict (by omega)⟩

theorem length_le_of_nodup {numbers : List ℕ} {bound : ℕ} (hnodup : numbers.Nodup)
    (h : ∀ n ∈ numbers, 1 ≤ n ∧ n ≤ bound) : numbers.length ≤ bound := by
  have hsub : numbers ⊆ (List.range bound).map (· + 1) := by
    intro n hn
    obtain ⟨hpos, hle⟩ := h n hn
    rw [mem_map]
    exact ⟨n - 1, by rw [mem_range]; omega, by omega⟩
  simpa using (hnodup.subperm hsub).length_le

/-- Rounds from a series without records on have the numbers from one, at most as many as the cap ask for a revision,
and from as many records on as the cap a round ends the review. The next round can always be read. -/
theorem rounds_bounded (hstart : NoRecords start)
    (hrun : Rounds parse emit py truncate directory cap start returned files) :
    returned.map (·.number) = (List.range returned.length).map (· + 1) ∧
      (returned.filter (·.verdict = .needsRevision)).length ≤ cap ∧
      (∀ round ∈ returned, cap ≤ round.prior → round.verdict = .directionOk ∨ round.verdict = .nak) ∧
      ∃ records, _review_round_records parse py directory files = .ok records ∧ records.length = returned.length := by
  obtain ⟨hrecorded, hnumbers, hrounds⟩ := hrun.recorded hstart
  obtain ⟨records, hrecords, hlength, -⟩ := hrecorded.next truncate py directory
  refine ⟨hnumbers, ?_, fun round hround hcap => ?_, records, hrecords, hlength⟩
  · have hnodup : ((returned.filter (·.verdict = .needsRevision)).map (·.number)).Nodup := by
      have hall : (returned.map (·.number)).Nodup := by
        rw [hnumbers]
        exact nodup_range.map fun a b hab => by simpa using hab
      exact hall.sublist (filter_sublist.map _)
    rw [← length_map (·.number)]
    refine length_le_of_nodup hnodup fun n hn => ?_
    obtain ⟨round, hround, rfl⟩ := mem_map.1 hn
    obtain ⟨hmem, hrevision⟩ := mem_filter.1 hround
    obtain ⟨hnumber, hverdict⟩ := hrounds round hmem
    have hprior : round.prior < cap := by
      by_contra hcap
      exact hverdict (not_lt.1 hcap) (of_decide_eq_true hrevision)
    omega
  · have hne := (hrounds round hround).2 hcap
    cases hverdict : round.verdict with
    | directionOk => exact .inl rfl
    | needsRevision => exact absurd hverdict hne
    | nak => exact .inr rfl

end Run

def unclearHearing : Hearing where
  root := .ready ⟨[], []⟩ .null
  raised := [{ inputObjection "unclear" with objectionId := "need:1" }]
  reply := .failed "no reply"
  proposals := []
  rest := []

def roundOnly (record : Fields) : Option String :=
  match record.get "round" with
  | .int n => some (toString n)
  | _ => none

def readRound (text : String) : Option Fields := (pyInt text.toList).map fun n => [("round", .int n)]

def noFiles : RoundFiles := ⟨[], [], nodup_nil⟩

def oneRound : RoundFiles := noFiles.write (round_record_path 1) "1"

def twoRounds : RoundFiles := oneRound.write (round_record_path 2) "2"

/-- The first round asks for a revision, the second one is terminal. -/
theorem rounds_bounded_twice :
    ([⟨1, 0, .needsRevision⟩, ⟨2, 1, .nak⟩] : List Returned).map (·.number) = [1, 2] ∧
      ([⟨1, 0, .needsRevision⟩, ⟨2, 1, .nak⟩] : List Returned).filter (·.verdict = .needsRevision) =
        [⟨1, 0, .needsRevision⟩] ∧
      ∃ records, _review_round_records readRound asciiLib "" twoRounds = .ok records ∧ records.length = 2 := by
  have hrun : Rounds readRound roundOnly asciiLib (fun _ => none) "" 1 noFiles
      ([] ++ [⟨1, 0, .needsRevision⟩] ++ [⟨2, 1, .nak⟩]) twoRounds := by
    have hfirst : _run_patch_series_review readRound roundOnly asciiLib (fun _ => none) "" 1 noFiles unclearHearing =
        .ok (.inr (⟨1, 0, .needsRevision⟩, oneRound)) := by decide +kernel
    have hsecond : _run_patch_series_review readRound roundOnly asciiLib (fun _ => none) "" 1 oneRound unclearHearing =
        .ok (.inr (⟨2, 1, .nak⟩, twoRounds)) := by decide +kernel
    have hone : read_record readRound oneRound (round_record_path 1) = some [("round", .int 1)] := by decide +kernel
    have htwo : read_record readRound twoRounds (round_record_path 2) = some [("round", .int 2)] := by decide +kernel
    exact .round (.round .start hfirst ⟨by decide, _, hone, rfl⟩) hsecond ⟨by decide, _, htwo, rfl⟩
  obtain ⟨hnumbers, -, -, hread⟩ := rounds_bounded ⟨by simp [noFiles], by simp [noFiles]⟩ hrun
  exact ⟨hnumbers, rfl, hread⟩

end Review

end AiOrg
