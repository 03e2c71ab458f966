import AiOrg.FlatReview.Encode
import AiOrg.Proofs.GoJson

/-!
# Framing

No section has a separator but the one at its front, so the sections can be told apart in the output,
and each stands in it for its record alone.
-/

namespace AiOrg

open List

namespace FlatReview

open StrictJson (Node Parse Source)

variable {source : Source}

section Separators

theorem le_marshalLeaf {row : Row} (h : validRow row) :
    ∀ c ∈ marshalLeaf row.leaf, 0x20 ≤ c.toNat := by
  have hnull : ∀ c ∈ ['n', 'u', 'l', 'l'], 0x20 ≤ c.toNat := by simp
  have htrue : ∀ c ∈ ['t', 'r', 'u', 'e'], 0x20 ≤ c.toNat := by simp
  have hfalse : ∀ c ∈ ['f', 'a', 'l', 's', 'e'], 0x20 ≤ c.toNat := by simp
  have harray : ∀ c ∈ ['[', ']'], 0x20 ≤ c.toNat := by simp
  have hobject : ∀ c ∈ ['\x7b', '\x7d'], 0x20 ≤ c.toNat := by simp
  obtain ⟨pointer, leaf⟩ := row
  cases leaf with
  | null => exact hnull
  | bool value =>
    cases value
    · exact hfalse
    · exact htrue
  | number text => exact fun c hc => (GoJson.isNumberChar_of_isValidNumber h c hc).le
  | string text => exact GoJson.le_quote
  | array elements => exact harray
  | object members => exact hobject

theorem le_rowText {row : Row} (h : validRow row) : ∀ c ∈ rowText row, 0x20 ≤ c.toNat := by
  have hopen : ∀ c ∈ rowOpening, 0x20 ≤ c.toNat := by unfold rowOpening; simp
  have hmid : ∀ c ∈ rowMiddle, 0x20 ≤ c.toNat := by unfold rowMiddle; simp
  intro c hc
  simp only [rowText, mem_append, mem_singleton] at hc
  rcases hc with (((hc | hc) | hc) | hc) | rfl
  · exact hopen c hc
  · exact GoJson.le_quote c hc
  · exact hmid c hc
  · exact le_marshalLeaf h c hc
  · decide

theorem le_rowsText {rows : List Row} (h : ∀ row ∈ rows, validRow row) :
    ∀ c ∈ rowsText rows, 0x20 ≤ c.toNat := by
  induction rows with
  | nil => simp [rowsText]
  | cons row rows ih =>
    have hrow := le_rowText (h row mem_cons_self)
    have hrest := ih fun other hother => h other (mem_cons_of_mem _ hother)
    intro c hc
    rcases rows with _ | ⟨next, rows⟩
    · simp only [rowsText, mem_append, mem_singleton] at hc
      rcases hc with hc | rfl
      · exact hrow c hc
      · decide
    · rw [rowsText, mem_append, mem_cons] at hc
      rcases hc with hc | rfl | hc
      · exact hrow c hc
      · decide
      · exact hrest c hc
      · simp

theorem le_sectionText {rows : List Row} {id : List Char} (h : ∀ row ∈ rows, validRow row) :
    ∀ c ∈ sectionText rows id, 0x20 ≤ c.toNat := by
  have hopen : ∀ c ∈ sectionOpening, 0x20 ≤ c.toNat := by unfold sectionOpening; simp
  have hmid : ∀ c ∈ sectionMiddle, 0x20 ≤ c.toNat := by unfold sectionMiddle; simp
  intro c hc
  simp only [sectionText, mem_append, mem_singleton] at hc
  rcases hc with (((hc | hc) | hc) | hc) | rfl
  · exact hopen c hc
  · exact le_rowsText h c hc
  · exact hmid c hc
  · exact GoJson.le_quote c hc
  · decide

theorem encodeSection_eq_ok {record : Record} {text : List UInt8} :
    encodeSection source record = .ok text ↔ ∃ root id, Parse source record.carrier = .ok root ∧
      validUnicodeEscapes record.carrier ∧ utf8Decode record.stableID = some id ∧
        (∀ row ∈ sortedRows root, validRow row) ∧
          text = recordSeparator :: GoJson.utf8Bytes (sectionText (sortedRows root) id) ++ [0x0a] := by
  unfold encodeSection
  rcases hparse : Parse source record.carrier with e | root
  · simp
  rcases hescapes : validUnicodeEscapes record.carrier with _ | _
  · simp
  rcases hid : utf8Decode record.stableID with _ | id
  · simp
  dsimp only
  rw [if_neg (by simp)]
  by_cases hvalid : ∀ row ∈ sortedRows root, validRow row
  · rw [if_pos (all_eq_true.2 hvalid), Except.ok.injEq]
    constructor
    · rintro rfl
      exact ⟨root, id, rfl, rfl, rfl, hvalid, rfl⟩
    · rintro ⟨root, id, hroot, -, hid, -, rfl⟩
      cases hroot
      cases hid
      rfl
  · rw [if_neg fun hall => hvalid (all_eq_true.1 hall)]
    constructor
    · rintro ⟨⟩
    · rintro ⟨root, id, hroot, -, -, hrows, -⟩
      cases hroot
      exact absurd hrows hvalid

theorem separator_of_section {record : Record} {text : List UInt8}
    (h : encodeSection source record = .ok text) :
    ∃ body, text = recordSeparator :: body ∧ recordSeparator ∉ body := by
  obtain ⟨root, id, -, -, -, hvalid, rfl⟩ := encodeSection_eq_ok.1 h
  refine ⟨_, cons_append, ?_⟩
  rw [mem_append, not_or]
  exact ⟨GoJson.not_mem_utf8Bytes (by decide) (le_sectionText hvalid), by decide⟩

end Separators

section Ordered

variable {records other : List Record}

/-- An id as the numbers that it is sorted by. -/
abbrev sortKey (record : Record) : List ℕ := record.stableID.map UInt8.toNat

theorem sortKey_inj {record other : Record} (h : sortKey record = sortKey other) :
    record.stableID = other.stableID :=
  map_injective_iff.2 (fun _ _ => UInt8.toNat_inj.1) h

theorem ordered_perm (records : List Record) : (ordered records).Perm records :=
  perm_insertionSort _ _

theorem ordered_sorted (records : List Record) :
    (ordered records).Pairwise fun a b => sortKey a ≤ sortKey b :=
  have : IsTrans Record fun a b => sortKey a ≤ sortKey b := ⟨fun _ _ _ => le_trans⟩
  have : Std.Total fun a b : Record => sortKey a ≤ sortKey b := ⟨fun _ _ => le_total _ _⟩
  pairwise_insertionSort _ _

theorem nodup_of_perm (h : other.Perm records) (hdistinct : (records.map (·.stableID)).Nodup) :
    (other.map (·.stableID)).Nodup :=
  (h.map _).nodup_iff.2 hdistinct

theorem ordered_strict (hdistinct : (records.map (·.stableID)).Nodup) :
    (ordered records).Pairwise fun a b => sortKey a < sortKey b := by
  have hnodup := nodup_of_perm (ordered_perm records) hdistinct
  rw [List.Nodup, pairwise_map] at hnodup
  exact (ordered_sorted records).imp₂ (fun _ _ hle hne =>
    lt_of_le_of_ne hle fun heq => hne (sortKey_inj heq)) hnodup

theorem ordered_eq_of_perm (h : other.Perm records)
    (hdistinct : (records.map (·.stableID)).Nodup) : ordered other = ordered records := by
  have hperm : (ordered other).Perm (ordered records) :=
    (ordered_perm other).trans (h.trans (ordered_perm records).symm)
  refine List.Perm.eq_of_pairwise ?_ (ordered_strict (nodup_of_perm h hdistinct))
    (ordered_strict hdistinct) hperm
  exact fun a b _ _ hab hba => absurd (hab.trans hba) (lt_irrefl _)

end Ordered

/-! ### Encoding -/

section Encoding

variable {records : List Record} {sections : List (List UInt8)}

/-- The sections of an output: it is split at the separators. -/
def splitRecords (output : List UInt8) : List (List UInt8) :=
  (output.splitOn recordSeparator).tail.map (recordSeparator :: ·)

theorem encodeSections_eq_ok : encodeSections source records = .ok sections ↔
    Forall₂ (fun record text => encodeSection source record = .ok text) records sections := by
  induction records generalizing sections with
  | nil => simp [encodeSections, eq_comm]
  | cons record rest ih =>
    rw [forall₂_cons_left_iff, encodeSections]
    rcases hfirst : encodeSection source record with e | first
    · simp [bind, Except.bind]
    rcases hothers : encodeSections source rest with e | others
    · simp only [bind, Except.bind, reduceCtorEq, false_iff, Except.ok.injEq]
      rintro ⟨text, texts, -, hrest, -⟩
      rw [ih.2 hrest] at hothers
      cases hothers
    · simp only [bind, Except.bind, Except.ok.injEq]
      constructor
      · rintro rfl
        exact ⟨first, others, rfl, ih.1 hothers, rfl⟩
      · rintro ⟨text, texts, rfl, hrest, rfl⟩
        rw [ih.2 hrest] at hothers
        cases hothers
        rfl

theorem Encode_eq (h : (Encode source records).2 = none) : ∃ sections,
    Forall₂ (fun record text => encodeSection source record = .ok text) (ordered records)
      sections ∧ (Encode source records).1 = sections.flatten := by
  unfold Encode at h ⊢
  rcases hids : checkIDs none (ordered records) with _ | e
  · rw [hids] at h
    rcases hsections : encodeSections source (ordered records) with e | sections
    · rw [hsections] at h
      cases h
    · exact ⟨sections, encodeSections_eq_ok.1 hsections, rfl⟩
  · rw [hids] at h
    cases h

theorem Encode_error (h : (Encode source records).2 ≠ none) : (Encode source records).1 = [] := by
  unfold Encode at h ⊢
  rcases hids : checkIDs none (ordered records) with _ | e
  · rw [hids] at h
    rcases hsections : encodeSections source (ordered records) with e | sections
    · rfl
    · rw [hsections] at h
      exact absurd rfl h
  · rfl

theorem splitRecords_flatten (h : Forall₂ (fun record text =>
    encodeSection source record = .ok text) records sections) :
    splitRecords sections.flatten = sections := by
  have hbodies : ∃ bodies : List (List UInt8), (∀ body ∈ bodies, recordSeparator ∉ body) ∧
      sections = bodies.map (recordSeparator :: ·) := by
    induction h with
    | nil => exact ⟨[], by simp, rfl⟩
    | cons hsection _ ih =>
      obtain ⟨body, rfl, hbody⟩ := separator_of_section hsection
      obtain ⟨bodies, hbodies, rfl⟩ := ih
      exact ⟨body :: bodies, forall_mem_cons.2 ⟨hbody, hbodies⟩, rfl⟩
  obtain ⟨bodies, hbodies, rfl⟩ := hbodies
  rw [splitRecords, ← flatMap_def, Coding.splitOn_separated hbodies]
  rfl

def sectionOf (source : Source) (record : Record) : List UInt8 :=
  (encodeSection source record).toOption.getD []

theorem sectionOf_eq {record : Record} {text : List UInt8}
    (h : encodeSection source record = .ok text) : sectionOf source record = text := by
  rw [sectionOf, h]
  rfl

theorem sections_eq_map (h : Forall₂ (fun record text =>
    encodeSection source record = .ok text) records sections) :
    sections = records.map (sectionOf source) ∧
      ∀ record ∈ records, encodeSection source record = .ok (sectionOf source record) := by
  induction h with
  | nil => exact ⟨rfl, by simp⟩
  | cons hfirst _ ih =>
    obtain ⟨hmap, hok⟩ := ih
    refine ⟨by rw [map_cons, sectionOf_eq hfirst, ← hmap], forall_mem_cons.2 ⟨?_, hok⟩⟩
    rw [sectionOf_eq hfirst, hfirst]

theorem Encode_flatMap (h : (Encode source records).2 = none) :
    (∀ record ∈ records, encodeSection source record = .ok (sectionOf source record)) ∧
      (Encode source records).1 = (ordered records).flatMap (sectionOf source) := by
  obtain ⟨sections, hsections, hout⟩ := Encode_eq h
  obtain ⟨hmap, hok⟩ := sections_eq_map hsections
  refine ⟨fun record hrecord => hok record ((ordered_perm records).mem_iff.2 hrecord), ?_⟩
  rw [hout, hmap, flatMap_def]

def smaller (record : Record) (records : List Record) : List Record :=
  (ordered records).takeWhile fun other => ¬ sortKey record ≤ sortKey other

def larger (record : Record) (records : List Record) : List Record :=
  (ordered records).dropWhile fun other => ¬ sortKey record ≤ sortKey other

theorem smaller_append_larger (record : Record) (records : List Record) :
    smaller record records ++ larger record records = ordered records :=
  takeWhile_append_dropWhile

theorem ordered_around {record : Record} {before after : List Record}
    (hdistinct : ((before ++ record :: after).map (·.stableID)).Nodup) :
    ordered (before ++ record :: after) =
      smaller record (before ++ after) ++ record :: larger record (before ++ after) := by
  have hmove : ordered (before ++ record :: after) = ordered (record :: (before ++ after)) :=
    (ordered_eq_of_perm perm_middle.symm hdistinct).symm
  rw [hmove]
  exact insertionSort_cons_eq_take_drop _ _ _

theorem Encode_around {record : Record} {before after : List Record}
    (hdistinct : ((before ++ record :: after).map (·.stableID)).Nodup)
    (h : (Encode source (before ++ record :: after)).2 = none) :
    encodeSection source record = .ok (sectionOf source record) ∧
      (Encode source (before ++ record :: after)).1 =
        (smaller record (before ++ after)).flatMap (sectionOf source) ++ sectionOf source record ++
          (larger record (before ++ after)).flatMap (sectionOf source) := by
  obtain ⟨hok, hout⟩ := Encode_flatMap h
  refine ⟨hok record (by simp), ?_⟩
  rw [hout, ordered_around hdistinct, flatMap_append, flatMap_cons, append_assoc]

theorem Encode_replace {record other : Record} {before after : List Record}
    (hdistinct : ((before ++ record :: after).map (·.stableID)).Nodup)
    (hdistinct' : ((before ++ other :: after).map (·.stableID)).Nodup)
    (h : (Encode source (before ++ record :: after)).2 = none)
    (h' : (Encode source (before ++ other :: after)).2 = none) :
    ∃ earlier text later earlier' text' later',
      encodeSection source record = .ok text ∧ encodeSection source other = .ok text' ∧
      (Encode source (before ++ record :: after)).1 = earlier ++ text ++ later ∧
      (Encode source (before ++ other :: after)).1 = earlier' ++ text' ++ later' ∧
      earlier ++ later = earlier' ++ later' ∧
      (record.stableID = other.stableID → earlier = earlier' ∧ later = later') := by
  obtain ⟨hok, hout⟩ := Encode_around hdistinct h
  obtain ⟨hok', hout'⟩ := Encode_around hdistinct' h'
  refine ⟨_, _, _, _, _, _, hok, hok', hout, hout', ?_, fun hid => ?_⟩
  · rw [← flatMap_append, ← flatMap_append, smaller_append_larger, smaller_append_larger]
  · rw [smaller, smaller, larger, larger, sortKey, sortKey, hid]
    exact ⟨rfl, rfl⟩

/-- The output is the sections in the order of the ids, whatever the order of the records: they are
found again at the separators, and each depends on its own record only. -/
theorem Encode_framed (source : Source) (records : List Record)
    (hdistinct : (records.map (·.stableID)).Nodup) :
    (∀ other : List Record, other.Perm records → Encode source other = Encode source records) ∧
    ((Encode source records).2 ≠ none → (Encode source records).1 = []) ∧
    ((ordered records).Perm records ∧
      (ordered records).Pairwise fun a b => sortKey a < sortKey b) ∧
    ((Encode source records).2 = none → ∃ sections,
      Forall₂ (fun record text => encodeSection source record = .ok text) (ordered records)
        sections ∧
      (∀ text ∈ sections, ∃ body, text = recordSeparator :: body ∧ recordSeparator ∉ body) ∧
      (Encode source records).1 = sections.flatten ∧
      splitRecords (Encode source records).1 = sections) ∧
    ∀ (before after : List Record) (record other : Record), records = before ++ record :: after →
      (Encode source records).2 = none → (Encode source (before ++ other :: after)).2 = none →
      ((before ++ other :: after).map (·.stableID)).Nodup →
      ∃ earlier text later earlier' text' later',
        encodeSection source record = .ok text ∧ encodeSection source other = .ok text' ∧
        (Encode source records).1 = earlier ++ text ++ later ∧
        (Encode source (before ++ other :: after)).1 = earlier' ++ text' ++ later' ∧
        earlier ++ later = earlier' ++ later' ∧
        (record.stableID = other.stableID → earlier = earlier' ∧ later = later') := by
  refine ⟨fun other hperm => ?_, Encode_error, ⟨ordered_perm records, ordered_strict hdistinct⟩,
    fun h => ?_, ?_⟩
  · rw [Encode, Encode, ordered_eq_of_perm hperm hdistinct]
  · obtain ⟨sections, hsections, hout⟩ := Encode_eq h
    refine ⟨sections, hsections, fun text htext => ?_, hout, ?_⟩
    · obtain ⟨hmap, hok⟩ := sections_eq_map hsections
      rw [hmap] at htext
      obtain ⟨record, hrecord, rfl⟩ := mem_map.1 htext
      exact separator_of_section (hok record hrecord)
    · rw [hout, splitRecords_flatten hsections]
  · rintro before after record other rfl h h' hdistinct'
    exact Encode_replace hdistinct hdistinct' h h'

/-- The bytes of `[1]`. -/
def arrayBytes : List UInt8 := [0x5b, 0x31, 0x5d]

/-- The bytes of `\x7b"0":1\x7d`. -/
def indexBytes : List UInt8 := [0x7b, 0x22, 0x30, 0x22, 0x3a, 0x31, 0x7d]

/-- The lexemes of `arrayBytes` and `indexBytes`. -/
def indexSource : Source where
  utf8Valid _ := true
  lexemes src :=
    if src = arrayBytes then
      [(.token (.delim .openArray), 1), (.token (.number "1"), 2), (.token (.delim .closeArray), 3)]
    else if src = indexBytes then
      [(.token (.delim .openObject), 1), (.token (.string "0"), 4), (.colon, 5),
        (.token (.number "1"), 6), (.token (.delim .closeObject), 7)]
    else []

theorem Encode_framed_two :
    (Encode indexSource [⟨[0x62], indexBytes⟩, ⟨[0x61], arrayBytes⟩]).2 = none ∧
    Encode indexSource [⟨[0x61], arrayBytes⟩, ⟨[0x62], indexBytes⟩] =
      Encode indexSource [⟨[0x62], indexBytes⟩, ⟨[0x61], arrayBytes⟩] :=
  ⟨by decide +kernel, (Encode_framed indexSource _ (by decide)).1 _ (List.Perm.swap _ _ _)⟩

end Encoding

end FlatReview

end AiOrg
