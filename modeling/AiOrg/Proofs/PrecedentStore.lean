import AiOrg.Proofs.PrecedentResearch
import AiOrg.Run.Checks

/-!
# The store conserves what it was given

Every row of a store that calls reach has the key of its term, every row of research is readable, every candidate is
a normal form that a research of its key accounts for, an active one by an active research, and no two active
candidates of a key have one source and one snippet (`Sound`). From this every read of the store is an entry or a
miss.
-/

namespace AiOrg

open List

namespace Precedent

variable {py : PyLib} {uni : Unicode}

/-- A candidate is the row of a normal form, found by a keyword of a research of its key; an active one by an active
research. -/
def Grounded (py : PyLib) (research : List ResearchRow) (row : CandidateRow) : Prop :=
  ∃ stored, Normal stored ∧ row.columns = (candidateRow row.term row.term_key stored).columns ∧
    ∃ source ∈ research, source.term_key = row.term_key ∧ (row.deprecated = none → source.deprecated = none) ∧
      ∃ keywords, Readable py source keywords ∧ py.lower (stored.get "found_via") ∈ keywords.map py.lower

/-- Two rows are active under one key, with one source and one snippet. -/
def SameSource (a b : CandidateRow) : Prop :=
  a.term_key = b.term_key ∧ a.deprecated = none ∧ b.deprecated = none ∧
    a.columns.get "source_url" = b.columns.get "source_url" ∧ a.columns.get "snippet" = b.columns.get "snippet"

structure Sound (py : PyLib) (uni : Unicode) (store : Store) : Prop where
  researchKey : ∀ row ∈ store.research, row.term_key = _normalize_term py uni row.term
  candidateKey : ∀ row ∈ store.candidates, row.term_key = _normalize_term py uni row.term
  readable : ∀ row ∈ store.research, ∃ keywords, Readable py row keywords
  grounded : ∀ row ∈ store.candidates, Grounded py store.research row
  apart : store.candidates.Pairwise fun a b => ¬ SameSource a b

theorem sound_empty : Sound py uni .empty where
  researchKey := by simp [Store.empty]
  candidateKey := by simp [Store.empty]
  readable := by simp [Store.empty]
  grounded := by simp [Store.empty]
  apart := .nil

theorem ensure_schema_rows {store : Store}
    (hresearch : ∀ row ∈ store.research, row.term_key = _normalize_term py uni row.term)
    (hcandidates : ∀ row ∈ store.candidates, row.term_key = _normalize_term py uni row.term) :
    (_ensure_schema py uni store).research = store.research ∧
      (_ensure_schema py uni store).candidates = store.candidates := by
  constructor
  · show store.research.map _ = _
    conv_rhs => rw [← map_id store.research]
    refine map_congr_left fun row hrow => ?_
    split_ifs
    · rw [← hresearch row hrow]
      rfl
    · rfl
  · show store.candidates.map _ = _
    conv_rhs => rw [← map_id store.candidates]
    refine map_congr_left fun row hrow => ?_
    split_ifs
    · rw [← hcandidates row hrow]
      rfl
    · rfl

theorem Sound.of_rows {store next : Store} (h : Sound py uni store) (hresearch : next.research = store.research)
    (hcandidates : next.candidates = store.candidates) : Sound py uni next where
  researchKey := hresearch ▸ h.researchKey
  candidateKey := hcandidates ▸ h.candidateKey
  readable := hresearch ▸ h.readable
  grounded := by rw [hcandidates, hresearch]; exact h.grounded
  apart := hcandidates ▸ h.apart

theorem Sound.ensure_schema {store : Store} (h : Sound py uni store) : Sound py uni (_ensure_schema py uni store) :=
  h.of_rows (ensure_schema_rows h.researchKey h.candidateKey).1 (ensure_schema_rows h.researchKey h.candidateKey).2

theorem allOrRaise_eq_true {α : Type} {check : α → Option Bool} {xs : List α} :
    allOrRaise check xs = some true ↔ ∀ x ∈ xs, check x = some true := by
  induction xs with
  | nil => simp [allOrRaise]
  | cons x xs ih =>
    rw [allOrRaise, forall_mem_cons, ← ih]
    split
    · simp [*]
    · rename_i hother
      exact ⟨fun h => absurd h hother, fun h => absurd h.1 hother⟩

structure ValidEntry (py : PyLib) (entry : Fields) (keywords : List String) (examined candidates : List Json) :
    Prop where
  search_keywords : textList? (Fields.get entry "search_keywords") = some keywords
  clean : _clean_search_keywords py keywords = keywords
  examinedList : list? (Fields.get entry "examined") = some examined
  examined : ∀ item ∈ examined, _valid_examined item = true ∧ examinedIn py (keywords.map py.lower) item = true
  candidatesList : list? (Fields.get entry "candidates") = some candidates
  candidates : ∀ candidate ∈ candidates, _valid_candidate py candidate = true ∧
    foundViaIn py (keywords.map py.lower) candidate = some true

theorem validEntry_of_valid_entry {entry : Fields} (h : _valid_entry py (.obj entry) = some true) :
    ∃ keywords examined candidates, ValidEntry py entry keywords examined candidates := by
  rw [_valid_entry] at h
  split_ifs at h with hnames
  · simp at h
  split at h
  · rename_i _ _ keywords examined candidates _ _ hkeywords hexamined hcandidates
    dsimp only at h
    split_ifs at h with hclean hvalid hin hall
    any_goals simp at h
    simp only [Bool.not_eq_true', Bool.not_eq_false, all_eq_true] at hvalid hin hall
    rw [allOrRaise_eq_true] at h
    exact ⟨keywords, examined, candidates, hkeywords, not_not.1 hclean, hexamined,
      fun item hitem => ⟨hvalid item hitem, hin item hitem⟩, hcandidates,
      fun candidate hcandidate => ⟨hall candidate hcandidate, h candidate hcandidate⟩⟩
  · simp at h

theorem mem_of_mem_uniqueFrom {seen values : List String} {value : String} (h : value ∈ uniqueFrom py seen values) :
    value ∈ values := by
  induction values generalizing seen with
  | nil => simp [uniqueFrom] at h
  | cons first values ih =>
    rw [uniqueFrom] at h
    split_ifs at h
    · exact mem_cons_of_mem _ (ih h)
    · rcases mem_cons.1 h with rfl | h
      · exact mem_cons_self
      · exact mem_cons_of_mem _ (ih h)

theorem squash_of_clean {keywords : List String} (h : _clean_search_keywords py keywords = keywords)
    {keyword : String} (hkeyword : keyword ∈ keywords) : squash keyword = keyword := by
  rw [← h, _clean_search_keywords, _unique] at hkeyword
  obtain ⟨text, -, rfl⟩ := mem_map.1 (mem_filter.1 (mem_of_mem_uniqueFrom hkeyword)).1
  exact squash_squash text

theorem stored_of_valid (hlower : IsLower py.lower) {entry : Fields} {keywords : List String}
    {examined candidates : List Json} (h : ValidEntry py entry keywords examined candidates) {candidate : Json}
    (hcandidate : candidate ∈ candidates) (hdeclared : DeclaredCandidate candidate) :
    Normal (_stored_candidate py candidate) ∧
      py.lower ((_stored_candidate py candidate).get "found_via") ∈ keywords.map py.lower := by
  obtain ⟨hvalid, hfound⟩ := h.candidates candidate hcandidate
  cases candidate with
  | obj fields =>
    rw [_valid_candidate] at hvalid
    split at hvalid
    · simp at hvalid
    rename_i texts htexts
    obtain ⟨hnormal, hstored⟩ := normal_stored htexts
    refine ⟨hnormal, ?_⟩
    rw [hstored]
    simp only [foundViaIn, Option.bind_eq_some_iff, Option.map_eq_some_iff] at hfound
    obtain ⟨value, hlookup, raw, hraw, hmem⟩ := hfound
    have haudit : Fields.get fields "_precedent_found_via" = .null := by
      rw [Fields.get, Fields.lookup_eq_none_iff.2]
      · rfl
      · intro hname
        have := hdeclared fields rfl _ hname
        revert this
        decide
    have hvalue : value = .str raw := by
      cases value with
      | str text => exact congrArg Json.str (Option.some.inj hraw)
      | _ => cases hraw
    have hclean : _candidate_audit_found_via py fields [] = squash raw := by
      rw [_candidate_audit_found_via, haudit, clean_found_via_nil]
      simp only [Json.truthy, Bool.false_eq_true, if_false]
      rw [Fields.get, hlookup, hvalue, Option.getD_some, py.strOr_str]
    rw [contains_iff_mem] at hmem
    obtain ⟨keyword, hkeyword, heq⟩ := mem_map.1 hmem
    rw [hclean, hlower.squash, ← heq, ← hlower.squash, squash_of_clean h.clean hkeyword]
    exact mem_map_of_mem hkeyword
  | _ => simp [_valid_candidate, _normalize_raw_candidate] at hvalid

section Insert

variable {term term_key : String}

theorem get_candidateRow (texts : Texts) {column : String} (h : column ∈ candidateColumns) :
    (candidateRow term term_key texts).columns.get column = texts.get column := get_map h

theorem holds_iff {stored : Texts} {row : CandidateRow} : holds term_key stored row = true ↔
    row.term_key = term_key ∧ row.deprecated = none ∧
      row.columns.get "source_url" = stored.get "source_url" ∧ row.columns.get "snippet" = stored.get "snippet" := by
  simp only [holds, Bool.and_eq_true, decide_eq_true_eq, Option.isNone_iff_eq_none]
  tauto

theorem holds_candidateRow {stored texts : Texts} : holds term_key stored (candidateRow term term_key texts) = true ↔
    texts.get "source_url" = stored.get "source_url" ∧ texts.get "snippet" = stored.get "snippet" := by
  rw [holds_iff, get_candidateRow texts (by decide), get_candidateRow texts (by decide)]
  exact ⟨fun h => h.2.2, fun h => ⟨rfl, rfl, h⟩⟩

theorem prefix_insertCandidate (rows : List CandidateRow) (candidate : Json) :
    rows <+: insertCandidate py term term_key rows candidate := by
  simp only [insertCandidate]
  split_ifs
  · exact prefix_refl _
  · exact prefix_append _ _

theorem prefix_foldl_insertCandidate (rows : List CandidateRow) (candidates : List Json) :
    rows <+: candidates.foldl (insertCandidate py term term_key) rows := by
  induction candidates generalizing rows with
  | nil => exact prefix_refl _
  | cons candidate candidates ih => exact (prefix_insertCandidate rows candidate).trans (ih _)

theorem any_holds_insertCandidate (rows : List CandidateRow) (candidate : Json) :
    ∃ row ∈ insertCandidate py term term_key rows candidate,
      holds term_key (_stored_candidate py candidate) row = true := by
  simp only [insertCandidate]
  split_ifs with h
  · exact any_eq_true.1 h
  · exact ⟨_, mem_append_right _ mem_cons_self, holds_candidateRow.2 ⟨rfl, rfl⟩⟩

theorem any_holds_foldl {rows : List CandidateRow} {candidates : List Json} {candidate : Json}
    (h : candidate ∈ candidates) : ∃ row ∈ candidates.foldl (insertCandidate py term term_key) rows,
      holds term_key (_stored_candidate py candidate) row = true := by
  induction candidates generalizing rows with
  | nil => cases h
  | cons first candidates ih =>
    rcases mem_cons.1 h with rfl | h
    · obtain ⟨row, hrow, hholds⟩ := @any_holds_insertCandidate py term term_key rows candidate
      exact ⟨row, (prefix_foldl_insertCandidate _ candidates).subset hrow, hholds⟩
    · exact ih h

theorem mem_foldl_insertCandidate {rows : List CandidateRow} {candidates : List Json} {row : CandidateRow}
    (h : row ∈ candidates.foldl (insertCandidate py term term_key) rows) :
    row ∈ rows ∨ ∃ candidate ∈ candidates, row = candidateRow term term_key (_stored_candidate py candidate) := by
  induction candidates generalizing rows with
  | nil => exact Or.inl h
  | cons first candidates ih =>
    rcases ih h with hrow | ⟨candidate, hcandidate, rfl⟩
    · simp only [insertCandidate] at hrow
      split_ifs at hrow
      · exact Or.inl hrow
      · rcases mem_append.1 hrow with hrow | hrow
        · exact Or.inl hrow
        · exact Or.inr ⟨first, mem_cons_self, mem_singleton.1 hrow⟩
    · exact Or.inr ⟨candidate, mem_cons_of_mem _ hcandidate, rfl⟩

theorem mem_foldl_of_first {rows : List CandidateRow} {front back : List Json} {candidate : Json}
    (hrows : ∀ row ∈ rows, holds term_key (_stored_candidate py candidate) row = false)
    (hfront : ∀ earlier ∈ front, ¬ ((_stored_candidate py earlier).get "source_url" =
        (_stored_candidate py candidate).get "source_url" ∧
      (_stored_candidate py earlier).get "snippet" = (_stored_candidate py candidate).get "snippet")) :
    candidateRow term term_key (_stored_candidate py candidate) ∈
      (front ++ candidate :: back).foldl (insertCandidate py term term_key) rows := by
  rw [foldl_append, foldl_cons]
  refine (prefix_foldl_insertCandidate _ _).subset ?_
  simp only [insertCandidate]
  rw [if_neg]
  · exact mem_append_right _ mem_cons_self
  · intro hany
    obtain ⟨row, hrow, hholds⟩ := any_eq_true.1 hany
    rcases mem_foldl_insertCandidate hrow with hrow | ⟨earlier, hearlier, rfl⟩
    · rw [hrows row hrow] at hholds
      cases hholds
    · exact hfront earlier hearlier (holds_candidateRow.1 hholds)

theorem apart_insertCandidate {rows : List CandidateRow} (h : rows.Pairwise fun a b => ¬ SameSource a b)
    (candidate : Json) : (insertCandidate py term term_key rows candidate).Pairwise fun a b => ¬ SameSource a b := by
  simp only [insertCandidate]
  split_ifs with hany
  · exact h
  · refine pairwise_append.2 ⟨h, pairwise_singleton _ _, fun a ha b hb hsame => hany ?_⟩
    obtain rfl := mem_singleton.1 hb
    obtain ⟨hkey, hactive, -, hsource, hsnippet⟩ := hsame
    refine any_eq_true.2 ⟨a, ha, holds_iff.2 ⟨hkey, hactive, ?_, ?_⟩⟩
    · rw [hsource, get_candidateRow _ (by decide)]
    · rw [hsnippet, get_candidateRow _ (by decide)]

theorem apart_foldl {rows : List CandidateRow} (h : rows.Pairwise fun a b => ¬ SameSource a b)
    (candidates : List Json) :
    (candidates.foldl (insertCandidate py term term_key) rows).Pairwise fun a b => ¬ SameSource a b := by
  induction candidates generalizing rows with
  | nil => exact h
  | cons candidate candidates ih => exact ih (apart_insertCandidate h candidate)

end Insert

theorem write_entry_eq_some {store : Option Store} {entry : Mapping} {searched_at : ℕ} {next : Store}
    (h : _write_entry py uni store (.obj entry.fields) searched_at = some next) :
    (∃ keywords examined candidates, ValidEntry py entry.fields keywords examined candidates) ∧
      next = addEntry py uni (_ensure_schema py uni (store.getD .empty)) entry.fields searched_at := by
  rw [_write_entry] at h
  split_ifs at h with hvalid
  exact ⟨validEntry_of_valid_entry hvalid, (Option.some.inj h).symm⟩

theorem distinct_of_mem_items : ∀ {items : List Json} {item : Json}, Json.distinct (.arr items) = true → item ∈ items →
    Json.distinct item = true
  | first :: items, item, h, hmem => by
    simp only [Json.distinct, Json.distinctItems, Bool.and_eq_true] at h
    rcases mem_cons.1 hmem with rfl | hmem
    · exact h.1
    · exact distinct_of_mem_items (by simpa only [Json.distinct] using h.2) hmem

theorem distinct_examined {entry : Mapping} {examined : List Json}
    (h : list? (Fields.get entry.fields "examined") = some examined) : ∀ item ∈ examined, Json.distinct item = true := by
  intro item hitem
  cases hvalue : Fields.get entry.fields "examined" with
  | arr items =>
    rw [hvalue] at h
    obtain rfl := Option.some.inj h
    rw [Fields.get] at hvalue
    cases hlookup : entry.fields.lookup "examined" with
    | none => simp [hlookup] at hvalue
    | some value =>
      rw [hlookup, Option.getD_some] at hvalue
      subst hvalue
      have hdistinct := entry.distinct_of_mem (Fields.mem_of_lookup hlookup)
      exact distinct_of_mem_items hdistinct hitem
  | _ => simp [hvalue, list?] at h

theorem readable_of_valid {entry : Mapping} {keywords : List String} {examined candidates : List Json}
    (h : ValidEntry py entry.fields keywords examined candidates) {row : ResearchRow}
    (hkeywords : row.search_keywords = dumpsKeywords keywords) (hexamined : row.examined = dumpsExamined examined)
    (hattempt : 1 ≤ row.attempt) : Readable py row keywords where
  search_keywords := hkeywords
  clean := h.clean
  examined := ⟨examined, hexamined, fun item hitem =>
    ⟨distinct_examined h.examinedList item hitem, h.examined item hitem⟩⟩
  attempt := hattempt

theorem Grounded.mono {research more : List ResearchRow} {row : CandidateRow} (h : Grounded py research row)
    (hsub : ∀ source ∈ research, source ∈ more) : Grounded py more row := by
  obtain ⟨stored, hnormal, hcolumns, source, hsource, hrest⟩ := h
  exact ⟨stored, hnormal, hcolumns, source, hsub source hsource, hrest⟩

theorem Sound.addEntry (hlower : IsLower py.lower) {store : Store} (h : Sound py uni store) {entry : Mapping}
    {keywords : List String} {examined candidates : List Json}
    (hvalid : ValidEntry py entry.fields keywords examined candidates)
    (hdeclared : ∀ candidate ∈ candidates, DeclaredCandidate candidate) (searched_at : ℕ) :
    Sound py uni (addEntry py uni store entry.fields searched_at) := by
  simp only [Precedent.addEntry, hvalid.candidatesList, Option.getD_some]
  generalize (textField entry.fields "term").getD "" = term
  generalize hkey : _normalize_term py uni term = term_key
  generalize hrow : researchRow store.research entry.fields term term_key searched_at = row
  have hnew : row.term = term ∧ row.term_key = term_key ∧ row.deprecated = none := by
    rw [← hrow]
    exact ⟨rfl, rfl, rfl⟩
  have hreadable : Readable py row keywords := by
    refine readable_of_valid hvalid ?_ ?_ ?_
    · rw [← hrow, researchRow, hvalid.search_keywords]
      rfl
    · rw [← hrow, researchRow, hvalid.examinedList]
      rfl
    · rw [← hrow]
      exact Nat.le_add_left 1 _
  refine ⟨?_, ?_, ?_, ?_, apart_foldl h.apart candidates⟩
  · intro other hother
    rcases mem_append.1 hother with hother | hother
    · exact h.researchKey other hother
    · rw [mem_singleton.1 hother, hnew.1, hnew.2.1, hkey]
  · intro other hother
    rcases mem_foldl_insertCandidate hother with hother | ⟨candidate, -, rfl⟩
    · exact h.candidateKey other hother
    · exact hkey.symm
  · intro other hother
    rcases mem_append.1 hother with hother | hother
    · exact h.readable other hother
    · exact ⟨keywords, mem_singleton.1 hother ▸ hreadable⟩
  · intro other hother
    rcases mem_foldl_insertCandidate hother with hother | ⟨candidate, hcandidate, rfl⟩
    · exact (h.grounded other hother).mono fun source hsource => mem_append_left _ hsource
    · obtain ⟨hnormal, hfound⟩ := stored_of_valid hlower hvalid hcandidate (hdeclared candidate hcandidate)
      exact ⟨_, hnormal, rfl, row, mem_append_right _ mem_cons_self, hnew.2.1, fun _ => hnew.2.2,
        keywords, hreadable, hfound⟩

/-! ### Deprecating -/

theorem deprecate_rows_eq_some {store : Option Store} {term reason deprecated_at : String} {include_research : Bool}
    {next : Store} (h : _deprecate_rows py uni store term reason include_research deprecated_at = some next) :
    ∃ before, store = some before ∧ ∃ term_key deprecated,
      next.research = (_ensure_schema py uni before).research.map (fun row =>
        if include_research ∧ row.term_key = term_key ∧ row.deprecated.isNone then
          { row with deprecated := some deprecated } else row) ∧
      next.candidates = (_ensure_schema py uni before).candidates.map (fun row =>
        if row.term_key = term_key ∧ row.deprecated.isNone then { row with deprecated := some deprecated } else row) := by
  simp only [_deprecate_rows] at h
  split_ifs at h
  cases store with
  | none => cases h
  | some before =>
    obtain rfl := Option.some.inj h
    exact ⟨before, rfl, _normalize_term py uni (pyStrip term), (deprecated_at, squash reason), rfl, rfl⟩

theorem Readable.deprecate {row : ResearchRow} {keywords : List String} (h : Readable py row keywords)
    (deprecated : Option (String × String)) : Readable py { row with deprecated } keywords where
  search_keywords := h.search_keywords
  clean := h.clean
  examined := h.examined
  attempt := h.attempt

section Deprecate

variable {term_key : String} {deprecated : String × String} {include_research : Bool}

def markResearch (include_research : Bool) (term_key : String) (deprecated : String × String) (row : ResearchRow) :
    ResearchRow :=
  if include_research ∧ row.term_key = term_key ∧ row.deprecated.isNone then
    { row with deprecated := some deprecated }
  else row

def markCandidate (term_key : String) (deprecated : String × String) (row : CandidateRow) : CandidateRow :=
  if row.term_key = term_key ∧ row.deprecated.isNone then { row with deprecated := some deprecated } else row

theorem researchKept_mark (row : ResearchRow) :
    ResearchKept row (markResearch include_research term_key deprecated row) := by
  unfold markResearch
  split_ifs with h
  · exact Or.inr ⟨Option.isNone_iff_eq_none.1 h.2.2, deprecated, rfl⟩
  · exact Or.inl rfl

theorem candidateKept_mark (row : CandidateRow) : CandidateKept row (markCandidate term_key deprecated row) := by
  unfold markCandidate
  split_ifs with h
  · exact Or.inr ⟨Option.isNone_iff_eq_none.1 h.2, deprecated, rfl⟩
  · exact Or.inl rfl

theorem ResearchKept.term_eq {row next : ResearchRow} (h : ResearchKept row next) :
    next.term = row.term ∧ next.term_key = row.term_key := by
  rcases h with rfl | ⟨-, deprecated, rfl⟩ <;> exact ⟨rfl, rfl⟩

theorem ResearchKept.readable {row next : ResearchRow} (h : ResearchKept row next) {keywords : List String}
    (hrow : Readable py row keywords) : Readable py next keywords := by
  rcases h with rfl | ⟨-, deprecated, rfl⟩
  · exact hrow
  · exact hrow.deprecate _

theorem CandidateKept.columns_eq {row next : CandidateRow} (h : CandidateKept row next) :
    next.term = row.term ∧ next.term_key = row.term_key ∧ next.columns = row.columns := by
  rcases h with rfl | ⟨-, deprecated, rfl⟩ <;> exact ⟨rfl, rfl, rfl⟩

theorem CandidateKept.active {row next : CandidateRow} (h : CandidateKept row next) (hnext : next.deprecated = none) :
    next = row := by
  rcases h with rfl | ⟨-, deprecated, rfl⟩
  · rfl
  · cases hnext

theorem apart_of_kept {rows : List CandidateRow} {mark : CandidateRow → CandidateRow}
    (hmark : ∀ row, CandidateKept row (mark row)) (h : rows.Pairwise fun a b => ¬ SameSource a b) :
    (rows.map mark).Pairwise fun a b => ¬ SameSource a b := by
  rw [pairwise_map]
  refine h.imp fun hab hsame => hab ?_
  rwa [(hmark _).active hsame.2.1, (hmark _).active hsame.2.2.1] at hsame

theorem Sound.deprecate {store next : Store} (h : Sound py uni store)
    (hresearch : next.research = store.research.map (markResearch include_research term_key deprecated))
    (hcandidates : next.candidates = store.candidates.map (markCandidate term_key deprecated)) :
    Sound py uni next := by
  refine ⟨?_, ?_, ?_, ?_, hcandidates ▸ apart_of_kept candidateKept_mark h.apart⟩
  · rw [hresearch, forall_mem_map]
    intro row hrow
    obtain ⟨hterm, hkey⟩ := (@researchKept_mark term_key deprecated include_research row).term_eq
    rw [hterm, hkey, h.researchKey row hrow]
  · rw [hcandidates, forall_mem_map]
    intro row hrow
    obtain ⟨hterm, hkey, -⟩ := (@candidateKept_mark term_key deprecated row).columns_eq
    rw [hterm, hkey, h.candidateKey row hrow]
  · rw [hresearch, forall_mem_map]
    intro row hrow
    obtain ⟨keywords, hkeywords⟩ := h.readable row hrow
    exact ⟨keywords, (researchKept_mark row).readable hkeywords⟩
  · rw [hcandidates, forall_mem_map]
    intro row hrow
    obtain ⟨stored, hnormal, hcolumns, source, hsource, hkey, hactive, keywords, hkeywords, hfound⟩ := h.grounded row hrow
    obtain ⟨hterm, hrowKey, hrowColumns⟩ := (@candidateKept_mark term_key deprecated row).columns_eq
    have hkept := @researchKept_mark term_key deprecated include_research source
    refine ⟨stored, hnormal, hrowColumns.trans hcolumns, _, hresearch ▸ mem_map_of_mem hsource, ?_, ?_, keywords,
      hkept.readable hkeywords, hfound⟩
    · rw [hkept.term_eq.2, hkey, hrowKey]
    · intro hnone
      have hsame := (candidateKept_mark row).active hnone
      have hrowActive := hsame ▸ hnone
      rw [markResearch, if_neg]
      · exact hactive hrowActive
      · -- the candidate would have been marked with the research of its key
        rintro ⟨-, hmarked, -⟩
        rw [markCandidate, if_pos ⟨hkey ▸ hmarked, by simp [hrowActive]⟩] at hnone
        cases hnone

end Deprecate

theorem Reached.sound (hlower : IsLower py.lower) {store : Option Store} (h : Reached py uni store) :
    Sound py uni (store.getD .empty) := by
  induction h with
  | missing => exact sound_empty
  | @step store call next _ hdeclared happly ih =>
    have hopen := ih.ensure_schema
    cases call with
    | write entry searched_at =>
      obtain ⟨⟨keywords, examined, candidates, hvalid⟩, rfl⟩ := write_entry_eq_some happly
      refine hopen.addEntry hlower hvalid (fun candidate hcandidate => hdeclared candidate ?_) searched_at
      rwa [candidatesOf, hvalid.candidatesList]
    | deprecateTerm term reason deprecated_at =>
      obtain ⟨before, rfl, term_key, deprecated, hresearch, hcandidates⟩ := deprecate_rows_eq_some happly
      exact hopen.deprecate hresearch hcandidates
    | deprecateCandidates term reason deprecated_at =>
      obtain ⟨before, rfl, term_key, deprecated, hresearch, hcandidates⟩ := deprecate_rows_eq_some happly
      exact hopen.deprecate hresearch hcandidates
    | openStore =>
      obtain rfl := Option.some.inj happly
      exact hopen

theorem conserved_of_apply {store : Option Store} (h : Sound py uni (store.getD .empty)) {call : Call} {next : Store}
    (happly : call.apply py uni store = some next) : Conserved (store.getD .empty) next := by
  obtain ⟨hresearch, hcandidates⟩ := ensure_schema_rows h.researchKey h.candidateKey
  have hsameResearch : ∀ rows : List ResearchRow, Forall₂ ResearchKept rows rows := fun rows =>
    forall₂_same.2 fun row _ => Or.inl rfl
  have hsameCandidates : ∀ rows : List CandidateRow, Forall₂ CandidateKept rows rows := fun rows =>
    forall₂_same.2 fun row _ => Or.inl rfl
  have hmarked : ∀ {include_research : Bool} {before : Store} {term_key : String} {deprecated : String × String},
      store = some before →
      next.research = (_ensure_schema py uni before).research.map
        (markResearch include_research term_key deprecated) →
      next.candidates = (_ensure_schema py uni before).candidates.map (markCandidate term_key deprecated) →
      Conserved (store.getD .empty) next := by
    rintro include_research before term_key deprecated rfl hnext hnextCandidates
    refine ⟨⟨next.research, [], (append_nil _).symm, ?_⟩, next.candidates, [], (append_nil _).symm, ?_⟩
    · rw [hnext, ← hresearch, forall₂_map_right_iff]
      exact forall₂_same.2 fun row _ => researchKept_mark row
    · rw [hnextCandidates, ← hcandidates, forall₂_map_right_iff]
      exact forall₂_same.2 fun row _ => candidateKept_mark row
  cases call with
  | write entry searched_at =>
    obtain ⟨-, rfl⟩ := write_entry_eq_some happly
    refine ⟨⟨_, _, rfl, ?_⟩, ?_⟩
    · rw [hresearch]
      exact hsameResearch _
    · obtain ⟨added, hadded⟩ := prefix_foldl_insertCandidate _ _
      refine ⟨_, added, hadded.symm, ?_⟩
      rw [hcandidates]
      exact hsameCandidates _
  | deprecateTerm term reason deprecated_at =>
    obtain ⟨before, hstore, term_key, deprecated, hnext, hnextCandidates⟩ := deprecate_rows_eq_some happly
    exact hmarked hstore hnext hnextCandidates
  | deprecateCandidates term reason deprecated_at =>
    obtain ⟨before, hstore, term_key, deprecated, hnext, hnextCandidates⟩ := deprecate_rows_eq_some happly
    exact hmarked hstore hnext hnextCandidates
  | openStore =>
    obtain rfl := Option.some.inj happly
    refine ⟨⟨_, [], (append_nil _).symm, ?_⟩, _, [], (append_nil _).symm, ?_⟩
    · rw [hresearch]
      exact hsameResearch _
    · rw [hcandidates]
      exact hsameCandidates _

theorem mapM_ok_of_forall {α β ε : Type} {f : α → Except ε β} {xs : List α} (h : ∀ x ∈ xs, ∃ y, f x = .ok y) :
    ∃ ys, xs.mapM f = .ok ys ∧ Forall₂ (fun x y => f x = .ok y) xs ys := by
  induction xs with
  | nil => exact ⟨[], rfl, .nil⟩
  | cons x xs ih =>
    obtain ⟨hx, hxs⟩ := forall_mem_cons.1 h
    obtain ⟨y, hy⟩ := hx
    obtain ⟨ys, hys, hall⟩ := ih hxs
    refine ⟨y :: ys, ?_, .cons hy hall⟩
    rw [mapM_cons, hy, hys]
    rfl

theorem fetch_entry_rows_eq_some {store : Store} {term_key : String} {include_deprecated : Bool}
    {rows : List ResearchRow × List CandidateRow}
    (h : _fetch_entry_rows store term_key include_deprecated = some rows) :
    rows.1 ≠ [] ∧ (∀ row, row ∈ rows.1 ↔ row ∈ store.research ∧ row.term_key = term_key ∧
        (include_deprecated = true ∨ row.deprecated = none)) ∧
      ∀ row, row ∈ rows.2 ↔ row ∈ store.candidates ∧ row.term_key = term_key ∧
        (include_deprecated = true ∨ row.deprecated = none) := by
  simp only [_fetch_entry_rows] at h
  split_ifs at h with hempty
  obtain rfl := Option.some.inj h
  refine ⟨by simpa using hempty, fun row => ?_, fun row => ?_⟩
  · simp [mem_insertionSort, Option.isNone_iff_eq_none]
  · simp [Option.isNone_iff_eq_none]

theorem valid_entry_of_attempt {attempt : Attempt} (h : _valid_research_attempt py attempt = true)
    (term notes : String) :
    _valid_entry py (.obj [("term", .str term), ("search_keywords", attempt.search_keywords),
      ("examined", attempt.examined), ("candidates", .arr []), ("notes", .str notes)]) = some true := by
  rw [_valid_research_attempt] at h
  split at h
  · rename_i keywords examined hkeywords hexamined
    simp only [Bool.and_eq_true, decide_eq_true_eq] at h
    obtain ⟨⟨⟨-, hclean⟩, hvalid⟩, hin⟩ := h
    set fields : Fields := [("term", .str term), ("search_keywords", attempt.search_keywords),
      ("examined", attempt.examined), ("candidates", .arr []), ("notes", .str notes)]
    have hnames : sameSet (fields.map Prod.fst) entryFields = true := by
      show sameSet ["term", "search_keywords", "examined", "candidates", "notes"] entryFields = true
      decide
    have hterm : textField fields "term" = some term := rfl
    have hnotes : textField fields "notes" = some notes := rfl
    have hsearch : textList? (Fields.get fields "search_keywords") = some keywords := hkeywords
    have hlist : list? (Fields.get fields "examined") = some examined := hexamined
    have hcandidates : list? (Fields.get fields "candidates") = some [] := rfl
    rw [_valid_entry, hnames]
    simp only [hterm, hnotes, hsearch, hlist, hcandidates]
    rw [if_neg (not_not.2 hclean), hvalid, hin]
    rfl
  · cases h

/-! ### Candidates that are read -/

section Candidate

variable (hlower : IsLower py.lower) {row : CandidateRow} {stored : Texts} (hnormal : Normal stored)
  (hcolumns : row.columns = (candidateRow row.term row.term_key stored).columns)

include hlower hnormal hcolumns

theorem candidate_from_row_eq (include_deprecated : Bool) :
    ∃ deprecation : Texts, _candidate_from_row py row include_deprecated = stored ++ deprecation ∧
      ∀ field ∈ deprecation, field.1 = "deprecated_at" ∨ field.1 = "deprecated_reason" := by
  have hread : _candidate_from_row py row false = stored := by
    have := candidate_from_row_candidateRow hlower hnormal row.term row.term_key
    simp only [_candidate_from_row, ← hcolumns] at this ⊢
    exact this
  simp only [_candidate_from_row] at hread ⊢
  rw [hread]
  split
  · exact ⟨_, rfl, by simp⟩
  · exact ⟨[], (append_nil _).symm, by simp⟩

theorem without_deprecation_eq (include_deprecated : Bool) :
    _candidate_without_deprecation (_candidate_from_row py row include_deprecated) = stored := by
  obtain ⟨deprecation, hread, hfields⟩ := candidate_from_row_eq hlower hnormal hcolumns include_deprecated
  have hnames : ∀ kind, ∀ field ∈ fieldsOf kind, field ≠ "deprecated_at" ∧ field ≠ "deprecated_reason" := by
    intro kind
    unfold fieldsOf
    split_ifs <;> decide
  rw [hread, _candidate_without_deprecation, filter_append, filter_eq_self.2, filter_eq_nil_iff.2,
    append_nil]
  · intro field hfield
    rcases hfields field hfield with heq | heq <;> simp [heq]
  · intro field hfield
    have := hnames _ field.1 (hnormal.names ▸ mem_map_of_mem hfield)
    simp [this.1, this.2]

theorem foundViaIn_read (include_deprecated : Bool) {keyword_set : List String}
    (hfound : py.lower (stored.get "found_via") ∈ keyword_set) :
    foundViaIn py keyword_set (textsValue (_candidate_from_row py row include_deprecated)) = some true := by
  obtain ⟨deprecation, hread, -⟩ := candidate_from_row_eq hlower hnormal hcolumns include_deprecated
  have hmem : "found_via" ∈ stored.map Prod.fst := by
    rw [hnormal.names]
    unfold fieldsOf
    split_ifs <;> decide
  have hlookup : stored.lookup "found_via" = some (stored.get "found_via") := by
    rw [Texts.get]
    cases hfind : stored.lookup "found_via" with
    | none =>
      obtain ⟨field, hfield, heq⟩ := mem_map.1 hmem
      have := List.lookup_eq_none_iff.1 hfind field hfield
      simp [heq] at this
    | some text => rfl
  rw [hread, textsValue, foundViaIn, lookup_textsValue, lookup_append, hlookup]
  simpa [text?] using hfound

end Candidate

/-- The entry of rows that were fetched of a sound store is valid. -/
theorem entryOf_fetched (hlower : IsLower py.lower) {store : Store} (h : Sound py uni store) (path : String)
    {term_key : String} {include_deprecated : Bool} {rows : List ResearchRow × List CandidateRow}
    (hrows : _fetch_entry_rows store term_key include_deprecated = some rows) :
    ∃ entry, entryOf py path rows include_deprecated = .ok entry := by
  obtain ⟨hne, hresearch, hcandidates⟩ := fetch_entry_rows_eq_some hrows
  have hreads : ∀ row ∈ rows.1, ∃ attempt, _research_attempt_from_row py row = .ok attempt := by
    intro row hrow
    obtain ⟨keywords, hkeywords⟩ := h.readable row ((hresearch row).1 hrow).1
    obtain ⟨attempt, hattempt, -⟩ := research_attempt_from_row hkeywords
    exact ⟨attempt, hattempt⟩
  obtain ⟨attempts, hattempts, hall⟩ := mapM_ok_of_forall hreads
  have hvalid : ∀ attempt ∈ attempts, _valid_research_attempt py attempt = true := by
    intro attempt hattempt
    obtain ⟨row, hrow, hread⟩ := Traverse.exists_of_mem_right hall hattempt
    obtain ⟨keywords, hkeywords⟩ := h.readable row ((hresearch row).1 hrow).1
    obtain ⟨other, hother, hotherValid, -⟩ := research_attempt_from_row hkeywords
    rw [hread] at hother
    exact Except.ok.inj hother ▸ hotherValid
  have hnonempty : attempts ≠ [] := by
    rintro rfl
    exact hne (forall₂_nil_right_iff.1 hall)
  have hlatest := getLast?_eq_getLast_of_ne_nil hnonempty
  -- the keywords of a research that accounts for a candidate are among those that are read
  have hkeyword : ∀ source ∈ rows.1, ∀ keywords, Readable py source keywords → ∀ text ∈ keywords.map py.lower,
      text ∈ attempts.flatMap fun attempt => ((textList? attempt.search_keywords).getD []).map py.lower := by
    intro source hsource keywords hkeywords text htext
    obtain ⟨attempt, hattempt, hread⟩ := Traverse.exists_of_mem_right hall.flip hsource
    obtain ⟨other, hother, -, hsearch⟩ := research_attempt_from_row hkeywords
    have hsame : attempt = other := Except.ok.inj ((show _ = _ from hread).symm.trans hother)
    refine mem_flatMap.2 ⟨attempt, hattempt, ?_⟩
    rwa [hsame, hsearch, textList_map_str]
  have hcandidate : ∀ row ∈ rows.2, ∃ stored, Normal stored ∧
      row.columns = (candidateRow row.term row.term_key stored).columns ∧
      py.lower (stored.get "found_via") ∈
        attempts.flatMap fun attempt => ((textList? attempt.search_keywords).getD []).map py.lower := by
    intro row hrow
    obtain ⟨hmem, hkey, hactive⟩ := (hcandidates row).1 hrow
    obtain ⟨stored, hnormal, hcolumns, source, hsource, hsourceKey, hsourceActive, keywords, hkeywords, hfound⟩ :=
      h.grounded row hmem
    refine ⟨stored, hnormal, hcolumns, hkeyword source ((hresearch source).2 ⟨hsource, hsourceKey.trans hkey, ?_⟩)
      keywords hkeywords _ hfound⟩
    exact hactive.imp id hsourceActive
  set entry : Entry :=
    { term := (attempts.getLast hnonempty).term
      search_keywords := (attempts.getLast hnonempty).search_keywords
      examined := (attempts.getLast hnonempty).examined
      candidates := rows.2.map fun row => _candidate_from_row py row include_deprecated
      notes := (attempts.getLast hnonempty).notes
      research := attempts } with hentry
  have hpersisted : _valid_persisted_entry py entry = some true := by
    have hempty : (attempts.isEmpty || !attempts.all (_valid_research_attempt py)) = false := by
      rw [all_eq_true.2 hvalid]
      simpa using hnonempty
    have hcandidatesValid : (rows.2.map fun row => _candidate_from_row py row include_deprecated).all (fun candidate =>
        _valid_candidate py (textsValue (_candidate_without_deprecation candidate))) = true := by
      rw [all_map, all_eq_true]
      intro row hrow
      obtain ⟨stored, hnormal, hcolumns, -⟩ := hcandidate row hrow
      simp only [Function.comp_apply]
      rw [without_deprecation_eq hlower hnormal hcolumns]
      exact valid_of_normal hlower hnormal
    rw [_valid_persisted_entry, hentry]
    dsimp only
    rw [hempty, valid_entry_of_attempt (hvalid _ (getLast_mem hnonempty)), hcandidatesValid]
    simp only [Bool.false_eq_true, if_false, Bool.not_true]
    rw [allOrRaise_eq_true, forall_mem_map]
    intro row hrow
    obtain ⟨stored, hnormal, hcolumns, hfound⟩ := hcandidate row hrow
    exact foundViaIn_read hlower hnormal hcolumns include_deprecated hfound
  refine ⟨entry, ?_⟩
  rw [entryOf, hattempts]
  simp only [hlatest]
  exact if_pos hpersisted

theorem read_entry_ok (hlower : IsLower py.lower) {store : Store} (h : Sound py uni store) (path : String)
    (readDisabled : Bool) (term : String) (missing_ok include_deprecated paraphrase : Bool) :
    ∃ result, _read_entry py uni path readDisabled (some store) term missing_ok include_deprecated paraphrase =
      .ok result := by
  have hopen := h.ensure_schema
  have hfetched : ∀ rows, rowsOf py uni (_ensure_schema py uni store) term include_deprecated paraphrase = some rows →
      ∃ term_key, _fetch_entry_rows (_ensure_schema py uni store) term_key include_deprecated = some rows := by
    intro rows hrows
    simp only [rowsOf] at hrows
    split at hrows
    · rename_i own hown
      exact ⟨_, hown.trans hrows⟩
    · split_ifs at hrows
      obtain ⟨term_key, -, hkey⟩ := exists_of_findSome?_eq_some hrows
      exact ⟨term_key, hkey⟩
  rw [_read_entry]
  split_ifs
  · exact ⟨_, rfl⟩
  · cases hrows : rowsOf py uni (_ensure_schema py uni store) term include_deprecated paraphrase with
    | none => exact ⟨_, rfl⟩
    | some rows =>
      obtain ⟨term_key, hkey⟩ := hfetched rows hrows
      obtain ⟨entry, hentry⟩ := entryOf_fetched hlower hopen path hkey
      exact ⟨some entry, by simp only [hentry, Except.map]⟩

/-- After a write each candidate of the entry has an active row with its source and its snippet, and is that row
unless an active row or an earlier candidate had them. -/
def Retained (py : PyLib) (store next : Store) (term_key : String) (candidates : List Json) : Prop :=
  ∀ front candidate back, candidates = front ++ candidate :: back →
    (∃ row ∈ next.candidates, holds term_key (_stored_candidate py candidate) row = true) ∧
      ((∀ row ∈ store.candidates, holds term_key (_stored_candidate py candidate) row = false) →
        (∀ earlier ∈ front, ¬ ((_stored_candidate py earlier).get "source_url" =
            (_stored_candidate py candidate).get "source_url" ∧
          (_stored_candidate py earlier).get "snippet" = (_stored_candidate py candidate).get "snippet")) →
        ∃ row ∈ next.candidates, row.term_key = term_key ∧ row.deprecated = none ∧
          _candidate_from_row py row false = _stored_candidate py candidate)

/-- What holds of the store: no call loses or changes a row but by deprecating it, a write retains its candidates, no
two active candidates of a key have one source and one snippet, and every read is an entry or a miss. -/
structure Guaranteed (py : PyLib) (uni : Unicode) (store : Option Store) : Prop where
  conserved : ∀ (call : Call) next, call.apply py uni store = some next → Conserved (store.getD .empty) next
  retained : ∀ entry searched_at next, (Call.write entry searched_at).Declared →
    (Call.write entry searched_at).apply py uni store = some next →
    Retained py (store.getD .empty) next (_normalize_term py uni ((textField entry.fields "term").getD ""))
      (candidatesOf entry.fields)
  apart : (store.getD .empty).candidates.Pairwise fun a b => ¬ SameSource a b
  readable : ∀ present, store = some present →
    ∀ path readDisabled term missing_ok include_deprecated paraphrase,
      ∃ result, _read_entry py uni path readDisabled (some present) term missing_ok include_deprecated paraphrase =
        .ok result

theorem retained_of_write (hlower : IsLower py.lower) {store : Option Store} (h : Sound py uni (store.getD .empty))
    {entry : Mapping} {searched_at : ℕ} {next : Store} (hdeclared : (Call.write entry searched_at).Declared)
    (happly : (Call.write entry searched_at).apply py uni store = some next) :
    Retained py (store.getD .empty) next (_normalize_term py uni ((textField entry.fields "term").getD ""))
      (candidatesOf entry.fields) := by
  obtain ⟨⟨keywords, examined, candidates, hvalid⟩, rfl⟩ := write_entry_eq_some happly
  have hcandidates : candidatesOf entry.fields = candidates := by rw [candidatesOf, hvalid.candidatesList]; rfl
  intro front candidate back hsplit
  have hmem : candidate ∈ candidates := by
    rw [← hcandidates, hsplit]
    exact mem_append_right _ mem_cons_self
  have hnormal := (stored_of_valid hlower hvalid hmem (hdeclared candidate (hcandidates ▸ hmem))).1
  simp only [addEntry]
  rw [← candidatesOf, hcandidates, (ensure_schema_rows h.researchKey h.candidateKey).2]
  refine ⟨any_holds_foldl hmem, fun hrows hfront => ?_⟩
  rw [← hcandidates, hsplit]
  exact ⟨_, mem_foldl_of_first hrows hfront, rfl, rfl, candidate_from_row_candidateRow hlower hnormal _ _⟩

/-- A store that calls reach gives its guarantees. -/
theorem store_guaranteed (hlower : IsLower py.lower) {store : Option Store} (hstore : Reached py uni store) :
    Guaranteed py uni store := by
  have hsound := hstore.sound hlower
  refine ⟨fun call next happly => conserved_of_apply hsound happly,
    fun entry searched_at next hdeclared happly => retained_of_write hlower hsound hdeclared happly, hsound.apart, ?_⟩
  rintro present rfl
  exact read_entry_ok hlower hsound

section Example

theorem isSpace_toLower (c : Char) : Text.isSpace c.toLower = Text.isSpace c := by
  by_cases hupper : c.isUpper
  · have hletters : ∀ n < 26, Text.isSpace (Char.ofNat (65 + n + 32)) = false ∧ Text.isSpaceCode (65 + n) = false := by
      decide
    simp only [Char.isUpper, decide_eq_true_eq, ge_iff_le, UInt32.le_iff_toNat_le] at hupper
    have hrange : 65 ≤ c.toNat ∧ c.toNat ≤ 90 := hupper
    obtain ⟨hsmall, hlarge⟩ := hletters (c.toNat - 65) (by omega)
    have hcode : 65 + (c.toNat - 65) = c.toNat := by omega
    rw [hcode] at hsmall hlarge
    rw [Char.toLower_eq_of_isUpper, hsmall, Text.isSpace, hlarge]
    simpa [Char.isUpper, UInt32.le_iff_toNat_le] using hupper
  · rw [Char.toLower_eq_of_not_isUpper hupper]

theorem splitOnP_map_toLower (text : List Char) :
    (text.map Char.toLower).splitOnP Text.isSpace = (text.splitOnP Text.isSpace).map (List.map Char.toLower) := by
  induction text with
  | nil => rfl
  | cons c text ih =>
    rw [map_cons, splitOnP_cons_eq_if_modifyHead, splitOnP_cons_eq_if_modifyHead, isSpace_toLower, ih]
    split_ifs
    · rfl
    · obtain ⟨first, rest, hsplit⟩ := exists_cons_of_ne_nil (splitOnP_ne_nil Text.isSpace text)
      rw [hsplit]
      rfl

theorem isLower_asciiLib : IsLower asciiLib.lower where
  squash text := by
    show String.ofList ((squash text).toList.map Char.toLower) = squash (String.ofList (text.toList.map Char.toLower))
    have hempty : ((fun piece : List Char => !piece.isEmpty) ∘ List.map Char.toLower) = fun piece => !piece.isEmpty := by
      funext piece
      cases piece <;> rfl
    have hjoin : ∀ pieces : List (List Char), ([' '].intercalate pieces).map Char.toLower =
        [' '].intercalate (pieces.map (List.map Char.toLower)) := by
      intro pieces
      induction pieces with
      | nil => rfl
      | cons piece pieces ih =>
        rcases pieces with _ | ⟨next, pieces⟩
        · simp
        · rw [intercalate_cons_cons, map_append, map_append, ih]
          simp only [map_cons, intercalate_cons_cons]
          rfl
    rw [squash, squash, String.toList_ofList, String.toList_ofList, Text.squashChars, Text.squashChars, Text.splitWords,
      Text.splitWords, splitOnP_map_toLower, filter_map, hempty, hjoin]
  small text h := by
    show String.ofList (text.toList.map Char.toLower) = text
    have hsame : text.toList.map Char.toLower = text.toList := by
      conv_rhs => rw [← map_id text.toList]
      refine map_congr_left fun c hc => Char.toLower_eq_of_not_isUpper ?_
      rcases h c hc with hlower | rfl
      · exact Char.not_isUpper_of_isLower hlower
      · decide
    rw [hsame, String.ofList_toList]

/-- Tables that agree with `unicodedata` on ASCII words. -/
def sampleUnicode : Unicode where
  nfkc := id
  nfc := id
  casefold text := String.ofList (text.toList.map Char.toLower)
  isPunctuation c := [',', '.', ';', ':', '!', '?'].contains c
  isWord c := c.isAlphanum || c == '_'

def sampleCandidate (summary : String) : Json :=
  .obj [("snippet", .str "enter_room()"), ("summary", .str summary), ("source_url", .str "https://example.org/room.py"),
    ("lang_env_version", .str "Python 3.12"), ("author_level", .str "high"), ("pitfalls", .str "Doors."),
    ("found_via", .str "rooms")]

def sampleEntry : Mapping where
  fields := [("term", .str "rooms"), ("search_keywords", .arr [.str "rooms"]), ("examined", .arr []),
    ("candidates", .arr [sampleCandidate "One.", sampleCandidate "Two."]), ("notes", .str "")]
  distinct := by decide +kernel

theorem sampleEntry_applied :
    (∀ candidate ∈ candidatesOf sampleEntry.fields, ∀ name ∈ (textMembers candidate).map Prod.fst,
      name ∈ implementationCandidateFields ∨ name ∈ designCandidateFields) ∧
    ((Call.write sampleEntry 0).apply asciiLib sampleUnicode none).isSome = true ∧
    ((Call.write sampleEntry 0).apply asciiLib sampleUnicode none).any (fun next =>
      next.candidates.all fun row => decide (_candidate_from_row asciiLib row false ≠
        _stored_candidate asciiLib (sampleCandidate "Two."))) = true ∧
    sampleCandidate "Two." ∈ candidatesOf sampleEntry.fields := by
  decide +kernel

theorem declared_sampleEntry (searched_at : ℕ) : (Call.write sampleEntry searched_at).Declared := by
  have hnames := sampleEntry_applied.1
  rintro candidate hcandidate fields rfl name hname
  refine hnames _ hcandidate name ?_
  rwa [names_textMembers]

/-- Of two candidates with one source and one snippet only the first is stored. -/
theorem second_candidate_dropped : ¬ ∀ (entry : Mapping) (searched_at : ℕ) (next : Store),
    (Call.write entry searched_at).Declared →
    (Call.write entry searched_at).apply asciiLib sampleUnicode none = some next →
    ∀ candidate ∈ candidatesOf entry.fields, ∃ row ∈ next.candidates, row.deprecated = none ∧
      _candidate_from_row asciiLib row false = _stored_candidate asciiLib candidate := by
  intro hall
  obtain ⟨-, hsome, hrows, hmem⟩ := sampleEntry_applied
  obtain ⟨next, happly⟩ := Option.isSome_iff_exists.1 hsome
  rw [happly, Option.any_some] at hrows
  obtain ⟨row, hrow, -, heq⟩ := hall sampleEntry 0 next (declared_sampleEntry 0) happly (sampleCandidate "Two.")
    hmem
  simpa [heq] using all_eq_true.1 hrows row hrow

/-- After the two candidates were written the store gives its guarantees. -/
theorem store_guaranteed_sample : ∃ next, Reached asciiLib sampleUnicode (some next) ∧
    Guaranteed asciiLib sampleUnicode (some next) := by
  obtain ⟨next, happly⟩ := Option.isSome_iff_exists.1 sampleEntry_applied.2.1
  have hreached := Reached.step .missing (declared_sampleEntry 0) happly
  exact ⟨next, hreached, store_guaranteed isLower_asciiLib hreached⟩

end Example

end Precedent

end AiOrg
