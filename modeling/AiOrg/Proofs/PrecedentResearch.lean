import AiOrg.Proofs.JsonPlain
import AiOrg.Proofs.PrecedentCandidate

/-!
# Rows of research are read back

What a valid entry says of its research is written to two columns of JSON. Reading the row gives the keywords again,
and what was examined with its members in order (`research_attempt_from_row`).
-/

namespace AiOrg

open List

namespace Precedent

variable {py : PyLib}

/-- What was examined, as it stands in a valid entry. -/
def Examined (py : PyLib) (keywords : List String) (item : Json) : Prop :=
  Json.distinct item = true ∧ _valid_examined item = true ∧ examinedIn py (keywords.map py.lower) item = true

/-- A row that a write has left with some keywords. -/
structure Readable (py : PyLib) (row : ResearchRow) (keywords : List String) : Prop where
  search_keywords : row.search_keywords = dumpsKeywords keywords
  clean : _clean_search_keywords py keywords = keywords
  examined : ∃ items, row.examined = dumpsExamined items ∧ ∀ item ∈ items, Examined py keywords item
  attempt : 1 ≤ row.attempt

theorem sameSet_congr {names others fields : List String} (h : ∀ name, name ∈ names ↔ name ∈ others) :
    sameSet names fields = sameSet others fields := by
  have heq : ∀ p : String → Bool, names.all p = others.all p := by
    intro p
    rw [Bool.eq_iff_iff, all_eq_true, all_eq_true]
    exact forall_congr' fun name => by rw [h]
  rw [sameSet, sameSet, heq]
  congr 1
  refine congrArg (fields.all ·) (funext fun name => ?_)
  rw [Bool.eq_iff_iff, contains_iff_mem, contains_iff_mem, h]

def rereadFields (item : Json) : Fields := stringFields ((textMembers item).insertionSort fun a b => a.1 ≤ b.1)

theorem names_textMembers (fields : Fields) : (textMembers (.obj fields)).map Prod.fst = fields.map Prod.fst := by
  rw [textMembers, map_map]
  rfl

theorem names_rereadFields (fields : Fields) :
    ((rereadFields (.obj fields)).map Prod.fst).Perm (fields.map Prod.fst) := by
  rw [rereadFields, stringFields, map_map, ← names_textMembers]
  exact (perm_insertionSort _ _).map _

theorem nodup_of_distinct {fields : Fields} (h : Json.distinct (.obj fields) = true) : (fields.map Prod.fst).Nodup :=
  Mapping.nodup ⟨fields, h⟩

theorem textField_rereadFields {fields : Fields} {field text : String} (h : (fields.map Prod.fst).Nodup)
    (htext : textField fields field = some text) : textField (rereadFields (.obj fields)) field = some text := by
  have hlookup : fields.lookup field = some (.str text) := by
    rw [textField, Fields.get] at htext
    cases hfound : fields.lookup field with
    | none => simp [hfound] at htext
    | some value =>
      rw [hfound, Option.getD_some] at htext
      cases value with
      | str other => exact congrArg (some ∘ Json.str) (Option.some.inj htext)
      | _ => simp at htext
  have hmem : (field, Json.str text) ∈ rereadFields (.obj fields) := by
    refine mem_map.2 ⟨(field, text), (mem_insertionSort _).2 ?_, rfl⟩
    exact mem_map.2 ⟨(field, .str text), Fields.mem_of_lookup hlookup, rfl⟩
  have hnodup := (names_rereadFields fields).nodup_iff.2 h
  rw [textField, Fields.get, Fields.lookup_of_mem hnodup hmem]
  rfl

theorem examined_reread {keywords : List String} {item : Json} (h : Examined py keywords item) :
    _valid_examined (.obj (rereadFields item)) = true ∧
      examinedIn py (keywords.map py.lower) (.obj (rereadFields item)) = true := by
  obtain ⟨hdistinct, hvalid, hin⟩ := h
  cases item with
  | obj fields =>
    have hnodup := nodup_of_distinct hdistinct
    rw [_valid_examined] at hvalid ⊢
    rw [examinedIn] at hin ⊢
    simp only [Bool.and_eq_true] at hvalid
    obtain ⟨⟨⟨hnames, htexts⟩, houtcome⟩, hfound⟩ := hvalid
    have hsame : ∀ field ∈ examinedFields, textField (rereadFields (.obj fields)) field = textField fields field := by
      intro field hfield
      obtain ⟨text, htext⟩ := Option.isSome_iff_exists.1 (all_eq_true.1 htexts field hfield)
      rw [textField_rereadFields hnodup htext, htext]
    have hset : sameSet ((rereadFields (.obj fields)).map Prod.fst) examinedFields = true := by
      rw [sameSet_congr fun name => (names_rereadFields fields).mem_iff]
      exact hnames
    have hall : examinedFields.all (fun field => (textField (rereadFields (.obj fields)) field).isSome) = true := by
      rw [all_eq_true] at htexts ⊢
      intro field hfield
      rw [hsame field hfield]
      exact htexts field hfield
    rw [hset, hall, hsame _ (by decide), hsame _ (by decide)]
    exact ⟨by rw [houtcome, hfound]; rfl, hin⟩
  | _ => simp [_valid_examined] at hvalid

theorem loads_dumpsKeywords (keywords : List String) :
    loadsPlain py (dumpsKeywords keywords) = .ok (.arr (keywords.map .str)) := by
  refine loadsPlain_of_scansAs ?_
  rw [dumpsKeywords, String.toList_ofList]
  refine scansAs_dumpsList ?_
  rw [forall₂_map_left_iff, forall₂_map_right_iff, forall₂_same]
  exact fun keyword _ => scansAs_dumpsString keyword

theorem loads_dumpsExamined {keywords : List String} {items : List Json}
    (h : ∀ item ∈ items, Examined py keywords item) :
    loadsPlain py (dumpsExamined items) = .ok (.arr (items.map fun item => .obj (rereadFields item))) := by
  refine loadsPlain_of_scansAs ?_
  rw [dumpsExamined, String.toList_ofList]
  refine scansAs_dumpsList ?_
  rw [forall₂_map_left_iff, forall₂_map_right_iff, forall₂_same]
  intro item hitem
  obtain ⟨hdistinct, hvalid, -⟩ := h item hitem
  refine scansAs_dumpsStrings ?_
  cases item with
  | obj fields =>
    rw [names_textMembers]
    exact nodup_of_distinct hdistinct
  | _ => simp [_valid_examined] at hvalid

theorem dumpsList_ne_empty (items : List (List Char)) : String.ofList (dumpsList items) ≠ "" := by
  intro h
  have := congrArg String.toList h
  simp [dumpsList] at this

theorem textList_map_str (texts : List String) : textList? (.arr (texts.map .str)) = some texts := by
  rw [textList?, mapM_map]
  induction texts with
  | nil => rfl
  | cons text texts ih =>
    rw [mapM_cons, ih]
    rfl

theorem precedent_kinds_subset {values kinds : List String} (h : _precedent_kinds py values = some kinds) :
    ∀ kind ∈ kinds, kind ∈ candidateKinds := by
  simp only [_precedent_kinds] at h
  split_ifs at h
  obtain rfl := Option.some.inj h
  exact fun kind hkind => (mem_filter.1 hkind).1

theorem kinds_of_note (notes : String) : ∀ kind ∈ (_split_research_kind_note py notes).2, kind ∈ candidateKinds := by
  simp only [_split_research_kind_note]
  split_ifs
  · exact fun kind hkind => hkind
  · intro kind hkind
    cases hkinds : _precedent_kinds py _ with
    | none =>
      rw [hkinds] at hkind
      exact hkind
    | some kinds =>
      rw [hkinds] at hkind
      exact precedent_kinds_subset hkinds kind hkind

/-- A row that a write has left is read, with its keywords. -/
theorem research_attempt_from_row {row : ResearchRow} {keywords : List String} (h : Readable py row keywords) :
    ∃ attempt, _research_attempt_from_row py row = .ok attempt ∧ _valid_research_attempt py attempt = true ∧
      attempt.search_keywords = .arr (keywords.map .str) := by
  obtain ⟨items, hitems, hexamined⟩ := h.examined
  have hvalid : (items.map fun item => Json.obj (rereadFields item)).all _valid_examined = true := by
    rw [all_map, all_eq_true]
    exact fun item hitem => (examined_reread (hexamined item hitem)).1
  have hin : (items.map fun item => Json.obj (rereadFields item)).all (examinedIn py (keywords.map py.lower)) = true := by
    rw [all_map, all_eq_true]
    exact fun item hitem => (examined_reread (hexamined item hitem)).2
  have hkinds : (_split_research_kind_note py row.notes).2.all candidateKinds.contains = true := by
    rw [all_eq_true]
    exact fun kind hkind => by simpa using kinds_of_note row.notes kind hkind
  have hsearch : listColumn row.search_keywords = dumpsKeywords keywords := by
    rw [listColumn, h.search_keywords]
    exact if_neg (dumpsList_ne_empty _)
  have hcolumn : listColumn row.examined = dumpsExamined items := by
    rw [listColumn, hitems]
    exact if_neg (dumpsList_ne_empty _)
  have hattempt : _valid_research_attempt py
      { term := row.term, attempt := row.attempt, captured_at := row.captured_at
        last_searched_at := row.last_searched_at, search_keywords := .arr (keywords.map .str)
        examined := .arr (items.map fun item => .obj (rereadFields item))
        notes := (_split_research_kind_note py row.notes).1, kinds := (_split_research_kind_note py row.notes).2
        deprecated := row.deprecated } = true := by
    simp only [_valid_research_attempt, textList_map_str, list?]
    rw [hkinds, hvalid, hin, h.clean]
    simp [h.attempt]
  refine ⟨_, ?_, hattempt, rfl⟩
  rw [_research_attempt_from_row, hsearch, hcolumn, loads_dumpsKeywords, loads_dumpsExamined hexamined]
  exact if_pos hattempt

end Precedent

end AiOrg
