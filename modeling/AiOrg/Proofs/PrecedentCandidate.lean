import AiOrg.Precedent.Store

/-!
# Normal forms of candidates

What normalizing gives is normal (`normal_of_normalize`), and so is the form that is stored (`normal_stored`).
Normalizing a normal form changes nothing (`normalize_of_normal`), and the row that is inserted for one is read back
as it (`candidate_from_row_candidateRow`).
-/

namespace AiOrg

open List

namespace Precedent

section Texts

theorem get_map {names : List String} {g : String → String} {field : String} (h : field ∈ names) :
    Texts.get (names.map fun name => (name, g name)) field = g field := by
  induction names with
  | nil => cases h
  | cons name names ih =>
    rw [Texts.get, map_cons, lookup_cons]
    by_cases hname : field = name
    · simp [hname]
    · rw [beq_eq_false_iff_ne.2 hname]
      exact ih ((mem_cons.1 h).resolve_left hname)

theorem get_of_not_mem {texts : Texts} {field : String} (h : field ∉ texts.map Prod.fst) : texts.get field = "" := by
  rw [Texts.get, List.lookup_eq_none_iff.2]
  · rfl
  · intro entry hentry
    simpa using fun heq => h (mem_map.2 ⟨entry, hentry, heq.symm⟩)

theorem map_get (texts : Texts) (h : (texts.map Prod.fst).Nodup) :
    (texts.map Prod.fst).map (fun field => (field, texts.get field)) = texts := by
  induction texts with
  | nil => rfl
  | cons entry texts ih =>
    obtain ⟨name, text⟩ := entry
    rw [map_cons, nodup_cons] at h
    have hrest : ∀ field ∈ texts.map Prod.fst,
        (field, Texts.get ((name, text) :: texts) field) = (field, Texts.get texts field) := by
      intro field hfield
      have hne : field ≠ name := by
        rintro rfl
        exact h.1 hfield
      rw [Texts.get, lookup_cons, beq_eq_false_iff_ne.2 hne]
      rfl
    rw [map_cons, map_cons, map_congr_left hrest, ih h.2]
    simp [Texts.get]

theorem lookup_textsValue (texts : Texts) (field : String) :
    (texts.map fun entry => (entry.1, Json.str entry.2)).lookup field = (texts.lookup field).map Json.str := by
  induction texts with
  | nil => rfl
  | cons entry texts ih =>
    obtain ⟨name, text⟩ := entry
    rw [map_cons, lookup_cons, lookup_cons]
    by_cases hname : field = name
    · simp [hname]
    · rw [beq_eq_false_iff_ne.2 hname]
      exact ih

theorem fieldsGet_textsValue (texts : Texts) (field : String) :
    Fields.get (texts.map fun entry => (entry.1, Json.str entry.2)) field =
      ((texts.lookup field).map Json.str).getD .null := by
  rw [Fields.get, lookup_textsValue]

theorem strOr_textsValue (py : PyLib) (texts : Texts) (field : String) :
    py.strOr (Fields.get (texts.map fun entry => (entry.1, Json.str entry.2)) field) "" = texts.get field := by
  rw [fieldsGet_textsValue, Texts.get]
  cases texts.lookup field with
  | none => rfl
  | some text => exact py.strOr_str text

end Texts

/-! ### Normal forms -/

def fieldsOf (kind : String) : List String :=
  if kind = "design" then designCandidateFields else implementationCandidateFields

structure Normal (texts : Texts) : Prop where
  kind : texts.get "kind" ∈ candidateKinds
  names : texts.map Prod.fst = fieldsOf (texts.get "kind")
  stripped : ∀ field, field ≠ "kind" → field ≠ "found_via" → field ≠ "evidence_class" →
    pyStrip (texts.get field) = texts.get field
  source_url : texts.get "source_url" ≠ ""
  found_via : texts.get "found_via" ≠ ""
  squashed : squash (texts.get "found_via") = texts.get "found_via"
  evidence_class : texts.get "evidence_class" ∈ unclassifiedEvidenceClass :: evidenceClasses
  snippet : texts.get "kind" ≠ "design" → texts.get "snippet" ≠ ""
  required : texts.get "kind" = "design" → ∀ field ∈ requiredDesignFields, texts.get field ≠ ""
  lang_env_version : texts.get "kind" = "design" → texts.get "lang_env_version" ≠ ""

theorem nodup_fieldsOf (kind : String) : (fieldsOf kind).Nodup := by
  unfold fieldsOf
  split_ifs <;> decide

theorem fieldsOf_subset (kind : String) : ∀ field ∈ fieldsOf kind, field ∈ candidateColumns := by
  unfold fieldsOf
  split_ifs <;> decide

theorem requiredDesignFields_subset : ∀ field ∈ requiredDesignFields, field ∈ designCandidateFields := by decide

section Model

variable {py : PyLib}

theorem clean_found_via_nil (value : Json) : _clean_found_via py value [] = squash (py.strOr value "") := by
  simp only [_clean_found_via, isEmpty_nil, if_true]
  split_ifs with h
  · exact h.symm
  · rfl

theorem clean_evidence_class_mem {value : Json} (h : _clean_evidence_class py value ≠ "") :
    _clean_evidence_class py value ∈ unclassifiedEvidenceClass :: evidenceClasses := by
  simp only [_clean_evidence_class] at h ⊢
  split_ifs at h ⊢ with h1 h2
  · exact mem_cons_self
  · exact mem_cons.2 h2.symm
  · exact absurd rfl h

theorem pyStrip_empty : pyStrip "" = "" := by decide

theorem normal_map {kind : String} {g : String → String} (hkind : g "kind" = kind) (hkinds : kind ∈ candidateKinds)
    (hstripped : ∀ field, field ≠ "kind" → field ≠ "found_via" → field ≠ "evidence_class" →
      pyStrip (g field) = g field)
    (hsource : g "source_url" ≠ "") (hfound : g "found_via" ≠ "") (hsquash : squash (g "found_via") = g "found_via")
    (hevidence : g "evidence_class" ∈ unclassifiedEvidenceClass :: evidenceClasses)
    (hsnippet : kind ≠ "design" → g "snippet" ≠ "")
    (hrequired : kind = "design" → ∀ field ∈ requiredDesignFields, g field ≠ "")
    (hlang : kind = "design" → g "lang_env_version" ≠ "") :
    Normal ((fieldsOf kind).map fun field => (field, g field)) := by
  have hall : ∀ field ∈ ["kind", "source_url", "found_via", "lang_env_version", "evidence_class"],
      field ∈ fieldsOf kind := by
    unfold fieldsOf
    split_ifs <;> decide
  have hget : ∀ field ∈ fieldsOf kind, Texts.get ((fieldsOf kind).map fun field => (field, g field)) field = g field :=
    fun field h => get_map h
  have hkindGet := (hget "kind" (hall _ (by decide))).trans hkind
  refine ⟨by rwa [hkindGet], ?_, ?_, ?_, ?_, ?_, ?_, ?_, ?_, ?_⟩
  · rw [hkindGet, map_map]
    exact map_id _
  · intro field hfieldKind hfieldFound hfieldEvidence
    by_cases hfield : field ∈ fieldsOf kind
    · rw [hget field hfield]
      exact hstripped field hfieldKind hfieldFound hfieldEvidence
    · rw [get_of_not_mem]
      · exact pyStrip_empty
      · rwa [map_map, show (Prod.fst ∘ fun field => (field, g field)) = id from rfl, map_id]
  · rwa [hget _ (hall _ (by decide))]
  · rwa [hget _ (hall _ (by decide))]
  · rwa [hget _ (hall _ (by decide))]
  · rwa [hget _ (hall _ (by decide))]
  · rw [hkindGet]
    intro hne
    rw [hget "snippet" (by rw [fieldsOf, if_neg hne]; decide)]
    exact hsnippet hne
  · rw [hkindGet]
    intro heq field hfield
    have hmem : field ∈ fieldsOf kind := by
      rw [fieldsOf, if_pos heq]
      exact requiredDesignFields_subset field hfield
    rw [hget field hmem]
    exact hrequired heq field hfield
  · rw [hkindGet, hget _ (hall _ (by decide))]
    exact hlang

section NormalText

variable (value : Fields) (kind source_url found_via lang_env_version evidence_class : String)

theorem stripped_normalText (hsource : pyStrip source_url = source_url)
    (hlang : pyStrip lang_env_version = lang_env_version) (field : String) (hkind : field ≠ "kind")
    (hfound : field ≠ "found_via") (hevidence : field ≠ "evidence_class") :
    pyStrip (normalText py value kind source_url found_via lang_env_version evidence_class field) =
      normalText py value kind source_url found_via lang_env_version evidence_class field := by
  unfold normalText
  rw [if_neg hkind, if_neg hfound, if_neg hevidence]
  split_ifs
  · exact hsource
  · exact hlang
  · exact pyStrip_pyStrip _

end NormalText

/-- What normalizing gives is normal, and keeps where the candidate was found. -/
theorem normal_of_normalize {value : Fields} {texts : Texts}
    (h : _normalize_raw_candidate py (.obj value) [] = some texts) :
    Normal texts ∧ texts.get "found_via" = _candidate_audit_found_via py value [] := by
  have hsquash : squash (_candidate_audit_found_via py value []) = _candidate_audit_found_via py value [] := by
    rw [_candidate_audit_found_via, clean_found_via_nil, squash_squash]
  simp only [_normalize_raw_candidate] at h
  by_cases hempty : strippedField py value "source_url" = "" ∨ _candidate_audit_found_via py value [] = ""
  · rw [if_pos hempty] at h
    cases h
  obtain ⟨hsource, hfound⟩ := not_or.1 hempty
  rw [if_neg hempty] at h
  by_cases hdesign : _candidate_kind py value = "design"
  · rw [if_pos hdesign] at h
    simp only [_normalize_raw_design_candidate] at h
    generalize hlang : (if strippedField py value "lang_env_version" = "" then "n/a"
      else strippedField py value "lang_env_version") = lang at h
    have hlangStrip : pyStrip lang = lang ∧ lang ≠ "" := by
      rw [← hlang]
      split_ifs with hnone
      · decide
      · exact ⟨pyStrip_pyStrip _, hnone⟩
    split_ifs at h with hevidence hrequired
    obtain rfl := Option.some.inj h
    have hget : ∀ field ∈ designCandidateFields, Texts.get _ field = _ := fun field hfield =>
      get_map (g := normalText py value "design" (strippedField py value "source_url")
        (_candidate_audit_found_via py value []) lang (_clean_evidence_class py (value.get "evidence_class"))) hfield
    refine ⟨@normal_map "design" _ ?_ (by decide) ?_ ?_ ?_ ?_ ?_ ?_ ?_ ?_, ?_⟩
    · simp [normalText]
    · exact stripped_normalText _ _ _ _ _ _ (pyStrip_pyStrip _) hlangStrip.1
    · simpa [normalText] using hsource
    · simpa [normalText] using hfound
    · simpa [normalText] using hsquash
    · simpa [normalText] using clean_evidence_class_mem hevidence
    · simp
    · intro _ field hfield
      rw [all_eq_true] at hrequired
      have := hrequired field hfield
      rw [hget field (requiredDesignFields_subset field hfield)] at this
      simpa using this
    · simpa [normalText] using hlangStrip.2
    · rw [hget _ (by decide)]
      simp [normalText]
  · rw [if_neg hdesign] at h
    split_ifs at h with hnone
    obtain ⟨hsnippet, hevidence⟩ := not_or.1 hnone
    obtain rfl := Option.some.inj h
    refine ⟨@normal_map "implementation" _ ?_ (by decide) ?_ ?_ ?_ ?_ ?_ ?_ ?_ ?_, ?_⟩
    · simp [normalText]
    · exact stripped_normalText _ _ _ _ _ _ (pyStrip_pyStrip _) (pyStrip_pyStrip _)
    · simpa [normalText] using hsource
    · simpa [normalText] using hfound
    · simpa [normalText] using hsquash
    · simpa [normalText] using clean_evidence_class_mem hevidence
    · simpa [normalText] using hsnippet
    · simp
    · simp
    · rw [get_map (by decide)]
      simp [normalText]

/-- The stored form of a candidate that is valid is normal, and keeps where it was found. -/
theorem normal_stored {value : Fields} {texts : Texts}
    (h : _normalize_raw_candidate py (.obj value) [] = some texts) :
    Normal (_stored_candidate py (.obj value)) ∧
      (_stored_candidate py (.obj value)).get "found_via" = _candidate_audit_found_via py value [] := by
  obtain ⟨hnormal, hfound⟩ := normal_of_normalize h
  set g : String → String := fun field =>
    if field = "author_level" ∧ texts.get field = "" then "unknown"
    else if field = "lang_env_version" ∧ texts.get field = "" ∧ texts.get "kind" = "design" then "n/a"
    else texts.get field with hg
  have hstored : _stored_candidate py (.obj value) = (fieldsOf (texts.get "kind")).map fun field => (field, g field) := by
    have hsame := map_get texts (hnormal.names ▸ nodup_fieldsOf _)
    rw [hnormal.names] at hsame
    rw [_stored_candidate, h]
    dsimp only
    conv_lhs => rw [← hsame, map_map]
    rw [hsame]
    rfl
  have hsimple : ∀ field, field ≠ "author_level" → field ≠ "lang_env_version" → g field = texts.get field := by
    intro field h1 h2
    simp [hg, h1, h2]
  have hmem : "found_via" ∈ fieldsOf (texts.get "kind") := by
    unfold fieldsOf
    split_ifs <;> decide
  rw [hstored]
  refine ⟨normal_map (hsimple _ (by decide) (by decide)) hnormal.kind ?_ ?_ ?_ ?_ ?_ ?_ ?_ ?_, ?_⟩
  · intro field hkind hfoundVia hevidence
    simp only [hg]
    split_ifs
    · decide
    · decide
    · exact hnormal.stripped field hkind hfoundVia hevidence
  · rw [hsimple _ (by decide) (by decide)]
    exact hnormal.source_url
  · rw [hsimple _ (by decide) (by decide)]
    exact hnormal.found_via
  · rw [hsimple _ (by decide) (by decide)]
    exact hnormal.squashed
  · rw [hsimple _ (by decide) (by decide)]
    exact hnormal.evidence_class
  · rw [hsimple _ (by decide) (by decide)]
    exact hnormal.snippet
  · intro hdesign field hfield
    have hother : field ≠ "author_level" ∧ field ≠ "lang_env_version" := by
      revert field
      decide
    rw [hsimple field hother.1 hother.2]
    exact hnormal.required hdesign field hfield
  · intro hdesign
    simp [hg, hnormal.lang_env_version hdesign]
  · rw [get_map hmem, hsimple _ (by decide) (by decide), hfound]

section Read

variable (hlower : IsLower py.lower)

include hlower

theorem lower_of_small {text : String} (h : (text.toList.all fun c => c.isLower || c == '_') = true) :
    py.lower text = text := by
  refine hlower.small text fun c hc => ?_
  simpa using all_eq_true.1 h c hc

theorem clean_kind_of_mem {kind : String} (h : kind ∈ candidateKinds) : _clean_kind py (.str kind) = kind := by
  have hsmall : ∀ kind ∈ candidateKinds, pyStrip kind = kind ∧
      (kind.toList.all fun c => c.isLower || c == '_') = true := by decide
  simp only [_clean_kind, py.strOr_str]
  rw [(hsmall kind h).1, lower_of_small hlower (hsmall kind h).2, if_pos h]

theorem clean_evidence_class_of_mem {evidence_class : String}
    (h : evidence_class ∈ unclassifiedEvidenceClass :: evidenceClasses) :
    _clean_evidence_class py (.str evidence_class) = evidence_class := by
  have hsmall : ∀ text ∈ unclassifiedEvidenceClass :: evidenceClasses, pyStrip text = text ∧ text ≠ "" ∧
      (text.toList.all fun c => c.isLower || c == '_') = true := by decide
  obtain ⟨hstrip, hne, hletters⟩ := hsmall _ h
  simp only [_clean_evidence_class, py.strOr_str]
  rw [hstrip, lower_of_small hlower hletters, if_neg hne, if_pos (mem_cons.1 h).symm]

/-- Normalizing a normal form changes nothing. -/
theorem normalize_of_normal {texts : Texts} (h : Normal texts) :
    _normalize_raw_candidate py (textsValue texts) [] = some texts := by
  have hnames := h.names
  have hsame := map_get texts (hnames ▸ nodup_fieldsOf _)
  rw [hnames] at hsame
  have hstripped : ∀ field, strippedField py (texts.map fun entry => (entry.1, Json.str entry.2)) field =
      pyStrip (texts.get field) := fun field => by rw [strippedField, strOr_textsValue]
  have hget : ∀ field ∈ fieldsOf (texts.get "kind"),
      Fields.get (texts.map fun entry => (entry.1, Json.str entry.2)) field = .str (texts.get field) := by
    intro field hfield
    rw [← hnames] at hfield
    rw [fieldsGet_textsValue, Texts.get]
    cases hlookup : texts.lookup field with
    | none =>
      obtain ⟨entry, hentry, rfl⟩ := mem_map.1 hfield
      simpa using List.lookup_eq_none_iff.1 hlookup entry hentry
    | some text => rfl
  have hmem : "kind" ∈ fieldsOf (texts.get "kind") ∧ "evidence_class" ∈ fieldsOf (texts.get "kind") ∧
      "found_via" ∈ fieldsOf (texts.get "kind") ∧ "_precedent_found_via" ∉ fieldsOf (texts.get "kind") := by
    unfold fieldsOf
    split_ifs <;> decide
  obtain ⟨hkindMem, hevidenceMem, hfoundMem, hauditMem⟩ := hmem
  have haudit : Fields.get (texts.map fun entry => (entry.1, Json.str entry.2)) "_precedent_found_via" = .null := by
    rw [fieldsGet_textsValue, List.lookup_eq_none_iff.2]
    · rfl
    · intro entry hentry
      rw [← hnames] at hauditMem
      simpa using fun heq => hauditMem (mem_map.2 ⟨entry, hentry, heq.symm⟩)
  have hfound : _candidate_audit_found_via py (texts.map fun entry => (entry.1, Json.str entry.2)) [] =
      texts.get "found_via" := by
    rw [_candidate_audit_found_via, haudit, clean_found_via_nil]
    simp only [Json.truthy, Bool.false_eq_true, if_false]
    rw [strOr_textsValue, h.squashed]
  have hkind : _candidate_kind py (texts.map fun entry => (entry.1, Json.str entry.2)) = texts.get "kind" := by
    rw [_candidate_kind, hget _ hkindMem, clean_kind_of_mem hlower h.kind]
  have hevidence : _clean_evidence_class py (Fields.get (texts.map fun entry => (entry.1, Json.str entry.2))
      "evidence_class") = texts.get "evidence_class" := by
    rw [hget _ hevidenceMem, clean_evidence_class_of_mem hlower h.evidence_class]
  have hevidenceNe : texts.get "evidence_class" ≠ "" := by
    intro heq
    have := h.evidence_class
    rw [heq] at this
    revert this
    decide
  have hsource := h.stripped "source_url" (by decide) (by decide) (by decide)
  have hlang := h.stripped "lang_env_version" (by decide) (by decide) (by decide)
  have hsnippet := h.stripped "snippet" (by decide) (by decide) (by decide)
  have htext : ∀ field, normalText py (texts.map fun entry => (entry.1, Json.str entry.2)) (texts.get "kind")
      (texts.get "source_url") (texts.get "found_via") (texts.get "lang_env_version") (texts.get "evidence_class")
      field = texts.get field := by
    intro field
    unfold normalText
    split_ifs with h1 h2 h3 h4 h5
    · rw [h1]
    · rw [h2]
    · rw [h3]
    · rw [h4]
    · rw [h5]
    · rw [hstripped, h.stripped field h1 h3 h5]
  rw [textsValue, _normalize_raw_candidate]
  simp only [hstripped, hsource, hlang, hsnippet, hfound, hkind, hevidence, h.source_url, h.found_via, hevidenceNe,
    or_self, if_false, or_false]
  by_cases hdesign : texts.get "kind" = "design"
  · rw [if_pos hdesign]
    simp only [_normalize_raw_design_candidate, hstripped, hlang, hevidence, hevidenceNe, if_false,
      h.lang_env_version hdesign]
    rw [← hdesign]
    simp only [htext]
    have hfields : fieldsOf (texts.get "kind") = designCandidateFields := if_pos hdesign
    rw [hfields] at hsame
    rw [hsame, if_pos]
    rw [all_eq_true]
    intro field hfield
    simpa using h.required hdesign field hfield
  · rw [if_neg hdesign, if_neg (h.snippet hdesign)]
    have hfields : fieldsOf (texts.get "kind") = implementationCandidateFields := if_neg hdesign
    have himplementation : texts.get "kind" = "implementation" := by
      have := h.kind
      simp only [candidateKinds, mem_cons, not_mem_nil, or_false] at this
      exact this.resolve_right hdesign
    rw [hfields] at hsame
    rw [← himplementation]
    simp only [htext]
    rw [hsame]

theorem valid_of_normal {texts : Texts} (h : Normal texts) : _valid_candidate py (textsValue texts) = true := by
  have hset : ∀ names : List String, sameSet names names = true := by
    intro names
    simp [sameSet, all_eq_true]
  rw [_valid_candidate, normalize_of_normal hlower h]
  dsimp only
  rw [h.names, ← fieldsOf, hset, Bool.true_and]
  simpa using h.evidence_class

/-- The row that is inserted for a normal form is read back as it. -/
theorem candidate_from_row_candidateRow {texts : Texts} (h : Normal texts) (term term_key : String) :
    _candidate_from_row py (candidateRow term term_key texts) false = texts := by
  have hget : ∀ column ∈ candidateColumns, (candidateRow term term_key texts).columns.get column = texts.get column :=
    fun column hcolumn => get_map hcolumn
  have hsame := map_get texts (h.names ▸ nodup_fieldsOf _)
  rw [h.names] at hsame
  simp only [_candidate_from_row]
  rw [hget _ (by decide), hget _ (by decide), clean_kind_of_mem hlower h.kind,
    clean_evidence_class_of_mem hlower h.evidence_class, ← fieldsOf]
  conv_rhs => rw [← hsame]
  refine map_congr_left fun field hfield => ?_
  split_ifs with h1 h2
  · rw [h1]
  · rw [h2]
  · rw [hget field (fieldsOf_subset _ field hfield)]

end Read

end Model

end Precedent

end AiOrg
