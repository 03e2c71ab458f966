import AiOrg.Python.Mapping
import AiOrg.Python.Lines

/-!
# Candidates of precedents

What one candidate for a term is normalized to, when it is valid, and the form in which the store keeps it. A
candidate is an implementation or a design, and each kind has its own fields.
-/

namespace AiOrg

namespace Precedent

def entryFields : List String := ["term", "search_keywords", "examined", "candidates", "notes"]

def implementationCandidateFields : List String :=
  ["kind", "snippet", "summary", "source_url", "lang_env_version", "author_level", "pitfalls", "found_via",
    "evidence_class"]

def designCandidateFields : List String :=
  ["kind", "structure", "rationale", "when_to_use", "when_not_to_use", "tradeoffs", "alternatives",
    "implementation_hooks", "quality_attributes", "evidence", "delta_claim", "author_level", "source_url",
    "found_via", "lang_env_version", "evidence_class"]

def candidateKinds : List String := ["implementation", "design"]

def evidenceClasses : List String :=
  ["standard", "official_doc", "peer_reviewed", "practitioner_report", "workaround_thread"]

def unclassifiedEvidenceClass : String := "unclassified"

def examinedFields : List String := ["repo", "language", "outcome", "found_via"]

def examinedOutcomes : List String := ["kept", "rejected-baseline-equivalent", "rejected-low-value", "unreadable"]

/-- What a design must say. -/
def requiredDesignFields : List String :=
  ["structure", "rationale", "when_to_use", "when_not_to_use", "tradeoffs", "alternatives", "implementation_hooks",
    "quality_attributes", "evidence", "delta_claim"]

/-- A `dict` of texts. -/
abbrev Texts := List (String × String)

/-- `texts.get(field, "")`. -/
def Texts.get (texts : Texts) (field : String) : String := (texts.lookup field).getD ""

/-- `set(names) == set(others)`. -/
def sameSet (names others : List String) : Bool := names.all others.contains && others.all names.contains

section Model

variable (py : PyLib)

def _clean_found_via (value : Json) (search_keywords : List String) : String :=
  let found_via := squash (py.strOr value "")
  if found_via = "" then
    match search_keywords with
    | [keyword] => keyword
    | _ => ""
  else if search_keywords.isEmpty then found_via
  else (search_keywords.reverse.find? fun keyword => py.lower keyword = py.lower found_via).getD ""

def _candidate_audit_found_via (candidate : Fields) (search_keywords : List String) : String :=
  let audited := Fields.get candidate "_precedent_found_via"
  _clean_found_via py (if audited.truthy then audited else Fields.get candidate "found_via") search_keywords

def _clean_evidence_class (value : Json) : String :=
  let text := py.lower (pyStrip (py.strOr value ""))
  if text = "" then unclassifiedEvidenceClass
  else if text ∈ evidenceClasses ∨ text = unclassifiedEvidenceClass then text
  else ""

/-- `_clean_kind(value, allow_empty=False)`. -/
def _clean_kind (value : Json) : String :=
  let kind := py.lower (pyStrip (py.strOr value ""))
  if kind ∈ candidateKinds then kind else "implementation"

def _candidate_kind (candidate : Fields) : String := _clean_kind py (Fields.get candidate "kind")

/-- `str(value.get(field) or "").strip()`. -/
def strippedField (value : Fields) (field : String) : String := pyStrip (py.strOr (Fields.get value field) "")

def normalText (value : Fields) (kind source_url found_via lang_env_version evidence_class field : String) : String :=
  if field = "kind" then kind
  else if field = "source_url" then source_url
  else if field = "found_via" then found_via
  else if field = "lang_env_version" then lang_env_version
  else if field = "evidence_class" then evidence_class
  else strippedField py value field

def _normalize_raw_design_candidate (value : Fields) (source_url found_via : String) : Option Texts :=
  let evidence_class := _clean_evidence_class py (Fields.get value "evidence_class")
  let stripped := strippedField py value "lang_env_version"
  let lang_env_version := if stripped = "" then "n/a" else stripped
  let candidate : Texts := designCandidateFields.map fun field =>
    (field, normalText py value "design" source_url found_via lang_env_version evidence_class field)
  if evidence_class = "" then none
  else if requiredDesignFields.all fun field => candidate.get field != "" then some candidate
  else none

def _normalize_raw_candidate (value : Json) (search_keywords : List String) : Option Texts :=
  match value with
  | .obj value =>
    let source_url := strippedField py value "source_url"
    let found_via := _candidate_audit_found_via py value search_keywords
    let evidence_class := _clean_evidence_class py (Fields.get value "evidence_class")
    let lang_env_version := strippedField py value "lang_env_version"
    if source_url = "" ∨ found_via = "" then none
    else if _candidate_kind py value = "design" then _normalize_raw_design_candidate py value source_url found_via
    else if strippedField py value "snippet" = "" ∨ evidence_class = "" then none
    else some (implementationCandidateFields.map fun field =>
      (field, normalText py value "implementation" source_url found_via lang_env_version evidence_class field))
  | _ => none

/-- `_normalize_raw_candidate(candidate)`, and a candidate without content where there is no normal form. -/
def _stored_candidate (candidate : Json) : Texts :=
  match _normalize_raw_candidate py candidate [] with
  | none => implementationCandidateFields.map fun field =>
      (field,
        if field = "kind" then "implementation"
        else if field = "author_level" then "unknown"
        else if field = "evidence_class" then unclassifiedEvidenceClass
        else "")
  | some normalized => normalized.map fun (field, text) =>
      (field,
        if field = "author_level" ∧ text = "" then "unknown"
        else if field = "lang_env_version" ∧ text = "" ∧ normalized.get "kind" = "design" then "n/a"
        else text)

def _valid_candidate (value : Json) : Bool :=
  match _normalize_raw_candidate py value [] with
  | none => false
  | some normalized =>
    let fields := if normalized.get "kind" = "design" then designCandidateFields else implementationCandidateFields
    sameSet (normalized.map Prod.fst) fields
      && (unclassifiedEvidenceClass :: evidenceClasses).contains (normalized.get "evidence_class")

/-- The text in a field, `none` where there is another value or none. -/
def textField (value : Fields) (field : String) : Option String :=
  match Fields.get value field with
  | .str text => some text
  | _ => none

def _valid_examined (value : Json) : Bool :=
  match value with
  | .obj value =>
    sameSet (value.map Prod.fst) examinedFields
      && examinedFields.all (fun field => (textField value field).isSome)
      && examinedOutcomes.contains ((textField value "outcome").getD "")
      && pyStrip ((textField value "found_via").getD "") != ""
  | _ => false

def uniqueFrom (seen : List String) : List String → List String
  | [] => []
  | value :: values =>
    if py.lower value ∈ seen then uniqueFrom seen values
    else value :: uniqueFrom (py.lower value :: seen) values

def _unique (values : List String) : List String := uniqueFrom py [] values

def _clean_search_keywords (values : List String) : List String :=
  _unique py ((values.map squash).filter (· != ""))

end Model

end Precedent

end AiOrg
