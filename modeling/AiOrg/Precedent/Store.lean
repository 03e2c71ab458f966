import AiOrg.Precedent.Candidate
import AiOrg.Precedent.Paraphrase
import AiOrg.Python.JsonPlain

/-!
# The store of precedents

The tables of researches and of candidates, with the index of tokens. A write adds a research and the candidates that
no active row of the key holds yet, a deprecation marks the active rows of a key, opening the store fills keys and
tokens that are missing, and a read puts an entry together from the rows of a key and checks it.
-/

namespace AiOrg

namespace Precedent

/-- A row of `research`. The times are in microseconds since the epoch, and a deprecation is a time with a reason. -/
structure ResearchRow where
  term : String
  term_key : String
  attempt : ℕ
  captured_at : ℕ
  last_searched_at : ℕ
  notes : String
  search_keywords : String
  examined : String
  deprecated : Option (String × String)
  deriving DecidableEq, Repr

structure CandidateRow where
  term : String
  term_key : String
  columns : Texts
  deprecated : Option (String × String)
  deriving DecidableEq, Repr

/-- The tables, with the rows in the order of their ids. -/
structure Store where
  research : List ResearchRow
  candidates : List CandidateRow
  tokens : List TokenRow
  deriving DecidableEq, Repr

def Store.empty : Store := ⟨[], [], []⟩

def candidateColumns : List String :=
  ["kind", "snippet", "summary", "pitfalls", "structure", "rationale", "when_to_use", "when_not_to_use", "tradeoffs",
    "alternatives", "implementation_hooks", "quality_attributes", "evidence", "delta_claim", "lang_env_version",
    "author_level", "source_url", "found_via", "evidence_class"]

def candidateRow (term term_key : String) (stored : Texts) : CandidateRow :=
  { term, term_key, columns := candidateColumns.map fun column => (column, stored.get column), deprecated := none }

/-- A value that is a text. -/
def text? : Json → Option String
  | .str text => some text
  | _ => none

def textList? : Json → Option (List String)
  | .arr items => items.mapM text?
  | _ => none

def list? : Json → Option (List Json)
  | .arr items => some items
  | _ => none

/-- `all(check(x) for x in xs)` for a check that may raise. -/
def allOrRaise {α : Type} (check : α → Option Bool) : List α → Option Bool
  | [] => some true
  | x :: xs =>
    match check x with
    | some true => allOrRaise check xs
    | result => result

section Model

variable (py : PyLib) (uni : Unicode)

/-- `item["found_via"].lower() in keyword_set` for a candidate, `none` where it raises. -/
def foundViaIn (keyword_set : List String) (candidate : Json) : Option Bool :=
  match candidate with
  | .obj fields => (fields.lookup "found_via").bind fun value => (text? value).map fun text =>
      keyword_set.contains (py.lower text)
  | _ => none

/-- `item["found_via"].lower() in keyword_set` for what was examined. -/
def examinedIn (keyword_set : List String) (item : Json) : Bool :=
  match item with
  | .obj fields => keyword_set.contains (py.lower ((textField fields "found_via").getD ""))
  | _ => false

/-- `_valid_entry`, `none` where it raises. -/
def _valid_entry (value : Json) : Option Bool :=
  match value with
  | .obj entry =>
    if !sameSet (entry.map Prod.fst) entryFields then some false
    else
      match textField entry "term", textField entry "notes", textList? (Fields.get entry "search_keywords"),
        list? (Fields.get entry "examined"), list? (Fields.get entry "candidates") with
      | some _, some _, some search_keywords, some examined, some candidates =>
        let keyword_set := search_keywords.map py.lower
        if _clean_search_keywords py search_keywords ≠ search_keywords then some false
        else if !examined.all _valid_examined then some false
        else if !examined.all (examinedIn py keyword_set) then some false
        else if !candidates.all (_valid_candidate py) then some false
        else allOrRaise (foundViaIn py keyword_set) candidates
      | _, _, _, _, _ => some false
  | _ => some false

def _backfill_term_keys (store : Store) : Store :=
  { store with
    research := store.research.map fun row =>
      if row.term_key = "" then { row with term_key := _normalize_term py uni row.term } else row
    candidates := store.candidates.map fun row =>
      if row.term_key = "" then { row with term_key := _normalize_term py uni row.term } else row }

/-- The terms of the rows whose keys have no tokens are indexed. -/
def _backfill_knowledge_term_tokens (store : Store) : Store :=
  let rows := (store.research.map fun row => (row.term, row.term_key)) ++
    store.candidates.map fun row => (row.term, row.term_key)
  let missing := rows.dedup.filter fun row => row.2 != "" && !(store.tokens.map (·.term_key)).contains row.2
  { store with tokens := missing.foldl (fun tokens row => _index_term_tokens uni tokens row.1 row.2) store.tokens }

def _ensure_schema (store : Store) : Store :=
  _backfill_knowledge_term_tokens uni (_backfill_term_keys py uni store)

def textMembers : Json → Texts
  | .obj fields => fields.map fun field => (field.1, (text? field.2).getD "")
  | _ => []

/-- `json.dumps(search_keywords, sort_keys=True)`. -/
def dumpsKeywords (keywords : List String) : String := String.ofList (dumpsList (keywords.map dumpsString))

/-- `json.dumps(examined, sort_keys=True)`. -/
def dumpsExamined (examined : List Json) : String :=
  String.ofList (dumpsList (examined.map fun item => (dumpsStrings (textMembers item)).toList))

/-- Whether a row is active under a key and has the source and the snippet of a stored candidate. -/
def holds (term_key : String) (stored : Texts) (row : CandidateRow) : Bool :=
  row.term_key = term_key && row.columns.get "source_url" = stored.get "source_url"
    && row.columns.get "snippet" = stored.get "snippet" && row.deprecated.isNone

/-- The body of the loop over the candidates of an entry. -/
def insertCandidate (term term_key : String) (rows : List CandidateRow) (candidate : Json) : List CandidateRow :=
  let stored := _stored_candidate py candidate
  if rows.any (holds term_key stored) then rows else rows ++ [candidateRow term term_key stored]

/-- `SELECT COALESCE(MAX(attempt), 0) + 1`. -/
def nextAttempt (rows : List ResearchRow) (term_key : String) : ℕ :=
  ((rows.filter (·.term_key = term_key)).map (·.attempt)).foldl max 0 + 1

def researchRow (rows : List ResearchRow) (entry : Fields) (term term_key : String) (searched_at : ℕ) : ResearchRow :=
  { term, term_key
    attempt := nextAttempt rows term_key
    captured_at := searched_at
    last_searched_at := searched_at
    notes := (textField entry "notes").getD ""
    search_keywords := dumpsKeywords ((textList? (Fields.get entry "search_keywords")).getD [])
    examined := dumpsExamined ((list? (Fields.get entry "examined")).getD [])
    deprecated := none }

def addEntry (store : Store) (entry : Fields) (searched_at : ℕ) : Store :=
  let term := (textField entry "term").getD ""
  let term_key := _normalize_term py uni term
  { research := store.research ++ [researchRow store.research entry term term_key searched_at]
    candidates := ((list? (Fields.get entry "candidates")).getD []).foldl (insertCandidate py term term_key)
      store.candidates
    tokens := _index_term_tokens uni store.tokens term term_key }

/-- `_write_entry`, `none` where it raises; no store is a missing file. -/
def _write_entry (store : Option Store) (entry : Json) (searched_at : ℕ) : Option Store :=
  match entry with
  | .obj fields =>
    if _valid_entry py entry = some true then
      some (addEntry py uni (_ensure_schema py uni (store.getD .empty)) fields searched_at)
    else none
  | _ => none

/-- `_deprecate_rows`, `none` where it raises. -/
def _deprecate_rows (store : Option Store) (term reason : String) (include_research : Bool) (deprecated_at : String) :
    Option Store :=
  let clean_term := pyStrip term
  let clean_reason := squash reason
  if clean_term = "" ∨ clean_reason = "" then none
  else store.map fun store =>
    let store := _ensure_schema py uni store
    let term_key := _normalize_term py uni clean_term
    { store with
      research := store.research.map fun row =>
        if include_research ∧ row.term_key = term_key ∧ row.deprecated.isNone then
          { row with deprecated := some (deprecated_at, clean_reason) }
        else row
      candidates := store.candidates.map fun row =>
        if row.term_key = term_key ∧ row.deprecated.isNone then
          { row with deprecated := some (deprecated_at, clean_reason) }
        else row }

inductive StoreUnavailable where
  | missing
  | unreadable (detail : String)
  deriving DecidableEq, Repr

/-- What is read of a row of `research`. -/
structure Attempt where
  term : String
  attempt : ℕ
  captured_at : ℕ
  last_searched_at : ℕ
  search_keywords : Json
  examined : Json
  notes : String
  kinds : List String
  deprecated : Option (String × String)

/-- What is read of a term. -/
structure Entry where
  term : String
  search_keywords : Json
  examined : Json
  candidates : List Texts
  notes : String
  research : List Attempt

/-- `_precedent_kinds(values)`, `none` where it raises. -/
def _precedent_kinds (values : List String) : Option (List String) :=
  let cleaned := values.map fun value => py.lower (pyStrip value)
  if cleaned.isEmpty || !cleaned.all candidateKinds.contains then none
  else some (candidateKinds.filter cleaned.contains)

def researchKindsPrefix : List Char := "[reference-kinds:".toList

/-- `REFERENCE_KIND_ORDER` is the order of `candidateKinds`. -/
def _split_research_kind_note (notes : String) : String × List String :=
  let text := notes.toList
  if !researchKindsPrefix.isPrefixOf text || !text.contains ']' then (notes, candidateKinds)
  else
    let raw_kinds := (((text.takeWhile (· != ']')).drop researchKindsPrefix.length).splitOn ',').map String.ofList
    let kinds := (_precedent_kinds py (raw_kinds.filter (· != ""))).getD candidateKinds
    (String.ofList ((((text.dropWhile (· != ']')).drop 1)).dropWhile Text.isSpace), kinds)

def _valid_research_attempt (value : Attempt) : Bool :=
  match textList? value.search_keywords, list? value.examined with
  | some search_keywords, some examined =>
    value.kinds.all candidateKinds.contains && 1 ≤ value.attempt
      && _clean_search_keywords py search_keywords = search_keywords
      && examined.all _valid_examined
      && examined.all (examinedIn py (search_keywords.map py.lower))
  | _, _ => false

def listColumn (text : String) : String := if text = "" then "[]" else text

def _research_attempt_from_row (row : ResearchRow) : Except String Attempt :=
  match loadsPlain py (listColumn row.search_keywords), loadsPlain py (listColumn row.examined) with
  | .error e, _ => .error (e.text py (listColumn row.search_keywords).toList)
  | _, .error e => .error (e.text py (listColumn row.examined).toList)
  | .ok search_keywords, .ok examined =>
    let (notes, kinds) := _split_research_kind_note py row.notes
    let attempt : Attempt :=
      { term := row.term
        attempt := row.attempt
        captured_at := row.captured_at
        last_searched_at := row.last_searched_at
        search_keywords, examined, notes, kinds
        deprecated := row.deprecated }
    if _valid_research_attempt py attempt then .ok attempt else .error "invalid research attempt"

def _candidate_from_row (row : CandidateRow) (include_deprecation : Bool) : Texts :=
  let kind := _clean_kind py (.str (row.columns.get "kind"))
  let candidate := (if kind = "design" then designCandidateFields else implementationCandidateFields).map fun field =>
    (field,
      if field = "kind" then kind
      else if field = "evidence_class" then _clean_evidence_class py (.str (row.columns.get "evidence_class"))
      else row.columns.get field)
  match include_deprecation, row.deprecated with
  | true, some (deprecated_at, reason) => candidate ++ [("deprecated_at", deprecated_at), ("deprecated_reason", reason)]
  | _, _ => candidate

def textsValue (texts : Texts) : Json := .obj (texts.map fun field => (field.1, .str field.2))

def _candidate_without_deprecation (candidate : Texts) : Texts :=
  candidate.filter fun field => field.1 != "deprecated_at" && field.1 != "deprecated_reason"

def _valid_persisted_entry (entry : Entry) : Option Bool :=
  let current_without_candidates : Json := .obj [("term", .str entry.term),
    ("search_keywords", entry.search_keywords), ("examined", entry.examined), ("candidates", .arr []),
    ("notes", .str entry.notes)]
  if entry.research.isEmpty || !entry.research.all (_valid_research_attempt py) then some false
  else
    match _valid_entry py current_without_candidates with
    | some true =>
      let keyword_set := entry.research.flatMap fun attempt =>
        ((textList? attempt.search_keywords).getD []).map py.lower
      if !entry.candidates.all fun candidate =>
          _valid_candidate py (textsValue (_candidate_without_deprecation candidate)) then some false
      else allOrRaise (fun candidate => foundViaIn py keyword_set (textsValue candidate)) entry.candidates
    | result => result

def _fetch_entry_rows (store : Store) (term_key : String) (include_deprecated : Bool) :
    Option (List ResearchRow × List CandidateRow) :=
  let research_rows := (store.research.filter fun row =>
    row.term_key = term_key && (include_deprecated || row.deprecated.isNone)).insertionSort fun a b => a.attempt ≤ b.attempt
  if research_rows.isEmpty then none
  else some (research_rows, store.candidates.filter fun row =>
    row.term_key = term_key && (include_deprecated || row.deprecated.isNone))

/-- The rows of the key of a term, or of the first key that paraphrases it. -/
def rowsOf (store : Store) (term : String) (include_deprecated paraphrase : Bool) :
    Option (List ResearchRow × List CandidateRow) :=
  let term_key := _normalize_term py uni term
  match _fetch_entry_rows store term_key include_deprecated with
  | some rows => some rows
  | none =>
    if paraphrase then
      ((_paraphrase_candidate_keys uni store.tokens term).filter (· != term_key)).findSome? fun candidate_key =>
        _fetch_entry_rows store candidate_key include_deprecated
    else none

def entryOf (path : String) (rows : List ResearchRow × List CandidateRow) (include_deprecated : Bool) :
    Except StoreUnavailable Entry :=
  match rows.1.mapM (_research_attempt_from_row py) with
  | .error detail => .error (.unreadable (path ++ ": " ++ detail))
  | .ok research =>
    match research.getLast? with
    | none => .error (.unreadable (path ++ ": list index out of range"))
    | some latest =>
      let entry : Entry :=
        { term := latest.term
          search_keywords := latest.search_keywords
          examined := latest.examined
          candidates := rows.2.map fun row => _candidate_from_row py row include_deprecated
          notes := latest.notes
          research }
      if _valid_persisted_entry py entry = some true then .ok entry
      else .error (.unreadable (path ++ ": invalid precedent store record"))

def _read_entry (path : String) (readDisabled : Bool) (store : Option Store) (term : String)
    (missing_ok include_deprecated paraphrase : Bool) : Except StoreUnavailable (Option Entry) :=
  if readDisabled then .ok none
  else
    match store with
    | none => if missing_ok then .ok none else .error .missing
    | some store =>
      match rowsOf py uni (_ensure_schema py uni store) term include_deprecated paraphrase with
      | none => .ok none
      | some rows => (entryOf py path rows include_deprecated).map some

/-- The calls that change the store. The time of a call is that of the clock. -/
inductive Call where
  | write (entry : Mapping) (searched_at : ℕ)
  | deprecateTerm (term reason deprecated_at : String)
  | deprecateCandidates (term reason deprecated_at : String)
  | openStore

/-- What a call leaves, `none` where it raises. -/
def Call.apply (store : Option Store) : Call → Option Store
  | .write entry searched_at => _write_entry py uni store (.obj entry.fields) searched_at
  | .deprecateTerm term reason deprecated_at => _deprecate_rows py uni store term reason true deprecated_at
  | .deprecateCandidates term reason deprecated_at => _deprecate_rows py uni store term reason false deprecated_at
  | .openStore => some (_ensure_schema py uni (store.getD .empty))

def candidatesOf (entry : Fields) : List Json := (list? (Fields.get entry "candidates")).getD []

def DeclaredCandidate (candidate : Json) : Prop :=
  ∀ fields, candidate = .obj fields → ∀ name ∈ fields.map Prod.fst,
    name ∈ implementationCandidateFields ∨ name ∈ designCandidateFields

def Call.Declared : Call → Prop
  | .write entry _ => ∀ candidate ∈ candidatesOf entry.fields, DeclaredCandidate candidate
  | _ => True

inductive Reached : Option Store → Prop
  | missing : Reached none
  | step {store : Option Store} {call : Call} {next : Store} : Reached store → call.Declared →
      call.apply py uni store = some next → Reached (some next)

end Model

/-- A row stays as it is, or goes from active to deprecated. -/
def ResearchKept (row next : ResearchRow) : Prop :=
  next = row ∨ row.deprecated = none ∧ ∃ deprecated, next = { row with deprecated := some deprecated }

def CandidateKept (row next : CandidateRow) : Prop :=
  next = row ∨ row.deprecated = none ∧ ∃ deprecated, next = { row with deprecated := some deprecated }

/-- No row is lost, and every row is kept. -/
def Conserved (store next : Store) : Prop :=
  (∃ kept added, next.research = kept ++ added ∧ List.Forall₂ ResearchKept store.research kept) ∧
    ∃ kept added, next.candidates = kept ++ added ∧ List.Forall₂ CandidateKept store.candidates kept

end Precedent

end AiOrg
