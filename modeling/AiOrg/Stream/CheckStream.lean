import AiOrg.Python.JsonText

/-!
# The patchwork check stream

The event stream of a network node: the enclosing body and the exact bytes it carries, the framing
of these bytes into physical lines, the reading of one record, its effect on the typed state, the
replay of a whole stream, and the extension of a stream by one record.
-/

namespace AiOrg

namespace CheckStream

def canonicalPath : String := "patchwork-check-event-stream.cue"
def legacyPath : String := "patchwork-check-events.jsonl"
def maxRawStreamBytes : ℕ := 4194304
def maxRecordDepth : ℕ := 64

structure StreamFailure where
  code : String
  location : String
  rule : String
  deriving DecidableEq, Repr

inductive StreamError where
  | failure (f : StreamFailure)
  | typeError
  deriving DecidableEq, Repr

/-- `raise StreamFailure(code, location, rule)`. -/
def fail {α : Type} (code location rule : String) : Except StreamError α :=
  .error (.failure ⟨code, location, rule⟩)

structure PhysicalLineDiagnostic where
  code : String
  path : String
  line : ℕ
  rule : String
  message : String
  deriving DecidableEq, Repr

structure PatchworkCheckProjection where
  state : Fields
  lastEvents : Fields
  diagnostics : List PhysicalLineDiagnostic
  deriving DecidableEq, Repr

structure PreparedAppend where
  body : Json
  rawStream : Bytes
  priorSha256 : String
  deriving DecidableEq, Repr

inductive DeclaredType where
  | counter | text
  deriving DecidableEq, Repr

def DeclaredType.default : DeclaredType → Json
  | .counter => .int 0
  | .text => .str ""

abbrev DeclaredChecks := List (String × DeclaredType)

/-- The state before any event. -/
def DeclaredChecks.defaults (checks : DeclaredChecks) : Fields :=
  checks.map fun check => (check.1, check.2.default)

def isHexDigit (c : Char) : Bool := ('0' ≤ c && c ≤ '9') || ('a' ≤ c && c ≤ 'f')

def isOid (text : String) : Bool :=
  (text.toList.length == 40 || text.toList.length == 64) && text.toList.all isHexDigit

def isCheckName (name : List Char) : Bool :=
  !name.isEmpty && name.all fun c => ('a' ≤ c && c ≤ 'z') || ('0' ≤ c && c ≤ '9') || c == '_'

def isSourcePath (path : String) : Bool :=
  let isName (name : List Char) : Bool :=
    name == canonicalPath.toList || name == legacyPath.toList
  match path.toList.splitOn '/' with
  | [name] => isName name
  | [dir, key, name] => dir == "sub".toList && isCheckName key && isName name
  | _ => false

def isPermittedSourcePath : Json → Bool
  | .str path => isSourcePath path
  | _ => false

def validateAnchor (sourceOid sourcePath : Json) : Except StreamError Unit :=
  match sourceOid with
  | .str oid =>
    if !isOid oid then fail "GIT_IDENTITY" "/body/source_oid" "source-oid"
    else if !isPermittedSourcePath sourcePath then
      fail "GIT_IDENTITY" "/body/source_path" "stream-source-path"
    else .ok ()
  | _ => fail "GIT_IDENTITY" "/body/source_oid" "source-oid"

def bodyFromRawStream (raw : Bytes) (sourceOid sourcePath : String) : Except StreamError Json := do
  validateAnchor (.str sourceOid) (.str sourcePath)
  if maxRawStreamBytes < raw.length then
    fail "INPUT_LIMIT" "/body/raw_stream_base64" "decoded-stream-4-mib"
  else
    return .obj [("raw_stream_base64", .str (String.ofList (Base64.encode raw))),
      ("source_oid", .str sourceOid), ("source_path", .str sourcePath)]

def bodyFields : List String := ["raw_stream_base64", "source_oid", "source_path"]

/-- The decoding of the `raw_stream_base64` field. -/
def decodeEncoded (encoded : List Char) : Except StreamError Bytes :=
  if !(encoded.all fun c => c.toNat < 128) || !Base64.wellFormed encoded then
    fail "ENCODING" "/body/raw_stream_base64" "rfc4648-base64"
  else if maxRawStreamBytes < Base64.decodedSize encoded then
    fail "INPUT_LIMIT" "/body/raw_stream_base64" "decoded-stream-4-mib"
  else match Base64.decode encoded with
  | none => fail "ENCODING" "/body/raw_stream_base64" "rfc4648-base64"
  | some decoded =>
    if Base64.encode decoded ≠ encoded then
      fail "NON_CANONICAL" "/body/raw_stream_base64" "rfc4648-base64"
    else if decoded.length ≠ Base64.decodedSize encoded then
      fail "ENCODING" "/body/raw_stream_base64" "rfc4648-base64"
    else .ok decoded

def decodeRawStream : Json → Except StreamError Bytes
  | .obj body =>
    if !((body.all fun f => bodyFields.contains f.1) && bodyFields.all (Fields.contains body ·)) then
      fail "SCHEMA_VALIDATION" "/body" "closed-stream-body"
    else do
      validateAnchor (Fields.get body "source_oid") (Fields.get body "source_path")
      match Fields.get body "raw_stream_base64" with
      | .str encoded => decodeEncoded encoded.toList
      | _ => fail "ENCODING" "/body/raw_stream_base64" "rfc4648-base64"
  | _ => fail "SCHEMA_VALIDATION" "/body" "closed-stream-body"

/-- `str(body[key])`. -/
def bodyText (py : PyLib) (body : Json) (key : String) : String :=
  match body with
  | .obj fields => py.str (Fields.get fields key)
  | _ => ""

def validatedCheck (entry : String × Json) : Except StreamError (String × DeclaredType) :=
  if !isCheckName entry.1.toList then
    fail "SCHEMA_VALIDATION" "/manifest/declared_patchwork_checks" "check-name"
  else if !entry.2.hashable then .error .typeError
  else if entry.2 = .str "counter" then .ok (entry.1, .counter)
  else if entry.2 = .str "text" then .ok (entry.1, .text)
  else fail "SCHEMA_VALIDATION" "/manifest/declared_patchwork_checks" "check-type"

def validatedRegistry : Json → Except StreamError DeclaredChecks
  | .obj registry => registry.mapM validatedCheck
  | _ => fail "SCHEMA_VALIDATION" "/manifest/declared_patchwork_checks" "typed-check-registry"

def initialEntry (checks : DeclaredChecks) (state : Fields) (entry : String × Json) :
    Except StreamError Fields :=
  match checks.lookup entry.1 with
  | none => fail "SCHEMA_VALIDATION" "/initial_state" "declared-variable"
  | some .counter =>
    match entry.2 with
    | .int _ => .ok (state.set entry.1 entry.2)
    | _ => fail "SCHEMA_VALIDATION" "/initial_state" "counter-integer"
  | some .text =>
    match entry.2 with
    | .str _ => .ok (state.set entry.1 entry.2)
    | _ => fail "SCHEMA_VALIDATION" "/initial_state" "text-string"

def validatedInitialState (checks : DeclaredChecks) : Json → Except StreamError Fields
  | .null => .ok checks.defaults
  | .obj initialState => initialState.foldlM (initialEntry checks) checks.defaults
  | _ => fail "SCHEMA_VALIDATION" "/initial_state" "typed-check-state"

def physicalRecordsFrom (record : Bytes) : Bytes → List Bytes
  | [] => if record.isEmpty then [] else [record]
  | byte :: rest =>
    if byte = 0x0a then record :: physicalRecordsFrom [] rest
    else if byte = 0x0d then
      match rest with
      | [] => [record]
      | next :: rest =>
        if next = 0x0a then record :: physicalRecordsFrom [] rest
        else record :: physicalRecordsFrom [] (next :: rest)
    else physicalRecordsFrom (record ++ [byte]) rest

def physicalRecords (raw : Bytes) : List Bytes := physicalRecordsFrom [] raw

/-- `enumerate(_physical_records(raw), start=1)`. -/
def physicalLines (raw : Bytes) : List (Bytes × ℕ) := (physicalRecords raw).zipIdx 1

def recordIsBlank (record : Bytes) : Bool := record.all fun byte => byte == 0x09 || byte == 0x20

structure DepthScan where
  depth : ℕ
  inString : Bool
  escaped : Bool
  deriving DecidableEq, Repr

def jsonDepthExceedsFrom (limit : ℕ) (scan : DepthScan) : Bytes → Bool
  | [] => false
  | byte :: rest =>
    if scan.inString then
      if scan.escaped then jsonDepthExceedsFrom limit { scan with escaped := false } rest
      else if byte = 0x5c then jsonDepthExceedsFrom limit { scan with escaped := true } rest
      else if byte = 0x22 then jsonDepthExceedsFrom limit { scan with inString := false } rest
      else jsonDepthExceedsFrom limit scan rest
    else if byte = 0x22 then jsonDepthExceedsFrom limit { scan with inString := true } rest
    else if byte = 0x7b ∨ byte = 0x5b then
      if limit < scan.depth + 1 then true
      else jsonDepthExceedsFrom limit { scan with depth := scan.depth + 1 } rest
    else if byte = 0x7d ∨ byte = 0x5d then
      jsonDepthExceedsFrom limit { scan with depth := scan.depth - 1 } rest
    else jsonDepthExceedsFrom limit scan rest

def jsonDepthExceeds (record : Bytes) (limit : ℕ) : Bool :=
  jsonDepthExceedsFrom limit ⟨0, false, false⟩ record

variable (py : PyLib)

def decodeRecord (record : Bytes) (path : String) (line : ℕ) :
    Except PhysicalLineDiagnostic Fields :=
  if jsonDepthExceeds record maxRecordDepth then
    .error ⟨"patchwork_check_event_invalid", path, line, "record-depth-64", ""⟩
  else match utf8Decode record with
  | none => .error ⟨"ingestion_invalid", path, line, "utf8", ""⟩
  | some text =>
    match jsonLoads py text with
    | .error exc =>
      .error ⟨"ingestion_invalid", path, line, "json-record",
        "invalid JSON on line " ++ toString line ++ ": " ++ exc.text py text⟩
    | .ok (.obj event) => .ok event
    | .ok _ =>
      .error ⟨"patchwork_check_event_invalid", path, line, "record-object",
        "state event must be an object"⟩

def invalidEvent (path : String) (line : ℕ) (rule message : String) : PhysicalLineDiagnostic :=
  ⟨"patchwork_check_event_invalid", path, line, rule,
    "state event " ++ toString line ++ " " ++ message⟩

def applySet (state event : Fields) (var : String) (declared : DeclaredType) (path : String)
    (line : ℕ) : Except PhysicalLineDiagnostic Fields :=
  match declared, event.get "value" with
  | .counter, .int n => .ok (state.set var (.int n))
  | .text, .str s => .ok (state.set var (.str s))
  | .counter, .str _ =>
    .error (invalidEvent path line "counter-integer"
      ("set value for counter " ++ var ++ " must be integer"))
  | .text, .int _ =>
    .error (invalidEvent path line "text-string" ("set value for text " ++ var ++ " must be string"))
  | _, _ =>
    .error (invalidEvent path line "event-value" "set value must be integer or string")

def applyDelta (state event : Fields) (var op : String) (declared : DeclaredType) (path : String)
    (line : ℕ) : Except StreamError (Except PhysicalLineDiagnostic Fields) :=
  match declared with
  | .text =>
    .ok (.error (invalidEvent path line "counter-delta"
      ("cannot " ++ op ++ " non-counter var " ++ var)))
  | .counter =>
    match event.getD "value" (.int 1) with
    | .int delta =>
      -- `int(state[var])`, which raises on a value that is no number
      match state.get var with
      | .int n => .ok (.ok (state.set var (.int (n + if op = "inc" then delta else -delta))))
      | _ => .error .typeError
    | _ => .ok (.error (invalidEvent path line "counter-delta" (op ++ " value must be integer")))

def applyEvent (state event : Fields) (checks : DeclaredChecks) (path : String) (line : ℕ) :
    Except StreamError (Except PhysicalLineDiagnostic Fields) :=
  match event.get "var" with
  | .str var =>
    if var = "" then .ok (.error (invalidEvent path line "declared-variable" "has invalid var"))
    else match checks.lookup var with
    | none =>
      .ok (.error (invalidEvent path line "declared-variable"
        ("writes undeclared variable " ++ var)))
    | some declared =>
      let op := event.get "op"
      if op = .str "set" then .ok (applySet state event var declared path line)
      -- `op in {"inc", "dec"}` hashes `op`
      else if !op.hashable then .error .typeError
      else if op = .str "inc" then applyDelta state event var "inc" declared path line
      else if op = .str "dec" then applyDelta state event var "dec" declared path line
      else .ok (.error (invalidEvent path line "event-operation" "op must be set, inc, or dec"))
  | _ => .ok (.error (invalidEvent path line "declared-variable" "has invalid var"))

def eventAnchor (path : String) (line : ℕ) : Json := .obj [("path", .str path), ("line", .int line)]

/-- One turn of the loop of `replay`. -/
def replayLine (checks : DeclaredChecks) (path : String) (projection : PatchworkCheckProjection)
    (physical : Bytes × ℕ) : Except StreamError PatchworkCheckProjection :=
  if recordIsBlank physical.1 then .ok projection
  else match decodeRecord py physical.1 path physical.2 with
  | .error diagnostic =>
    .ok { projection with diagnostics := projection.diagnostics ++ [diagnostic] }
  | .ok event =>
    match applyEvent projection.state event checks path physical.2 with
    | .error exc => .error exc
    | .ok (.error diagnostic) =>
      .ok { projection with diagnostics := projection.diagnostics ++ [diagnostic] }
    | .ok (.ok state) =>
      .ok { projection with
        state := state
        lastEvents :=
          projection.lastEvents.set (py.str (event.get "var")) (eventAnchor path physical.2) }

/-- The loop of `replay`. -/
def replayLines (checks : DeclaredChecks) (path : String) (projection : PatchworkCheckProjection)
    (lines : List (Bytes × ℕ)) : Except StreamError PatchworkCheckProjection :=
  lines.foldlM (replayLine py checks path) projection

def replay (body registry initialState : Json) : Except StreamError PatchworkCheckProjection := do
  let raw ← decodeRawStream body
  let checks ← validatedRegistry registry
  let state ← validatedInitialState checks initialState
  replayLines py checks (bodyText py body "source_path") ⟨state, [], []⟩ (physicalLines raw)

/-- The framing loop of `prepare_append`: the one record of a candidate. -/
def oneRecord : Option Bytes → List Bytes → Except StreamError Bytes
  | none, [] => fail "SCHEMA_VALIDATION" "/record" "one-nonblank-record"
  | some clean, [] => .ok clean
  | clean, framed :: rest =>
    if recordIsBlank framed || clean.isSome then
      fail "SCHEMA_VALIDATION" "/record" "one-nonblank-record"
    else oneRecord (some framed) rest

def appendSeparator (prior : Bytes) : Bytes :=
  match prior.getLast? with
  | none => []
  | some byte => if byte = 0x0a ∨ byte = 0x0d then [] else [0x0a]

def prepareAppend (body : Json) (record : Bytes) (registry : Json) :
    Except StreamError PreparedAppend := do
  let prior ← decodeRawStream body
  let checks ← validatedRegistry registry
  let separator := appendSeparator prior
  let maximumCandidateSize : Int := maxRawStreamBytes - prior.length - separator.length - 1 + 2
  if maximumCandidateSize < record.length then
    fail "INPUT_LIMIT" "/body/raw_stream_base64" "decoded-stream-4-mib"
  let clean ← oneRecord none (physicalRecords record)
  if maxRawStreamBytes < prior.length + separator.length + clean.length + 1 then
    fail "INPUT_LIMIT" "/body/raw_stream_base64" "decoded-stream-4-mib"
  match decodeRecord py clean (bodyText py body "source_path") 1 with
  | .error diagnostic =>
    fail (String.ofList (diagnostic.code.toList.map Char.toUpper)) "/record" diagnostic.rule
  | .ok event =>
    match ← applyEvent checks.defaults event checks (bodyText py body "source_path") 1 with
    | .error diagnostic => fail "SCHEMA_VALIDATION" "/record" diagnostic.rule
    | .ok _ =>
      let appended := prior ++ separator ++ clean ++ [0x0a]
      let updated ← bodyFromRawStream appended (bodyText py body "source_oid")
        (bodyText py body "source_path")
      return ⟨updated, appended, py.sha256 prior⟩

end CheckStream

end AiOrg

/-!
## What a stream should mean

Each record of a stream has its own effect on the typed state, and no other record has a say in
it. This module says what that asks of a replay (`Isolated`) and of an append (`Extends`), and
names the records that break it (`Poisoned`).
-/

namespace AiOrg

namespace CheckStream

def DeclaredType.admits : DeclaredType → Json → Bool
  | .counter, .int _ => true
  | .text, .str _ => true
  | _, _ => false

def Typed (checks : DeclaredChecks) (state : Fields) : Prop :=
  ∀ var declared, checks.lookup var = some declared → declared.admits (state.get var) = true

/-- What an applied event does. -/
inductive Effect where
  | put (var : String) (value : Json)
  | add (var : String) (delta : ℤ)

def Effect.var : Effect → String
  | .put var _ => var
  | .add var _ => var

def Effect.run : Effect → Fields → Fields
  | .put var value, state => state.set var value
  | .add var delta, state =>
    match state.get var with
    | .int n => state.set var (.int (n + delta))
    | _ => state

def Effect.Admitted (checks : DeclaredChecks) : Effect → Prop
  | .put var value => ∃ declared, checks.lookup var = some declared ∧ declared.admits value = true
  | .add var _ => checks.lookup var = some .counter

variable (py : PyLib) (checks : DeclaredChecks)

/-- A record that names a declared check and an operation Python cannot hash, a list or a dict. -/
def Poisoned (record : Bytes) : Prop :=
  recordIsBlank record = false ∧ ∃ event, decodeRecord py record "" 0 = .ok event ∧
    ∃ var, event.get "var" = .str var ∧ (checks.lookup var).isSome = true ∧
      (event.get "op").hashable = false

/-- `Poisoned` as a test. -/
def isPoisoned (record : Bytes) : Bool :=
  !recordIsBlank record &&
    match decodeRecord py record "" 0 with
    | .error _ => false
    | .ok event =>
      match event.get "var" with
      | .str var => (checks.lookup var).isSome && !(event.get "op").hashable
      | _ => false

theorem isPoisoned_iff (record : Bytes) :
    isPoisoned py checks record = true ↔ Poisoned py checks record := by
  unfold isPoisoned Poisoned
  rcases decodeRecord py record "" 0 with _ | event
  · simp
  · rcases h : event.get "var" with _ | _ | _ | _ | var | _ | _ <;> simp [h]

instance (record : Bytes) : Decidable (Poisoned py checks record) :=
  decidable_of_iff _ (isPoisoned_iff py checks record)

/-- Whether a record is applied: it is tried on the default state, as an append tries it. -/
def recordApplies (record : Bytes) : Bool :=
  !recordIsBlank record &&
    match decodeRecord py record "" 0 with
    | .error _ => false
    | .ok event =>
      match applyEvent checks.defaults event checks "" 0 with
      | .ok (.ok _) => true
      | _ => false

/-- A projection of physical lines in which every line stands for itself: a nonblank line that is
not applied leaves one diagnostic with its number, and the applied lines alone lead to the same
state and anchors, without a diagnostic. -/
structure Isolated (path : String) (start : Fields) (lines : List (Bytes × ℕ))
    (projection : PatchworkCheckProjection) : Prop where
  diagnosed : projection.diagnostics.map (·.line) =
    (lines.filter fun l => !recordIsBlank l.1 && !recordApplies py checks l.1).map (·.2)
  replayed : replayLines py checks path ⟨start, [], []⟩
      (lines.filter fun l => recordApplies py checks l.1) =
    .ok ⟨projection.state, projection.lastEvents, []⟩

structure Extends (path : String) (event : Fields) (line : ℕ)
    (old new : PatchworkCheckProjection) : Prop where
  applied : applyEvent old.state event checks path line = .ok (.ok new.state)
  diagnostics : new.diagnostics = old.diagnostics
  lastEvents : new.lastEvents =
    old.lastEvents.set (py.str (event.get "var")) (eventAnchor path line)

end CheckStream

end AiOrg
