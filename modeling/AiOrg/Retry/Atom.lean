import AiOrg.Python.JsonPlain
import AiOrg.Python.Lines

/-!
# Backtracking patterns

A pattern gives what it can take from the front of a text in the order in which `re` tries it, so that the first one
that passes what comes next is the match.
-/

namespace AiOrg

namespace Pattern

/-- What can be taken from a text, with what is left of it. -/
abbrev Matcher := List Char → List (List Char × List Char)

/-- A character of a class. -/
def one (p : Char → Bool) : Matcher
  | [] => []
  | c :: rest => if p c then [([c], rest)] else []

def seq (m n : Matcher) : Matcher := fun text =>
  (m text).flatMap fun taken => (n taken.2).map fun next => (taken.1 ++ next.1, next.2)

/-- `(m)?`. -/
def opt (m : Matcher) : Matcher := fun text => m text ++ [([], text)]

/-- `(m)*` up to a number of rounds. -/
def star (m : Matcher) : ℕ → Matcher
  | 0 => fun text => [([], text)]
  | fuel + 1 => opt (seq m (star m fuel))

/-- `[p]*`. -/
def many (p : Char → Bool) : Matcher := fun text => star (one p) text.length text

/-- `[p]+`. -/
def many1 (p : Char → Bool) : Matcher := seq (one p) (many p)

section Search

variable (isWord : Char → Bool)

def wordAt (c : Option Char) : Bool := c.any isWord

/-- `\b` between two characters. -/
def isBoundary (last next : Option Char) : Bool := wordAt isWord last != wordAt isWord next

/-- The match of `\b(m)\b` behind a character. -/
def matchWord (m : Matcher) (last : Option Char) (text : List Char) : Option (List Char × List Char) :=
  if isBoundary isWord last text.head? then
    (m text).find? fun taken => isBoundary isWord (taken.1.getLast?.or last) taken.2.head?
  else none

/-- `re.finditer` of `\b(m)\b`, for a pattern that takes something. -/
def finditerFrom (m : Matcher) : ℕ → Option Char → List Char → List (List Char)
  | 0, _, _ => []
  | fuel + 1, last, text =>
    match matchWord isWord m last text with
    | some (taken, rest) => taken :: finditerFrom m fuel (taken.getLast?.or last) rest
    | none =>
      match text with
      | [] => []
      | c :: rest => finditerFrom m fuel (some c) rest

def finditer (m : Matcher) (text : List Char) : List (List Char) :=
  finditerFrom isWord m (text.length + 1) none text

end Search

/-- `re.findall` of `[p]+`. -/
def runs (p : Char → Bool) (text : List Char) : List (List Char) :=
  (text.splitOnP fun c => !p c).filter (!·.isEmpty)

end Pattern

end AiOrg

/-!
## The fingerprint of a defect

A requirement that a validator reports is reduced to a validator, a rule, a class, a JSON pointer and a subject, and
these to a fingerprint.
-/

namespace AiOrg

namespace Retry

/-- What Python knows of characters, and the digest that a fingerprint is cut from. -/
structure Lib where
  lower : List Char → List Char
  /-- `lower` of text whose letters are all in ASCII. -/
  lower_ascii : ∀ text : List Char, (∀ c ∈ text, c.toNat < 128) → lower text = text.map Char.toLower
  isWord : Char → Bool
  isAlpha : Char → Bool
  /-- `hashlib.sha256(text.encode("utf-8")).hexdigest()[:16]`. -/
  digest : List Char → String

section Lib

variable (lib : Lib)

def isAtomChar (c : Char) : Bool :=
  ('a' ≤ c && c ≤ 'z') || ('0' ≤ c && c ≤ '9') || c == '_' || c == '.' || c == '/' || c == '-'

def _normalize_atom (value : List Char) : List Char :=
  ([' '].intercalate (Pattern.runs isAtomChar (lib.lower value))).take 160

/-- What one part between dots adds to a pointer; the fuel bounds the brackets of the part. -/
def pieces : ℕ → List Char → List (List Char)
  | 0, part => if part.isEmpty then [] else [part]
  | fuel + 1, part =>
    if '[' ∈ part then
      let (head, tail) := Text.splitOnce '[' part
      let (index, rest) := Text.splitOnce ']' tail
      (if head.isEmpty then [] else [head]) ++
        (if index.isEmpty then [] else
          [(index.dropWhile fun c => c = '\'' ∨ c = '\x22').rdropWhile fun c => c = '\'' ∨ c = '\x22']) ++
        pieces fuel rest
    else if part.isEmpty then [] else [part]

/-- `piece.replace("~", "~0").replace("/", "~1")`. -/
def escapePiece (piece : List Char) : List Char :=
  piece.flatMap fun c => if c = '~' then ['~', '0'] else if c = '/' then ['~', '1'] else [c]

def _to_json_pointer (path : List Char) : List Char :=
  let path := Text.strip (if path.isEmpty then ['$'] else path)
  if path = [] ∨ path = ['$'] then []
  else if ['/'] <+: path then path
  else
    let path := if ['$', '.'] <+: path then path.drop 2 else if ['$'] <+: path then path.drop 1 else path
    '/' :: ['/'].intercalate ((((path.splitOn '.').filter (!·.isEmpty)).flatMap fun part =>
      pieces part.length part).map escapePiece)

def isLetter_ (c : Char) : Bool := c.isAlpha || c == '_'

def isAlnum_ (c : Char) : Bool := c.isAlphanum || c == '_'

/-- `[A-Za-z_][A-Za-z0-9_]*(?:\[[^\]]+\])?`. -/
def pathStep : Pattern.Matcher :=
  Pattern.seq (Pattern.seq (Pattern.one isLetter_) (Pattern.many isAlnum_))
    (Pattern.opt (Pattern.seq (Pattern.seq (Pattern.one (· == '[')) (Pattern.many1 (· != ']'))) (Pattern.one (· == ']'))))

/-- `_PATH_RE`, without its boundaries. -/
def pathPattern : Pattern.Matcher := fun text =>
  Pattern.seq pathStep (Pattern.star (Pattern.seq (Pattern.one (· == '.')) pathStep) text.length) text

def _NON_PATH_WORDS : List (List Char) :=
  ["Codex", "Previous", "Reviewer", "Return", "Regenerate", "Correct", "Fix", "JSON"].map String.toList

def _extract_path (error : List Char) : List Char :=
  ((Pattern.finditer lib.isWord pathPattern error).find? fun candidate =>
    !_NON_PATH_WORDS.contains candidate && (candidate.contains '.' || candidate.contains '[')).getD ['$']

def isIn (needle : String) (text : List Char) : Bool := (Text.partition needle.toList text).isSome

def _classify_error (error : List Char) : List Char :=
  let lowered := lib.lower error
  if isIn "invalid json" lowered || isIn "non-object json" lowered then "invalid_json".toList
  else if isIn "empty" lowered then "empty_slot".toList
  else if isIn "mismatch" lowered || isIn "wrong" lowered then "mismatch".toList
  else if isIn "duplicate" lowered then "duplicate".toList
  else if isIn "invalid field" lowered || isIn "fields do not match schema" lowered then "invalid_fields".toList
  else "validation".toList

/-- `C\d+(?:[A-Za-z0-9_.-]+)?`. -/
def rulePattern : Pattern.Matcher :=
  Pattern.seq (Pattern.seq (Pattern.one (· == 'C')) (Pattern.many1 Text.isDecimal))
    (Pattern.opt (Pattern.many1 fun c => isAlnum_ c || c == '.' || c == '-'))

def _extract_rule_id (error : List Char) : List Char :=
  match Pattern.finditer lib.isWord rulePattern error with
  | rule :: _ => rule
  | [] =>
    let front := Text.strip (Text.splitOnce ':' error).1
    if !front.isEmpty && front.length ≤ 80 && front.any lib.isAlpha then front else []

def isQuote (c : Char) : Bool := c == '\'' || c == '\x22'

/-- The first of `re.findall(r"['\"]([^'\"]{1,80})['\"]", error)`. -/
def firstQuoted : List Char → Option (List Char)
  | [] => none
  | c :: rest =>
    let body := rest.takeWhile fun d => !isQuote d
    if isQuote c && !body.isEmpty && body.length ≤ 80 && body.length < rest.length then some body
    else firstQuoted rest

/-- `text.replace(old, " ")`; the fuel bounds the places. -/
def blankOut (old : List Char) : ℕ → List Char → List Char
  | 0, text => text
  | fuel + 1, text =>
    match Text.partition old text with
    | some (front, rest) => front ++ ' ' :: blankOut old fuel rest
    | none => text

def subjectMarkers : List String := ["-style", "generic", "minimal", "mvp", "vertical slice", "prototype", "demo"]

def _extract_subject_atom (error path : List Char) : List Char :=
  match firstQuoted error with
  | some quoted => quoted
  | none =>
    match subjectMarkers.find? fun marker => isIn marker (lib.lower error) with
    | some marker => marker.toList
    | none =>
      let cleaned := blankOut path error.length error
      [' '].intercalate ((Pattern.runs (fun c => isAlnum_ c || c == '-') (lib.lower cleaned)).take 10)

/-! ### Atoms -/

/-- `json.dumps` with `separators=(",", ":")` of an object of strings, behind its brace. -/
def compactMembers : List (String × List Char) → List Char
  | [] => ['\x7d']
  | [(key, value)] => dumpsString key ++ ':' :: dumpsString (String.ofList value) ++ ['\x7d']
  | (key, value) :: members =>
    dumpsString key ++ ':' :: dumpsString (String.ofList value) ++ ',' :: compactMembers members

/-- `json.dumps(value, sort_keys=True, separators=(",", ":"), ensure_ascii=True)` of an object of strings. -/
def compactStrings (members : List (String × List Char)) : List Char :=
  '\x7b' :: compactMembers (members.insertionSort fun a b => a.1 ≤ b.1)

/-- `first or second`, for texts. -/
def orText (first : Option (List Char)) (second : List Char) : List Char :=
  match first with
  | some text => if text.isEmpty then second else text
  | none => second

def rejection_fingerprint (validator_id error_class json_pointer rule_id subject_atom : List Char) : String :=
  lib.digest (compactStrings [
    ("validator_id", validator_id),
    ("rule_id", orText (some (_normalize_atom lib rule_id)) "validation".toList),
    ("error_class", error_class),
    ("json_pointer", _to_json_pointer json_pointer),
    ("subject_atom", _normalize_atom lib subject_atom)])

structure ValidationRejectionAtom where
  validator_id : List Char
  rule_id : List Char
  error_class : List Char
  json_pointer : List Char
  subject_atom : List Char
  requirement : List Char
  fingerprint : String

/-- The keywords of `validation_rejection`. -/
structure Keywords where
  error_class : Option (List Char)
  path : Option (List Char)
  rule_id : Option (List Char)
  check_id : Option (List Char)
  json_pointer : Option (List Char)
  subject_atom : Option (List Char)

/-- The parts that tell one defect from another, before any of them is cleaned. -/
structure Defect where
  validator_id : List Char
  rule_id : List Char
  error_class : List Char
  json_pointer : List Char
  subject_atom : List Char
  deriving DecidableEq

def cleanPath (requirement : List Char) (kw : Keywords) : List Char :=
  orText kw.json_pointer (orText kw.path (_extract_path lib (Text.squashChars requirement)))

def defect (validator_id requirement : List Char) (kw : Keywords) : Defect :=
  let clean_requirement := Text.squashChars requirement
  let clean_path := cleanPath lib requirement kw
  let clean_class := orText kw.error_class (_classify_error lib clean_requirement)
  { validator_id
    rule_id := orText kw.rule_id (orText kw.check_id (orText (some (_extract_rule_id lib clean_requirement)) clean_class))
    error_class := clean_class
    json_pointer := _to_json_pointer clean_path
    subject_atom := orText kw.subject_atom (_extract_subject_atom lib clean_requirement clean_path) }

def _rejection_atom (validator_id requirement : List Char) (kw : Keywords) : ValidationRejectionAtom :=
  let d := defect lib validator_id requirement kw
  let clean_rule := orText (some (_normalize_atom lib d.rule_id)) "validation".toList
  let clean_subject := _normalize_atom lib d.subject_atom
  { validator_id
    rule_id := clean_rule
    error_class := d.error_class
    json_pointer := d.json_pointer
    subject_atom := clean_subject
    requirement := Text.squashChars requirement
    fingerprint := rejection_fingerprint lib validator_id d.error_class d.json_pointer clean_rule clean_subject }

end Lib

end Retry

end AiOrg

/-!
## Retry or stop

A rejection that has a fingerprint of the one before is permanent.
-/

namespace AiOrg

namespace Retry

structure ValidationRejection where
  validator_id : List Char
  error_class : List Char
  path : List Char
  requirement : List Char
  fingerprint : String
  atoms : List ValidationRejectionAtom

def ValidationRejection.atom_fingerprints (r : ValidationRejection) : List String :=
  if r.atoms.isEmpty then (if r.fingerprint = "" then [] else [r.fingerprint])
  else r.atoms.map ValidationRejectionAtom.fingerprint

inductive Classification
  | permanent | stochastic_recoverable
  deriving DecidableEq

structure RejectionDecision where
  classification : Classification
  rejection : ValidationRejection
  permanent : Bool
  repeated_fingerprints : List String

structure RejectionRetryState where
  previous_fingerprints : Finset String

def RejectionRetryState.init : RejectionRetryState := ⟨∅⟩

def RejectionRetryState.classify (state : RejectionRetryState) (rejection : ValidationRejection) :
    RejectionDecision × RejectionRetryState :=
  let current_fingerprints := rejection.atom_fingerprints.toFinset
  let repeated := (current_fingerprints ∩ state.previous_fingerprints).sort (· ≤ ·)
  let permanent := !repeated.isEmpty
  ({ classification := if permanent then .permanent else .stochastic_recoverable
     rejection
     permanent
     repeated_fingerprints := repeated }, ⟨current_fingerprints⟩)

structure Call where
  validator_id : List Char
  requirements : List (List Char)
  keywords : Keywords
  reported : requirements ≠ []

section Calls

variable (lib : Lib)

def Call.atoms (call : Call) : List ValidationRejectionAtom :=
  call.requirements.map fun item => _rejection_atom lib call.validator_id item call.keywords

theorem Call.atoms_ne_nil (call : Call) : call.atoms lib ≠ [] :=
  fun h => call.reported (List.map_eq_nil_iff.1 h)

def validation_rejection (call : Call) : ValidationRejection :=
  let first := (call.atoms lib).head (call.atoms_ne_nil lib)
  { validator_id := call.validator_id
    error_class := first.error_class
    path := first.json_pointer
    requirement := [';', ' '].intercalate ((call.atoms lib).map ValidationRejectionAtom.requirement)
    fingerprint := first.fingerprint
    atoms := call.atoms lib }

/-- The state after rejections, oldest first. -/
def stateAfter (calls : List Call) : RejectionRetryState :=
  calls.foldl (fun state call => (state.classify (validation_rejection lib call)).2) .init

/-- The decision on a rejection that comes after others. -/
def decisionAfter (earlier : List Call) (call : Call) : RejectionDecision :=
  ((stateAfter lib earlier).classify (validation_rejection lib call)).1

/-- The defects a rejection reports. -/
def Call.defects (call : Call) : List Defect :=
  call.requirements.map fun item => defect lib call.validator_id item call.keywords

def Defect.fingerprint (d : Defect) : String :=
  rejection_fingerprint lib d.validator_id d.error_class d.json_pointer
    (orText (some (_normalize_atom lib d.rule_id)) "validation".toList) (_normalize_atom lib d.subject_atom)

/-- Two rejections report one defect. -/
def Shares (call other : Call) : Prop := ∃ d ∈ call.defects lib, d ∈ other.defects lib

/-- The lower-case ASCII words of a text, as far as they fit. -/
def atomText (text : List Char) : List Char := (_normalize_atom lib text).rdropWhile (· = ' ')

/-- Two defects that differ in nothing but the case, the script and the punctuation of their rules and their subjects,
or in what comes after the first 160 characters of these, or in white space behind their pointers. -/
structure Alike (d e : Defect) : Prop where
  validator_id : d.validator_id = e.validator_id
  error_class : d.error_class = e.error_class
  json_pointer : Text.strip d.json_pointer = Text.strip e.json_pointer
  rule_id : orText (some (atomText lib d.rule_id)) "validation".toList =
    orText (some (atomText lib e.rule_id)) "validation".toList
  subject_atom : atomText lib d.subject_atom = atomText lib e.subject_atom

/-- A decision is permanent exactly if a defect of an earlier rejection is back, and different defects of the sequence
have different fingerprints. -/
structure Exact (calls : List Call) : Prop where
  permanent : ∀ earlier call later, calls = earlier ++ call :: later →
    ((decisionAfter lib earlier call).permanent = true ↔ ∃ old ∈ earlier, Shares lib call old)
  fresh : ∀ d ∈ calls.flatMap (Call.defects lib), ∀ e ∈ calls.flatMap (Call.defects lib),
    d ≠ e → d.fingerprint lib ≠ e.fingerprint lib

end Calls

end Retry

end AiOrg
