import AiOrg.Git.History
import AiOrg.PatchAuthor.Drive

/-!
# The trailers of an item commit

`_commit_item` writes what an item is bound to as trailers of the commit, and `item_commit_trace` reads the item back
from the subject and its obligations from the trailers. What git does to a message and what a line is for Python stand
between the two.
-/

namespace AiOrg

namespace ItemTrace

open CodeWorker (Brief itemSubject)

def TASK_BINDING_DIGEST_TRAILER : String := "Producer-Task-Binding-SHA256"

def TASK_BINDING_COMMIT_OID_TRAILER : String := "Producer-Task-Binding-Commit-OID"

def OBLIGATION_ID_TRAILER : String := "Production-Obligation-ID"

def ITEM_TRACE_TRAILER_KEYS : List String := [TASK_BINDING_DIGEST_TRAILER, OBLIGATION_ID_TRAILER]

/-- `re.fullmatch(r"[0-9a-f]{64}", text)`. -/
def isDigest (text : String) : Bool :=
  text.length = 64 && text.toList.all fun c => ('0' ≤ c && c ≤ '9') || ('a' ≤ c && c ≤ 'f')

def nonEmptyText : Json → Option String
  | .str text => if text = "" then none else some text
  | _ => none

def trailerLine (key value : String) : String := key ++ ": " ++ value

def item_binding_trailers (binding_body_sha256 : String) : Json → Except String (List String)
  | .arr items =>
    if !isDigest binding_body_sha256 then .error "item binding digest must be a lowercase SHA-256"
    else if items = [] then .error "item binding obligation ids are missing"
    else
      match items.mapM nonEmptyText with
      | none => .error "item binding obligation ids must be non-empty strings"
      | some ids =>
        if ids.Nodup then
          .ok (trailerLine TASK_BINDING_DIGEST_TRAILER binding_body_sha256 :: ids.map (trailerLine OBLIGATION_ID_TRAILER))
        else .error "item binding obligation ids must be unique"
  | _ =>
    if !isDigest binding_body_sha256 then .error "item binding digest must be a lowercase SHA-256"
    else .error "item binding obligation ids must be a list or tuple"

structure Item where
  item_id : String
  kind : String
  referenced_node_ids : List String
  files_touched_so_far : List String
  repair_rounds : ℕ

/-- What `_commit_item` reads of the task binding of a producer. -/
structure Binding where
  body_sha256 : String
  obligation_ids_by_item : Json

/-- `", ".join(texts) or "none"`. -/
def orNone (texts : List String) : String :=
  if ", ".intercalate texts = "" then "none" else ", ".intercalate texts

/-- The explanatory lines. -/
def explanation (item : Item) : List String :=
  ["Patch-plan item: " ++ item.item_id ++ " (" ++ item.kind ++ ")",
    "Referenced approach nodes: " ++ orNone item.referenced_node_ids,
    "Files previously touched on this branch: " ++ orNone item.files_touched_so_far,
    "Repair rounds used: " ++ toString item.repair_rounds]

def bodyLines (item : Item) : Option Binding → Except String (List String)
  | none => .ok (explanation item)
  | some binding =>
    match binding.obligation_ids_by_item with
    | .obj obligations =>
      if Fields.contains obligations item.item_id then
        (item_binding_trailers binding.body_sha256 (Fields.get obligations item.item_id)).map fun trailers =>
          explanation item ++ "" :: trailers
      else .ok (explanation item)
    | _ => .error "producer task binding item obligations are not a mapping"

/-- Lines without the space behind them, without empty lines at the ends and with one between two others. -/
def stripspace (written empties : Bool) : List (List Char) → List (List Char)
  | [] => []
  | line :: lines =>
    let kept := line.rdropWhile Git.isSpace
    if kept = [] then stripspace written true lines
    else (if written && empties then [[]] else []) ++ kept :: stripspace true false lines

/-- The lines of the message of `git commit -m subject -m body`. -/
def messageLines (subject body : List Char) : List (List Char) :=
  stripspace false false ((subject ++ '\n' :: '\n' :: body).splitOn '\n')

/-- `_commit_item`: the message of the commit. A text with a null byte cannot be an argument of a process. -/
def _commit_item (py : PyLib) (brief : Brief) (item : Item) (binding : Option Binding) : Except String (List Char) := do
  let lines ← bodyLines item binding
  let subject := (itemSubject py brief item.item_id).toList
  let body := Text.joinLines (lines.map String.toList)
  if Char.ofNat 0 ∈ subject ++ body then .error "embedded null byte"
  else .ok (Text.joinLines (messageLines subject body) ++ ['\n'])

/-- `commit_message`: what git prints, as text. -/
def commit_message (message : List Char) : List Char :=
  (CodeWorker.universalNewlines (message ++ ['\n'])).rdropWhile (· = '\n')

/-- `_TRAILER_LINE.fullmatch`, the key and the stripped value. -/
def matchTrailer (line : List Char) : Option (String × String) :=
  let key := line.takeWhile fun c => c.isAlphanum || c == '-'
  match line.drop key.length with
  | ':' :: value =>
    if key = [] ∨ '\n' ∈ value then none
    else some (String.ofList key, String.ofList (Text.strip (value.dropWhile fun c => c == ' ' || c == '\t')))
  | _ => none

def _message_trailers (message : List Char) : List (String × String) :=
  let lines := (Text.splitlines (message.rdropWhile (· = '\n'))).reverse
  let block := lines.takeWhile fun line => (matchTrailer line).isSome
  match lines.drop block.length with
  | [] => (block.filterMap matchTrailer).reverse
  | line :: _ => if Text.strip line = [] then (block.filterMap matchTrailer).reverse else []

structure TraceRow where
  item_id : String
  commit_oid : String
  task_binding_body_sha256 : String
  production_obligation_ids : List String
  deriving DecidableEq

def valuesOf (trailers : List (String × String)) (key : String) : List String :=
  (trailers.filter fun trailer => trailer.1 = key).map Prod.snd

/-- `subject.rsplit("[", 1)[1][:-1]`. -/
def bracketed (subject : List Char) : List Char := (subject.rtakeWhile (· ≠ '[')).dropLast

def commitTrace (binding_body_sha256 : String) (commit : String × List Char) : Except String (Option TraceRow) :=
  let message := commit_message commit.2
  let trailers := _message_trailers message
  match Text.splitlines message with
  | [] => .ok none
  | subject :: _ =>
    let digests := valuesOf trailers TASK_BINDING_DIGEST_TRAILER
    if digests = [] then .ok none
    else if TASK_BINDING_COMMIT_OID_TRAILER ∈ trailers.map Prod.fst then
      .error ("bound item commit stores the binding commit OID at " ++ commit.1)
    else
      let unsupported_keys := sorted ((trailers.map Prod.fst).filter (· ∉ ITEM_TRACE_TRAILER_KEYS)).dedup
      if unsupported_keys ≠ [] then
        .error ("bound item commit stores unsupported trailers at " ++ commit.1 ++ ": " ++ ", ".intercalate unsupported_keys)
      else if '[' ∉ subject ∨ subject.getLast? ≠ some ']' then
        .error ("bound item commit subject is missing its item id at " ++ commit.1)
      else if digests ≠ [binding_body_sha256] then .error ("bound item commit digest mismatch at " ++ commit.1)
      else
        let obligation_ids := valuesOf trailers OBLIGATION_ID_TRAILER
        match item_binding_trailers binding_body_sha256 (.arr (obligation_ids.map .str)) with
        | .error detail => .error ("bound item commit has invalid trailers at " ++ commit.1 ++ ": " ++ detail)
        | .ok _ => .ok (some ⟨String.ofList (bracketed subject), commit.1, binding_body_sha256, obligation_ids⟩)

def item_commit_trace (binding_body_sha256 : String) : List (String × List Char) → Except String (List TraceRow)
  | [] => .ok []
  | commit :: commits => do
    let row ← commitTrace binding_body_sha256 commit
    let rows ← item_commit_trace binding_body_sha256 commits
    return row.toList ++ rows

def firstLine (title : List Char) : List Char :=
  (if '\n' ∈ title then (title.takeWhile (· ≠ '\n')).rdropWhile Git.isSpace else title).takeWhile
    fun c => !Text.isLineBoundary c

def title (py : PyLib) (brief : Brief) : String := py.strOr (brief.cover_letter.get "working_title") brief.series_branch

/-- The subject ends in the item. -/
def Bracketed (title item_id : List Char) : Prop :=
  '[' ∉ item_id ∧ Text.Plain item_id ∧ (Text.Plain title ∨ '[' :: (item_id ++ [']']) <:+ firstLine title)

/-- An obligation is one trimmed line. -/
def OneLine (id : String) : Prop := Text.Plain id.toList ∧ Text.Trimmed id.toList

end ItemTrace

end AiOrg
