import AiOrg.Judge.Body
import AiOrg.Python.JsonPlain

/-!
# The commit that gave a node its value

A linear history of a body, the log of the commits that touch it, and the walk back from the anchor to the oldest
commit of the newest unbroken run with the target's value. The label of the version and the review rounds that name
the node are taken from the subject and from other files once the commit is found, and are not part of this.
-/

namespace AiOrg

namespace Judge

/-- What a log prints of a commit. -/
structure Commit where
  sha : List Char
  author_date : List Char
  committer_date : List Char
  subject : List Char
  deriving DecidableEq

def fieldSep : Char := '\x1f'
def recordSep : Char := '\x1e'

/-- One record of the format of `log_for_path`, with the line feed that the log puts behind it. -/
def Commit.render (c : Commit) : List Char :=
  [fieldSep].intercalate [c.sha, c.author_date, c.committer_date, c.subject] ++ [recordSep, '\n']

/-- `rec.strip("\n")`. -/
def stripLines (text : List Char) : List Char := (text.dropWhile (· = '\n')).rdropWhile (· = '\n')

def parseRecord (record : List Char) : Option Commit :=
  match (stripLines record).splitOn fieldSep with
  | [sha, author_date, committer_date, subject] =>
    if stripLines record = [] then none else some ⟨sha, author_date, committer_date, subject⟩
  | _ => none

structure Entry where
  commit : Commit
  blob : Option String

/-- A linear history, newest first. -/
structure Repo where
  history : List Entry
  distinct : (history.map fun e => e.commit.sha).Nodup

/-- The commits that change the body. -/
def touching : List Entry → List Entry
  | [] => []
  | e :: older => if e.blob = older.head?.bind Entry.blob then touching older else e :: touching older

def Repo.log_for_path (repo : Repo) : List Commit :=
  (((touching repo.history).flatMap fun e => e.commit.render).splitOn recordSep).filterMap parseRecord

def Repo.show_blob (repo : Repo) (sha : List Char) : Option String :=
  (repo.history.find? fun e => e.commit.sha = sha).bind Entry.blob

structure Target where
  node_id : String
  node_path : Path
  named : node_id ≠ ""

inductive ChangeKind
  | introduced | changed
  deriving DecidableEq

structure VersionLink where
  commit : List Char
  commit_subject : List Char
  committed_at : List Char
  parent_commit : List Char
  window_start : List Char
  window_end : List Char
  change_kind : ChangeKind
  deriving DecidableEq

section Resolve

variable (py : PyLib)

/-- The canonical value of the target in a body. -/
def valueIn (data : Json) (target : Target) : Option Json :=
  match find_node_by_id data target.node_id with
  | some node => some (canonical node)
  | none =>
    match navigate data target.node_path with
    | some .null | none => none
    | some node => some (canonical node)

def value_of_text (target : Target) : Option String → Except JsonError (Option Json)
  | none => .ok none
  | some text =>
    match loadsPlain py text with
    | .ok data => .ok (valueIn data target)
    | .error .decode => .ok none
    | .error e => .error e

def Repo.value_at_commit (repo : Repo) (target : Target) (c : Commit) : Except JsonError (Option Json) :=
  value_of_text py target (repo.show_blob c.sha)

def walkBack (value : Commit → Except JsonError (Option Json)) (anchor_value : Json) :
    Commit → List Commit → Except JsonError (Commit × Option Commit)
  | change, [] => .ok (change, none)
  | change, c :: older => do
    if (← value c) = some anchor_value then walkBack value anchor_value c older else return (change, some c)

def Repo.resolve_version (repo : Repo) (target : Target) : Except JsonError (Option VersionLink) :=
  match repo.log_for_path with
  | [] => .ok none
  | newest :: older => do
    match ← repo.value_at_commit py target newest with
    | none => return none
    | some anchor_value => do
      let (change, parent) ← walkBack (repo.value_at_commit py target) anchor_value newest older
      let parent_value ← match parent with
        | some parent => repo.value_at_commit py target parent
        | none => pure none
      return some {
        commit := change.sha
        commit_subject := change.subject
        committed_at := change.committer_date
        parent_commit := (parent.map Commit.sha).getD []
        window_start := (parent.map Commit.committer_date).getD []
        window_end := change.committer_date
        change_kind := if parent_value.isSome then .changed else .introduced }

def Entry.body (e : Entry) : Option Json := e.blob.bind fun text => (loadsPlain py text).toOption

/-- The body holds the node with this value. -/
def Entry.Gives (e : Entry) (node_id : String) (value : Json) : Prop :=
  ∃ data node, e.body py = some data ∧ Json.Within node data ∧ hasId node_id node = true ∧ canonical node = value

/-- The body holds a node with this `id`. -/
def Entry.Has (e : Entry) (node_id : String) : Prop := ∃ value, e.Gives py node_id value

/-- Something stands at a position of the body. -/
def Entry.Occupied (e : Entry) (path : Path) : Prop :=
  ∃ data node, e.body py = some data ∧ navigate data path = some node ∧ node ≠ .null

/-- The newest unbroken run of a value ends with a commit, before the older ones. -/
structure RunEnds (history : List Entry) (node_id : String) (value : Json) (change : Entry) (older : List Entry) :
    Prop where
  run : ∃ newer, history = newer ++ change :: older ∧ ∀ e ∈ newer ++ [change], e.Gives py node_id value
  stops : ∀ parent, older.head? = some parent → ¬ parent.Gives py node_id value

/-- The link reports the commit that gave the node its value, and that it introduced the node exactly if its parent
has no such node. -/
def Attributed (repo : Repo) (target : Target) (value : Json) : Prop :=
  ∃ change older link, RunEnds py repo.history target.node_id value change older ∧
    repo.resolve_version py target = .ok (some link) ∧ link.commit = change.commit.sha ∧
    (link.change_kind = .introduced ↔ ∀ parent, older.head? = some parent → ¬ parent.Has py target.node_id)

/-- At most one node of a body has a given `id`. -/
def UniqueIds (data : Json) : Prop :=
  ∀ node_id, (data.preorder.filter fun node => hasId node_id node).length ≤ 1

/-- A history whose bodies are JSON with unique ids, or are missing, and whose records the log can be split into. -/
structure Repo.Plain (repo : Repo) : Prop where
  readable : ∀ e ∈ repo.history, e.commit.sha ≠ [] ∧
    ∀ field ∈ [e.commit.sha, e.commit.author_date, e.commit.committer_date, e.commit.subject],
      fieldSep ∉ field ∧ recordSep ∉ field ∧ '\n' ∉ field
  json : ∀ e ∈ repo.history, ∀ text, e.blob = some text →
    (∃ data, loadsPlain py text = .ok data) ∨ loadsPlain py text = .error .decode
  unique : ∀ e ∈ repo.history, ∀ data, e.body py = some data → UniqueIds data

/-- The target is a node of the newest body. -/
def Target.AtAnchor (target : Target) (repo : Repo) (value : Json) : Prop :=
  ∃ newest older data node, repo.history = newest :: older ∧ newest.body py = some data ∧
    navigate data target.node_path = some node ∧ hasId target.node_id node = true ∧ canonical node = value

end Resolve

end Judge

end AiOrg
