import AiOrg.Order.RaisingSort
import AiOrg.Python.Int
import AiOrg.Python.Lines
import AiOrg.Reform.Commit

/-!
# The records of the rounds

A round is recorded in a file whose name has the number of the round in it. `_review_round_records` reads the files
of the branch back, then those that were left off git, and sorts what it has read as pairs of a number and a record.
-/

namespace AiOrg

namespace Review

def reviewRecordDir : String := "patch-series-review-rounds"

/-- The files of a branch by their paths, and those of the directory off git by their stems, with the value of each
that can be read. -/
structure RoundFiles where
  tree : List (String × String)
  offGit : List (String × Option Json)
  distinct : (tree.map Prod.fst).Nodup
  deriving DecidableEq

/-- `tree_files` under the directory of the records. -/
def recordPaths (files : RoundFiles) : List String :=
  (files.tree.map Prod.fst).filter fun path =>
    path = reviewRecordDir || (reviewRecordDir ++ "/").toList.isPrefixOf path.toList

/-- `Path(path).name`. -/
def nameOf (path : String) : List Char := (path.toList.splitOn '/').getLastD []

def isRecordName (name : List Char) : Bool :=
  "-direction-review-record.cue".toList.isSuffixOf name || "-direction-review-record.json".toList.isSuffixOf name

/-- `int(name.split("-", 2)[1])`. -/
def roundOfName (name : List Char) : Option ℤ := ((name.splitOn '-')[1]?).bind Text.pyInt

def legacy_path (path : String) : String :=
  if Reform.endsWith path [".cue"] then String.ofList (path.toList.take (path.length - 4)) ++ ".json" else path

/-- `m.setdefault(key, value)` on the mapping. -/
def setdefault (m : Fields) (key : String) (value : Json) : Fields := if m.contains key then m else m.set key value

section Read

-- `parse_record` of a text, `none` where it raises
variable (parse : String → Option Fields)

/-- `read_record`, `none` where it raises or there is no such file. -/
def read_record (files : RoundFiles) (path : String) : Option Fields :=
  let canonical := Reform.canonical_path path
  ((files.tree.lookup canonical).or (files.tree.lookup (legacy_path canonical))).bind parse

/-- The number and the record of a file of the branch. -/
def recordAt (files : RoundFiles) (path : String) : Option (ℤ × Fields) :=
  if isRecordName (nameOf path) then
    (roundOfName (nameOf path)).bind fun number =>
      (read_record parse files path).map fun parsed => (number, setdefault parsed "record_path" (.str path))
  else none

/-- The number of a file off git. -/
def roundOfStem (stem : String) : Option ℤ :=
  if (Text.partition "-author-".toList stem.toList).isSome then none
  else Text.pyInt (Text.removePrefix "round-".toList stem.toList)

/-- The loop over the files off git, with the records so far. -/
def addOffGit (directory : String) : List (ℤ × Fields) → List (String × Option Json) → List (ℤ × Fields)
  | records, [] => records
  | records, (stem, content) :: rest =>
    match roundOfStem stem, content with
    | some number, some (.obj parsed) =>
      if number ∈ records.map Prod.fst then addOffGit directory records rest
      else
        let record := setdefault (setdefault parsed "record_path" (.str (directory ++ stem ++ ".json")))
          "legacy_off_git_record" (.bool true)
        addOffGit directory (records ++ [(number, record)]) rest
    | _, _ => addOffGit directory records rest

/-- The records of the branch, as they are read. -/
def branchRecords (files : RoundFiles) : List (ℤ × Fields) := (recordPaths files).filterMap (recordAt parse files)

def readRecords (directory : String) (files : RoundFiles) : List (ℤ × Fields) :=
  addOffGit directory (branchRecords parse files) files.offGit

variable (py : PyLib)

/-- `a < b` on pairs of a number and a `dict`, which raises `TypeError` where it comes to the `dict`s. -/
def recordLt (a b : ℤ × Fields) : Except String Bool :=
  if a.1 ≠ b.1 then .ok (a.1 < b.1)
  else if py.compareOther .eq (.obj a.2) (.obj b.2) = some true then .ok false
  else .error "'<' not supported between instances of 'dict' and 'dict'"

/-- `sorted(records)`. -/
def sortedRecords (directory : String) (files : RoundFiles) : Except String (List (ℤ × Fields)) :=
  Selection.sortBy (recordLt py) [] (readRecords parse directory files)

def _review_round_records (directory : String) (files : RoundFiles) : Except String (List Fields) :=
  (sortedRecords parse py directory files).map fun records => records.map Prod.snd

/-- `int(record.get("round") or record.get("review_round") or 0)`, or zero. A finite float is cut to an integer by
`truncate`. -/
def _review_round_number (truncate : String → Option ℤ) (record : Fields) : ℤ :=
  let value := if (record.get "round").truthy then record.get "round"
    else if (record.get "review_round").truthy then record.get "review_round" else .int 0
  match value with
  | .int n => n
  | .bool b => b.toNat
  | .float text => (truncate text).getD 0
  | .str text => (Text.pyInt text.toList).getD 0
  | _ => 0

end Read

end Review

end AiOrg
