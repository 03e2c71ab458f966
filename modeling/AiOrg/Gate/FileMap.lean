import AiOrg.Python.Base64
import AiOrg.Python.Dict
import AiOrg.Python.Lines

/-!
# Placement of nested files

`_validate_nested_file_map` looks at the files that a split publishes. A manifest has to stand at a path that begins
with its `node_path`, where a blank one and the root's pass, and a child's directory has to hold a manifest and a
request. A path is not cut into its directories for the first test, so a manifest is placed well exactly where the
lengths fit (`well_placed_iff`).
-/

namespace AiOrg

open List

namespace FileMap

def NODE_MANIFEST_PATH : String := "patch-series-manifest.json"

def REQUEST_PATH : String := "maintainer-series-request.json"

def SUBDIR : String := "sub"

variable (py : PyLib)

/-- `isinstance(value, str)`. -/
def isStr : Json → Bool
  | .str _ => true
  | _ => false

def _valid_request_envelope : Json → Bool
  | .obj value =>
    match Fields.get value "request" with
    | .obj request => isStr (Fields.get value "id") && isStr (Fields.get value "submitted_at") &&
        isStr (Fields.get request "raw_request") && isStr (Fields.get request "working_title")
    | _ => false
  | _ => false

/-- `str(payload.get("node_path", ""))`. -/
def declared (payload : Fields) : String := py.str (payload.getD "node_path" (.str ""))

def isUnsafe (rel_path : String) : Bool :=
  "/".toList <+: rel_path.toList || "/../".toList <:+: '/' :: rel_path.toList ++ ['/'] || rel_path = ".." || rel_path = "."

/-- Whether a path is under `sub`, and the child's directory where it names one. -/
def childOf (rel_path : String) : Option (Option String) :=
  if "sub/".toList <+: rel_path.toList then
    match rel_path.toList.splitOn '/' with
    | _ :: key :: _ :: _ => some (if key = [] then none else some ("sub/" ++ String.ofList key))
    | _ => some none
  else none

def manifestErrors (rel_path : String) : Json → List String
  | .obj payload =>
    if declared py payload ∉ ["", "."] ∧ ¬ (declared py payload).toList <+: rel_path.toList then
      [rel_path ++ " does not match manifest node_path " ++ py.str (Fields.get payload "node_path")]
    else []
  | _ => [rel_path ++ " must be an object"]

def fileErrors (rel_path : String) (payload : Json) : List String :=
  (if isUnsafe rel_path then ["unsafe path: " ++ rel_path] else []) ++
  (if childOf rel_path = some none then ["malformed child path: " ++ rel_path] else []) ++
  (if NODE_MANIFEST_PATH.toList <:+ rel_path.toList then manifestErrors py rel_path payload else []) ++
  (if REQUEST_PATH.toList <:+ rel_path.toList && !_valid_request_envelope payload then
    [rel_path ++ " is not a submit.py inbox request envelope"] else [])

/-- The errors of one child's directory. -/
def childErrors (files : Fields) (child_path : String) : List String :=
  (if files.contains (child_path ++ "/" ++ NODE_MANIFEST_PATH) then []
    else [child_path ++ " missing " ++ NODE_MANIFEST_PATH]) ++
  (if files.contains (child_path ++ "/" ++ REQUEST_PATH) then [] else [child_path ++ " missing " ++ REQUEST_PATH])

def childPaths (files : Fields) : List String := files.filterMap fun file => (childOf file.1).join

/-- The errors; a map of files is accepted without one. -/
def _validate_nested_file_map (files : Fields) : List String :=
  files.flatMap (fun file => fileErrors py file.1 file.2) ++
    (sorted (childPaths files).dedup).flatMap (childErrors files)

def ManifestAt (rel_path directory : String) : Prop :=
  rel_path = NODE_MANIFEST_PATH ∧ directory = "." ∨ rel_path = directory ++ "/" ++ NODE_MANIFEST_PATH

/-- Manifests stand in the directories that they declare, and the directory of a child has its two files. -/
structure WellPlaced (files : Fields) : Prop where
  manifest : ∀ rel_path payload directory, (rel_path, .obj payload) ∈ files → ManifestAt rel_path directory →
    declared py payload = directory
  child : ∀ rel_path payload key rest, (rel_path, payload) ∈ files → '/' ∉ key.toList →
    rel_path = "sub/" ++ key ++ "/" ++ rest →
    files.contains ("sub/" ++ key ++ "/" ++ NODE_MANIFEST_PATH) = true ∧
      files.contains ("sub/" ++ key ++ "/" ++ REQUEST_PATH) = true
  sibling : ∀ rel_path payload directory, (rel_path, .obj payload) ∈ files → ManifestAt rel_path directory →
    (declared py payload).toList <+: directory.toList → declared py payload = directory

/-- A manifest that declares the root is the root's. The path of any other is longer than what it declares by a
slash and the name of the file. -/
def LengthsFit (files : Fields) : Prop :=
  ∀ rel_path payload directory, (rel_path, .obj payload) ∈ files → ManifestAt rel_path directory →
    if declared py payload = "." then rel_path = NODE_MANIFEST_PATH ∨ rel_path = "./" ++ NODE_MANIFEST_PATH
    else rel_path.length = (declared py payload).length + 1 + NODE_MANIFEST_PATH.length

variable {py} {files : Fields} {rel_path directory : String}

theorem fileErrors_eq_nil (h : _validate_nested_file_map py files = []) {payload : Json}
    (hmem : (rel_path, payload) ∈ files) : fileErrors py rel_path payload = [] := by
  rw [_validate_nested_file_map, append_eq_nil_iff, flatMap_eq_nil_iff] at h
  exact h.1 (rel_path, payload) hmem

theorem childErrors_eq_nil (h : _validate_nested_file_map py files = []) {child_path : String}
    (hmem : child_path ∈ childPaths files) : childErrors files child_path = [] := by
  rw [_validate_nested_file_map, append_eq_nil_iff, flatMap_eq_nil_iff, flatMap_eq_nil_iff] at h
  exact h.2 _ (mem_sorted.2 (mem_dedup.2 hmem))

theorem ManifestAt.suffix (h : ManifestAt rel_path directory) : NODE_MANIFEST_PATH.toList <:+ rel_path.toList := by
  rcases h with ⟨rfl, -⟩ | rfl
  · exact suffix_rfl
  · rw [String.toList_append]
    exact suffix_append _ _

theorem ManifestAt.length (h : ManifestAt rel_path directory) : rel_path = NODE_MANIFEST_PATH ∧ directory = "." ∨
    rel_path.length = directory.length + 1 + NODE_MANIFEST_PATH.length := by
  refine h.imp_right fun heq => ?_
  rw [heq, String.length_append, String.length_append]
  rfl

theorem declared_prefix (h : _validate_nested_file_map py files = []) {payload : Fields}
    (hmem : (rel_path, .obj payload) ∈ files) (hat : ManifestAt rel_path directory) :
    declared py payload = "" ∨ declared py payload = "." ∨ (declared py payload).toList <+: rel_path.toList := by
  have herrors := fileErrors_eq_nil h hmem
  simp only [fileErrors, append_eq_nil_iff, if_pos hat.suffix, manifestErrors] at herrors
  by_contra hnot
  obtain ⟨hblank, hroot, hprefix⟩ := by simpa only [not_or] using hnot
  have hbad : declared py payload ∉ ["", "."] ∧ ¬ (declared py payload).toList <+: rel_path.toList :=
    ⟨by simp [hblank, hroot], hprefix⟩
  rw [if_pos hbad] at herrors
  exact absurd herrors.1.2 (cons_ne_nil _ _)

theorem childOf_eq {key rest : String} (hkey : '/' ∉ key.toList) :
    childOf ("sub/" ++ key ++ "/" ++ rest) = some (if key = "" then none else some ("sub/" ++ key)) := by
  have htext : ("sub/" ++ key ++ "/" ++ rest).toList = "sub".toList ++ '/' :: (key.toList ++ '/' :: rest.toList) := by
    simp [String.toList_append]
  have hprefix : "sub/".toList <+: ("sub/" ++ key ++ "/" ++ rest).toList :=
    ⟨key.toList ++ '/' :: rest.toList, by simp [String.toList_append]⟩
  obtain ⟨first, others, hrest⟩ := exists_cons_of_ne_nil (splitOn_ne_nil '/' rest.toList)
  have hsplit : ("sub/" ++ key ++ "/" ++ rest).toList.splitOn '/' = "sub".toList :: key.toList :: first :: others := by
    rw [htext, splitOn_append_cons_self, splitOn_append_cons_self, splitOn_eq_singleton hkey, hrest,
      splitOn_eq_singleton (by simp)]
    rfl
  rw [childOf, if_pos hprefix, hsplit]
  dsimp only
  simp only [String.toList_eq_nil_iff, String.ofList_toList]

theorem child_complete (h : _validate_nested_file_map py files = []) {payload : Json} {key rest : String}
    (hmem : (rel_path, payload) ∈ files) (hkey : '/' ∉ key.toList) (hpath : rel_path = "sub/" ++ key ++ "/" ++ rest) :
    files.contains ("sub/" ++ key ++ "/" ++ NODE_MANIFEST_PATH) = true ∧
      files.contains ("sub/" ++ key ++ "/" ++ REQUEST_PATH) = true := by
  have hchild := @childOf_eq key rest hkey
  rw [← hpath] at hchild
  have herrors := fileErrors_eq_nil h hmem
  simp only [fileErrors, append_eq_nil_iff] at herrors
  by_cases hempty : key = ""
  · rw [if_pos hempty] at hchild
    rw [if_pos hchild] at herrors
    exact absurd herrors.1.1.2 (cons_ne_nil _ _)
  · rw [if_neg hempty] at hchild
    have hpaths : "sub/" ++ key ∈ childPaths files :=
      mem_filterMap.2 ⟨(rel_path, payload), hmem, by rw [hchild]; rfl⟩
    have hboth := childErrors_eq_nil h hpaths
    rw [childErrors, append_eq_nil_iff] at hboth
    constructor
    · by_contra hmissing
      rw [if_neg hmissing] at hboth
      exact absurd hboth.1 (cons_ne_nil _ _)
    · by_contra hmissing
      rw [if_neg hmissing] at hboth
      exact absurd hboth.2 (cons_ne_nil _ _)

theorem declared_eq (h : _validate_nested_file_map py files = []) (hfit : LengthsFit py files) {payload : Fields}
    (hmem : (rel_path, .obj payload) ∈ files) (hat : ManifestAt rel_path directory) :
    declared py payload = directory := by
  have hlength := hfit rel_path payload directory hmem hat
  split_ifs at hlength with hroot
  · rw [hroot]
    rcases hlength with rfl | rfl <;> rcases hat with ⟨hname, rfl⟩ | hname
    · rfl
    · have hlen := congrArg String.length hname
      simp only [String.length_append] at hlen
      have hslash : "/".length = 1 := rfl
      omega
    · rfl
    · rw [show "./" = "." ++ "/" from rfl, String.append_assoc, String.append_assoc] at hname
      exact String.append_left_inj _ |>.1 hname
  · rcases hat.length with ⟨rfl, -⟩ | hdirectory
    · omega
    · rcases hat with ⟨rfl, rfl⟩ | hpath
      · simp at hdirectory
      have hsame : (declared py payload).length = directory.length := by omega
      rcases declared_prefix h hmem (.inr hpath) with hblank | hroot' | hprefix
      · rw [hblank] at hsame ⊢
        exact (String.length_eq_zero_iff.1 hsame.symm).symm
      · exact absurd hroot' hroot
      · have hprefix' : directory.toList <+: rel_path.toList := by
          rw [hpath, String.append_assoc, String.toList_append]
          exact prefix_append _ _
        have heq := prefix_of_prefix_length_le hprefix hprefix' (by rw [String.length_toList, String.length_toList, hsame])
        exact String.toList_inj.1 (heq.eq_of_length (by rw [String.length_toList, String.length_toList, hsame]))

/-- The manifests of an accepted map stand in the directories that they declare exactly where the lengths fit. The
directories of children are complete in any case. -/
theorem well_placed_iff (h : _validate_nested_file_map py files = []) : WellPlaced py files ↔ LengthsFit py files := by
  constructor
  · intro hplaced rel_path payload directory hmem hat
    have hdeclared := hplaced.manifest rel_path payload directory hmem hat
    split_ifs with hroot
    · rcases hat with ⟨hname, -⟩ | hname
      · exact .inl hname
      · rw [← hdeclared, hroot] at hname
        exact .inr hname
    · rcases hat.length with ⟨-, hdot⟩ | hlength
      · exact absurd (hdeclared.trans hdot) hroot
      · rw [hlength, hdeclared]
  · intro hfit
    exact ⟨fun _ _ _ => declared_eq h hfit, fun _ _ _ _ => child_complete h,
      fun _ _ _ hmem hat _ => declared_eq h hfit hmem hat⟩

section Example

def sampleRequest : Json :=
  .obj [("id", .str "0001-ab"), ("submitted_at", .str ""),
    ("request", .obj [("raw_request", .str "Rooms."), ("working_title", .str "Rooms")])]

/-- The two files of a child whose manifest declares a path. -/
def sampleFiles (node_path : String) : Fields :=
  [("sub/ab/maintainer-series-request.json", sampleRequest),
    ("sub/ab/patch-series-manifest.json", .obj [("node_path", .str node_path)])]

/-- The node `sub/a` is accepted in the directory `sub/ab`. -/
theorem sibling_accepted : _validate_nested_file_map asciiLib (sampleFiles "sub/a") = [] ∧
    ¬ WellPlaced asciiLib (sampleFiles "sub/a") := by
  refine ⟨by decide +kernel, fun h => ?_⟩
  have hat : ManifestAt "sub/ab/patch-series-manifest.json" "sub/ab" := .inr (by decide)
  have heq := h.manifest _ [("node_path", .str "sub/a")] _ (by simp [sampleFiles]) hat
  exact absurd heq (by decide)

/-- The law at a child in its own directory. -/
theorem well_placed_iff_sample :
    WellPlaced asciiLib (sampleFiles "sub/ab") ↔ LengthsFit asciiLib (sampleFiles "sub/ab") :=
  well_placed_iff (by decide +kernel)

end Example

end FileMap

end AiOrg
