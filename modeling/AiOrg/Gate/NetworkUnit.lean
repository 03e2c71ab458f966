import AiOrg.Gate.FileMap
import AiOrg.Gate.Stale

/-!
# Completing a network unit

A transition of a branch is completed before it is published: `_complete_network_unit` writes the children of the
ledger again from the manifests. A stale child keeps its entry, and every other one gets the projection of its manifest.
-/

namespace AiOrg

open List

namespace NetworkUnit

open FileMap (NODE_MANIFEST_PATH)

variable (py : PyLib)

def LEDGER_PATH : String := "series-coverage-ledger.json"

/-- `text.rstrip("/")`. -/
def rstripSlash (text : String) : String := String.ofList (text.toList.rdropWhile (· = '/'))

/-- `Path(path).name`. -/
def nameOf (path : String) : String := String.ofList (((rstripSlash path).toList.splitOn '/').getLastD [])

def _node_file (node_path rel_path : String) : String :=
  if node_path ∈ ["", "."] then rel_path else rstripSlash node_path ++ "/" ++ rel_path

/-- One edge, without `None`. -/
def representedEdge (edge : Fields) : Fields :=
  ["to", "with", "state", "or_group", "when", "reason"].foldl
    (fun encoded field => if encoded.get field = .null then encoded.set field (.str "") else encoded) edge

def _network_representation_edges : Json → List Json
  | .arr edges => edges.filterMap fun
    | .obj edge => some (.obj (representedEdge edge))
    | _ => none
  | _ => []

/-- `list(fields[key])` where it is a list, and the empty list otherwise. -/
def listField (fields : Fields) (key : String) : Json :=
  match fields.get key with
  | .arr items => .arr items
  | _ => .arr []

/-- `str(child.get("child_key") or Path(node_path).name)`. -/
def childKey (child : Fields) : String :=
  py.strOr (child.get "child_key") (nameOf (py.strOr (child.get "node_path") ""))

def _ledger_child_projection (child : Fields) : Fields :=
  let node_path := py.strOr (child.get "node_path") ""
  [("id", .str (py.strOr (child.get "id") "")),
    ("serial_id", .str (py.strOr (child.get "serial_id") "")),
    ("child_key", .str (childKey py child)),
    ("node_path", .str node_path),
    ("address", .str (py.strOr (child.get "address") "")),
    ("allowed_subtree", .str (py.strOr (child.get "allowed_subtree") (rstripSlash node_path ++ "/"))),
    ("contrib_branch", .str (py.strOr (child.get "contrib_branch") "")),
    ("lifecycle_status", .str (py.strOr (child.get "lifecycle_status") "posted_to_mailing_list")),
    ("edges", listField child "edges"),
    ("scope_item_ids", listField child "scope_item_ids")]

/-- The fields of one mapping that are taken over from another. -/
def takeOver (current : Fields) (merged : Fields) (fields : List String) : Fields :=
  fields.foldl (fun merged field => merged.set field (current.get field)) merged

def _merge_ledger_child (existing : Option Fields) (current : Fields) (prefer_current_rich : Bool) : Fields :=
  let merged := _ledger_child_projection py ((existing.filter (· ≠ [])).getD current)
  let current_projection := _ledger_child_projection py current
  let merged := takeOver current_projection merged ["child_key", "node_path", "lifecycle_status", "edges"]
  takeOver current_projection merged
    (["id", "serial_id", "address", "allowed_subtree", "contrib_branch", "scope_item_ids"].filter fun field =>
      prefer_current_rich || (current_projection.get field).truthy)

def childDirectory (path : String) : Option String :=
  let suffix := '/' :: NODE_MANIFEST_PATH.toList
  if suffix <:+ path.toList ∧ path.length ≠ suffix.length then
    some (String.ofList (path.toList.take (path.length - suffix.length)))
  else none

def childManifests (files : Fields) : List (String × Fields) :=
  files.filterMap fun file =>
    match childDirectory file.1, file.2 with
    | some directory, .obj manifest => some (directory, manifest)
    | _, _ => none

def sortKey (item : String × Fields) : String := py.strOr (item.2.get "child_key") item.1

/-- The key of a child: that of its manifest, or the name of its directory. -/
def unitKey (item : String × Fields) : String := py.strOr (item.2.get "child_key") (nameOf item.1)

/-- `str(child.get("child_key") or "")` and the child. -/
def keyedChild : Json → Option (String × Fields)
  | .obj child => some (py.strOr (Fields.get child "child_key") "", child)
  | _ => none

/-- A list of children by their keys, the last one for a key; `none` where it cannot be iterated. -/
def childrenByKey (value : Json) : Option (List (String × Fields)) :=
  value.iter.map fun children => dictOfEntries (children.filterMap (keyedChild py))

/-- The manifest of a child with its edges as they are represented. -/
def representedManifest (manifest : Fields) : Fields :=
  manifest.set "edges" (.arr (_network_representation_edges (manifest.getD "edges" (.arr []))))

/-- The entry of a child in the completed ledger. -/
def ledgerChild (root_by_key ledger_by_key : List (String × Fields)) (item : String × Fields) : Fields :=
  let key := unitKey py item
  let existing := ledger_by_key.lookup key
  if item.2.get "lifecycle_status" = .str "stale" ∧ (root_by_key.lookup key).isSome ∧ existing.isSome then
    (existing.getD []).set "edges" (.arr (_network_representation_edges ((existing.getD []).getD "edges" (.arr []))))
  else _merge_ledger_child py existing (representedManifest item.2) true

/-- `ledger_children` of `_complete_network_unit`, `none` where it raises. -/
def ledgerChildren (files : Fields) : Option (List Fields) :=
  match files.get NODE_MANIFEST_PATH, files.get LEDGER_PATH with
  | .obj root, .obj ledger => do
    let root_by_key ← childrenByKey py (Fields.getD root "children" (.arr []))
    let ledger_by_key ← childrenByKey py (Fields.getD ledger "children" (.arr []))
    return ((childManifests files).insertionSort fun a b => sortKey py a ≤ sortKey py b).map
      (ledgerChild py root_by_key ledger_by_key)
  | _, _ => none

def Keyed (children : List Fields) : Prop :=
  ∃ keys : List String, keys.Nodup ∧ (children.map fun child => child.get "child_key") = keys.map .str

structure Pairwise (files : Fields) (children : List Fields) : Prop where
  keyed : Keyed children
  coordinate : ∀ directory manifest, (directory, manifest) ∈ childManifests files →
    manifest.get "node_path" = .str directory

structure Repository where
  branch : String
  files : Fields
  ledgers : String → Json

/-- The ledger in which a child of the branch has its entry. -/
def Repository.ledgerOf (repo : Repository) (parent : String) : Json :=
  if parent = repo.branch then repo.files.get LEDGER_PATH else repo.ledgers parent

/-- `str(metadata.get("parent_branch", branch))`. -/
def parentBranch (repo : Repository) (metadata : Fields) : String :=
  py.str (metadata.getD "parent_branch" (.str repo.branch))

/-- The files with the manifest that `_write_node_manifest` writes. -/
def changed (files updated : Fields) : Fields :=
  files.set (_node_file (py.strOr (updated.get "node_path") ".") NODE_MANIFEST_PATH) (.obj updated)

def entryOf (ledger : Json) (key : String) : Option Fields :=
  match ledger with
  | .obj ledger => (childrenByKey py (Fields.getD ledger "children" (.arr []))).bind (·.lookup key)
  | _ => none

/-- A branch after the publication of a manifest: its ledger has the children of the completed unit. -/
structure Published (repo : Repository) (updated : Fields) (repo' : Repository) : Prop where
  branch : repo'.branch = repo.branch
  others : repo'.ledgers = repo.ledgers
  children : ∃ children ledger, ledgerChildren py (changed py repo.files updated) = some children ∧
    Pairwise (changed py repo.files updated) children ∧
    repo'.files.get LEDGER_PATH = .obj ledger ∧ Fields.get ledger "children" = .arr (children.map .obj)

/-- The fields of an entry that the parent and the child have to agree on. -/
def contractFields : List String :=
  ["id", "serial_id", "child_key", "node_path", "address", "allowed_subtree", "contrib_branch", "edges", "scope_item_ids"]

def SameContract (before after : Option Fields) : Prop :=
  ∀ field ∈ contractFields, before.map (fun entry => entry.get field) = after.map fun entry => entry.get field

def Represents (entry : Option Fields) (manifest : Fields) : Prop :=
  SameContract entry (some (_ledger_child_projection py (representedManifest manifest)))

/-! ### Entries -/

variable {py} {updated metadata current : Fields} {files : Fields} {directory : String}

theorem lookup_takeOver (current merged : Fields) (fields : List String) (key : String) :
    (takeOver current merged fields).lookup key = if key ∈ fields then some (current.get key) else merged.lookup key := by
  induction fields generalizing merged with
  | nil => simp [takeOver]
  | cons field fields ih =>
    unfold takeOver at ih ⊢
    rw [foldl_cons, ih, Fields.lookup_set]
    by_cases hmem : key ∈ fields
    · simp [hmem]
    · by_cases heq : key = field <;> simp [hmem, heq]

theorem get_merge (existing : Option Fields) (current : Fields) {key : String}
    (hkey : key ∈ contractFields ∨ key = "lifecycle_status") :
    (_merge_ledger_child py existing current true).get key = (_ledger_child_projection py current).get key := by
  have hfields : key ∈ ["child_key", "node_path", "lifecycle_status", "edges"] ∨
      key ∈ ["id", "serial_id", "address", "allowed_subtree", "contrib_branch", "scope_item_ids"] := by
    simp only [contractFields, mem_cons, not_mem_nil, or_false] at hkey ⊢
    tauto
  rw [_merge_ledger_child, Fields.get, lookup_takeOver, lookup_takeOver]
  simp only [Bool.true_or, filter_true]
  split_ifs with hrich hplain
  · rfl
  · rfl
  · exact absurd hfields (not_or.2 ⟨hplain, hrich⟩)

theorem childDirectory_eq (h : directory ≠ "") : childDirectory (directory ++ "/" ++ NODE_MANIFEST_PATH) = some directory := by
  have htext : (directory ++ "/" ++ NODE_MANIFEST_PATH).toList = directory.toList ++ '/' :: NODE_MANIFEST_PATH.toList := by
    simp
  have hpos : 0 < directory.length := Nat.pos_of_ne_zero fun hzero => h (String.length_eq_zero_iff.1 hzero)
  have hlength : (directory ++ "/" ++ NODE_MANIFEST_PATH).length =
      directory.length + ('/' :: NODE_MANIFEST_PATH.toList).length := by
    rw [← String.length_toList, htext, length_append, String.length_toList]
  unfold childDirectory
  dsimp only
  rw [if_pos ⟨htext ▸ suffix_append _ _, by omega⟩, hlength, Nat.add_sub_cancel, htext, ← String.length_toList,
    take_left', String.ofList_toList]
  rfl

theorem mem_childManifests (h : directory ≠ "")
    (hfile : files.lookup (directory ++ "/" ++ NODE_MANIFEST_PATH) = some (.obj metadata)) :
    (directory, metadata) ∈ childManifests files := by
  refine mem_filterMap.2 ⟨_, mem_of_lookup hfile, ?_⟩
  dsimp only
  rw [childDirectory_eq h]

theorem childKey_eq_unitKey (h : metadata.get "node_path" = .str directory) :
    childKey py metadata = unitKey py (directory, metadata) := by
  rw [childKey, unitKey, h, py.strOr_str]

theorem revalidate_stale_blocked {ledger : Json} {address ledger_commit parent_commit : String}
    (h : Stale.revalidate_stale py ledger address ledger_commit parent_commit metadata = some (.blocked updated)) :
    updated = (metadata.set "lifecycle_status" (.str "blocked:parent-rebaseline-changed")).set
      "parent_rebaseline_ledger_commit" (.str ledger_commit) := by
  unfold Stale.revalidate_stale at h
  split at h
  · cases h
  · split at h
    · split at h
      · split at h
        · obtain ⟨unchanged, -, hunchanged⟩ := Option.map_eq_some_iff.1 h
          split_ifs at hunchanged
          exact (Stale.Outcome.blocked.inj hunchanged).symm
        · exact (Stale.Outcome.blocked.inj (Option.some.inj h)).symm
      · cases h
    · cases h

theorem get_blocked {ledger_commit key : String} (hkey : key ∉ ["lifecycle_status", "parent_rebaseline_ledger_commit"]) :
    ((metadata.set "lifecycle_status" (.str "blocked:parent-rebaseline-changed")).set "parent_rebaseline_ledger_commit"
      (.str ledger_commit)).lookup key = metadata.lookup key := by
  simp only [mem_cons, not_mem_nil, or_false, not_or] at hkey
  rw [Fields.lookup_set, if_neg hkey.2, Fields.lookup_set, if_neg hkey.1]

theorem get_projection_congr {other : Fields} {key : String} (hkey : key ∈ contractFields)
    (h : ∀ field ∈ contractFields, other.lookup field = metadata.lookup field) :
    (_ledger_child_projection py (representedManifest other)).get key =
      (_ledger_child_projection py (representedManifest metadata)).get key := by
  have hrep : ∀ field ∈ contractFields, (representedManifest other).get field = (representedManifest metadata).get field := by
    intro field hfield
    have hedges : other.lookup "edges" = metadata.lookup "edges" := h "edges" (by simp [contractFields])
    simp only [representedManifest, Fields.get, Fields.getD, Fields.lookup_set, hedges, h field hfield]
  simp only [_ledger_child_projection, childKey, listField, hrep "id" (by simp [contractFields]),
    hrep "serial_id" (by simp [contractFields]), hrep "child_key" (by simp [contractFields]),
    hrep "node_path" (by simp [contractFields]), hrep "address" (by simp [contractFields]),
    hrep "allowed_subtree" (by simp [contractFields]), hrep "contrib_branch" (by simp [contractFields]),
    hrep "edges" (by simp [contractFields]), hrep "scope_item_ids" (by simp [contractFields])]
  simp only [contractFields, mem_cons, not_mem_nil, or_false] at hkey
  rcases hkey with rfl | rfl | rfl | rfl | rfl | rfl | rfl | rfl | rfl <;> rfl

theorem entryOf_published {repo repo' : Repository} (h : Published py repo updated repo')
    (hmem : (directory, updated) ∈ childManifests (changed py repo.files updated))
    (hstale : updated.get "lifecycle_status" ≠ .str "stale") :
    ∃ existing, entryOf py (repo'.files.get LEDGER_PATH) (unitKey py (directory, updated)) =
      some (_merge_ledger_child py existing (representedManifest updated) true) := by
  obtain ⟨children, ledger, hchildren, hpair, hledger, hwritten⟩ := h.children
  obtain ⟨keys, hnodup, hkeys⟩ := hpair.keyed
  have hpath := hpair.coordinate directory updated hmem
  -- the entry of the manifest is among the children
  obtain ⟨existing, hentry⟩ : ∃ existing, _merge_ledger_child py existing (representedManifest updated) true ∈ children := by
    unfold ledgerChildren at hchildren
    split at hchildren
    · obtain ⟨root_by_key, -, hchildren⟩ := Option.bind_eq_some_iff.1 hchildren
      obtain ⟨ledger_by_key, -, hchildren⟩ := Option.bind_eq_some_iff.1 hchildren
      rw [← Option.some.inj hchildren]
      refine ⟨ledger_by_key.lookup (unitKey py (directory, updated)), mem_map.2
        ⟨(directory, updated), (mem_insertionSort _).2 hmem, ?_⟩⟩
      rw [ledgerChild]
      exact if_neg fun hcond => hstale hcond.1
    · cases hchildren
  refine ⟨existing, ?_⟩
  have hkey : (_merge_ledger_child py existing (representedManifest updated) true).get "child_key" =
      .str (unitKey py (directory, updated)) := by
    rw [get_merge existing _ (.inl (by simp [contractFields])), ← childKey_eq_unitKey hpath]
    have hrep : ∀ field ≠ "edges", (representedManifest updated).get field = updated.get field := fun field hne =>
      Fields.get_set_of_ne _ _ hne
    show Json.str (childKey py (representedManifest updated)) = _
    rw [childKey, hrep _ (by decide), hrep _ (by decide), childKey]
  have hwritten' : Fields.getD ledger "children" (.arr []) = .arr (children.map .obj) := by
    rw [Fields.getD]
    rw [Fields.get] at hwritten
    cases hfound : ledger.lookup "children" with
    | none =>
      rw [hfound] at hwritten
      cases hwritten
    | some value => rwa [hfound] at hwritten
  have hfirst : ((children.map fun child => (py.strOr (child.get "child_key") "", child)).map Prod.fst) = keys := by
    have hmap := congrArg (List.map fun value => py.strOr value "") hkeys
    simpa [Function.comp_def, py.strOr_str] using hmap
  have hdict : childrenByKey py (.arr (children.map .obj)) =
      some (children.map fun child => (py.strOr (child.get "child_key") "", child)) := by
    rw [childrenByKey, Json.iter, Option.map_some, filterMap_map,
      show keyedChild py ∘ Json.obj = fun child => some (py.strOr (Fields.get child "child_key") "", child) from rfl,
      filterMap_eq_map', dictOfEntries_eq_self (hfirst ▸ hnodup)]
  have hmem' : (unitKey py (directory, updated), _merge_ledger_child py existing (representedManifest updated) true) ∈
      children.map fun child => (py.strOr (child.get "child_key") "", child) := by
    refine mem_map.2 ⟨_, hentry, ?_⟩
    rw [hkey, py.strOr_str]
  unfold entryOf
  simp only [hledger, hwritten', hdict, Option.bind_some]
  exact lookup_of_mem (hfirst ▸ hnodup) hmem'

theorem published_coordinate {repo repo' : Repository} (h : Published py repo updated repo')
    (hdirectory : directory ∉ ["", "."]) (hstrip : rstripSlash directory = directory)
    (hread : repo.files.lookup (directory ++ "/" ++ NODE_MANIFEST_PATH) = some (.obj metadata))
    (hsame : updated.lookup "node_path" = metadata.lookup "node_path") :
    updated.get "node_path" = .str directory ∧ (directory, updated) ∈ childManifests (changed py repo.files updated) := by
  obtain ⟨children, ledger, -, hpair, -⟩ := h.children
  have hne : directory ≠ "" := fun heq => hdirectory (by simp [heq])
  have hget : updated.get "node_path" = metadata.get "node_path" := by rw [Fields.get, Fields.get, hsame]
  -- the file at the directory is the one written or the one read, and both declare the same path
  have hpath : updated.get "node_path" = .str directory := by
    by_cases hplace : directory ++ "/" ++ NODE_MANIFEST_PATH =
        _node_file (py.strOr (updated.get "node_path") ".") NODE_MANIFEST_PATH
    · refine hpair.coordinate directory updated (mem_childManifests hne ?_)
      rw [changed, Fields.lookup_set, if_pos hplace]
    · rw [hget]
      refine hpair.coordinate directory metadata (mem_childManifests hne ?_)
      rw [changed, Fields.lookup_set, if_neg hplace, hread]
  refine ⟨hpath, mem_childManifests hne ?_⟩
  have hor : py.strOr (.str directory) "." = directory := by
    rw [PyLib.strOr, if_pos (by simpa [Json.truthy] using hne), py.str_str]
  rw [changed, Fields.lookup_set, if_pos]
  rw [hpath, hor, _node_file, if_neg hdirectory, hstrip]

/-- The blocked path leaves the contract in the ledger of the parent exactly where the parent is another branch, or
where the entry has the contract of the manifest already. -/
theorem blocked_keeps_contract_iff {repo repo' : Repository} {address ledger_commit parent_commit : String}
    (hdirectory : directory ∉ ["", "."]) (hstrip : rstripSlash directory = directory)
    (hread : repo.files.lookup (directory ++ "/" ++ NODE_MANIFEST_PATH) = some (.obj metadata))
    (hblocked : Stale.revalidate_stale py (repo.ledgerOf (parentBranch py repo metadata)) address ledger_commit
      parent_commit metadata = some (.blocked updated))
    (hpublished : Published py repo updated repo') :
    SameContract (entryOf py (repo.ledgerOf (parentBranch py repo metadata)) (unitKey py (directory, metadata)))
        (entryOf py (repo'.ledgerOf (parentBranch py repo metadata)) (unitKey py (directory, metadata))) ↔
      parentBranch py repo metadata ≠ repo.branch ∨
        Represents py (entryOf py (repo.ledgerOf (parentBranch py repo metadata)) (unitKey py (directory, metadata)))
          metadata := by
  have hupdated := revalidate_stale_blocked hblocked
  have hlookup : ∀ field ∈ contractFields, updated.lookup field = metadata.lookup field := fun field hfield => by
    rw [hupdated]
    refine get_blocked fun hmem => ?_
    simp only [contractFields, mem_cons, not_mem_nil, or_false] at hfield hmem
    rcases hmem with rfl | rfl <;> simp at hfield
  by_cases hparent : parentBranch py repo metadata = repo.branch
  · obtain ⟨hpath, hmem⟩ := published_coordinate hpublished hdirectory hstrip hread
      (hlookup "node_path" (by simp [contractFields]))
    have hkey : unitKey py (directory, metadata) = unitKey py (directory, updated) := by
      rw [unitKey, unitKey, Fields.get, Fields.get, hlookup "child_key" (by simp [contractFields])]
    have hstale : updated.get "lifecycle_status" ≠ .str "stale" := by
      rw [hupdated, Fields.get_set_of_ne _ _ (by decide), Fields.get_set_self]
      simp
    obtain ⟨existing, hafter⟩ := entryOf_published hpublished hmem hstale
    have hledger : repo'.ledgerOf (parentBranch py repo metadata) = repo'.files.get LEDGER_PATH := by
      rw [Repository.ledgerOf, if_pos (hparent.trans hpublished.branch.symm)]
    rw [hledger, hkey, hafter, or_iff_right (not_not.2 hparent), Represents]
    refine forall₂_congr fun field hfield => ?_
    rw [Option.map_some, Option.map_some, get_merge existing _ (.inl hfield), get_projection_congr hfield hlookup]
  · have hledger : repo'.ledgerOf (parentBranch py repo metadata) = repo.ledgerOf (parentBranch py repo metadata) := by
      rw [Repository.ledgerOf, Repository.ledgerOf, hpublished.branch, hpublished.others, if_neg hparent, if_neg hparent]
    rw [hledger]
    exact iff_of_true (fun _ _ => rfl) (.inl hparent)

section Example

/-- The entry or the manifest of the child, with the scope it has there. -/
def sampleChild (lifecycle scope : String) : Fields :=
  [("id", .str "s:sub/a"), ("child_key", .str "a"), ("node_path", .str "sub/a"), ("lifecycle_status", .str lifecycle),
    ("edges", .arr []), ("scope_item_ids", .arr [.str scope])]

def sampleLedger (entry : Fields) : Json := .obj [("children", .arr [.obj entry])]

def sampleRepository : Repository where
  branch := "s"
  files := [("patch-series-manifest.json", .obj []),
    ("series-coverage-ledger.json", sampleLedger (sampleChild "posted_to_mailing_list" "rooms")),
    ("sub/a/patch-series-manifest.json", .obj (sampleChild "stale" "doors"))]
  ledgers := fun _ => .null

def sampleBlocked : Fields :=
  sampleChild "blocked:parent-rebaseline-changed" "doors" ++ [("parent_rebaseline_ledger_commit", .str "1e")]

def sampleEntry : Fields :=
  _ledger_child_projection asciiLib (sampleChild "blocked:parent-rebaseline-changed" "doors")

/-- The branch after the publication. -/
def samplePublished : Repository :=
  { sampleRepository with
    files := (changed asciiLib sampleRepository.files sampleBlocked).set LEDGER_PATH (sampleLedger sampleEntry) }

theorem sample_blocked : Stale.revalidate_stale Stale.equalLib
    (sampleRepository.ledgerOf (parentBranch Stale.equalLib sampleRepository (sampleChild "stale" "doors"))) "s:sub/a" "1e" "2d"
    (sampleChild "stale" "doors") = some (.blocked sampleBlocked) := rfl

theorem sample_published : Published Stale.equalLib sampleRepository sampleBlocked samplePublished := by
  refine ⟨rfl, rfl, [sampleEntry], _, by decide +kernel, ⟨⟨["a"], by simp, rfl⟩, ?_⟩, rfl, rfl⟩
  have hmanifests : childManifests (changed Stale.equalLib sampleRepository.files sampleBlocked) =
      [("sub/a", sampleBlocked)] := by decide +kernel
  intro directory manifest hmem
  rw [hmanifests, mem_singleton] at hmem
  cases hmem
  rfl

/-- The entry before the revalidation, and after it. -/
def sampleEntries (repo : Repository) : Option Fields :=
  entryOf Stale.equalLib (repo.ledgerOf (parentBranch Stale.equalLib sampleRepository (sampleChild "stale" "doors")))
    (unitKey Stale.equalLib ("sub/a", sampleChild "stale" "doors"))

/-- After the blocked revalidation the parent's entry has the scope that the child had before. -/
theorem contract_replaced : Stale.revalidate_stale Stale.equalLib
      (sampleRepository.ledgerOf (parentBranch Stale.equalLib sampleRepository (sampleChild "stale" "doors"))) "s:sub/a"
      "1e" "2d" (sampleChild "stale" "doors") = some (.blocked sampleBlocked) ∧
    Published Stale.equalLib sampleRepository sampleBlocked samplePublished ∧
    ¬ SameContract (sampleEntries sampleRepository) (sampleEntries samplePublished) := by
  refine ⟨sample_blocked, sample_published, fun h => ?_⟩
  exact absurd (h "scope_item_ids" (by simp [contractFields])) (by decide +kernel)

/-- The law at this child, whose parent is its own branch. -/
theorem blocked_keeps_contract_iff_sample : SameContract (sampleEntries sampleRepository) (sampleEntries samplePublished) ↔
    parentBranch Stale.equalLib sampleRepository (sampleChild "stale" "doors") ≠ "s" ∨
      Represents Stale.equalLib (sampleEntries sampleRepository) (sampleChild "stale" "doors") :=
  blocked_keeps_contract_iff (by decide) (by decide) rfl sample_blocked sample_published

end Example

end NetworkUnit

end AiOrg
