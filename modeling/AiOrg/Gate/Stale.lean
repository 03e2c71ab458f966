import AiOrg.Gate.Network
import AiOrg.Python.Base64

/-!
# Stale children

`mark_stale` saves the lifecycle of a manifest the first time and writes why it is stale. Where the contract in the
ledger of the parent is unchanged, `revalidate_stale` puts the saved lifecycle back, removes what marking wrote and
writes what it was validated against. Together they change these fields only (`mark_revalidate`).
-/

namespace AiOrg

namespace Stale

variable (py : PyLib)

/-- `fields.pop(key, None)`. -/
def pop (fields : Fields) (key : String) : Fields := fields.filter fun field => field.1 ≠ key

/-- What marking writes for one node. -/
def mark_stale (reason superseded_ledger_commit : String) (metadata : Fields) : Fields :=
  let saved :=
    if metadata.get "lifecycle_status" ≠ .str "stale" then
      metadata.set "stale_previous_lifecycle_status" (.str (py.strOr (metadata.get "lifecycle_status") ""))
    else metadata
  let marked := (saved.set "lifecycle_status" (.str "stale")).set "stale_reason" (.str reason)
  if superseded_ledger_commit ≠ "" then marked.set "stale_ledger_commit" (.str superseded_ledger_commit) else marked

/-- Marked one time after the other, each for a reason and a ledger commit. -/
def markAll (marks : List (String × String)) (metadata : Fields) : Fields :=
  marks.foldl (fun metadata mark => mark_stale py mark.1 mark.2 metadata) metadata

/-- Whether a child of the ledger is that of a manifest. -/
def isChildOf (child_key node_path address : String) (child : Fields) : Bool :=
  (child_key ≠ "" && child.get "child_key" = .str child_key) ||
    (node_path ≠ "" && child.get "node_path" = .str node_path) || child.get "address" = .str address

def _ledger_child_for_metadata (children : List Json) (address : String) (metadata : Fields) : Option Fields :=
  let child_key := py.str (metadata.getD "child_key" (.str ""))
  let node_path := py.str (metadata.getD "node_path" (.str ""))
  children.findSome? fun
    | .obj child => if isChildOf child_key node_path address child then some child else none
    | _ => none

/-- `list(fields.get("scope_item_ids", []))`, `none` where it raises. -/
def scopeItemIds (fields : Fields) : Option (List Json) := (fields.getD "scope_item_ids" (.arr [])).iter

/-- Whether the scope and the edges of a manifest are those of its child in the ledger, `none` where it raises. -/
def contractUnchanged (metadata child : Fields) : Option Bool := do
  let ids ← scopeItemIds metadata
  let others ← scopeItemIds child
  let same ← py.compare .eq (.arr ids) (.arr others)
  return same && manifestEdges py metadata = manifestEdges py child

def _child_contract_unchanged (metadata child : Fields) : Option Bool := do
  let lifecycle := metadata.get "lifecycle_status" = .str "stale" || canonicalLifecycle py metadata = canonicalLifecycle py child
  return lifecycle && (← contractUnchanged py metadata child)

/-- What `revalidate_stale` ends with, and the manifest that it writes. -/
inductive Outcome
  | not_stale
  | missing_parent_ledger
  | reactivated (updated : Fields)
  | blocked (updated : Fields)

/-- The manifest of a child whose contract is unchanged. -/
def reactivate (metadata child : Fields) (ledger_commit parent_commit : String) : Fields :=
  let previous := metadata.get "stale_previous_lifecycle_status"
  let lifecycle := if previous.truthy then py.str previous else canonicalLifecycle py child
  let updated := ((metadata.set "lifecycle_status" (.str lifecycle)).set "ledger_commit" (.str ledger_commit)).set
    "revalidated_against_parent" (.str parent_commit)
  pop (pop (pop updated "stale_reason") "stale_ledger_commit") "stale_previous_lifecycle_status"

/-- A revalidation against what stands at the ledger's path, `none` where it raises. -/
def revalidate_stale (ledger : Json) (address ledger_commit parent_commit : String) (metadata : Fields) :
    Option Outcome :=
  if metadata.get "lifecycle_status" ≠ .str "stale" then some .not_stale
  else
    match ledger with
    | .obj ledger =>
      match Fields.get ledger "children" with
      | .arr children =>
        match _ledger_child_for_metadata py children address metadata with
        | some child =>
          (_child_contract_unchanged py metadata child).map fun unchanged =>
            if unchanged then .reactivated (reactivate py metadata child ledger_commit parent_commit)
            else .blocked ((metadata.set "lifecycle_status" (.str "blocked:parent-rebaseline-changed")).set
              "parent_rebaseline_ledger_commit" (.str ledger_commit))
        | none => some (.blocked ((metadata.set "lifecycle_status" (.str "blocked:parent-rebaseline-changed")).set
            "parent_rebaseline_ledger_commit" (.str ledger_commit)))
      | _ => some .missing_parent_ledger
    | _ => some .missing_parent_ledger

variable {py} {metadata child marked updated : Fields} {key : String}

theorem lookup_pop (fields : Fields) (key k : String) :
    (pop fields key).lookup k = if k = key then none else fields.lookup k := by
  induction fields with
  | nil => simp [pop]
  | cons field fields ih =>
    obtain ⟨l, v⟩ := field
    unfold pop at ih ⊢
    rw [List.filter_cons]
    by_cases hl : l = key
    · rw [if_neg (by simp [hl]), ih, Fields.lookup_cons_eq]
      split_ifs with hk hk'
      · rfl
      · exact absurd (hk'.trans hl) hk
      · rfl
    · rw [if_pos (by simp [hl]), Fields.lookup_cons_eq, ih, Fields.lookup_cons_eq]
      split_ifs with hk hk'
      · exact absurd (hk.symm.trans hk') hl
      · rfl
      · rfl
      · rfl

/-- What marking a manifest with a lifecycle leads to, whatever the number of times. -/
structure MarkedFrom (lifecycle : String) (metadata marked : Fields) : Prop where
  stale : marked.lookup "lifecycle_status" = some (.str "stale")
  previous : marked.lookup "stale_previous_lifecycle_status" = some (.str lifecycle)
  others : ∀ key ∉ ["lifecycle_status", "stale_previous_lifecycle_status", "stale_reason", "stale_ledger_commit"],
    marked.lookup key = metadata.lookup key

theorem get_eq_of_lookup {fields : Fields} {value : Json} (h : fields.lookup key = some value) :
    fields.get key = value := by
  rw [Fields.get, h, Option.getD_some]

theorem mark_first {lifecycle : String} (hstatus : metadata.get "lifecycle_status" = .str lifecycle)
    (hstale : lifecycle ≠ "stale") (reason ledger : String) :
    MarkedFrom lifecycle metadata (mark_stale py reason ledger metadata) := by
  have hsave : metadata.get "lifecycle_status" ≠ .str "stale" := by
    rw [hstatus]
    simpa using hstale
  have hprevious : py.strOr (metadata.get "lifecycle_status") "" = lifecycle := by rw [hstatus, py.strOr_str]
  simp only [mark_stale, if_pos hsave, hprevious]
  split_ifs <;> constructor <;> simp +contextual [Fields.lookup_set]

theorem MarkedFrom.again {lifecycle : String} (h : MarkedFrom lifecycle metadata marked) (reason ledger : String) :
    MarkedFrom lifecycle metadata (mark_stale py reason ledger marked) := by
  have hsave : ¬ marked.get "lifecycle_status" ≠ .str "stale" := not_not.2 (get_eq_of_lookup h.stale)
  have hothers := h.others
  simp only [mark_stale, if_neg hsave]
  split_ifs <;> constructor <;> simp +contextual [Fields.lookup_set, h.previous, hothers]

theorem markedFrom_markAll {lifecycle : String} (hstatus : metadata.get "lifecycle_status" = .str lifecycle)
    (hstale : lifecycle ≠ "stale") {marks : List (String × String)} (hmarks : marks ≠ []) :
    MarkedFrom lifecycle metadata (markAll py marks metadata) := by
  induction marks using List.reverseRecOn with
  | nil => exact absurd rfl hmarks
  | append_singleton marks mark ih =>
    rw [markAll, List.foldl_concat]
    by_cases hnil : marks = []
    · rw [hnil]
      exact mark_first hstatus hstale mark.1 mark.2
    · exact (ih hnil).again mark.1 mark.2

theorem revalidate_stale_reactivated {ledger : Json} {address ledger_commit parent_commit : String}
    (h : revalidate_stale py ledger address ledger_commit parent_commit metadata = some (.reactivated updated)) :
    ∃ child, updated = reactivate py metadata child ledger_commit parent_commit := by
  unfold revalidate_stale at h
  split at h
  · cases h
  · split at h
    · split at h
      · split at h
        · rename_i child hchild
          obtain ⟨unchanged, -, hunchanged⟩ := Option.map_eq_some_iff.1 h
          split_ifs at hunchanged
          exact ⟨child, (Outcome.reactivated.inj hunchanged).symm⟩
        · cases h
      · cases h
    · cases h

theorem lookup_reactivate {lifecycle : String} (h : MarkedFrom lifecycle metadata marked) (hne : lifecycle ≠ "")
    (ledger_commit parent_commit : String) (key : String) :
    (reactivate py marked child ledger_commit parent_commit).lookup key =
      if key ∈ ["stale_previous_lifecycle_status", "stale_reason", "stale_ledger_commit"] then none
      else if key = "ledger_commit" then some (.str ledger_commit)
      else if key = "revalidated_against_parent" then some (.str parent_commit)
      else if key = "lifecycle_status" then some (.str lifecycle)
      else metadata.lookup key := by
  have htruthy : (Json.str lifecycle).truthy = true := by simpa [Json.truthy] using hne
  have hothers := h.others key
  simp only [reactivate, get_eq_of_lookup h.previous, htruthy, if_true, PyLib.str_str, lookup_pop, Fields.lookup_set]
  simp only [List.mem_cons, List.not_mem_nil, or_false] at hothers ⊢
  split_ifs <;> simp_all

/-- A manifest whose lifecycle is a text other than `stale`, marked any number of times and then reactivated, has its
lifecycle and its other fields again. The three fields of marking are gone, and the two of the revalidation are
written. -/
theorem mark_revalidate {lifecycle : String} (hstatus : metadata.get "lifecycle_status" = .str lifecycle)
    (hne : lifecycle ≠ "") (hstale : lifecycle ≠ "stale") {marks : List (String × String)} (hmarks : marks ≠ [])
    {ledger : Json} {address ledger_commit parent_commit : String}
    (h : revalidate_stale py ledger address ledger_commit parent_commit (markAll py marks metadata) =
      some (.reactivated updated)) (key : String) :
    updated.lookup key =
      if key ∈ ["stale_previous_lifecycle_status", "stale_reason", "stale_ledger_commit"] then none
      else if key = "ledger_commit" then some (.str ledger_commit)
      else if key = "revalidated_against_parent" then some (.str parent_commit)
      else metadata.lookup key := by
  obtain ⟨child, rfl⟩ := revalidate_stale_reactivated h
  rw [lookup_reactivate (markedFrom_markAll hstatus hstale hmarks) hne]
  have hlookup : metadata.lookup "lifecycle_status" = some (.str lifecycle) := by
    cases hfound : metadata.lookup "lifecycle_status" with
    | none => simp [Fields.get, hfound] at hstatus
    | some value => rw [← hstatus, Fields.get, hfound, Option.getD_some]
  split_ifs with h₁ h₂ h₃ h₄ <;> first | rfl | rw [h₄, hlookup]

section Example

/-- Equality of lists, at lists. -/
def equalLib : PyLib :=
  { asciiLib with compareOther := fun op a b => if op = .eq then some (decide (a = b)) else none }

def sampleLedger : Json := .obj [("children", .arr [.obj [("child_key", .str "a"), ("node_kind", .str "leaf")]])]

def sampleManifest (lifecycle : String) : Fields :=
  [("child_key", .str "a"), ("lifecycle_status", .str lifecycle), ("stale_since", .str "monday")]

def sampleMarks : List (String × String) := [("rebaseline", "0f"), ("rebaseline", "1e")]

/-- A manifest that was stale already gets the lifecycle of its child in the ledger, and its `stale_since` stays. -/
theorem stale_not_restored : (sampleManifest "stale").get "lifecycle_status" = .str "stale" ∧
    ∃ updated, revalidate_stale equalLib sampleLedger "p:sub/a" "2d" "3c"
        (markAll equalLib sampleMarks (sampleManifest "stale")) = some (.reactivated updated) ∧
      updated.get "lifecycle_status" = .str "ready_for_patch_authoring" ∧ updated.contains "stale_since" = true :=
  ⟨rfl, _, rfl, by decide +kernel, by decide⟩

/-- The law at a child that waited for its author, marked twice. -/
theorem mark_revalidate_sample : ∃ updated,
    revalidate_stale equalLib sampleLedger "p:sub/a" "2d" "3c"
        (markAll equalLib sampleMarks (sampleManifest "ready_for_patch_authoring")) = some (.reactivated updated) ∧
      updated.lookup "lifecycle_status" = some (.str "ready_for_patch_authoring") := by
  have hstatus : (sampleManifest "ready_for_patch_authoring").get "lifecycle_status" =
    .str "ready_for_patch_authoring" := rfl
  have hmarks : sampleMarks ≠ [] := List.cons_ne_nil _ _
  refine ⟨_, rfl, ?_⟩
  rw [@mark_revalidate equalLib _ _ _ hstatus (by decide) (by decide) _ hmarks sampleLedger "p:sub/a" "2d" "3c" rfl]
  decide

end Example

end Stale

end AiOrg
