import AiOrg.Reform.Continuity

/-!
# The reconciliation of dangling references

What the gate left over is put to one call by families, and an answer that covers every id is written on
the successor nodes.
-/

namespace AiOrg

namespace Reform

def _route_reference_family (target : String) : Option String :=
  if startsWith target syntheticCrossLinkPrefixes || startsWith target reindexedFamilyIdPrefixes then none
  else if startsWith target derivedSingletonIdPrefixes || startsWith target ["evaluation:"] then none
  else if startsWith target ["prior_art:"] then some "prior_art"
  else if startsWith target ["risk:"] then some "risks"
  else some "candidates"

def _dangling_reference_targets (tree : Json) : List String :=
  ((_id_typed_tree_references tree).map (·.reference)).filter (· ∉ nodeIds tree)

section Library

variable (py : PyLib)

/-- The ids that still lack a successor, with their families. -/
def unresolvedTargets (previous revised : Json) (objections : List Fields) : List (String × String) :=
  let known := nodeIds revised
  let replacements := _revision_replacements py previous revised
  let dead := (_dangling_reference_targets revised).filter fun target =>
    target ∉ replacements.map (·.replacedNodeId)
  let pruned := (objections.flatMap anchors).filter fun anchor => !resolves known replacements anchor
  (dead ++ pruned).filterMap fun target =>
    (_route_reference_family target).map fun family => (family, target)

def _reconciliation_families (previous revised : Json) (objections : List Fields) :
    List (String × List String) :=
  let targets := unresolvedTargets py previous revised objections
  (sorted (Selection.firsts id [] (targets.map Prod.fst))).map fun family =>
    (family, sorted (Selection.firsts id [] ((targets.filter (·.1 = family)).map Prod.snd)))

/-- A node as the call sees it. -/
structure Summary where
  id : String
  name : String
  summary : String
  deriving DecidableEq, Repr

/-- `_RECONCILIATION_FAMILY_SUMMARY_FIELDS`. -/
def summaryFields : List String := ["summary", "when_applies", "risk"]

/-- A member of a mapping, which is empty where it is not a mapping. -/
def childFields (fields : Fields) (key : String) : Fields :=
  match fields.get key with
  | .obj child => child
  | _ => []

/-- The items of a member, none where it is not a list. -/
def childItems (fields : Fields) (key : String) : List Json :=
  match fields.get key with
  | .arr items => items
  | _ => []

def _family_node_summaries (tree : Fields) (family : String) : List Summary :=
  let problem := childFields tree "problem"
  let items :=
    if family = "prior_art" then childItems problem "prior_art"
    else if family = "candidates" then childItems (childFields problem "question") "candidates"
    else if family = "risks" then
      (Json.obj tree).preorder.filter fun node =>
        (nodeId node).any fun id => startsWith id ["risk:"]
    else []
  (items.filterMap fun item =>
    match item, nodeId item with
    | .obj fields, some id =>
      some ⟨id, py.strOr (Fields.get fields "name") "",
        (summaryFields.firstM (textAt fields)).getD ""⟩
    | _, _ => none).insertionSort fun a b => a.id ≤ b.id

structure Reconciled where
  replacedNodeId : String
  reason : String
  deriving DecidableEq, Repr

def Reconciled.toJson (item : Reconciled) : Json :=
  .obj [("replaced_node_id", .str item.replacedNodeId), ("reason", .str item.reason)]

/-- The entries of a node, with those of its items that are not there yet; `none` where it raises. -/
def reconciledEntries (fields : Fields) (items : List Reconciled) : Option (List Json) :=
  let entries := childItems fields "reconciled_replaces"
  let already := entries.filterMap fun entry =>
    match entry with
    | .obj entry => some (Fields.get entry "replaced_node_id")
    | _ => none
  if already.all Json.hashable then
    some (entries ++ (items.filter fun item => .str item.replacedNodeId ∉ already).map Reconciled.toJson)
  else none

/-- The successors of a node in the answers. -/
def successorItems (successors : List (String × List Reconciled)) (fields : Fields) :
    Option (List Reconciled) :=
  match fields.get "id" with
  | .str id => successors.lookup id
  | _ => none

/-- What is written on a node. -/
def withEntries (successors : List (String × List Reconciled)) (fields : Fields) : Option Fields :=
  match successorItems successors fields with
  | some items =>
    (reconciledEntries fields items).map fun entries => fields.set "reconciled_replaces" (.arr entries)
  | none => some fields

mutual

/-- `_with_reconciled_replacements`, `none` where it raises. What is written on a node is not a node, so
it makes no difference that the walk comes first. -/
def _with_reconciled_replacements (successors : List (String × List Reconciled)) :
    Json → Option Json
  | .obj fields => do
    let walked ← withReconciledFields successors fields
    return .obj (← withEntries successors walked)
  | .arr items => do return .arr (← withReconciledItems successors items)
  | value => some value

def withReconciledItems (successors : List (String × List Reconciled)) :
    List Json → Option (List Json)
  | [] => some []
  | item :: items => do
    return (← _with_reconciled_replacements successors item) ::
      (← withReconciledItems successors items)

/-- `_with_reconciled_replacements` on the members of a mapping. -/
def withReconciledFields (successors : List (String × List Reconciled)) :
    List (String × Json) → Option (List (String × Json))
  | [] => some []
  | (key, value) :: fields => do
    return (key, ← _with_reconciled_replacements successors value) ::
      (← withReconciledFields successors fields)

end

structure Answers where
  seen : List String
  successors : List (String × List Reconciled)
  noSuccessor : List (String × String)
  deriving DecidableEq, Repr

/-- One entry of the reply, `none` where the round fails. -/
def readAnswer (families : List (String × List String)) (current : String → List String)
    (answers : Answers) (entry : Json) : Option Answers :=
  match entry with
  | .obj fields =>
    match Fields.get fields "dangling_id", Fields.get fields "successor_id",
      Fields.get fields "no_successor", Fields.get fields "reason" with
    | .str dangling, .str successor, .bool noSuccessor, .str reason =>
      match families.find? fun family => dangling ∈ family.2 with
      | none => none
      | some family =>
        if dangling ∈ answers.seen ∨ pyStrip reason = "" then none
        else if noSuccessor then
          if pyStrip successor ≠ "" then none
          else some { answers with
            seen := answers.seen ++ [dangling]
            noSuccessor := answers.noSuccessor ++ [(dangling, reason)] }
        else if successor ∉ current family.1 then none
        else some { answers with
          seen := answers.seen ++ [dangling]
          successors := appendAt successor ⟨dangling, reason⟩ answers.successors }
    | _, _, _, _ => none
  | _ => none

/-- The reply as a whole, which has to cover every id. -/
def readAnswers (families : List (String × List String)) (current : String → List String) :
    Json → Option Answers
  | .obj reply =>
    match Fields.get reply "reconciliations" with
    | .arr entries => do
      let answers ← entries.foldlM (readAnswer families current) ⟨[], [], []⟩
      if ∀ id ∈ families.flatMap Prod.snd, id ∈ answers.seen then some answers else none
    | _ => none
  | _ => none

/-- `_reconcile_dangling_references`, `none` where the round fails or raises; `run` is what the call
replies, if it does and replies JSON. -/
def _reconcile_dangling_references
    (run : List (String × List String) → List (String × List Summary) → Option Json)
    (previous : Json) (revised : Fields) (objections : List Fields) :
    Option (Fields × List (String × String)) :=
  let families := (_reconciliation_families py previous (.obj revised) objections).filter
    fun family => !(_family_node_summaries py revised family.1).isEmpty
  let nodes := families.map fun family => (family.1, _family_node_summaries py revised family.1)
  if families.isEmpty then none
  else do
    let reply ← run families nodes
    let answers ← readAnswers families
      (fun family => (_family_node_summaries py revised family).map (·.id)) reply
    let reconciled ←
      if answers.successors.isEmpty then some revised
      else (withReconciledFields answers.successors revised).bind (withEntries answers.successors)
    return (_remap_root_reference_ids py previous reconciled, answers.noSuccessor)

end Library

end Reform

end AiOrg

/-!
## The revision delta ledger

What changed between two trees, and how each open objection was answered by it.
-/

namespace AiOrg

namespace Reform

def implementationExperienceObjectionPrefix : String := "implementation-experience:"

def Replacement.toJson (replacement : Replacement) : Json :=
  .obj [("replaced_node_id", .str replacement.replacedNodeId),
    ("successor_node_id", .str replacement.successorNodeId), ("reason", .str replacement.reason)]

def textItems (texts : List String) : Json := .arr (texts.map .str)

structure Delta where
  added : List String
  pruned : List String
  changed : List String
  deriving DecidableEq, Repr

/-- The nodes of two trees compared by their contents. -/
def delta (canonical : Json → String) (previous revised : Json) : Delta :=
  let before := nodeIds previous
  let after := nodeIds revised
  let contentsBefore := _tree_node_contents canonical previous
  let contentsAfter := _tree_node_contents canonical revised
  { added := sorted (after.filter (· ∉ before))
    pruned := sorted (before.filter (· ∉ after))
    changed := sorted (before.filter fun id =>
      id ∈ after ∧ contentsBefore.lookup id ≠ contentsAfter.lookup id) }

section Library

variable (py : PyLib)

/-- The records of an argument by their objections, the last one of each. -/
def byObjection (records : List Fields) (id : String) : Option Fields :=
  records.reverse.find? fun record => py.strOr (record.get "objection_id") "" = id

/-- How an objection was answered, before an author deferral proposal is looked at. -/
def classification (delta : Delta) (successorIds : List String) (defense : Option Fields)
    (objection : Fields) : String :=
  let touched := (anchors objection).any fun anchor =>
    anchor ∈ delta.changed || anchor ∈ delta.added ||
      (anchor ∈ delta.pruned && startsWith anchor reindexedFamilyIdPrefixes)
  let structural :=
    if !successorIds.isEmpty then "superseded_by_replacement"
    else if touched then "addressed_by_change"
    else if defense.isSome then "defended_with_evidence"
    else "unaddressed"
  if startsWith (py.strOr (objection.get "objection_id") "") [implementationExperienceObjectionPrefix] &&
      structural ∈ ["addressed_by_change", "superseded_by_replacement"] then
    "revised_from_implementation_experience"
  else structural

def objectionResponse (delta : Delta) (replacements : List Replacement)
    (deferralProposals defenses : List Fields) (objection : Fields) : Json :=
  let id := py.strOr (objection.get "objection_id") ""
  let successorIds := sorted (Selection.firsts (fun successor => successor) []
    (((anchors objection).filter (· ∈ delta.pruned)).flatMap (successors replacements)))
  let defense := byObjection py defenses id
  let proposal := byObjection py (deferralProposals.filter fun item => !(item.get "non_deferrable").truthy) id
  let response : Fields :=
    [("objection_id", .str id),
      ("classification", .str (classification py delta successorIds defense objection)),
      ("anchor_node_ids", textItems (anchors objection)), ("successor_node_ids", textItems successorIds)]
  let response : Fields := match defense with
    | some defense => (response.set "defense" (.str (py.strOr (defense.get "defense") ""))).set
        "evidence_citations" (.arr ((childItems defense "evidence_citations").filter fun citation =>
          citation.kind = .str))
    | none => response
  .obj (match proposal with
    | some proposal => ((response.set "classification" (.str "deferral_proposed")).set
        "executable_check" (.str (py.strOr (proposal.get "executable_check") ""))).set
        "defer_reason" (.str (py.strOr (proposal.get "defer_reason") ""))
    | none => response)

def closedQuestion (reviewRound : ℤ) (closure : Fields) : Json :=
  .obj ((["question", "resolution", "closure_kind", "executable_check", "step"].map fun key =>
    (key, Json.str (py.strOr (closure.get key) ""))) ++ [("decided_after_review_round", .int reviewRound)])

/-- What the ledger says besides the diff of the trees. -/
structure Bookkeeping where
  noSuccessor : List (String × String)
  deferralProposals : List Fields
  closedQuestions : List Fields
  defenses : List Fields

def _revision_delta_record (canonical : Json → String) (patchSeriesId : String)
    (reviewRound authorVersion : ℤ) (previous revised : Json) (objections : List Fields)
    (prose : List String) (book : Bookkeeping) : Fields :=
  let diff := delta canonical previous revised
  let replacements := _revision_replacements py previous revised
  [("patch_series_id", .str patchSeriesId), ("review_round", .int reviewRound),
    ("author_version", .int authorVersion), ("added_node_ids", textItems diff.added),
    ("changed_node_ids", textItems diff.changed), ("pruned_node_ids", textItems diff.pruned),
    ("node_replacements", .arr (replacements.map Replacement.toJson)),
    ("prose_provenance_not_linked", textItems prose),
    ("reconciliation_no_successor", .arr (book.noSuccessor.map fun item =>
      .obj [("dangling_id", .str item.1), ("reason", .str item.2)])),
    ("deferral_rejected_non_deferrable", .arr ((book.deferralProposals.filter fun item =>
      (item.get "non_deferrable").truthy).map .obj)),
    ("closed_questions", .arr (book.closedQuestions.map (closedQuestion py reviewRound))),
    ("objection_responses", .arr (objections.map
      (objectionResponse py diff replacements book.deferralProposals book.defenses))),
    ("memento", textItems
      ["Kernel v(N)->v(N+1) changelog, machine-readable: what changed, what was replaced, and how each",
        "prior objection was answered structurally. Author history reads it; blank reviewers do not."])]

end Library

end Reform

end AiOrg
