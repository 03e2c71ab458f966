import AiOrg.Approach.Closures
import AiOrg.Approach.Fragments
import AiOrg.Python.Int

/-!
# Targeted revisions

A revision of a step returns fragments for the nodes that it was asked to revise. `_parse_targeted_fragments` accepts
fragments that keep the id of a target or declare that they replace one, and `_merge_step_fragments` puts them into the
committed component of the step.
-/

namespace AiOrg

namespace Approach

open Checks

/-- What the output of a revision is read with. -/
structure TargetedPlan where
  target_ids : List String
  open_questions : List String
  objection_ids : List String

structure DeferralProposal where
  objection_id : String
  executable_check : String
  defer_reason : String
  deriving DecidableEq

structure Defense where
  objection_id : String
  defense : String
  evidence_citations : List String
  deriving DecidableEq

structure ConstraintFragment where
  id : String
  kind : ConstraintKind
  item : Fields

inductive Fragments
  | constraints (fragments : List ConstraintFragment)
  | items (fragments : List Fields)

structure TargetedOutput where
  fragments : Fragments
  deferral_proposals : List DeferralProposal
  closed_questions : List Closure
  defenses : List Defense

section Envelope

variable (py : PyLib) (objection_ids : List String)

def revisionError (what : String) : String := "Codex targeted revision returned " ++ what

/-- A list, which may be missing. -/
def listOrEmpty (error : String) (value : Json) : Except String (List Json) :=
  if value = .null ∨ value = .str "" then .ok []
  else match value with
    | .arr items => .ok items
    | _ => .error error

/-- The id of an objection that is not answered yet. -/
def freshObjection (seen : List String) (error : String) (fields : Fields) : Except String String := do
  let objection_id ← orError error (stringOf (fields.get "objection_id"))
  require (objection_id ∈ objection_ids ∧ objection_id ∉ seen) error
  return objection_id

/-- A text that is not blank. -/
def filledText (error : String) (value : Json) : Except String String := do
  let text ← orError error (stringOf value)
  require (pyStrip text ≠ "") error
  return text

def deferralProposal (seen : List DeferralProposal) (_ : ℕ) (item : Json) : Except String DeferralProposal := do
  let fields ← orError (revisionError "invalid deferral proposal item") (objectOf item)
  let error := "deferral proposal for " ++ py.reprJson (fields.get "objection_id") ++ " is invalid or duplicates"
  let objection_id ← freshObjection objection_ids (seen.map (·.objection_id)) error fields
  let executable_check ← filledText error (fields.get "executable_check")
  let defer_reason ← filledText error (fields.get "defer_reason")
  return ⟨objection_id, executable_check, defer_reason⟩

def _parse_deferral_proposals (value : Json) : Except String (List DeferralProposal) := do
  let items ← listOrEmpty (revisionError "invalid deferral_proposals") value
  collect (deferralProposal py objection_ids) [] 0 items

/-- The citations that say something. -/
def cleanCitation : Json → Option String
  | .str citation => if pyStrip citation = "" then none else some (pyStrip citation)
  | _ => none

def authorDefense (seen : List Defense) (_ : ℕ) (item : Json) : Except String Defense := do
  let fields ← orError (revisionError "an invalid defense item") (objectOf item)
  let clean_citations := (Reform.childItems fields "evidence_citations").filterMap cleanCitation
  let error := "defense for " ++ py.reprJson (fields.get "objection_id") ++
    " is invalid or duplicates: it must name a known objection id, state why the objection is mistaken or " ++
    "inapplicable, and cite at least one evidence citation (tree node id, repository file, or external source)"
  let objection_id ← freshObjection objection_ids (seen.map (·.objection_id)) error fields
  let defense ← filledText error (fields.get "defense")
  require (clean_citations ≠ []) error
  return ⟨objection_id, defense, clean_citations⟩

def _parse_defenses (value : Json) : Except String (List Defense) := do
  let items ← listOrEmpty (revisionError "invalid defenses") value
  collect (authorDefense py objection_ids) [] 0 items

end Envelope

section Parse

variable (py : PyLib)

def declared (item : Fields) : Option String :=
  match item.get "replaces" with
  | .str replaced => if pyStrip replaced = "" then none else some replaced
  | _ => none

def patternId (item : Fields) : String := "prior_art:" ++ _slug py (py.strOr (item.get "name") "")

def _fragment_target (step : Step) (targets : List String) (item : Fields) : Option String :=
  match declared item with
  | some replaced => if replaced ∈ targets then some replaced else none
  | none =>
    if step = .prior_art then if patternId py item ∈ targets then some (patternId py item) else none
    else oneOf targets (item.get "id")

def fragmentItems (parsed : Fields) (key : String) : Except String (List Json) :=
  match Fields.get parsed key with
  | .arr items => if sameKeys parsed [key] then .ok items else .error (revisionError ("invalid " ++ key ++ " fragment"))
  | _ => .error (revisionError ("invalid " ++ key ++ " fragment"))

def addressed (step : Step) (targets : List String) (what : String) (lint_errors : List String) (item : Fields) :
    Except String Fields := do
  require (lint_errors = []) ("; ".intercalate lint_errors)
  require ((_fragment_target py step targets item).isSome = true) (what ++ " addresses no target node")
  return item

def candidateFragment (targets : List String) (user_facing : Bool) (item : Json) : Except String Fields := do
  let candidate ← _parse_candidate_approach item none
  addressed py .candidates targets ("candidate fragment " ++ py.reprJson (candidate.get "id"))
    (_candidate_empty_slot_lints candidate ++ _lint_candidate_stack_requirement py candidate user_facing) candidate

def patternFragment (targets : List String) (item : Json) : Except String Fields := do
  let pattern ← _parse_prior_art_pattern item
  addressed py .prior_art targets ("pattern fragment " ++ py.reprJson (pattern.get "name"))
    (_lint_empty_slots "" (.obj pattern)) pattern

def riskFragment (targets : List String) (risk : Fields) : Except String Fields :=
  addressed py .risks targets ("risk fragment " ++ py.reprJson (risk.get "id")) (_lint_empty_slots "" (.obj risk)) risk

def constraintFragment (kind : ConstraintKind) (targets : List String) (item : Fields × Fields) :
    Except String ConstraintFragment := do
  let error := "constraint fragment " ++ py.reprJson (Fields.get item.1 "id") ++ " addresses no target node"
  let id ← orError error (oneOf targets (Fields.get item.1 "id"))
  require (kind.idFront.toList <+: id.toList) error
  let lint_errors := _lint_empty_slots "" (.obj item.2)
  require (lint_errors = []) ("; ".intercalate lint_errors)
  return ⟨id, kind, item.2⟩

def constraintFragments (targets : List String) (parsed : Fields) (kind : ConstraintKind) :
    Except String (List ConstraintFragment) :=
  match Fields.get parsed kind.field with
  | .arr raw_items => do
    let items ← orError (revisionError ("invalid " ++ kind.field ++ " item")) (raw_items.mapM objectOf)
    let parsed_items ← _parse_constraint_items kind (items.map fun item => item.filter fun entry => entry.1 ≠ "id")
    (items.zip parsed_items).mapM (constraintFragment py kind targets)
  | _ => .error (revisionError ("invalid " ++ kind.field))

def stepFragments (step : Step) (targets : List String) (user_facing : Bool) (parsed : Fields) :
    Except String Fragments :=
  match step with
  | .candidates => do
    let items ← fragmentItems parsed "candidates"
    return .items (← items.mapM (candidateFragment py targets user_facing))
  | .prior_art => do
    let items ← fragmentItems parsed "patterns"
    return .items (← items.mapM (patternFragment py targets))
  | .risks => do
    let risks ← _parse_surface_risks parsed
    return .items (← risks.mapM (riskFragment py targets))
  | .constraints => do
    require (sameKeys parsed ["hard_constraints", "soft_preferences"]) (revisionError "invalid constraints fragment")
    let hard ← constraintFragments py targets parsed .hard
    let soft ← constraintFragments py targets parsed .soft
    return .constraints (hard ++ soft)
  | step => .error ("step " ++ step.name ++ " does not support targeted revision")

/-- What `json.loads` makes of the output of a revision. -/
def _parse_targeted_fragments (step : Step) (parsed : Json) (plan : TargetedPlan) (user_facing : Bool) :
    Except String TargetedOutput := do
  let fields ← orError (revisionError "non-object JSON") (objectOf parsed)
  let pop := fun key => (fields.lookup key).getD (.arr [])
  let deferral_proposals ← _parse_deferral_proposals py plan.objection_ids (pop "deferral_proposals")
  let closed_questions ← _parse_closed_questions py plan.open_questions (pop "closed_questions")
  let defenses ← _parse_defenses py plan.objection_ids (pop "defenses")
  let contradictory := (defenses.map (·.objection_id)).filter fun id => id ∈ deferral_proposals.map (·.objection_id)
  require (contradictory = [])
    ("objections cannot be both defended and deferred in one revision: " ++ ", ".intercalate (sorted contradictory))
  let rest := fields.filter fun entry => entry.1 ∉ ["deferral_proposals", "closed_questions", "defenses"]
  let fragments ← stepFragments py step plan.target_ids user_facing rest
  return ⟨fragments, deferral_proposals, closed_questions, defenses⟩

end Parse

section Merge

variable (py : PyLib)

/-- The position that an id of a constraint names, from 0 on, `none` where the source raises `ValueError`. -/
def constraintIndex (id : String) : Option ℤ := (Text.pyInt (afterLast ':' id)).map (· - 1)

/-- `list(committed.get(key, []))`, `none` where the source raises `TypeError`. -/
def itemsUnder (committed : Fields) (key : String) : Option (List Json) :=
  ((committed.lookup key).getD (.arr [])).iter

def mergeConstraint (lists : ConstraintKind → List Json) (fragment : ConstraintFragment) :
    Option (ConstraintKind → List Json) := do
  let index ← constraintIndex fragment.id
  let items := lists fragment.kind
  return if 0 ≤ index ∧ index < items.length then
      Function.update lists fragment.kind (items.set index.toNat (.obj fragment.item))
    else lists

def constraintLists (committed : Fields) : Option (ConstraintKind → List Json) := do
  let hard ← itemsUnder committed (ConstraintKind.field .hard)
  let soft ← itemsUnder committed (ConstraintKind.field .soft)
  return fun kind => match kind with
    | .hard => hard
    | .soft => soft

def _committed_item_id (step : Step) : Json → String
  | .obj item =>
    let derived := if step = .prior_art then patternId py item else ""
    match Fields.get item "id" with
    | .str id => if id = "" then derived else id
    | _ => derived
  | _ => ""

def fragmentId (step : Step) (fragment : Fields) : String :=
  if step = .prior_art then patternId py fragment else py.strOr (fragment.get "id") ""

def putInPlace (step : Step) (fragment_id : String) (fragment : Fields) : List Json → List Json
  | [] => [.obj fragment]
  | item :: items =>
    if _committed_item_id py step item = fragment_id then .obj fragment :: items
    else item :: putInPlace step fragment_id fragment items

def mergeFragment (step : Step) (items : List Json) (fragment : Fields) : List Json :=
  match declared fragment with
  | some replaced => (items.filter fun item => _committed_item_id py step item ≠ replaced) ++ [.obj fragment]
  | none => putInPlace py step (fragmentId py step fragment) fragment items

def collectionKey : Step → Option String
  | .prior_art => some "patterns"
  | .candidates => some "candidates"
  | .risks => some "risks"
  | _ => none

/-- `none` where the source raises. -/
def _merge_step_fragments (step : Step) (committed : Fields) : Fragments → Option Fields
  | .constraints fragments => do
    let lists ← constraintLists committed
    let merged ← fragments.foldlM mergeConstraint lists
    let extra_keys := committed.filter fun entry => entry.1 ∉ ["hard_constraints", "soft_preferences"]
    return extra_keys ++ [("hard_constraints", .arr (merged .hard)), ("soft_preferences", .arr (merged .soft))]
  | .items fragments => do
    let collection_key ← collectionKey step
    let items ← itemsUnder committed collection_key
    return (committed.filter fun entry => entry.1 ≠ collection_key) ++
      [(collection_key, .arr (fragments.foldl (mergeFragment py step) items))]

end Merge

end Approach

end AiOrg
