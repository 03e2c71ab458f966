import AiOrg.Python.Dict
import AiOrg.Python.Value

/-!
# Repair deltas and merges

`repair_delta` compares a produced output with a skeleton slot by slot and says which slots are
missing or malformed; `merge_fragment` puts the values of a fragment into the output, where a slot is
absent or listed as overwritable. Both address slots by texts.
-/

namespace AiOrg

namespace Gadgets

structure GadgetError where
  type : String
  message : String
  deriving DecidableEq, Repr

def invalidInput {α : Type} (message : String) : Except GadgetError α :=
  .error ⟨"invalid_input", message⟩

def allMappings : List Json → Option (List Fields)
  | [] => some []
  | .obj item :: items => (allMappings items).map (item :: ·)
  | _ :: _ => none

def idOf (field : String) (item : Fields) : Option String :=
  match item.get field with
  | .str id => if id = "" then none else some id
  | _ => none

/-- Whether a field holds unique nonempty strings in all items. -/
def isIdField (items : List Fields) (field : String) : Bool :=
  match items.mapM (idOf field) with
  | some ids => decide ids.Nodup
  | none => false

def idFieldCandidates (first : Fields) : List String :=
  let fields := (first.map Prod.fst).filter fun field =>
    field == "id" || decide ("_id".toList <:+ field.toList)
  (if "id" ∈ fields then ["id"] else []) ++ sorted (fields.filter (· ≠ "id"))

def keyedListIdField : Json → Option String
  | .arr items =>
    match allMappings items with
    | some (first :: rest) => (idFieldCandidates first).find? (isIdField (first :: rest))
    | _ => none
  | _ => none

/-- `item[id_field]`. -/
def idText (field : String) : Json → String
  | .obj item =>
    match Fields.get item field with
    | .str id => id
    | _ => ""
  | _ => ""

/-- A mapping with this id. -/
def hasId (field id : String) : Json → Bool
  | .obj item => Fields.get item field == .str id
  | _ => false

/-- `_index_keyed_items(items, id_field)[id]`: the first item with an id. -/
def indexKeyedItems (items : List Json) (field id : String) : Option Json :=
  items.find? (hasId field id)

variable (py : PyLib)

def asInt : Json → Option ℤ
  | .bool b => some b.toNat
  | .int n => some n
  | _ => none

/-- `produced == skeleton` for a skeleton that is a bool, a number or a string. -/
def eqScalar (produced skeleton : Json) : Bool :=
  match asInt produced, asInt skeleton, produced, skeleton with
  | some m, some n, _, _ => m = n
  | _, _, .str s, .str t => s = t
  | _, _, .float _, .float _ => py.compareOther .eq produced skeleton == some true
  | some _, none, _, .float _ => py.compareOther .eq produced skeleton == some true
  | none, some _, .float _, _ => py.compareOther .eq produced skeleton == some true
  | _, _, _, _ => false

mutual

def slotSatisfied : Json → Json → Bool
  | .null, produced => produced != .null
  | .obj fields, .obj produced => fieldsSatisfied fields produced
  | .obj _, _ => false
  | .arr items, .arr produced =>
    match keyedListIdField (.arr items) with
    | none => true
    | some field => itemsSatisfied field items produced
  | .arr _, _ => false
  | skeleton, produced => eqScalar py produced skeleton

def fieldsSatisfied : Fields → Fields → Bool
  | [], _ => true
  | (key, child) :: fields, produced =>
    (match produced.lookup key with
      | some value => slotSatisfied child value
      | none => false) && fieldsSatisfied fields produced

def itemsSatisfied (field : String) : List Json → List Json → Bool
  | [], _ => true
  | item :: items, produced =>
    (match indexKeyedItems produced field (idText field item) with
      | some value => slotSatisfied item value
      | none => false) && itemsSatisfied field items produced

end

inductive Address where
  | item (key field id : String)
  | name (key name : String)
  | whole (key : String)
  deriving DecidableEq, Repr

namespace Address

/-- How `repair_delta` and `merge_fragment` write a slot. -/
def text : Address → String
  | .item key field id => key ++ "[" ++ field ++ "=" ++ id ++ "]"
  | .name key n => key ++ "." ++ n
  | .whole key => key

def key : Address → String
  | .item key _ _ => key
  | .name key _ => key
  | .whole key => key

/-- What a mapping holds at a slot. -/
def value (m : Fields) : Address → Option Json
  | .item key field id =>
    match m.lookup key with
    | some (.arr items) => indexKeyedItems items field id
    | _ => none
  | .name key n =>
    match m.lookup key with
    | some (.obj fields) => fields.lookup n
    | _ => none
  | .whole key => m.lookup key

end Address

/-- A slot and what the skeleton has there. -/
abbrev Slot := Address × Json

def entrySlots (key : String) (skeleton : Json) : List Slot :=
  match keyedListIdField skeleton, skeleton with
  | some field, .arr items => items.map fun item => (.item key field (idText field item), item)
  | _, .obj fields => fields.map fun entry => (.name key entry.1, entry.2)
  | _, _ => [(.whole key, skeleton)]

/-- The slots of a skeleton, in the order `repair_delta` visits them. -/
def slots (skeleton : Fields) : List Slot :=
  skeleton.flatMap fun entry => entrySlots entry.1 entry.2

def isMissing (produced : Fields) (slot : Slot) : Bool := (slot.1.value produced).isNone

def isSatisfied (produced : Fields) (slot : Slot) : Bool :=
  match slot.1.value produced with
  | some value => slotSatisfied py slot.2 value
  | none => false

def isMalformed (produced : Fields) (slot : Slot) : Bool :=
  !isMissing produced slot && !isSatisfied py produced slot

structure Delta where
  validatorId : String
  errors : List String
  missingSlots : List String
  malformedSlots : List String
  overwritableSlots : List String
  fragmentRequest : Fields

def allStrings : List Json → Option (List String)
  | [] => some []
  | .str s :: items => (allStrings items).map (s :: ·)
  | _ :: _ => none

def unwrap (payload : String) : Json → Json
  | .obj m =>
    if Fields.get m "ok" = .bool true ∧ Fields.contains m payload then Fields.get m payload
    else .obj m
  | value => value

def reportErrors (report : Fields) : List String :=
  match report.get "errors" with
  | .str error => [error]
  | .arr items => (allStrings items).getD []
  | _ => []

def reportValidator (report : Fields) : String :=
  match report.get "validator_id" with
  | .str id => id
  | _ => ""

/-- What is asked for under one key: the skeleton of its open slots. -/
def entryRequest (produced : Fields) (entry : String × Json) : Option (String × Json) :=
  let requested := (entrySlots entry.1 entry.2).filter fun slot => !isSatisfied py produced slot
  if requested.isEmpty then none
  else match keyedListIdField entry.2, entry.2 with
  | some _, _ => some (entry.1, .arr (requested.map (·.2)))
  | none, .obj _ =>
    some (entry.1, .obj (requested.map fun slot =>
      (match slot.1 with | .name _ name => name | _ => "", slot.2)))
  | none, skeleton => some (entry.1, skeleton)

/-- `repair_delta` once its arguments are mappings. -/
def delta (report produced skeleton : Fields) : Delta :=
  let malformed := ((slots skeleton).filter (isMalformed py produced)).map (·.1.text)
  { validatorId := reportValidator report
    errors := reportErrors report
    missingSlots := ((slots skeleton).filter (isMissing produced)).map (·.1.text)
    malformedSlots := malformed
    overwritableSlots := malformed
    fragmentRequest := skeleton.filterMap (entryRequest py produced) }

def repairDelta (report produced skeleton : Json) : Except GadgetError Delta :=
  match report, produced, unwrap "skeleton" skeleton with
  | .obj report, .obj produced, .obj skeleton => .ok (delta py report produced skeleton)
  | .obj _, .obj _, _ => invalidInput "skeleton must be a mapping"
  | .obj _, _, _ => invalidInput "produced_json must be a mapping"
  | _, _, _ => invalidInput "validation_error_report must be a mapping"

/-- The delta as the mapping `merge_fragment` reads. -/
def Delta.toJson (d : Delta) : Json :=
  let texts := fun names : List String => Json.arr (names.map .str)
  .obj [("validator_id", .str d.validatorId), ("errors", texts d.errors),
    ("missing_slots", texts d.missingSlots), ("malformed_slots", texts d.malformedSlots),
    ("overwritable_slots", texts d.overwritableSlots), ("fragment_request", .obj d.fragmentRequest)]

structure Merging (α : Type) where
  value : α
  applied : List String
  skipped : List String
  deriving DecidableEq, Repr

def Merging.apply {α : Type} (m : Merging α) (slot : String) (value : α) : Merging α :=
  { m with value := value, applied := m.applied ++ [slot] }

def Merging.skip {α : Type} (m : Merging α) (slots : List String) : Merging α :=
  { m with skipped := m.skipped ++ slots }

section Merge

variable (overwritable : List String) (key : String)

/-- One item of a keyed list of the fragment. -/
def mergeItem (field : String) (m : Merging (List Json)) (item : Json) : Merging (List Json) :=
  let slot := (Address.item key field (idText field item)).text
  match m.value.findIdx? (hasId field (idText field item)) with
  | none => m.apply slot (m.value ++ [item])
  | some index =>
    if slot ∈ overwritable then m.apply slot (m.value.set index item) else m.skip [slot]

/-- One name of a mapping of the fragment. -/
def mergeName (m : Merging Fields) (entry : String × Json) : Merging Fields :=
  let slot := (Address.name key entry.1).text
  match m.value.lookup entry.1 with
  | none => m.apply slot (Fields.set m.value entry.1 entry.2)
  | some _ =>
    if slot ∈ overwritable then m.apply slot (Fields.set m.value entry.1 entry.2)
    else m.skip [slot]

/-- The value a key gets: what was there, if anything, and the value of the fragment. -/
def mergeValue (present : Option Json) (fragment : Json) : Merging Json :=
  match keyedListIdField fragment, fragment with
  | some field, .arr items =>
    match present.getD (.arr []) with
    | .arr target =>
      let m := items.foldl (mergeItem overwritable key field) ⟨target, [], []⟩
      ⟨.arr m.value, m.applied, m.skipped⟩
    | present =>
      ⟨present, [], items.map fun item => (Address.item key field (idText field item)).text⟩
  | _, .obj names =>
    match present.getD (.obj []) with
    | .obj target =>
      let m := names.foldl (mergeName overwritable key) ⟨target, [], []⟩
      ⟨.obj m.value, m.applied, m.skipped⟩
    | present => ⟨present, [], names.map fun entry => (Address.name key entry.1).text⟩
  | _, _ =>
    match present with
    | none => ⟨fragment, [key], []⟩
    | some value =>
      if key ∈ overwritable then ⟨fragment, [key], []⟩ else ⟨value, [], [key]⟩

/-- One key of the fragment. -/
def mergeEntry (m : Merging Fields) (entry : String × Json) : Merging Fields :=
  let merged := mergeValue overwritable entry.1 (m.value.lookup entry.1) entry.2
  ⟨Fields.set m.value entry.1 merged.value, m.applied ++ merged.applied, m.skipped ++ merged.skipped⟩

/-- All keys of the fragment. -/
def mergeEntries (produced fragment : Fields) : Merging Fields :=
  fragment.foldl (mergeEntry overwritable) ⟨produced, [], []⟩

end Merge

/-- The slots a delta lets a merge overwrite. -/
def overwritableOf (delta : Json) : Except GadgetError (List String) :=
  match unwrap "delta" delta with
  | .null => .ok []
  | .obj m =>
    match Fields.getD m "overwritable_slots" (.arr []) with
    | .arr items =>
      match allStrings items with
      | some names => .ok names
      | none => invalidInput "delta.overwritable_slots must be a list of slot names"
    | _ => invalidInput "delta.overwritable_slots must be a list of slot names"
  | _ => invalidInput "delta must be a mapping when provided"

def mergeFragment (produced fragment delta : Json) : Except GadgetError (Merging Fields) :=
  match produced, fragment with
  | .obj produced, .obj fragment =>
    (overwritableOf delta).map fun overwritable => mergeEntries overwritable produced fragment
  | .obj _, _ => invalidInput "fragment must be a mapping"
  | _, _ => invalidInput "produced_json must be a mapping"

end Gadgets

end AiOrg
