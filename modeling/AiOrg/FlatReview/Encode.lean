import AiOrg.Go.JsonText
import AiOrg.Python.JsonText
import AiOrg.SchemaGuard.Grammar
import AiOrg.StrictJson.Parse

/-!
# Flat review candidates

`Encode` writes each record as a separator, a compact JSON text and a newline. The text holds the
scalars and the empty containers of the carrier, each with its pointer, in the order of the pointers.
-/

namespace AiOrg

namespace FlatReview

open StrictJson (Node Parse Source joinPointer)
open SchemaGuard (elementPlaces memberPlaces)

def recordSeparator : UInt8 := 0x1e

structure Record where
  stableID : List UInt8
  carrier : List UInt8
  deriving DecidableEq, Repr

/-- `rowV1`; the raw value is the text of a leaf, by `marshalLeaf`. -/
structure Row where
  pointer : String
  leaf : Node
  deriving DecidableEq

/-- What `Encode` reports; the ones of a section name the record. -/
inductive Error
  | invalidStableID
  | duplicateStableID
  | carrier (stableID : List UInt8) (cause : StrictJson.Error)
  | unpairedSurrogate (stableID : List UInt8)
  | section (stableID : List UInt8)
  deriving DecidableEq, Repr

/-- A digit of `hexCodeUnit`. -/
def hexDigitValue (digit : UInt8) : Option ℕ :=
  if 0x30 ≤ digit.toNat ∧ digit.toNat ≤ 0x39 then some (digit.toNat - 0x30)
  else if 0x61 ≤ digit.toNat ∧ digit.toNat ≤ 0x66 then some (digit.toNat - 0x61 + 10)
  else if 0x41 ≤ digit.toNat ∧ digit.toNat ≤ 0x46 then some (digit.toNat - 0x41 + 10)
  else none

/-- `hexCodeUnit`. -/
def hexCodeUnit : List UInt8 → Option ℕ
  | a :: b :: c :: d :: _ =>
    match hexDigitValue a, hexDigitValue b, hexDigitValue c, hexDigitValue d with
    | some a, some b, some c, some d => some (a * 4096 + b * 256 + c * 16 + d)
    | _, _, _, _ => none
  | _ => none

def lowSurrogateNext : List UInt8 → Bool
  | 0x5c :: 0x75 :: rest =>
    match hexCodeUnit rest with
    | some low => decide (0xdc00 ≤ low ∧ low ≤ 0xdfff)
    | none => false
  | _ => false

/-- The loop of `validUnicodeEscapes`: the bytes to go, of which some are skipped first. -/
def validEscapesFrom : List UInt8 → ℕ → Bool → Bool
  | [], _, _ => true
  | _ :: rest, skip + 1, inString => validEscapesFrom rest skip inString
  | b :: rest, 0, false => validEscapesFrom rest 0 (b == 0x22)
  | b :: rest, 0, true =>
    if b = 0x22 then validEscapesFrom rest 0 false
    else if b ≠ 0x5c then validEscapesFrom rest 0 true
    else
      match rest with
      | [] => true
      | 0x75 :: digits =>
        match hexCodeUnit digits with
        | none => validEscapesFrom rest 0 true
        | some code =>
          if 0xd800 ≤ code ∧ code ≤ 0xdbff then
            lowSurrogateNext (digits.drop 4) && validEscapesFrom rest 11 true
          else if 0xdc00 ≤ code ∧ code ≤ 0xdfff then false
          else validEscapesFrom rest 5 true
      | _ :: _ => validEscapesFrom rest 1 true

def validUnicodeEscapes (src : List UInt8) : Bool := validEscapesFrom src 0 false

def marshalLeaf : Node → List Char
  | .null => ['n', 'u', 'l', 'l']
  | .bool true => ['t', 'r', 'u', 'e']
  | .bool false => ['f', 'a', 'l', 's', 'e']
  | .number text => text.toList
  | .string text => GoJson.quote text.toList
  | .array _ => ['[', ']']
  | .object _ => ['\x7b', '\x7d']

/-- `flattenRows`, to a depth; containers are leaves where they are empty. -/
def flattenTo : ℕ → Node → String → List Row
  | 0, _, _ => []
  | depth + 1, .object members, pointer =>
    if (Node.object members).sortedMembers = [] then [⟨pointer, .object []⟩]
    else (memberPlaces pointer (.object members)).flatMap fun place =>
      flattenTo depth place.2 place.1
  | depth + 1, .array elements, pointer =>
    if elements = [] then [⟨pointer, .array []⟩]
    else (elementPlaces pointer elements).flatMap fun place => flattenTo depth place.2 place.1
  | _ + 1, node, pointer => [⟨pointer, node⟩]

def flattenRows (root : Node) : List Row := flattenTo root.depth root ""

/-- The rows in the order of their pointers. -/
def sortedRows (root : Node) : List Row :=
  (flattenRows root).insertionSort fun a b => a.pointer ≤ b.pointer

/-- The text of a row up to its pointer. -/
def rowOpening : List Char := "\x7b\"pointer\":".toList

/-- The text of a row between its pointer and its value. -/
def rowMiddle : List Char := ",\"value\":".toList

def rowText (row : Row) : List Char :=
  rowOpening ++ GoJson.quote row.pointer.toList ++ rowMiddle ++ marshalLeaf row.leaf ++ ['\x7d']

/-- The rows with commas between them, and the end of the array. -/
def rowsText : List Row → List Char
  | [] => [']']
  | [row] => rowText row ++ [']']
  | row :: rows => rowText row ++ ',' :: rowsText rows

/-- The text of a section up to its rows. -/
def sectionOpening : List Char := "\x7b\"rows\":[".toList

/-- The text of a section between its rows and its id. -/
def sectionMiddle : List Char := ",\"stable_id\":".toList

def sectionText (rows : List Row) (stableID : List Char) : List Char :=
  sectionOpening ++ rowsText rows ++ sectionMiddle ++ GoJson.quote stableID ++ ['\x7d']

/-- `json.Marshal` refuses a raw value that is no JSON, which only the text of a number could be. The
others are compact and have no character that it would escape. -/
def validRow (row : Row) : Bool :=
  match row.leaf with
  | .number text => GoJson.isValidNumber text.toList
  | _ => true

variable (source : Source)

def encodeSection (record : Record) : Except Error (List UInt8) :=
  match Parse source record.carrier with
  | .error e => .error (.carrier record.stableID e)
  | .ok root =>
    if !validUnicodeEscapes record.carrier then .error (.unpairedSurrogate record.stableID)
    else
      match utf8Decode record.stableID with
      | none => .error (.section record.stableID)
      | some id =>
        if (sortedRows root).all validRow then
          .ok (recordSeparator :: GoJson.utf8Bytes (sectionText (sortedRows root) id) ++ [0x0a])
        else .error (.section record.stableID)

def ordered (records : List Record) : List Record :=
  records.insertionSort fun a b => a.stableID.map UInt8.toNat ≤ b.stableID.map UInt8.toNat

/-- The loop over the ids, with the one before. -/
def checkIDs : Option (List UInt8) → List Record → Option Error
  | _, [] => none
  | previous, record :: rest =>
    if record.stableID = [] ∨ (utf8Decode record.stableID).isNone then some .invalidStableID
    else if previous = some record.stableID then some .duplicateStableID
    else checkIDs (some record.stableID) rest

/-- The loop over the sections. -/
def encodeSections : List Record → Except Error (List (List UInt8))
  | [] => .ok []
  | record :: rest => do
    let first ← encodeSection source record
    let others ← encodeSections rest
    .ok (first :: others)

def Encode (records : List Record) : List UInt8 × Option Error :=
  match checkIDs none (ordered records) with
  | some e => ([], some e)
  | none =>
    match encodeSections source (ordered records) with
    | .error e => ([], some e)
    | .ok sections => (sections.flatten, none)

end FlatReview

end AiOrg

/-!
## Carriers by their leaves

A carrier as its leaves with the paths to them, the tokens of a pointer, in which an array and an
object with indices as names look the same.
-/

namespace AiOrg

namespace FlatReview

open StrictJson (Node)

def children : Node → List (String × Node)
  | .object members => members
  | .array elements => elements.zipIdx.map fun element => (toString element.2, element.1)
  | _ => []

def valueAt : Node → List String → Option Node
  | node, [] => some node
  | node, token :: path => ((children node).lookup token).bind fun child => valueAt child path

/-- Scalars and empty containers. -/
def IsLeaf (node : Node) : Prop := children node = []

/-- The same leaves stand at the same paths. -/
def Alike (a b : Node) : Prop :=
  ∀ path leaf, IsLeaf leaf → (valueAt a path = some leaf ↔ valueAt b path = some leaf)

/-- At some path one has an array and the other an object. -/
def Mixed (a b : Node) : Prop :=
  ∃ path elements members,
    valueAt a path = some (.array elements) ∧ valueAt b path = some (.object members) ∨
    valueAt a path = some (.object members) ∧ valueAt b path = some (.array elements)

end FlatReview

end AiOrg
