import AiOrg.Go.JsonText
import AiOrg.Python.Lines
import AiOrg.Stream.CheckStream

/-!
# The stream body in the codec

`validatePatchworkCheckStream` is the codec's reading of a stream body, over strict JSON and byte by byte. What is read
of a body on the other side is a Python value (`Reads`).
-/

namespace AiOrg

namespace Kindsv2

open StrictJson (Node joinPointer)
open GoJson (utf8Bytes)
open CheckStream (canonicalPath legacyPath)

inductive ErrorCode
  | schemaValidation | identity | encoding | inputLimit | nonCanonical
  deriving DecidableEq, Repr

structure Failure where
  code : ErrorCode
  operation : String
  contextID : String
  cuePath : String
  jsonPointer : String
  ruleID : String
  deriving DecidableEq, Repr

def maxPatchworkStreamBytes : ℕ := 4 <<< 20

/-- The fields of the body, in the order they are looked up. -/
def want : List String := ["raw_stream_base64", "source_oid", "source_path"]

/-- `low ≤ character && character ≤ high`. -/
def inRange (low high : Char) (character : UInt8) : Bool :=
  low.toNat ≤ character.toNat && character.toNat ≤ high.toNat

def isGitObjectID (value : String) : Bool :=
  let bytes := utf8Bytes value.toList
  (bytes.length = 40 || bytes.length = 64) && bytes.all fun character =>
    inRange '0' '9' character || inRange 'a' 'f' character

def isStreamFile (name : List Char) : Bool := name = canonicalPath.toList || name = legacyPath.toList

def cut (mark : Char) (text : List Char) : Option (List Char × List Char) :=
  if mark ∈ text then some (Text.splitOnce mark text) else none

def isPatchworkSourcePath (value : String) : Bool :=
  if isStreamFile value.toList then true
  else if "sub/".toList <+: value.toList then
    match cut '/' (Text.removePrefix "sub/".toList value.toList) with
    | some (key, filename) =>
      isStreamFile filename && key ≠ [] && (utf8Bytes key).all fun character =>
        inRange 'a' 'z' character || inRange '0' '9' character || character.toNat = '_'.toNat
    | none => false
  else false

/-- A character of the alphabet. -/
def isBase64Byte (character : UInt8) : Bool :=
  inRange 'A' 'Z' character || inRange 'a' 'z' character || inRange '0' '9' character ||
    character.toNat = '+'.toNat || character.toNat = '/'.toNat

/-- The characters `=` at the end. -/
def isPad (character : UInt8) : Bool := character.toNat = '='.toNat

def base64DecodedSize (encoded : String) : Option ℕ :=
  let bytes := utf8Bytes encoded.toList
  if bytes.length % 4 ≠ 0 then none
  else
    let padding := (bytes.rtakeWhile isPad).length
    if 2 < padding then none
    else
      let dataEnd := bytes.length - padding
      if (bytes.drop dataEnd).all isPad && (bytes.take dataEnd).all isBase64Byte then
        some (bytes.length / 4 * 3 - padding)
      else none

/-- `base64.StdEncoding.DecodeString`, which skips the ends of lines. -/
def decodeString (encoded : String) : Option Bytes :=
  Base64.decode (encoded.toList.filter fun character => character ≠ '\r' ∧ character ≠ '\n')

section Validate

variable (operation contextID : String)

def failure (code : ErrorCode) (cuePath pointer rule : String) : Failure :=
  ⟨code, operation, contextID, cuePath, pointer, rule⟩

def stringField (root : Node) (name : String) : Except Failure String :=
  match root.lookup name with
  | none => .error (failure operation contextID .schemaValidation name (joinPointer "" name) "required-field")
  | some (.string text) => .ok text
  | some _ => .error (failure operation contextID .schemaValidation name (joinPointer "" name) "string")

/-- The checks on the texts of the fields. -/
def validateFields (encoded source_oid source_path : String) : Except Failure Unit :=
  if !isGitObjectID source_oid then
    .error (failure operation contextID .identity "source_oid" "/source_oid" "source-oid")
  else if !isPatchworkSourcePath source_path then
    .error (failure operation contextID .identity "source_path" "/source_path" "source-path")
  else
    match base64DecodedSize encoded with
    | none =>
      .error (failure operation contextID .encoding "raw_stream_base64" "/raw_stream_base64" "rfc4648-base64")
    | some decodedSize =>
      if maxPatchworkStreamBytes < decodedSize then
        .error (failure operation contextID .inputLimit "raw_stream_base64" "/raw_stream_base64" "decoded-stream-4-mib")
      else
        match decodeString encoded with
        | none =>
          .error (failure operation contextID .encoding "raw_stream_base64" "/raw_stream_base64" "rfc4648-base64")
        | some decoded =>
          if String.ofList (Base64.encode decoded) ≠ encoded then
            .error (failure operation contextID .nonCanonical "raw_stream_base64" "/raw_stream_base64" "rfc4648-base64")
          else .ok ()

def validatePatchworkCheckStream (root : Option Node) : Except Failure Unit :=
  match root with
  | some (.object members) =>
    match (Node.object members).sortedMembers.find? fun member => member.1 ∉ want with
    | some member =>
      .error (failure operation contextID .schemaValidation member.1 (joinPointer "" member.1) "additional-field")
    | none => do
      let encoded ← stringField operation contextID (.object members) "raw_stream_base64"
      let source_oid ← stringField operation contextID (.object members) "source_oid"
      let source_path ← stringField operation contextID (.object members) "source_path"
      validateFields operation contextID encoded source_oid source_path
  | _ => .error (failure operation contextID .schemaValidation "" "" "body-object")

end Validate

inductive Reads : Node → Json → Prop
  | null : Reads .null .null
  | bool (value : Bool) : Reads (.bool value) (.bool value)
  | int (text : String) (value : ℤ) : Reads (.number text) (.int value)
  | float (text repr : String) : Reads (.number text) (.float repr)
  | string (text : String) : Reads (.string text) (.str text)
  | array {elements : List Node} {items : List Json} : List.Forall₂ Reads elements items →
      Reads (.array elements) (.arr items)
  | object {members : List (String × Node)} {fields : Fields} :
      members.map Prod.fst = fields.map Prod.fst →
        List.Forall₂ Reads (members.map Prod.snd) (fields.map Prod.snd) → Reads (.object members) (.obj fields)

/-- The bodies that are made of raw bytes, whatever the order of their fields. -/
def Canonical (raw : Bytes) (body : Json) : Prop :=
  ∃ (source_oid source_path : String) (fields canonical : Fields), body = .obj fields ∧
    CheckStream.bodyFromRawStream raw source_oid source_path = .ok (.obj canonical) ∧
      ∀ key, fields.lookup key = canonical.lookup key

end Kindsv2

end AiOrg
