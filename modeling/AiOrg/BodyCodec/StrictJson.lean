import AiOrg.BodyCodec.Number
import AiOrg.Run.Checks

/-!
# Strict JSON

How `json.loads` reads one value whose numbers are kept as the tokens that spell them, and refuses a member that is
there twice. It goes into a container by a call; how many calls can be open at once is for the interpreter to say.
-/

namespace AiOrg

namespace BodyCodec

open PyStr (plain)

def isJsonSpace : CodePoint → Bool := CodePoint.isChar fun c => c = ' ' ∨ c = '\t' ∨ c = '\n' ∨ c = '\r'

def skipSpace (text : PyStr) : PyStr := text.dropWhile isJsonSpace

def hexValue : CodePoint → Option ℕ
  | .scalar c => hexDigit c
  | .surrogate _ => none

def escapeValue : CodePoint → Option Char
  | .scalar c =>
    if c = '\x22' then some '\x22'
    else if c = '\\' then some '\\'
    else if c = '/' then some '/'
    else if c = 'b' then some '\x08'
    else if c = 'f' then some '\x0c'
    else if c = 'n' then some '\n'
    else if c = 'r' then some '\r'
    else if c = 't' then some '\t'
    else none
  | .surrogate _ => none

/-- What stands in a string as it is. -/
def isRaw (c : CodePoint) : Bool :=
  c != .scalar '\x22' && c != .scalar '\\' && !CodePoint.isChar (fun c => c.toNat < 0x20) c

/-- The code points of a string up to its closing quote, each with whether a `\u` escape spells it, and the text after
it. -/
def scanUnits : PyStr → Option (List (Bool × CodePoint) × PyStr)
  | [] => none
  | c :: rest =>
    if c = .scalar '\x22' then some ([], rest)
    else if c = .scalar '\\' then
      match rest with
      | e :: h₁ :: h₂ :: h₃ :: h₄ :: rest =>
        if e = .scalar 'u' then
          match hexValue h₁, hexValue h₂, hexValue h₃, hexValue h₄ with
          | some a, some b, some c, some d =>
            (scanUnits rest).map fun r => ((true, .ofUnit (a * 4096 + b * 256 + c * 16 + d)) :: r.1, r.2)
          | _, _, _, _ => none
        else
          match escapeValue e with
          | some c => (scanUnits (h₁ :: h₂ :: h₃ :: h₄ :: rest)).map fun r => ((false, .scalar c) :: r.1, r.2)
          | none => none
      | e :: rest =>
        match escapeValue e with
        | some c => (scanUnits rest).map fun r => ((false, .scalar c) :: r.1, r.2)
        | none => none
      | [] => none
    else if isRaw c = true then (scanUnits rest).map fun r => ((false, c) :: r.1, r.2)
    else none

def pairChar : Bool × CodePoint → Bool × CodePoint → Option Char
  | (true, .surrogate m), (true, .surrogate n) =>
    if m.val < 0x400 ∧ 0x400 ≤ n.val then some (Char.ofNat (0x10000 + m.val * 0x400 + (n.val - 0x400))) else none
  | _, _ => none

/-- Escaped surrogates that are a pair are one character. -/
def joinUnits : List (Bool × CodePoint) → PyStr
  | [] => []
  | [m] => [m.2]
  | m :: n :: rest =>
    match pairChar m n with
    | some c => .scalar c :: joinUnits rest
    | none => m.2 :: joinUnits (n :: rest)

/-- `scanstring`, after the opening quote. -/
def scanString (text : PyStr) : Option (PyStr × PyStr) := (scanUnits text).map fun r => (joinUnits r.1, r.2)

inductive Native
  | lossy | bytes
  | other (type_name : String)
  deriving DecidableEq

/-- A value; what is read has no `int` of Python's own and nothing that the writer refuses. -/
inductive Value
  | null
  | bool (b : Bool)
  | number (n : ExactJSONNumber)
  | int (n : ℤ)
  | str (s : PyStr)
  | arr (items : List Value)
  | obj (members : List (PyStr × Value))
  | native (n : Native)

inductive CodecError
  | badDepth
  | notUtf8
  | decode
  | duplicateKey (key : PyStr)
  | constant (token : String)
  | maxDepth (max_depth : ℤ)
  | recursion
  | invalidUnicode
  | refused (n : Native)
  deriving DecidableEq

/-- A constant of Python's `json` that JSON does not have. -/
inductive Constant
  | nan | infinity | negInfinity
  deriving DecidableEq

def Constant.token : Constant → List Char
  | nan => ['N', 'a', 'N']
  | infinity => ['I', 'n', 'f', 'i', 'n', 'i', 't', 'y']
  | negInfinity => ['-', 'I', 'n', 'f', 'i', 'n', 'i', 't', 'y']

structure Interpreter where
  scan_room : ℕ
  encode_room : ℕ

def object_pairs (pairs : List (PyStr × Value)) : Except CodecError (List (PyStr × Value)) :=
  pairs.foldlM (fun result pair =>
    if pair.1 ∈ result.map Prod.fst then .error (.duplicateKey pair.1) else .ok (result ++ [pair])) []

def startsWith (token : List Char) (text : PyStr) : Prop := plain token <+: text

instance (token : List Char) (text : PyStr) : Decidable (startsWith token text) :=
  inferInstanceAs (Decidable (plain token <+: text))

/-- `json` without the hook makes a float of a constant. -/
def floatConstant (_ : Constant) : Except CodecError Value := .ok (.native .lossy)

section Scanner

variable (parse_constant : Constant → Except CodecError Value)

def scanScalar (text : PyStr) : Except CodecError (Value × PyStr) :=
  if startsWith ['n', 'u', 'l', 'l'] text then .ok (.null, text.drop 4)
  else if startsWith ['t', 'r', 'u', 'e'] text then .ok (.bool true, text.drop 4)
  else if startsWith ['f', 'a', 'l', 's', 'e'] text then .ok (.bool false, text.drop 5)
  else if startsWith ['N', 'a', 'N'] text then
    (parse_constant .nan).map fun value => (value, text.drop 3)
  else if startsWith ['I', 'n', 'f', 'i', 'n', 'i', 't', 'y'] text then
    (parse_constant .infinity).map fun value => (value, text.drop 8)
  else if startsWith ['-', 'I', 'n', 'f', 'i', 'n', 'i', 't', 'y'] text then
    (parse_constant .negInfinity).map fun value => (value, text.drop 9)
  else
    match h : scanNumber isDigit text with
    | some (lexeme, rest) => .ok (.number ⟨lexeme, parts_of_scanNumber h⟩, rest)
    | none => .error .decode

mutual

/-- `scan_once`. The fuel is not used up by a text that is JSON, the room by containers that are nested. -/
def scanOnce : ℕ → ℕ → PyStr → Except CodecError (Value × PyStr)
  | 0, _, _ => .error .decode
  | _ + 1, _, [] => .error .decode
  | fuel + 1, room, c :: rest =>
    if c = .scalar '\x22' then
      match scanString rest with
      | some (s, rest) => .ok (.str s, rest)
      | none => .error .decode
    else if c = .scalar '\x7b' then
      match room with
      | 0 => .error .recursion
      | room + 1 =>
        if (skipSpace rest).head? = some (.scalar '\x7d') then .ok (.obj [], (skipSpace rest).tail)
        else do
          let (pairs, rest) ← scanMembers fuel room (skipSpace rest)
          return (.obj (← object_pairs pairs), rest)
    else if c = .scalar '[' then
      match room with
      | 0 => .error .recursion
      | room + 1 =>
        if (skipSpace rest).head? = some (.scalar ']') then .ok (.arr [], (skipSpace rest).tail)
        else do
          let (items, rest) ← scanItems fuel room (skipSpace rest)
          return (.arr items, rest)
    else scanScalar parse_constant (c :: rest)

def scanMembers : ℕ → ℕ → PyStr → Except CodecError (List (PyStr × Value) × PyStr)
  | 0, _, _ => .error .decode
  | _ + 1, _, [] => .error .decode
  | fuel + 1, room, q :: rest =>
    if q = .scalar '\x22' then
      match scanString rest with
      | none => .error .decode
      | some (key, rest) =>
        if (skipSpace rest).head? = some (.scalar ':') then do
          let (value, rest) ← scanOnce fuel room (skipSpace (skipSpace rest).tail)
          if (skipSpace rest).head? = some (.scalar '\x7d') then return ([(key, value)], (skipSpace rest).tail)
          else if (skipSpace rest).head? = some (.scalar ',') then do
            let (pairs, rest) ← scanMembers fuel room (skipSpace (skipSpace rest).tail)
            return ((key, value) :: pairs, rest)
          else .error .decode
        else .error .decode
    else .error .decode

def scanItems : ℕ → ℕ → PyStr → Except CodecError (List Value × PyStr)
  | 0, _, _ => .error .decode
  | fuel + 1, room, text => do
    let (value, rest) ← scanOnce fuel room text
    if (skipSpace rest).head? = some (.scalar ']') then return ([value], (skipSpace rest).tail)
    else if (skipSpace rest).head? = some (.scalar ',') then do
      let (items, rest) ← scanItems fuel room (skipSpace (skipSpace rest).tail)
      return (value :: items, rest)
    else .error .decode

end

/-- `json.loads` with `object_pairs` and a hook for the constants. -/
def jsonLoads (room : ℕ) (text : PyStr) : Except CodecError Value :=
  if text.head? = some (.scalar '\ufeff') then .error .decode
  else do
    let (value, rest) ← scanOnce parse_constant (2 * text.length + 2) room (skipSpace text)
    if skipSpace rest = [] then return value else .error .decode

end Scanner

end BodyCodec

end AiOrg
