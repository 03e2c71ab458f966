import AiOrg.Python.Base64

/-!
# `json.loads`

Strict UTF-8 decoding, and the text of one JSON value as Python's scanner reads it: which texts it
accepts, where it stops, and the value it builds, with the two hooks the program passes to it (a
repeated member name and the constants `NaN` and `Infinity` are refused).

A Lean character is a scalar value, so a `\u` escape of a lone surrogate is kept as one of the last
2048 private-use characters.
-/

namespace AiOrg

/-- Whether a byte continues a character. -/
def isUtf8Tail (b : UInt8) : Bool := b.toNat / 64 == 2

/-- `data.decode("utf-8", errors="strict")`. -/
def utf8Decode : Bytes → Option (List Char)
  | [] => some []
  | a :: rest =>
    if a.toNat < 0x80 then (utf8Decode rest).map (Char.ofNat a.toNat :: ·)
    else match rest with
    | [] => none
    | b :: rest =>
      if !isUtf8Tail b then none
      else if 0xc2 ≤ a.toNat ∧ a.toNat < 0xe0 then
        (utf8Decode rest).map (Char.ofNat (a.toNat % 32 * 64 + b.toNat % 64) :: ·)
      else match rest with
      | [] => none
      | c :: rest =>
        if !isUtf8Tail c then none
        else if 0xe0 ≤ a.toNat ∧ a.toNat < 0xf0 then
          let n := a.toNat % 16 * 4096 + b.toNat % 64 * 64 + c.toNat % 64
          if n < 0x800 ∨ (0xd800 ≤ n ∧ n < 0xe000) then none
          else (utf8Decode rest).map (Char.ofNat n :: ·)
        else match rest with
        | [] => none
        | d :: rest =>
          let n := a.toNat % 8 * 262144 + b.toNat % 64 * 4096 + c.toNat % 64 * 64 + d.toNat % 64
          if !isUtf8Tail d || a.toNat < 0xf0 || 0xf8 ≤ a.toNat || n < 0x10000 || 0x110000 ≤ n then
            none
          else (utf8Decode rest).map (Char.ofNat n :: ·)

/-! ### Tokens -/

/-- Why `json.loads` raises. -/
inductive JsonError where
  /-- A `JSONDecodeError`. -/
  | decode
  /-- The duplicate member name `_unique_object` refuses. -/
  | duplicateKey
  /-- The constant `_reject_json_constant` refuses. -/
  | constant (name : String)
  /-- The limit on the digits of an `int`. -/
  | digits (n : ℕ)
  | recursion
  deriving DecidableEq, Repr

/-- `sys.get_int_max_str_digits()`. -/
def maxStrDigits : ℕ := 4300

def isJsonSpace (c : Char) : Bool := c == ' ' || c == '\t' || c == '\n' || c == '\r'

def isJsonDigit (c : Char) : Bool := '0' ≤ c && c ≤ '9'

def skipSpace (text : List Char) : List Char := text.dropWhile isJsonSpace

def hexDigit (c : Char) : Option ℕ :=
  if isJsonDigit c then some (c.toNat - 48)
  else if 'a' ≤ c ∧ c ≤ 'f' then some (c.toNat - 87)
  else if 'A' ≤ c ∧ c ≤ 'F' then some (c.toNat - 55)
  else none

/-- The code unit of a one-character escape. -/
def simpleEscape (c : Char) : Option ℕ :=
  if c = '\x22' then some 0x22
  else if c = '\\' then some 0x5c
  else if c = '/' then some 0x2f
  else if c = 'b' then some 8
  else if c = 'f' then some 12
  else if c = 'n' then some 10
  else if c = 'r' then some 13
  else if c = 't' then some 9
  else none

/-- The code units of a string up to its closing quote, and the text after it. -/
def scanUnits : List Char → Option (List ℕ × List Char)
  | [] => none
  | c :: rest =>
    if c = '\x22' then some ([], rest)
    else if c = '\\' then
      match rest with
      | 'u' :: h₁ :: h₂ :: h₃ :: h₄ :: rest =>
        match hexDigit h₁, hexDigit h₂, hexDigit h₃, hexDigit h₄ with
        | some a, some b, some c, some d =>
          (scanUnits rest).map fun r => ((a * 4096 + b * 256 + c * 16 + d) :: r.1, r.2)
        | _, _, _, _ => none
      | e :: rest =>
        match simpleEscape e with
        | some n => (scanUnits rest).map fun r => (n :: r.1, r.2)
        | none => none
      | [] => none
    else if c.toNat ≤ 0x1f then none
    else (scanUnits rest).map fun r => (c.toNat :: r.1, r.2)

def isHighSurrogate (n : ℕ) : Bool := 0xd800 ≤ n && n < 0xdc00
def isLowSurrogate (n : ℕ) : Bool := 0xdc00 ≤ n && n < 0xe000

/-- The character of a code unit that stands alone. -/
def unitChar (n : ℕ) : Char :=
  if isHighSurrogate n || isLowSurrogate n then Char.ofNat (n - 0xd800 + 0x10f800) else Char.ofNat n

/-- The characters of code units, a surrogate pair being one. -/
def joinUnits : List ℕ → List Char
  | [] => []
  | [m] => [unitChar m]
  | m :: n :: rest =>
    if isHighSurrogate m && isLowSurrogate n then
      Char.ofNat (0x10000 + (m - 0xd800) * 0x400 + (n - 0xdc00)) :: joinUnits rest
    else unitChar m :: joinUnits (n :: rest)

/-- `scanstring`, after the opening quote. -/
def scanJsonString (text : List Char) : Option (String × List Char) :=
  (scanUnits text).map fun r => (String.ofList (joinUnits r.1), r.2)

def scanFraction : List Char → List Char × List Char
  | '.' :: d :: rest =>
    if isJsonDigit d then ('.' :: (d :: rest).takeWhile isJsonDigit, (d :: rest).dropWhile isJsonDigit)
    else ([], '.' :: d :: rest)
  | text => ([], text)

/-- The exponent of a numeral, when a digit follows its sign. -/
def scanExponent : List Char → List Char × List Char
  | e :: rest =>
    let sign := rest.takeWhile (fun c => c == '+' || c == '-') |>.take 1
    let digits := rest.drop sign.length
    if (e == 'e' || e == 'E') && (digits.head?.any isJsonDigit) then
      (e :: sign ++ digits.takeWhile isJsonDigit, digits.dropWhile isJsonDigit)
    else ([], e :: rest)
  | [] => ([], [])

/-- The digits of an integer: one zero, or a run that starts with another digit. -/
def scanDigits : List Char → Option (List Char × List Char)
  | [] => none
  | c :: rest =>
    if c = '0' then some ([c], rest)
    else if isJsonDigit c then some (c :: rest.takeWhile isJsonDigit, rest.dropWhile isJsonDigit)
    else none

/-- `int(digits)`. -/
def natOfDigits (digits : List Char) : ℕ := digits.foldl (fun n c => 10 * n + (c.toNat - 48)) 0

variable (py : PyLib)

/-- `_match_number`: the longest numeral at the front of a text. -/
def scanNumber (negative : Bool) (text : List Char) : Except JsonError (Json × List Char) :=
  match scanDigits text with
  | none => .error .decode
  | some (digits, rest) =>
    let fraction := scanFraction rest
    let exponent := scanExponent fraction.2
    if fraction.1.isEmpty && exponent.1.isEmpty then
      if maxStrDigits < digits.length then .error (.digits digits.length)
      else
        let n : Int := natOfDigits digits
        .ok (.int (if negative then -n else n), rest)
    else
      let numeral := digits ++ fraction.1 ++ exponent.1
      .ok (.float (py.floatRepr (String.ofList (if negative then '-' :: numeral else numeral))),
        exponent.2)

/-- What the scanner reads of a value that is no string and no container. -/
def scanScalar (text : List Char) : Except JsonError (Json × List Char) :=
  if "null".toList <+: text then .ok (.null, text.drop 4)
  else if "true".toList <+: text then .ok (.bool true, text.drop 4)
  else if "false".toList <+: text then .ok (.bool false, text.drop 5)
  else if "NaN".toList <+: text then .error (.constant "NaN")
  else if "Infinity".toList <+: text then .error (.constant "Infinity")
  else if "-Infinity".toList <+: text then .error (.constant "-Infinity")
  else if "-".toList <+: text then scanNumber py true (text.drop 1)
  else scanNumber py false text

def uniqueObject (pairs : List (String × Json)) : Except JsonError Fields :=
  pairs.foldlM (fun (result : Fields) pair =>
    if result.contains pair.1 then .error .duplicateKey else .ok (result.set pair.1 pair.2)) []

mutual

def scanOnce : ℕ → List Char → Except JsonError (Json × List Char)
  | 0, _ => .error .recursion
  | fuel + 1, text =>
    match text with
    | '\x22' :: rest =>
      match scanJsonString rest with
      | some (s, rest) => .ok (.str s, rest)
      | none => .error .decode
    | '{' :: rest =>
      match skipSpace rest with
      | '}' :: rest => .ok (.obj [], rest)
      | text => do
        let (pairs, rest) ← scanMembers fuel text
        return (.obj (← uniqueObject pairs), rest)
    | '[' :: rest =>
      match skipSpace rest with
      | ']' :: rest => .ok (.arr [], rest)
      | text => do
        let (items, rest) ← scanItems fuel text
        return (.arr items, rest)
    | text => scanScalar py text

def scanMembers : ℕ → List Char → Except JsonError (List (String × Json) × List Char)
  | 0, _ => .error .recursion
  | fuel + 1, text =>
    match text with
    | '\x22' :: rest =>
      match scanJsonString rest with
      | none => .error .decode
      | some (key, rest) =>
        match skipSpace rest with
        | ':' :: rest => do
          let (value, rest) ← scanOnce fuel (skipSpace rest)
          match skipSpace rest with
          | '}' :: rest => .ok ([(key, value)], rest)
          | ',' :: rest => do
            let (pairs, rest) ← scanMembers fuel (skipSpace rest)
            return ((key, value) :: pairs, rest)
          | _ => .error .decode
        | _ => .error .decode
    | _ => .error .decode

def scanItems : ℕ → List Char → Except JsonError (List Json × List Char)
  | 0, _ => .error .recursion
  | fuel + 1, text => do
    let (value, rest) ← scanOnce fuel text
    match skipSpace rest with
    | ']' :: rest => .ok ([value], rest)
    | ',' :: rest => do
      let (items, rest) ← scanItems fuel (skipSpace rest)
      return (value :: items, rest)
    | _ => .error .decode

end

/-- `json.loads(text, object_pairs_hook=_unique_object, parse_constant=_reject_json_constant)`. -/
def jsonLoads (text : List Char) : Except JsonError Json :=
  if text.head? = some '\ufeff' then .error .decode
  else do
    let (value, rest) ← scanOnce py (2 * text.length + 2) (skipSpace text)
    if (skipSpace rest).isEmpty then return value else .error .decode

/-- `str(exc)`. -/
def JsonError.text (text : List Char) : JsonError → String
  | .decode => py.decodeErrorText (String.ofList text)
  | .duplicateKey => "duplicate object key"
  | .constant name => "non-standard JSON constant " ++ py.repr name
  | .digits n =>
    "Exceeds the limit (4300 digits) for integer string conversion: value has " ++ toString n
      ++ " digits; use sys.set_int_max_str_digits() to increase the limit"
  | .recursion => "maximum recursion depth exceeded"

end AiOrg
