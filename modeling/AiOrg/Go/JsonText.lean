import AiOrg.StrictJson.Number

/-!
# `encoding/json`

How Go writes JSON strings, with the escapes for HTML, which numerals it takes for JSON numbers, and
the bytes of a text.
-/

namespace AiOrg

namespace GoJson

/-- A digit of `"0123456789abcdef"`. -/
def hexDigit (n : ℕ) : Char :=
  if n < 10 then Char.ofNat ('0'.toNat + n) else Char.ofNat ('a'.toNat + (n - 10))

/-- Four hexadecimal digits. -/
def hex4 (n : ℕ) : List Char :=
  [hexDigit (n / 4096 % 16), hexDigit (n / 256 % 16), hexDigit (n / 16 % 16), hexDigit (n % 16)]

def escapeLetter (c : Char) : Option Char :=
  if c = '\x22' then some '\x22'
  else if c = '\\' then some '\\'
  else if c = '\x08' then some 'b'
  else if c = '\x0c' then some 'f'
  else if c = '\n' then some 'n'
  else if c = '\r' then some 'r'
  else if c = '\t' then some 't'
  else none

/-- The characters that `json.Marshal` writes as `\u` escapes: control characters, those with a meaning
in HTML and the two line separators. -/
def isEscapedHex (c : Char) : Bool :=
  decide (c.toNat < 0x20) || c == '<' || c == '>' || c == '&' || c.toNat == 0x2028 ||
    c.toNat == 0x2029

/-- A character as it stands in a string. -/
def escapeChar (c : Char) : List Char :=
  match escapeLetter c with
  | some letter => ['\\', letter]
  | none => if isEscapedHex c then '\\' :: 'u' :: hex4 c.toNat else [c]

/-- `json.Marshal` of a string. -/
def quote (text : List Char) : List Char := '\x22' :: text.flatMap escapeChar ++ ['\x22']

/-- An exponent without its sign. -/
def unsigned : List Char → List Char
  | '+' :: digits => digits
  | '-' :: digits => digits
  | digits => digits

def isExponentEnd : List Char → Bool
  | [] => true
  | mark :: rest => (mark == 'e' || mark == 'E') && !(unsigned rest).isEmpty &&
      (unsigned rest).all Char.isDigit

def isFractionEnd : List Char → Bool
  | '.' :: c :: rest => c.isDigit && isExponentEnd (rest.dropWhile Char.isDigit)
  | rest => isExponentEnd rest

/-- `isValidNumber` behind the sign. -/
def isMagnitude : List Char → Bool
  | '0' :: rest => isFractionEnd rest
  | c :: rest => c.isDigit && isFractionEnd (rest.dropWhile Char.isDigit)
  | [] => false

/-- `isValidNumber`. -/
def isValidNumber : List Char → Bool
  | '-' :: number => isMagnitude number
  | number => isMagnitude number

def utf8Bytes (text : List Char) : List UInt8 := text.flatMap String.utf8EncodeChar

end GoJson

end AiOrg
