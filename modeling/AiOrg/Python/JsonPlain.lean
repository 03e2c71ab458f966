import AiOrg.Go.JsonText
import AiOrg.Python.JsonText

/-!
# Plain JSON

`json.loads` without hooks, where the last of two members with one name counts and the constants are
floats, and `json.dumps` of an object of strings and of a list in ASCII.
-/

namespace AiOrg

section Loads

variable (py : PyLib)

/-- What the scanner reads of a value that is no string and no container, constants included. -/
def scanPlainScalar (text : List Char) : Except JsonError (Json × List Char) :=
  if "NaN".toList <+: text then .ok (.float "nan", text.drop 3)
  else if "Infinity".toList <+: text then .ok (.float "inf", text.drop 8)
  else if "-Infinity".toList <+: text then .ok (.float "-inf", text.drop 9)
  else scanScalar py text

/-- `dict(pairs)`. -/
def dictOf (pairs : List (String × Json)) : Fields :=
  pairs.foldl (fun result pair => result.set pair.1 pair.2) []

mutual

/-- `scan_once` without hooks; the fuel bounds the calls that are open at once. -/
def scanPlain : ℕ → List Char → Except JsonError (Json × List Char)
  | 0, _ => .error .recursion
  | fuel + 1, text =>
    match text with
    | '\x22' :: rest =>
      match scanJsonString rest with
      | some (s, rest) => .ok (.str s, rest)
      | none => .error .decode
    | '{' :: rest =>
      match skipSpace rest with
      | '}' :: rest => .ok (.obj [], rest)
      | text => do
        let (pairs, rest) ← scanPlainMembers fuel text
        return (.obj (dictOf pairs), rest)
    | '[' :: rest =>
      match skipSpace rest with
      | ']' :: rest => .ok (.arr [], rest)
      | text => do
        let (items, rest) ← scanPlainItems fuel text
        return (.arr items, rest)
    | text => scanPlainScalar py text

def scanPlainMembers : ℕ → List Char → Except JsonError (List (String × Json) × List Char)
  | 0, _ => .error .recursion
  | fuel + 1, text =>
    match text with
    | '\x22' :: rest =>
      match scanJsonString rest with
      | none => .error .decode
      | some (key, rest) =>
        match skipSpace rest with
        | ':' :: rest => do
          let (value, rest) ← scanPlain fuel (skipSpace rest)
          match skipSpace rest with
          | '}' :: rest => .ok ([(key, value)], rest)
          | ',' :: rest => do
            let (pairs, rest) ← scanPlainMembers fuel (skipSpace rest)
            return ((key, value) :: pairs, rest)
          | _ => .error .decode
        | _ => .error .decode
    | _ => .error .decode

def scanPlainItems : ℕ → List Char → Except JsonError (List Json × List Char)
  | 0, _ => .error .recursion
  | fuel + 1, text => do
    let (value, rest) ← scanPlain fuel text
    match skipSpace rest with
    | ']' :: rest => .ok ([value], rest)
    | ',' :: rest => do
      let (items, rest) ← scanPlainItems fuel (skipSpace rest)
      return (value :: items, rest)
    | _ => .error .decode

end

/-- `json.loads(text)`. -/
def loadsPlain (text : String) : Except JsonError Json :=
  if text.toList.head? = some '\ufeff' then .error .decode
  else do
    let (value, rest) ← scanPlain py (2 * text.length + 2) (skipSpace text.toList)
    if (skipSpace rest).isEmpty then return value else .error .decode

end Loads

section Dumps

/-- The letter of an escape with one. -/
def dumpsLetter (c : Char) : Option Char :=
  if c = '\x22' then some '\x22'
  else if c = '\\' then some '\\'
  else if c = '\n' then some 'n'
  else if c = '\r' then some 'r'
  else if c = '\t' then some 't'
  else if c = '\x0c' then some 'f'
  else if c = '\x08' then some 'b'
  else none

def codeUnits (c : Char) : List ℕ :=
  if c.toNat < 0x10000 then [c.toNat]
  else [0xd800 + (c.toNat - 0x10000) / 0x400, 0xdc00 + (c.toNat - 0x10000) % 0x400]

/-- A character as `json.dumps` writes it with `ensure_ascii`. -/
def dumpsChar (c : Char) : List Char :=
  match dumpsLetter c with
  | some letter => ['\\', letter]
  | none =>
    if 0x20 ≤ c.toNat ∧ c.toNat ≤ 0x7e then [c]
    else (codeUnits c).flatMap fun unit => '\\' :: 'u' :: GoJson.hex4 unit

/-- A string as `json.dumps` writes it. -/
def dumpsString (text : String) : List Char :=
  '\x22' :: text.toList.flatMap dumpsChar ++ ['\x22']

def dumpsMembers : List (String × String) → List Char
  | [] => ['\x7d']
  | [(key, value)] => dumpsString key ++ ':' :: ' ' :: dumpsString value ++ ['\x7d']
  | (key, value) :: members =>
    dumpsString key ++ ':' :: ' ' :: dumpsString value ++ ',' :: ' ' :: dumpsMembers members

/-- `json.dumps(value, sort_keys=True, ensure_ascii=True)` of an object of strings. -/
def dumpsStrings (members : List (String × String)) : String :=
  String.ofList ('\x7b' :: dumpsMembers (members.insertionSort fun a b => a.1 ≤ b.1))

/-- `json.dumps` of a list of values that are written. -/
def dumpsList (items : List (List Char)) : List Char := '[' :: [',', ' '].intercalate items ++ [']']

end Dumps

end AiOrg
