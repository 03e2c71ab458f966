import AiOrg.StrictJson.Node

/-!
# The token stream of the decoder

`json.Decoder` hands out the tokens of a document one by one and checks on the way that delimiters
match and that commas and colons stand where they belong. It reads lexemes here: how bytes are split
into them is left open.
-/

namespace AiOrg

namespace StrictJson

inductive Delim
  | openObject | closeObject | openArray | closeArray
  deriving DecidableEq, Repr

inductive Token
  | delim (delim : Delim)
  | null
  | bool (value : Bool)
  | number (text : String)
  | string (text : String)
  deriving DecidableEq, Repr

/-- A piece of a document; `invalid` is one that is no JSON literal. -/
inductive Lexeme
  | token (token : Token)
  | colon
  | comma
  | invalid
  deriving DecidableEq, Repr

inductive TokenState
  | topValue | arrayStart | arrayValue | arrayComma
  | objectStart | objectKey | objectColon | objectValue | objectComma
  deriving DecidableEq, Repr

namespace TokenState

def valueAllowed : TokenState → Bool
  | topValue | arrayStart | arrayValue | objectValue => true
  | _ => false

def valueEnd : TokenState → TokenState
  | arrayStart | arrayValue => arrayComma
  | objectValue => objectComma
  | state => state

end TokenState

structure Decoder where
  rest : List (Lexeme × ℕ)
  state : TokenState
  stack : List TokenState
  offset : ℕ
  deriving DecidableEq, Repr

inductive TokenError
  | eof | syntaxError
  deriving DecidableEq, Repr

namespace Decoder

/-- `json.NewDecoder` over the lexemes of a document, each with the offset where it ends. -/
def new (lexemes : List (Lexeme × ℕ)) : Decoder := ⟨lexemes, .topValue, [], 0⟩

/-- What `Token` makes of a token that is next. -/
def accept (token : Token) (stop : ℕ) (rest : List (Lexeme × ℕ)) (state : TokenState)
    (stack : List TokenState) : Except TokenError (Token × Decoder) :=
  match token, state, stack with
  | .delim .openArray, state, stack =>
    if state.valueAllowed then .ok (token, ⟨rest, .arrayStart, state :: stack, stop⟩)
    else .error .syntaxError
  | .delim .openObject, state, stack =>
    if state.valueAllowed then .ok (token, ⟨rest, .objectStart, state :: stack, stop⟩)
    else .error .syntaxError
  | .delim .closeArray, .arrayStart, outer :: stack
  | .delim .closeArray, .arrayComma, outer :: stack
  | .delim .closeObject, .objectStart, outer :: stack
  | .delim .closeObject, .objectComma, outer :: stack =>
    .ok (token, ⟨rest, outer.valueEnd, stack, stop⟩)
  | .delim _, _, _ => .error .syntaxError
  | .string text, .objectStart, stack
  | .string text, .objectKey, stack => .ok (.string text, ⟨rest, .objectColon, stack, stop⟩)
  | token, state, stack =>
    if state.valueAllowed then .ok (token, ⟨rest, state.valueEnd, stack, stop⟩)
    else .error .syntaxError

def tokenFrom (stack : List TokenState) :
    List (Lexeme × ℕ) → TokenState → Except TokenError (Token × Decoder)
  | [], _ => .error .eof
  | (.colon, _) :: rest, .objectColon => tokenFrom stack rest .objectValue
  | (.comma, _) :: rest, .arrayComma => tokenFrom stack rest .arrayValue
  | (.comma, _) :: rest, .objectComma => tokenFrom stack rest .objectKey
  | (.token token, stop) :: rest, state => accept token stop rest state stack
  | _, _ => .error .syntaxError

def token (dec : Decoder) : Except TokenError (Token × Decoder) :=
  tokenFrom dec.stack dec.rest dec.state

/-- `More`: whether something other than a closing delimiter is next. -/
def more (dec : Decoder) : Bool :=
  match dec.rest with
  | [] => false
  | (.token (.delim .closeArray), _) :: _ => false
  | (.token (.delim .closeObject), _) :: _ => false
  | _ => true

end Decoder

end StrictJson

end AiOrg

/-!
## The strict JSON parser

`Parse` builds a value recursively and reports the duplicate names it has met. `ParseMaxDepth` first
goes through all tokens with a stack of open containers (`preflightMaxDepth`).
-/

namespace AiOrg

namespace StrictJson

open Selection (Trie)

def parseErrorRank : ErrorCode → ℕ
  | .duplicateKey => 2
  | _ => 1

def selectDuplicateError (candidates : List Error) : Option Error :=
  candidates.foldl (fun selected candidate => match selected with
    | none => some candidate
    | some best =>
      if candidate.path < best.path ∨ candidate.path = best.path ∧ candidate.offset < best.offset then
        some candidate
      else some best) none

/-- The loop of `selectParseError`. -/
def selectByPath (primary : Error) (duplicates : List Error) : Error :=
  duplicates.foldl (fun selected candidate =>
    if candidate.path < selected.path ∨
        candidate.path = selected.path ∧
          parseErrorRank candidate.code < parseErrorRank selected.code ∨
        candidate.path = selected.path ∧
          parseErrorRank candidate.code = parseErrorRank selected.code ∧
            candidate.offset < selected.offset then candidate
    else selected) primary

def selectParseError (primary : Error) (duplicates : List Error) : Error :=
  match primary.code, selectDuplicateError duplicates with
  | .depthLimit, some duplicate => duplicate
  | _, _ => selectByPath primary duplicates

structure Building where
  dec : Decoder
  duplicates : List Error

mutual

/-- `parseValue`; a `maxDepth` of zero is no bound. -/
def parseValue : ℕ → Building → String → ℤ → ℤ → Except Error Node × Building
  | 0, b, path, _, _ => (.error ⟨.invalidJSON, path, b.dec.offset⟩, b)
  | fuel + 1, b, path, depth, maxDepth =>
    if 0 < maxDepth ∧ maxDepth < depth then (.error ⟨.depthLimit, path, b.dec.offset⟩, b) else
    match b.dec.token with
    | .error _ => (.error ⟨.invalidJSON, path, b.dec.offset⟩, b)
    | .ok (token, dec) =>
      match token with
      | .null => (.ok .null, { b with dec := dec })
      | .bool value => (.ok (.bool value), { b with dec := dec })
      | .number text => (.ok (.number text), { b with dec := dec })
      | .string text => (.ok (.string text), { b with dec := dec })
      | .delim .openObject => parseMembers fuel { b with dec := dec } path depth maxDepth [] []
      | .delim .openArray => parseElements fuel { b with dec := dec } path depth maxDepth 0 []
      | .delim _ => (.error ⟨.invalidJSON, path, dec.offset⟩, { b with dec := dec })

def parseMembers : ℕ → Building → String → ℤ → ℤ → List String → List (String × Node) →
    Except Error Node × Building
  | 0, b, path, _, _, _, _ => (.error ⟨.invalidJSON, path, b.dec.offset⟩, b)
  | fuel + 1, b, path, depth, maxDepth, seen, members =>
    if b.dec.more then
      match b.dec.token with
      | .ok (.string name, dec) =>
        let memberPath := joinPointer path name
        let duplicates :=
          if name ∈ seen then b.duplicates ++ [⟨.duplicateKey, memberPath, dec.offset⟩]
          else b.duplicates
        match parseValue fuel ⟨dec, duplicates⟩ memberPath (depth + 1) maxDepth with
        | (.error e, b) => (.error e, b)
        | (.ok value, b) =>
          parseMembers fuel b path depth maxDepth (name :: seen) (members ++ [(name, value)])
      | .ok (_, dec) => (.error ⟨.invalidJSON, path, dec.offset⟩, { b with dec := dec })
      | .error _ => (.error ⟨.invalidJSON, path, b.dec.offset⟩, b)
    else
      match b.dec.token with
      | .ok (.delim .closeObject, dec) => (.ok (.object members), { b with dec := dec })
      | .ok (_, dec) => (.error ⟨.invalidJSON, path, dec.offset⟩, { b with dec := dec })
      | .error _ => (.error ⟨.invalidJSON, path, b.dec.offset⟩, b)

def parseElements : ℕ → Building → String → ℤ → ℤ → ℕ → List Node → Except Error Node × Building
  | 0, b, path, _, _, _, _ => (.error ⟨.invalidJSON, path, b.dec.offset⟩, b)
  | fuel + 1, b, path, depth, maxDepth, index, elements =>
    if b.dec.more then
      match parseValue fuel b (joinPointer path (toString index)) (depth + 1) maxDepth with
      | (.error e, b) => (.error e, b)
      | (.ok value, b) => parseElements fuel b path depth maxDepth (index + 1) (elements ++ [value])
    else
      match b.dec.token with
      | .ok (.delim .closeArray, dec) => (.ok (.array elements), { b with dec := dec })
      | .ok (_, dec) => (.error ⟨.invalidJSON, path, dec.offset⟩, { b with dec := dec })
      | .error _ => (.error ⟨.invalidJSON, path, b.dec.offset⟩, b)

end

/-! ### The preflight -/

/-- `scanPath`: the tokens from a value up to the root. -/
abbrev ScanPath := List String

/-- `scanFrame`: an open container, with the member whose value is next. -/
structure ScanFrame where
  delim : Delim
  path : ScanPath
  memberPath : Option ScanPath
  nextIndex : ℕ
  seen : List String

def writeEscapedPointerToken (token : String) : List Char :=
  token.toList.flatMap fun c => if c = '~' then ['~', '0'] else if c = '/' then ['~', '1'] else [c]

def materializeScanPath (path : ScanPath) : String :=
  String.ofList (path.reverse.flatMap fun token => '/' :: writeEscapedPointerToken token)

def scanValuePath : List ScanFrame → ScanPath
  | [] => []
  | frame :: _ =>
    if frame.delim = .openObject then frame.memberPath.getD []
    else toString frame.nextIndex :: frame.path

def scanExpectedPath : List ScanFrame → ScanPath
  | [] => []
  | frame :: _ =>
    if frame.delim = .openObject then frame.memberPath.getD frame.path
    else toString frame.nextIndex :: frame.path

def matchingDelimiters : Delim → Delim → Bool
  | .openObject, .closeObject => true
  | .openArray, .closeArray => true
  | _, _ => false

/-- `duplicatePaths`: a trie over the characters of pointers, whose order is that of their bytes. -/
abbrev DuplicatePaths := Trie Char ℕ

namespace DuplicatePaths

def add (paths : DuplicatePaths) (path : ScanPath) (offset : ℕ) : DuplicatePaths :=
  Trie.insert (materializeScanPath path).toList offset paths

def selected (paths : DuplicatePaths) : Option Error :=
  (Trie.first paths).map fun entry => ⟨.duplicateKey, String.ofList entry.1, entry.2⟩

end DuplicatePaths

def selectPreflightError (primary : Error) (duplicates : DuplicatePaths) : Error :=
  match duplicates.selected with
  | none => primary
  | some duplicate => selectParseError primary [duplicate]

structure Scan where
  dec : Decoder
  stack : List ScanFrame
  duplicates : DuplicatePaths
  depthError : Option Error

/-- The frame after its next value has begun. -/
def ScanFrame.advance (frame : ScanFrame) : ScanFrame :=
  if frame.delim = .openObject then { frame with memberPath := none }
  else { frame with nextIndex := frame.nextIndex + 1 }

/-- The frame with the value of a name next. -/
def ScanFrame.expect (frame : ScanFrame) (name : String) : ScanFrame :=
  { frame with memberPath := some (name :: frame.path), seen := name :: frame.seen }

/-- A turn of the loop on a closing delimiter. -/
def scanClose (s : Scan) (delim : Delim) (dec : Decoder) : Except Error (Scan × Bool) :=
  match s.stack with
  | frame :: stack =>
    if matchingDelimiters frame.delim delim then
      .ok ({ s with dec := dec, stack := stack }, stack.isEmpty)
    else .error (selectPreflightError
      ⟨.invalidJSON, materializeScanPath (scanExpectedPath s.stack), dec.offset⟩ s.duplicates)
  | [] => .error (selectPreflightError
      ⟨.invalidJSON, materializeScanPath (scanExpectedPath s.stack), dec.offset⟩ s.duplicates)

/-- A turn of the loop on the name of a member. -/
def scanName (s : Scan) (frame : ScanFrame) (stack : List ScanFrame) (token : Token)
    (dec : Decoder) : Except Error (Scan × Bool) :=
  match token with
  | .string name =>
    let duplicates :=
      if name ∈ frame.seen then s.duplicates.add (name :: frame.path) dec.offset else s.duplicates
    .ok (⟨dec, frame.expect name :: stack, duplicates, s.depthError⟩, false)
  | _ => .error (selectPreflightError
      ⟨.invalidJSON, materializeScanPath frame.path, dec.offset⟩ s.duplicates)

/-- The open containers after a value has begun. -/
def begun : List ScanFrame → List ScanFrame
  | [] => []
  | frame :: stack => frame.advance :: stack

/-- The depth error with the value that begins. -/
def noteDepth (maxDepth : ℤ) (s : Scan) : Option Error :=
  match s.depthError with
  | some e => some e
  | none =>
    if maxDepth < (s.stack.length + 1 : ℤ) then
      some ⟨.depthLimit, materializeScanPath (scanValuePath s.stack), s.dec.offset⟩
    else none

/-- A turn of the loop on the first token of a value. -/
def scanValue (maxDepth : ℤ) (s : Scan) (token : Token) (dec : Decoder) :
    Except Error (Scan × Bool) :=
  let path := scanValuePath s.stack
  let stack := begun s.stack
  let depthError := noteDepth maxDepth s
  match token with
  | .delim .openObject =>
    .ok (⟨dec, ⟨.openObject, path, none, 0, []⟩ :: stack, s.duplicates, depthError⟩, false)
  | .delim .openArray =>
    .ok (⟨dec, ⟨.openArray, path, none, 0, []⟩ :: stack, s.duplicates, depthError⟩, false)
  | .delim _ => .error (selectPreflightError
      ⟨.invalidJSON, materializeScanPath path, dec.offset⟩ s.duplicates)
  | _ => .ok (⟨dec, stack, s.duplicates, depthError⟩, stack.isEmpty)

/-- A turn of the loop on a token that closes nothing. -/
def scanOpen (maxDepth : ℤ) (s : Scan) (token : Token) (dec : Decoder) :
    Except Error (Scan × Bool) :=
  match s.stack with
  | frame :: stack =>
    if frame.delim = .openObject ∧ frame.memberPath = none then scanName s frame stack token dec
    else scanValue maxDepth s token dec
  | [] => scanValue maxDepth s token dec

/-- A turn of the loop, with whether the root is complete after it. -/
def scanStep (maxDepth : ℤ) (s : Scan) : Except Error (Scan × Bool) :=
  match s.dec.token with
  | .error _ => .error (selectPreflightError
      ⟨.invalidJSON, materializeScanPath (scanExpectedPath s.stack), s.dec.offset⟩ s.duplicates)
  | .ok (.delim .closeObject, dec) => scanClose s .closeObject dec
  | .ok (.delim .closeArray, dec) => scanClose s .closeArray dec
  | .ok (token, dec) => scanOpen maxDepth s token dec

/-- The loop of `preflightMaxDepth`. -/
def scan (maxDepth : ℤ) : ℕ → Scan → Except Error Scan
  | 0, s => .error ⟨.invalidJSON, "", s.dec.offset⟩
  | fuel + 1, s =>
    match scanStep maxDepth s with
    | .error e => .error e
    | .ok (s, true) => .ok s
    | .ok (s, false) => scan maxDepth fuel s

/-- What is wrong behind the value, if anything. -/
def trailing (dec : Decoder) : Option Error :=
  match dec.token with
  | .error .eof => none
  | .error .syntaxError => some ⟨.invalidJSON, "", dec.offset⟩
  | .ok (_, dec) => some ⟨.trailingData, "", dec.offset⟩

def preflightMaxDepth (lexemes : List (Lexeme × ℕ)) (maxDepth : ℤ) : Option Error :=
  match scan maxDepth (lexemes.length + 1) ⟨.new lexemes, [], .empty, none⟩ with
  | .error e => some e
  | .ok s =>
    match trailing s.dec with
    | some e => some (selectPreflightError e s.duplicates)
    | none =>
      match s.duplicates.selected with
      | some duplicate => some duplicate
      | none => s.depthError

/-- What is returned of a value that was read. -/
def finish (n : Node) (b : Building) : Except Error Node :=
  match trailing b.dec with
  | some e => .error (selectParseError e b.duplicates)
  | none =>
    match selectDuplicateError b.duplicates with
    | some duplicate => .error duplicate
    | none => .ok n

/-- `parse` behind the preflight. -/
def build (lexemes : List (Lexeme × ℕ)) (maxDepth : ℤ) : Except Error Node :=
  match parseValue (2 * lexemes.length + 2) ⟨.new lexemes, []⟩ "" 1 maxDepth with
  | (.error e, b) => .error (selectParseError e b.duplicates)
  | (.ok n, b) => finish n b

section Parsers

/-- What is not modelled of reading bytes: whether they are UTF-8, and their lexemes. -/
structure Source where
  utf8Valid : List UInt8 → Bool
  lexemes : List UInt8 → List (Lexeme × ℕ)

variable (source : Source)

def parse (src : List UInt8) (maxDepth : ℤ) : Except Error Node :=
  if source.utf8Valid src then
    match (if 0 < maxDepth then preflightMaxDepth (source.lexemes src) maxDepth else none) with
    | some e => .error e
    | none => build (source.lexemes src) maxDepth
  else .error ⟨.invalidUTF8, "", 0⟩

def Parse (src : List UInt8) : Except Error Node := parse source src 0

def ParseMaxDepth (src : List UInt8) (maxDepth : ℤ) : Except Error Node :=
  if maxDepth < 1 then .error ⟨.depthLimit, "", 0⟩ else parse source src maxDepth

end Parsers

end StrictJson

end AiOrg
