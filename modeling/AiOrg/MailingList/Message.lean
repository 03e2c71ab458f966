import AiOrg.Python.Lines
import AiOrg.Run.Traverse

/-!
# Posts and their commit messages

What a post is once its arguments are validated, the commit message that carries it, and the reading
of such a message back from the list.
-/

namespace AiOrg

namespace MailingList

/-- What `post` and `read` raise, with its text. -/
inductive ListError where
  | value (message : String)
  | runtime (message : String)
  deriving DecidableEq, Repr

/-! ### Validated posts -/

def isLowerAscii (c : Char) : Bool := 'a' ≤ c && c ≤ 'z'
def isKindChar (c : Char) : Bool := isLowerAscii c || ('0' ≤ c && c ≤ '9') || c == '_' || c == '-'

def isKind : List Char → Bool
  | [] => false
  | c :: rest => isLowerAscii c && rest.length ≤ 63 && rest.all isKindChar

/-- No line feed and no carriage return. -/
def isSingleLine (text : List Char) : Bool := text.all fun c => c != '\n' && c != '\r'

/-- A trailer name: a nonempty single-line token without `=`. -/
def isTrailerName (name : List Char) : Bool :=
  !name.isEmpty && isSingleLine name && name.all (· != '=')

/-- The pairs `_normalize_mapping` returns. -/
abbrev TrailerPairs := List (List Char × List Char)

def isTrailerPair (pair : List Char × List Char) : Bool :=
  isTrailerName pair.1 && isSingleLine pair.2

variable (py : PyLib)

/-- `raw_value if isinstance(raw_value, (list, tuple)) else (raw_value,)`. -/
def rawItems : Json → List Json
  | .arr items => items
  | value => [value]

def normalizeValue (field : String) (name : List Char) (item : Json) :
    Except ListError (List Char × List Char) :=
  let value := (py.str item).toList
  if isSingleLine value then .ok (name, value)
  else .error (.value (field ++ " values must be single-line strings"))

def normalizeEntry (field : String) (entry : String × Json) : Except ListError TrailerPairs :=
  if isTrailerName entry.1.toList then
    (rawItems entry.2).mapM (normalizeValue py field entry.1.toList)
  else .error (.value (field ++ " names must be non-empty single-line tokens without '='"))

def normalizeMapping (field : String) (values : Fields) : Except ListError TrailerPairs := do
  let entries := values.mergeSort fun a b => a.1 ≤ b.1
  return (← entries.mapM (normalizeEntry py field)).flatten

theorem normalizeMapping_ok {field : String} {values : Fields} {pairs : TrailerPairs}
    (h : normalizeMapping py field values = .ok pairs) : ∀ pair ∈ pairs, isTrailerPair pair := by
  unfold normalizeMapping at h
  rcases hentries : (values.mergeSort fun a b => a.1 ≤ b.1).mapM (normalizeEntry py field)
    with e | groups
  · simp [hentries, bind, Except.bind] at h
  simp only [hentries, bind, Except.bind] at h
  obtain rfl := Except.ok.inj h
  intro pair hpair
  obtain ⟨group, hgroup, hpair⟩ := List.mem_flatten.1 hpair
  obtain ⟨entry, -, hentry⟩ := Traverse.exists_of_mem_right (Traverse.forall₂_of_mapM_ok hentries) hgroup
  unfold normalizeEntry at hentry
  split_ifs at hentry with hname
  obtain ⟨item, -, hitem⟩ := Traverse.exists_of_mem_right (Traverse.forall₂_of_mapM_ok hentry) hpair
  unfold normalizeValue at hitem
  dsimp only at hitem
  split_ifs at hitem with hvalue
  obtain rfl := Except.ok.inj hitem
  simp [isTrailerPair, hname, hvalue]

structure PostRequest where
  kind : String
  subject : String
  body : String
  refs : Fields
  coordinate : Option String
  bodyText : Option String
  correspondsTo : Fields
  inReplyTo : Option String

/-- A post whose arguments have been validated. -/
structure Post where
  kind : List Char
  subject : List Char
  body : List Char
  refs : TrailerPairs
  coordinate : List Char
  correspondsTo : TrailerPairs
  inReplyTo : Option (List Char)
  kind_ok : isKind kind = true
  subject_ok : subject ≠ [] ∧ isSingleLine subject = true
  refs_ok : ∀ pair ∈ refs, isTrailerPair pair
  coordinate_ok : coordinate ≠ [] ∧ isSingleLine coordinate = true
  correspondsTo_ok : ∀ pair ∈ correspondsTo, isTrailerPair pair
  inReplyTo_ok : ∀ reply ∈ inReplyTo, reply ≠ [] ∧ isSingleLine reply = true

def resolveBodyText (body : String) : Option String → Except ListError String
  | none => .ok body
  | some bodyText =>
    if body ≠ "" ∧ body ≠ bodyText then
      .error (.value "body and body_text must not conflict")
    else .ok bodyText

def PostRequest.validated (request : PostRequest) : Except ListError Post := do
  let body ← resolveBodyText request.body request.bodyText
  if hkind : isKind request.kind.toList then
    if hsubject : request.subject.toList ≠ [] ∧ isSingleLine request.subject.toList then
      match hrefs : normalizeMapping py "refs" request.refs with
      | .error e => .error e
      | .ok refs =>
        let coordinate := (request.coordinate.getD request.subject).toList
        if hcoordinate : coordinate ≠ [] ∧ isSingleLine coordinate then
          match hlinks : normalizeMapping py "corresponds_to" request.correspondsTo with
          | .error e => .error e
          | .ok links =>
            let reply := request.inReplyTo.map String.toList
            if hreply : ∀ text ∈ reply, text ≠ [] ∧ isSingleLine text then
              return {
                kind := request.kind.toList, subject := request.subject.toList
                body := body.toList, refs := refs, coordinate := coordinate
                correspondsTo := links, inReplyTo := reply
                kind_ok := hkind, subject_ok := hsubject, refs_ok := normalizeMapping_ok py hrefs
                coordinate_ok := hcoordinate
                correspondsTo_ok := normalizeMapping_ok py hlinks, inReplyTo_ok := hreply }
            else .error (.value "in_reply_to must be a non-empty single line")
        else .error (.value "coordinate must be a non-empty single line")
    else .error (.value "subject must be a non-empty single line")
  else .error (.value "kind must be a short lowercase token")

def hexDigitUpper (n : ℕ) : Char := if n < 10 then Char.ofNat (48 + n) else Char.ofNat (55 + n)

/-- Whether `quote` with `safe="-._~"` keeps a byte. -/
def isUnreserved (n : ℕ) : Bool :=
  (65 ≤ n && n ≤ 90) || (97 ≤ n && n ≤ 122) || (48 ≤ n && n ≤ 57)
    || n == 45 || n == 46 || n == 95 || n == 126

def quoteByte (byte : UInt8) : List Char :=
  if isUnreserved byte.toNat then [Char.ofNat byte.toNat]
  else ['%', hexDigitUpper (byte.toNat / 16), hexDigitUpper (byte.toNat % 16)]

/-- `quote(text, safe="-._~")`. -/
def quote (text : List Char) : List Char :=
  text.flatMap fun c => (String.utf8EncodeChar c).flatMap quoteByte

def messageId (kind coordinate : List Char) (sequence : ℕ) : List Char :=
  kind ++ '.' :: quote coordinate ++ '.' :: (toString sequence).toList ++ "@ai-org-list".toList

/-- A `Link` or `Ref` trailer. -/
def pairTrailer (field : String) (pair : List Char × List Char) : List Char :=
  field.toList ++ pair.1 ++ '=' :: pair.2

def Post.trailers (post : Post) (id : List Char) : List (List Char) :=
  ["Kind: ".toList ++ post.kind, "Message-Id: ".toList ++ id]
    ++ post.inReplyTo.toList.map ("In-Reply-To: ".toList ++ ·)
    ++ post.correspondsTo.map (pairTrailer "Link: ") ++ post.refs.map (pairTrailer "Ref: ")

/-- `kind.upper()`. -/
def upper (kind : List Char) : List Char := kind.map Char.toUpper

def Post.message (post : Post) (id : List Char) : List Char :=
  upper post.kind ++ ": ".toList ++ post.subject ++ "\n\n".toList ++ post.body ++ "\n\n".toList
    ++ Text.joinLines (post.trailers id) ++ ['\n']

def singleItem (pairs : TrailerPairs) : Option (List Char) :=
  match pairs.filter fun pair => pair.1 = "item".toList with
  | [pair] => some pair.2
  | _ => none

def Post.qaItemRef (post : Post) : Option (List Char) :=
  if post.kind = "qa".toList then singleItem post.refs else none

/-- A value of the parsed `refs`: a string, or a list once a name repeats. -/
inductive TrailerValue where
  | one (value : List Char)
  | many (values : List (List Char))
  deriving DecidableEq, Repr

abbrev ParsedPairs := List (List Char × TrailerValue)

structure ParsedTrailers where
  refs : ParsedPairs
  correspondsTo : ParsedPairs
  messageId : Option (List Char)
  inReplyTo : Option (List Char)
  deriving DecidableEq, Repr

structure ParsedPost where
  kind : List Char
  subject : List Char
  body : List Char
  trailers : ParsedTrailers
  deriving DecidableEq, Repr

def malformedTrailers {α : Type} : Except ListError α :=
  .error (.runtime "malformed mailing-list post trailers")

/-- `values[name] = value` on parsed pairs. -/
def setPair (name : List Char) (value : TrailerValue) : ParsedPairs → ParsedPairs
  | [] => [(name, value)]
  | (n, v) :: values =>
    if n = name then (n, value) :: values else (n, v) :: setPair name value values

def appendParsedValue (values : ParsedPairs) (name value : List Char) :
    Except ListError ParsedPairs :=
  if name = [] then malformedTrailers
  else match values.lookup name with
  | none => .ok (setPair name (.one value) values)
  | some (.many previous) => .ok (setPair name (.many (previous ++ [value])) values)
  | some (.one previous) => .ok (setPair name (.many [previous, value]) values)

/-- The value after a name, where it may stand once and must not be empty. -/
def onceValue (previous : Option (List Char)) (value : List Char) :
    Except ListError (Option (List Char)) :=
  if previous.isSome || value.isEmpty then malformedTrailers else .ok (some value)

def parseTrailer (trailers : ParsedTrailers) (line : List Char) :
    Except ListError ParsedTrailers :=
  if "Message-Id: ".toList <+: line then do
    let id ← onceValue trailers.messageId (Text.removePrefix "Message-Id: ".toList line)
    return { trailers with messageId := id }
  else if "In-Reply-To: ".toList <+: line then do
    let reply ← onceValue trailers.inReplyTo (Text.removePrefix "In-Reply-To: ".toList line)
    return { trailers with inReplyTo := reply }
  else if "Link: ".toList <+: line ∧ '=' ∈ line then do
    let pair := Text.splitOnce '=' (Text.removePrefix "Link: ".toList line)
    return { trailers with
      correspondsTo := ← appendParsedValue trailers.correspondsTo pair.1 pair.2 }
  else if "Ref: ".toList <+: line ∧ '=' ∈ line then do
    let pair := Text.splitOnce '=' (Text.removePrefix "Ref: ".toList line)
    return { trailers with refs := ← appendParsedValue trailers.refs pair.1 pair.2 }
  else malformedTrailers

def parseTrailers (lines : List (List Char)) : Except ListError ParsedTrailers :=
  lines.foldlM parseTrailer ⟨[], [], none, none⟩

def isGenesisMessage (message : List Char) : Bool := "list: genesis".toList <+: message

/-- `_parse_post_message`, which gives `None` for a genesis. -/
def parsePostMessage (text : List Char) : Except ListError (Option ParsedPost) :=
  let message := text.rdropWhile (· == '\n')
  if isGenesisMessage message then .ok none
  else match Text.partition "\n\n".toList message with
  | none => .error (.runtime "malformed mailing-list post message")
  | some (subjectLine, remainder) =>
    match Text.splitLast "\n\nKind: ".toList remainder with
    | none => .error (.runtime "malformed mailing-list post message")
    | some (body, tail) =>
      let trailerLines := Text.splitlines (tail.drop 2)
      let kind := Text.removePrefix "Kind: ".toList (trailerLines.headD [])
      match Text.partition ": ".toList subjectLine with
      | none => .error (.runtime "malformed mailing-list post headers")
      | some (start, subject) =>
        if !isKind kind || start != upper kind then
          .error (.runtime "malformed mailing-list post headers")
        else do
          let trailers ← parseTrailers trailerLines.tail
          return some ⟨kind, subject, body, trailers⟩

def readMessage {ι : Type} (entry : ι × List Char) : Except ListError (Option (ι × ParsedPost)) :=
  (parsePostMessage entry.2).map fun parsed => parsed.map fun post => (entry.1, post)

/-- `read` on the log of the list, oldest first, without a selection of kinds. -/
def readPosts {ι : Type} (log : List (ι × List Char)) : Except ListError (List (ι × ParsedPost)) := do
  return (← log.mapM readMessage).filterMap id

def isQaForItem (item : List Char) (post : ParsedPost) : Bool :=
  post.kind == "qa".toList && post.trailers.refs.lookup "item".toList == some (.one item)

def qaPostForItem {ι : Type} (log : List (ι × List Char)) (item : List Char) :
    Except ListError (Option (ι × ParsedPost)) := do
  return (← readPosts log).find? fun entry => isQaForItem item entry.2

end MailingList

end AiOrg
