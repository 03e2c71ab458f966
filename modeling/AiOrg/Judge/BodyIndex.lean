import AiOrg.BodyCodec.Spelling
import AiOrg.Python.Text

/-!
# The position index of a body

`index_scalars` goes through a text of JSON by a recursive descent of its own and notes for each scalar value its path
and where it stands; `locate_term` looks a term up by its first place in the text, and then in the decoded strings.
There is nothing where the source raises. The calls go into a container by recursion, and `room` is the number of
containers that the interpreter lets them be in.

A number is its token, as both readers make the same `int` or `float` of it.
-/

namespace AiOrg

namespace BodyCodec

/-- One part of a path. -/
inductive Seg
  | key (k : PyStr)
  | index (i : ℕ)
  deriving DecidableEq

abbrev Path := List Seg

/-- The offset `stop` is the one past the last character. -/
structure ScalarLoc where
  path : Path
  start : ℕ
  stop : ℕ
  value : Value

def ScalarLoc.raw (text : PyStr) (scalar : ScalarLoc) : PyStr :=
  (text.drop scalar.start).take (scalar.stop - scalar.start)

section Scan

variable (s : PyStr)

def skip_ws (i : ℕ) : ℕ := i + ((s.drop i).takeWhile isJsonSpace).length

/-- `scanstring`, with the offset behind the closing quote. -/
def scanstring (i : ℕ) : Option (PyStr × ℕ) :=
  (scanString (s.drop i)).map fun result => (result.1, s.length - result.2.length)

/-- What `_NUMBER_RE` matches; its `\d` is not only the ASCII digits. -/
def numberMatch (i : ℕ) : Option PyStr :=
  (scanNumber (CodePoint.isChar Text.isDecimal) (s.drop i)).map Prod.fst

def scalarAt (path : Path) (i : ℕ) (raw : PyStr) (value : Value) : List ScalarLoc × ℕ :=
  ([⟨path, i, i + raw.length, value⟩], i + raw.length)

/-- The literals and the numbers. -/
def parse_scalar (i : ℕ) (path : Path) : Option (List ScalarLoc × ℕ) :=
  if startsWith ['t', 'r', 'u', 'e'] (s.drop i) then
    some (scalarAt path i (PyStr.plain ['t', 'r', 'u', 'e']) (.bool true))
  else if startsWith ['f', 'a', 'l', 's', 'e'] (s.drop i) then
    some (scalarAt path i (PyStr.plain ['f', 'a', 'l', 's', 'e']) (.bool false))
  else if startsWith ['n', 'u', 'l', 'l'] (s.drop i) then
    some (scalarAt path i (PyStr.plain ['n', 'u', 'l', 'l']) .null)
  else
    (numberMatch s i).bind fun raw =>
      (jsonLoads floatConstant 0 raw).toOption.map fun value => scalarAt path i raw value

mutual

/-- `_parse_value`: the entries and the offset behind the value. A text of JSON does not use up the fuel. -/
def parse_value : ℕ → ℕ → ℕ → Path → Option (List ScalarLoc × ℕ)
  | 0, _, _, _ => none
  | fuel + 1, room, i, path =>
    match s[i]? with
    | none => none
    | some c =>
      if c = .scalar '\x22' then
        (scanstring s (i + 1)).map fun result => ([⟨path, i, result.2, .str result.1⟩], result.2)
      else if c = .scalar '\x7b' then
        match room with
        | 0 => none
        | room + 1 => parse_object fuel room i path
      else if c = .scalar '[' then
        match room with
        | 0 => none
        | room + 1 => parse_array fuel room i path
      else parse_scalar s i path

def parse_object : ℕ → ℕ → ℕ → Path → Option (List ScalarLoc × ℕ)
  | 0, _, _, _ => none
  | fuel + 1, room, i, path =>
    if s[skip_ws s (i + 1)]? = some (.scalar '\x7d') then some ([], skip_ws s (i + 1) + 1)
    else parse_members fuel room (skip_ws s (i + 1)) path

/-- The loop of `_parse_object`. -/
def parse_members : ℕ → ℕ → ℕ → Path → Option (List ScalarLoc × ℕ)
  | 0, _, _, _ => none
  | fuel + 1, room, i, path =>
    if s[i]? = some (.scalar '\x22') then
      (scanstring s (i + 1)).bind fun key =>
        if s[skip_ws s key.2]? = some (.scalar ':') then
          (parse_value fuel room (skip_ws s (skip_ws s key.2 + 1)) (path ++ [.key key.1])).bind fun first =>
            if s[skip_ws s first.2]? = some (.scalar ',') then
              (parse_members fuel room (skip_ws s (skip_ws s first.2 + 1)) path).map fun more =>
                (first.1 ++ more.1, more.2)
            else if s[skip_ws s first.2]? = some (.scalar '\x7d') then some (first.1, skip_ws s first.2 + 1)
            else none
        else none
    else none

def parse_array : ℕ → ℕ → ℕ → Path → Option (List ScalarLoc × ℕ)
  | 0, _, _, _ => none
  | fuel + 1, room, i, path =>
    if s[skip_ws s (i + 1)]? = some (.scalar ']') then some ([], skip_ws s (i + 1) + 1)
    else parse_items fuel room (skip_ws s (i + 1)) 0 path

/-- The loop of `_parse_array`. -/
def parse_items : ℕ → ℕ → ℕ → ℕ → Path → Option (List ScalarLoc × ℕ)
  | 0, _, _, _, _ => none
  | fuel + 1, room, i, idx, path =>
    (parse_value fuel room i (path ++ [.index idx])).bind fun first =>
      if s[skip_ws s first.2]? = some (.scalar ',') then
        (parse_items fuel room (skip_ws s (skip_ws s first.2 + 1)) (idx + 1) path).map fun more =>
          (first.1 ++ more.1, more.2)
      else if s[skip_ws s first.2]? = some (.scalar ']') then some (first.1, skip_ws s first.2 + 1)
      else none

end

end Scan

/-- The scanner reads no further than the value. -/
def index_scalars (room : ℕ) (text : PyStr) : Option (List ScalarLoc) :=
  (parse_value text (3 * text.length + 1) room (skip_ws text 0) []).map Prod.fst

/-- `text.find(term)`, with nothing for `-1`. -/
def find (term : PyStr) : PyStr → Option ℕ
  | [] => if term = [] then some 0 else none
  | c :: text => if term <+: c :: text then some 0 else (find term text).map (· + 1)

def ScalarLoc.decodes (term : PyStr) (scalar : ScalarLoc) : Bool :=
  match scalar.value with
  | .str s => decide (term <:+: s)
  | _ => false

/-- The first of the scalars that an offset is in. -/
def around (scalars : List ScalarLoc) (pos : ℕ) : Option ScalarLoc :=
  scalars.find? fun scalar => scalar.start ≤ pos ∧ pos < scalar.stop

/-- The lookup, over the scalars of the text. -/
def locate (text term : PyStr) (scalars : List ScalarLoc) : Option ScalarLoc :=
  ((find term text).bind (around scalars)).or (scalars.find? fun scalar => scalar.decodes term)

def locate_term (room : ℕ) (text term : PyStr) : Option (Option ScalarLoc) :=
  (index_scalars room text).map (locate text term)

/-- `node[seg]`, with nothing where it raises. -/
def item : Value → Seg → Option Value
  | .obj members, .key k => members.lookup k
  | .arr items, .index i => items[i]?
  | .str s, .index i => s[i]?.map fun c => .str [c]
  | _, _ => none

/-- `navigate`, with nothing where it raises. -/
def navigate : Value → Path → Option Value
  | node, [] => some node
  | node, seg :: path => (item node seg).bind fun child => navigate child path

mutual

/-- The scalar leaves of a value in document order, each with its path. -/
def leaves (path : Path) : Value → List (Path × Value)
  | .arr items => itemLeaves path 0 items
  | .obj members => memberLeaves path members
  | value => [(path, value)]

def itemLeaves (path : Path) (idx : ℕ) : List Value → List (Path × Value)
  | [] => []
  | item :: items => leaves (path ++ [.index idx]) item ++ itemLeaves path (idx + 1) items

def memberLeaves (path : Path) : List (PyStr × Value) → List (Path × Value)
  | [] => []
  | (key, value) :: members => leaves (path ++ [.key key]) value ++ memberLeaves path members

end

namespace Spelling

/-- No constant of Python's own, and no more than `room` containers in one another. -/
def indexed : {part : Part} → ℕ → Spelling part → Bool
  | _, _, constant _ => false
  | _, 0, arr _ => false
  | _, room + 1, arr items => items.indexed room
  | _, 0, obj _ => false
  | _, room + 1, obj members => members.indexed room
  | _, room, item _ value _ rest => value.indexed room && rest.indexed room
  | _, room, member _ _ _ value _ rest => value.indexed room && rest.indexed room
  | _, _, _ => true

/-- The scalars of what is spelled from an offset on, for the path to it; items have the index of the first one. -/
def located : {part : Part} → Path → ℕ → ℕ → Spelling part → List ScalarLoc
  | _, path, _, i, null => [⟨path, i, i + null.render.length, .null⟩]
  | _, path, _, i, bool b => [⟨path, i, i + (bool b).render.length, .bool b⟩]
  | _, path, _, i, number n => [⟨path, i, i + (number n).render.length, .number n⟩]
  | _, path, _, i, constant c => [⟨path, i, i + (constant c).render.length, .native .lossy⟩]
  | _, path, _, i, str pieces => [⟨path, i, i + (str pieces).render.length, .str (content pieces)⟩]
  | _, path, _, i, arr items => items.located path 0 (i + 1)
  | _, path, _, i, obj members => members.located path 0 (i + 1)
  | _, _, _, _, noItems _ => []
  | _, path, idx, i, item before value after rest =>
    value.located (path ++ [.index idx]) 0 (i + before.text.length) ++
      rest.located path (idx + 1)
        (i + before.text.length + value.render.length + after.text.length + rest.comma.length)
  | _, _, _, _, noMembers _ => []
  | _, path, _, i, member before key colon value after rest =>
    let start := i + before.text.length + 1 + (literal key).length + colon.1.text.length + 1 + colon.2.text.length
    value.located (path ++ [.key (content key)]) 0 start ++
      rest.located path 0 (start + value.render.length + after.text.length + rest.comma.length)

end Spelling

def Document.located (document : Document) : List ScalarLoc :=
  document.value.located [] 0 document.before.text.length

end BodyCodec

end AiOrg
