import AiOrg.BodyCodec.StrictJson

/-!
# How a value is spelled

The texts of JSON, as a syntax tree that keeps what a value does not: the white space, the order of the members, and
how each code point of a string is written. `Spelling.render` is the text, `Spelling.read` the value, which there is
none of where an object has a member twice or containers are nested too deep.
-/

namespace AiOrg

namespace BodyCodec

open PyStr (plain)

structure Space where
  text : PyStr
  space : ∀ c ∈ text, isJsonSpace c = true

/-- What spells one code point of a string, or one half of a surrogate pair. -/
inductive Piece
  | raw (c : CodePoint) (raw : isRaw c = true)
  | letter (c : CodePoint) (known : (escapeValue c).isSome = true)
  | hex (h₁ h₂ h₃ h₄ : CodePoint) (digits : ∀ h ∈ [h₁, h₂, h₃, h₄], (hexValue h).isSome = true)

namespace Piece

def render : Piece → PyStr
  | raw c _ => [c]
  | letter c _ => [.scalar '\\', c]
  | hex h₁ h₂ h₃ h₄ _ => [.scalar '\\', .scalar 'u', h₁, h₂, h₃, h₄]

/-- The code point, with whether a `\u` escape spells it. -/
def unit : Piece → Bool × CodePoint
  | raw c _ => (false, c)
  | letter c known => (false, .scalar ((escapeValue c).get known))
  | hex h₁ h₂ h₃ h₄ _ =>
    let digit := fun h => (hexValue h).getD 0
    (true, .ofUnit (digit h₁ * 4096 + digit h₂ * 256 + digit h₃ * 16 + digit h₄))

end Piece

def content (pieces : List Piece) : PyStr := joinUnits (pieces.map Piece.unit)

/-- A string literal, after its opening quote. -/
def literal (pieces : List Piece) : PyStr := pieces.flatMap Piece.render ++ [.scalar '\x22']

inductive Part
  | value | items | members
  deriving DecidableEq

inductive Spelling : Part → Type
  | null : Spelling .value
  | bool (b : Bool) : Spelling .value
  | number (n : ExactJSONNumber) : Spelling .value
  | constant (constant : Constant) : Spelling .value
  | str (pieces : List Piece) : Spelling .value
  | arr (items : Spelling .items) : Spelling .value
  | obj (members : Spelling .members) : Spelling .value
  | noItems (space : Space) : Spelling .items
  | item (before : Space) (value : Spelling .value) (after : Space) (rest : Spelling .items) : Spelling .items
  | noMembers (space : Space) : Spelling .members
  | member (before : Space) (key : List Piece) (colon : Space × Space) (value : Spelling .value) (after : Space)
      (rest : Spelling .members) : Spelling .members

namespace Spelling

def isEmpty : {part : Part} → Spelling part → Bool
  | _, noItems _ => true
  | _, noMembers _ => true
  | _, _ => false

/-- The comma before what follows. -/
def comma {part : Part} (rest : Spelling part) : PyStr := if rest.isEmpty = true then [] else [.scalar ',']

def render : {part : Part} → Spelling part → PyStr
  | _, null => plain ['n', 'u', 'l', 'l']
  | _, bool true => plain ['t', 'r', 'u', 'e']
  | _, bool false => plain ['f', 'a', 'l', 's', 'e']
  | _, number n => n.lexeme
  | _, constant c => plain c.token
  | _, str pieces => .scalar '\x22' :: literal pieces
  | _, arr items => .scalar '[' :: (items.render ++ [.scalar ']'])
  | _, obj members => .scalar '\x7b' :: (members.render ++ [.scalar '\x7d'])
  | _, noItems space => space.text
  | _, item before value after rest =>
    before.text ++ (value.render ++ (after.text ++ (rest.comma ++ rest.render)))
  | _, noMembers space => space.text
  | _, member before key colon value after rest =>
    before.text ++ (.scalar '\x22' :: (literal key ++ (colon.1.text ++ (.scalar ':' ::
      (colon.2.text ++ (value.render ++ (after.text ++ (rest.comma ++ rest.render))))))))

abbrev Meaning : Part → Type
  | .value => Value
  | .items => List Value
  | .members => List (PyStr × Value)

section Read

variable (parse_constant : Constant → Except CodecError Value)

def read : {part : Part} → ℕ → Spelling part → Except CodecError (Meaning part)
  | _, _, null => .ok Value.null
  | _, _, bool b => .ok (Value.bool b)
  | _, _, number n => .ok (Value.number n)
  | _, _, constant c => parse_constant c
  | _, _, str pieces => .ok (Value.str (content pieces))
  | _, 0, arr _ => .error .recursion
  | _, room + 1, arr items => (items.read room).map fun values => Value.arr values
  | _, 0, obj _ => .error .recursion
  | _, room + 1, obj members =>
    (members.read room).bind fun pairs => (object_pairs pairs).map fun pairs => Value.obj pairs
  | _, _, noItems _ => .ok ([] : List Value)
  | _, room, item _ value _ rest =>
    (value.read room).bind fun first => (rest.read room).map fun values => (first :: values : List Value)
  | _, _, noMembers _ => .ok ([] : List (PyStr × Value))
  | _, room, member _ key _ value _ rest =>
    (value.read room).bind fun first =>
      (rest.read room).map fun pairs => ((content key, first) :: pairs : List (PyStr × Value))

end Read

end Spelling

/-- A text of JSON. -/
structure Document where
  before : Space
  value : Spelling .value
  after : Space

def Document.render (document : Document) : PyStr :=
  document.before.text ++ (document.value.render ++ document.after.text)

end BodyCodec

end AiOrg
