import AiOrg.StrictJson.Node

/-!
# Numbers and equality

JSON numbers keep their spelling. They are compared as a coefficient without zeros at its ends and
a power of ten, and `Equal` compares values up to the order of members.
-/

namespace AiOrg

namespace StrictJson

structure DecimalNumber where
  negative : Bool
  coefficient : List Char
  exponent : ℤ
  zero : Bool
  deriving DecidableEq, Repr

/-- `strings.IndexAny(number, "eE")` stops here. -/
def isExponentMark (c : Char) : Bool := c == 'e' || c == 'E'

/-- `strings.TrimLeft(digits, "0")`. -/
def trimLeft (digits : List Char) : List Char := digits.dropWhile (· == '0')

/-- `strings.TrimRight(digits, "0")`. -/
def trimRight (digits : List Char) : List Char := digits.rdropWhile (· == '0')

/-- The number that decimal digits write. -/
def digitsValue (digits : List Char) : ℕ :=
  digits.foldl (fun n c => 10 * n + (c.toNat - '0'.toNat)) 0

/-- `SetString` in base ten: a sign or none, and digits. -/
def setString (text : List Char) : Option ℤ :=
  match text with
  | '-' :: digits =>
    if digits ≠ [] ∧ digits.all Char.isDigit then some (-digitsValue digits) else none
  | '+' :: digits => if digits ≠ [] ∧ digits.all Char.isDigit then some (digitsValue digits) else none
  | digits => if digits ≠ [] ∧ digits.all Char.isDigit then some (digitsValue digits) else none

/-- The mantissa and the exponent of an unsigned number. -/
def splitExponent (number : List Char) : Option (List Char × ℤ) :=
  match number.span fun c => !isExponentMark c with
  | (mantissa, []) => some (mantissa, 0)
  | (mantissa, _ :: exponentText) =>
    if exponentText.any isExponentMark then none
    else (setString exponentText).map fun exponent => (mantissa, exponent)

def splitPoint (mantissa : List Char) : Option (List Char × List Char) :=
  match mantissa.span fun c => !(c == '.') with
  | (integerPart, []) => some (integerPart, [])
  | (integerPart, _ :: fractionPart) =>
    if fractionPart.contains '.' then none else some (integerPart, fractionPart)

/-- The end of `parseDecimalNumber`: the zeros at both ends go. -/
def normalize (negative : Bool) (integerPart fractionPart : List Char) (exponent : ℤ) :
    DecimalNumber :=
  let digits := trimLeft (integerPart ++ fractionPart)
  if digits = [] then ⟨false, [], 0, true⟩
  else
    let trailing := digits.length - (trimRight digits).length
    ⟨negative, trimRight digits, exponent - fractionPart.length + trailing, false⟩

/-- `parseDecimalNumber` behind the sign. -/
def parseUnsigned (negative : Bool) (number : List Char) : Option DecimalNumber :=
  match splitExponent number with
  | none => none
  | some (mantissa, exponent) =>
    match splitPoint mantissa with
    | none => none
    | some (integerPart, fractionPart) =>
      if integerPart = [] ∨ !(integerPart ++ fractionPart).all Char.isDigit then none
      else some (normalize negative integerPart fractionPart exponent)

def parseDecimalNumber (number : String) : Option DecimalNumber :=
  match number.toList with
  | '-' :: number => parseUnsigned true number
  | number => parseUnsigned false number

def NumberIsInteger (number : String) : Bool :=
  match parseDecimalNumber number with
  | none => false
  | some normalized => normalized.zero || decide (0 ≤ normalized.exponent)

def numberEqual (a b : String) : Bool :=
  match parseDecimalNumber a, parseDecimalNumber b with
  | some x, some y =>
    if x.zero || y.zero then x.zero && y.zero
    else decide (x.negative = y.negative ∧ x.coefficient = y.coefficient ∧ x.exponent = y.exponent)
  | _, _ => false

def equalTo : ℕ → Node → Node → Bool
  | 0, _, _ => false
  | _ + 1, .null, .null => true
  | _ + 1, .bool a, .bool b => a == b
  | _ + 1, .number a, .number b => numberEqual a b
  | _ + 1, .string a, .string b => a == b
  | depth + 1, .array as, .array bs =>
    as.length == bs.length && (as.zip bs).all fun pair => equalTo depth pair.1 pair.2
  | depth + 1, .object as, .object bs =>
    as.length == bs.length &&
      ((Node.object as).sortedMembers.zip (Node.object bs).sortedMembers).all fun pair =>
        pair.1.1 == pair.2.1 && equalTo depth pair.1.2 pair.2.2
  | _ + 1, _, _ => false

def Equal (a b : Node) : Bool := equalTo a.depth a b

end StrictJson

end AiOrg

/-!
## What JSON values mean

The rational number that a numeral denotes, and when two values are the same: numbers by what they
denote, objects up to the order of their members.
-/

namespace AiOrg

namespace StrictJson

/-- Decimal digits, at least one. -/
def IsDigits (digits : List Char) : Prop := digits ≠ [] ∧ ∀ c ∈ digits, c.isDigit

inductive ExponentPart : List Char → ℤ → Prop
  | absent : ExponentPart [] 0
  | bare {mark : Char} {digits : List Char} : mark = 'e' ∨ mark = 'E' → IsDigits digits →
      ExponentPart (mark :: digits) (digitsValue digits)
  | plus {mark : Char} {digits : List Char} : mark = 'e' ∨ mark = 'E' → IsDigits digits →
      ExponentPart (mark :: '+' :: digits) (digitsValue digits)
  | minus {mark : Char} {digits : List Char} : mark = 'e' ∨ mark = 'E' → IsDigits digits →
      ExponentPart (mark :: '-' :: digits) (-digitsValue digits)

inductive FractionPart : List Char → List Char → Prop
  | absent : FractionPart [] []
  | present {digits : List Char} : (∀ c ∈ digits, c.isDigit) → FractionPart ('.' :: digits) digits

/-- A numeral without a sign, and the number it denotes. -/
inductive Magnitude : List Char → ℚ → Prop
  | mk {integer point fraction scale : List Char} {exponent : ℤ} : IsDigits integer →
      FractionPart point fraction → ExponentPart scale exponent →
      Magnitude (integer ++ point ++ scale)
        (digitsValue (integer ++ fraction) * 10 ^ (exponent - fraction.length))

/-- The rational number that a numeral denotes. -/
inductive Denotes : String → ℚ → Prop
  | plain {text : String} {q : ℚ} : Magnitude text.toList q → Denotes text q
  | negated {text : String} {number : List Char} {q : ℚ} : text.toList = '-' :: number →
      Magnitude number q → Denotes text (-q)

/-- Values are the same: `pair` finds the member that a member of an object is the same as. -/
inductive SameValue : Node → Node → Prop
  | null : SameValue .null .null
  | bool {value : Bool} : SameValue (.bool value) (.bool value)
  | number {a b : String} {q : ℚ} : Denotes a q → Denotes b q → SameValue (.number a) (.number b)
  | string {text : String} : SameValue (.string text) (.string text)
  | array {as bs : List Node} : as.length = bs.length →
      (∀ elements ∈ as.zip bs, SameValue elements.1 elements.2) → SameValue (.array as) (.array bs)
  | object {as bs : List (String × Node)} (pair : String × Node → Node) : as.length = bs.length →
      (∀ member ∈ as, (member.1, pair member) ∈ bs) →
      (∀ member ∈ as, SameValue member.2 (pair member)) → SameValue (.object as) (.object bs)

end StrictJson

end AiOrg
