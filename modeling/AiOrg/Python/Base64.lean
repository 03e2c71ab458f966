import AiOrg.Python.Value

/-!
# Base 64

The standard alphabet with `=` padding: encoding, the shape of an encoded text, decoding. Decoding
an encoded text gives the bytes back (`decode_encode`).
-/

namespace AiOrg

open List

/-- A Python `bytes` value. -/
abbrev Bytes := List UInt8

namespace Base64

/-- The digit of the alphabet for six bits. -/
def digit (n : ℕ) : Char :=
  if n < 26 then Char.ofNat (65 + n)
  else if n < 52 then Char.ofNat (71 + n)
  else if n < 62 then Char.ofNat (n - 4)
  else if n = 62 then '+'
  else '/'

/-- The six bits of a digit. -/
def value (c : Char) : Option ℕ :=
  if 65 ≤ c.toNat ∧ c.toNat < 91 then some (c.toNat - 65)
  else if 97 ≤ c.toNat ∧ c.toNat < 123 then some (c.toNat - 71)
  else if 48 ≤ c.toNat ∧ c.toNat < 58 then some (c.toNat + 4)
  else if c = '+' then some 62
  else if c = '/' then some 63
  else none

def encode : Bytes → List Char
  | [] => []
  | [a] => [digit (a.toNat / 4), digit (a.toNat % 4 * 16), '=', '=']
  | [a, b] =>
    [digit (a.toNat / 4), digit (a.toNat % 4 * 16 + b.toNat / 16), digit (b.toNat % 16 * 4), '=']
  | a :: b :: c :: rest =>
    digit (a.toNat / 4) :: digit (a.toNat % 4 * 16 + b.toNat / 16)
      :: digit (b.toNat % 16 * 4 + c.toNat / 64) :: digit (c.toNat % 64) :: encode rest

/-- Quadruples of digits, the last one with up to two paddings. -/
def wellFormed : List Char → Bool
  | [] => true
  | a :: b :: c :: d :: rest =>
    (value a).isSome && (value b).isSome
      && (((value c).isSome && (value d).isSome && wellFormed rest)
        || ((value c).isSome && d == '=' && rest.isEmpty)
        || (c == '=' && d == '=' && rest.isEmpty))
  | _ => false

/-- `base64.b64decode`, which drops the bits of the last digit that fill no byte. -/
def decode : List Char → Option Bytes
  | [] => some []
  | a :: b :: c :: d :: rest =>
    match value a, value b, value c, value d with
    | some w, some x, some y, some z =>
      (decode rest).map fun bytes =>
        .ofNat (w * 4 + x / 16) :: .ofNat (x % 16 * 16 + y / 4) :: .ofNat (y % 4 * 64 + z) :: bytes
    | some w, some x, some y, none =>
      if d = '=' ∧ rest = [] then some [.ofNat (w * 4 + x / 16), .ofNat (x % 16 * 16 + y / 4)]
      else none
    | some w, some x, none, none =>
      if c = '=' ∧ d = '=' ∧ rest = [] then some [.ofNat (w * 4 + x / 16)] else none
    | _, _, _, _ => none
  | _ => none

/-- How many bytes an encoded text stands for, from its length and its padding. -/
def decodedSize (text : List Char) : ℕ :=
  text.length / 4 * 3 - (text.length - (text.rdropWhile (· == '=')).length)

theorem digit_spec : ∀ n < 64, value (digit n) = some n ∧ digit n ≠ '=' ∧ (digit n).toNat < 128 := by
  decide

theorem value_digit {n : ℕ} (h : n < 64) : value (digit n) = some n := (digit_spec n h).1

theorem digit_beq_pad {n : ℕ} (h : n < 64) : (digit n == '=') = false :=
  beq_eq_false_iff_ne.2 (digit_spec n h).2.1

@[simp] theorem value_pad : value '=' = none := by decide

theorem ofNat_toNat_of_eq {b : UInt8} {n : ℕ} (h : n = b.toNat) : UInt8.ofNat n = b := by
  rw [h, UInt8.ofNat_toNat]

theorem decode_encode (bytes : Bytes) : decode (encode bytes) = some bytes := by
  induction bytes using encode.induct with
  | case1 => rfl
  | case2 a =>
    have ha := a.toNat_lt
    simp only [encode, decode, value_pad, value_digit (n := a.toNat / 4) (by omega),
      value_digit (n := a.toNat % 4 * 16) (by omega), and_self, ↓reduceIte, Option.some.injEq,
      List.cons.injEq, and_true]
    exact ofNat_toNat_of_eq (by omega)
  | case3 a b =>
    have ha := a.toNat_lt
    have hb := b.toNat_lt
    simp only [encode, decode, value_pad, value_digit (n := a.toNat / 4) (by omega),
      value_digit (n := a.toNat % 4 * 16 + b.toNat / 16) (by omega),
      value_digit (n := b.toNat % 16 * 4) (by omega), and_self, ↓reduceIte, Option.some.injEq,
      List.cons.injEq, and_true]
    exact ⟨ofNat_toNat_of_eq (by omega), ofNat_toNat_of_eq (by omega)⟩
  | case4 a b c rest ih =>
    have ha := a.toNat_lt
    have hb := b.toNat_lt
    have hc := c.toNat_lt
    simp only [encode, decode, value_digit (n := a.toNat / 4) (by omega),
      value_digit (n := a.toNat % 4 * 16 + b.toNat / 16) (by omega),
      value_digit (n := b.toNat % 16 * 4 + c.toNat / 64) (by omega),
      value_digit (n := c.toNat % 64) (by omega), ih, Option.map_some, Option.some.injEq,
      List.cons.injEq, and_true]
    exact ⟨ofNat_toNat_of_eq (by omega), ofNat_toNat_of_eq (by omega),
      ofNat_toNat_of_eq (by omega)⟩

theorem wellFormed_encode (bytes : Bytes) : wellFormed (encode bytes) = true := by
  induction bytes using encode.induct with
  | case1 => rfl
  | case2 a =>
    have ha := a.toNat_lt
    simp [encode, wellFormed, value_digit (n := a.toNat / 4) (by omega),
      value_digit (n := a.toNat % 4 * 16) (by omega)]
  | case3 a b =>
    have ha := a.toNat_lt
    have hb := b.toNat_lt
    simp [encode, wellFormed, value_digit (n := a.toNat / 4) (by omega),
      value_digit (n := a.toNat % 4 * 16 + b.toNat / 16) (by omega),
      value_digit (n := b.toNat % 16 * 4) (by omega)]
  | case4 a b c rest ih =>
    have ha := a.toNat_lt
    have hb := b.toNat_lt
    have hc := c.toNat_lt
    simp [encode, wellFormed, value_digit (n := a.toNat / 4) (by omega),
      value_digit (n := a.toNat % 4 * 16 + b.toNat / 16) (by omega),
      value_digit (n := b.toNat % 16 * 4 + c.toNat / 64) (by omega),
      value_digit (n := c.toNat % 64) (by omega), ih]

theorem ascii_encode (bytes : Bytes) : ∀ c ∈ encode bytes, c.toNat < 128 := by
  have hdigit : ∀ n < 64, (digit n).toNat < 128 := fun n h => (digit_spec n h).2.2
  have hpad : '='.toNat < 128 := by decide
  induction bytes using encode.induct with
  | case1 => simp [encode]
  | case2 a =>
    have ha := a.toNat_lt
    simp only [encode, forall_mem_cons, not_mem_nil, false_implies, implies_true, and_true]
    exact ⟨hdigit _ (by omega), hdigit _ (by omega), hpad, hpad⟩
  | case3 a b =>
    have ha := a.toNat_lt
    have hb := b.toNat_lt
    simp only [encode, forall_mem_cons, not_mem_nil, false_implies, implies_true, and_true]
    exact ⟨hdigit _ (by omega), hdigit _ (by omega), hdigit _ (by omega), hpad⟩
  | case4 a b c rest ih =>
    have ha := a.toNat_lt
    have hb := b.toNat_lt
    have hc := c.toNat_lt
    simp only [encode, forall_mem_cons]
    exact ⟨hdigit _ (by omega), hdigit _ (by omega), hdigit _ (by omega), hdigit _ (by omega), ih⟩

theorem rdropWhile_digit_cons {n : ℕ} (h : n < 64) (text : List Char) :
    (digit n :: text).rdropWhile (· == '=') = digit n :: text.rdropWhile (· == '=') := by
  unfold List.rdropWhile
  rw [reverse_cons, dropWhile_append]
  split_ifs with hempty
  · rw [List.isEmpty_iff.1 hempty, dropWhile_cons, digit_beq_pad h]
    simp
  · simp

theorem decodedSize_encode (bytes : Bytes) : decodedSize (encode bytes) = bytes.length := by
  have hpad : ['='].rdropWhile (· == '=') = [] := by decide
  have hpads : ['=', '='].rdropWhile (· == '=') = [] := by decide
  unfold decodedSize
  induction bytes using encode.induct with
  | case1 => rfl
  | case2 a =>
    have ha := a.toNat_lt
    rw [encode, rdropWhile_digit_cons (by omega), rdropWhile_digit_cons (by omega), hpads]
    simp
  | case3 a b =>
    have ha := a.toNat_lt
    have hb := b.toNat_lt
    rw [encode, rdropWhile_digit_cons (by omega), rdropWhile_digit_cons (by omega),
      rdropWhile_digit_cons (by omega), hpad]
    simp
  | case4 a b c rest ih =>
    have ha := a.toNat_lt
    have hb := b.toNat_lt
    have hc := c.toNat_lt
    have hpadding : (encode rest).length - ((encode rest).rdropWhile (· == '=')).length
        ≤ (encode rest).length / 4 * 3 ∨ rest = [] := by
      rcases rest with _ | ⟨d, rest⟩
      · exact Or.inr rfl
      · rw [length_cons] at ih
        omega
    rw [encode, rdropWhile_digit_cons (by omega), rdropWhile_digit_cons (by omega),
      rdropWhile_digit_cons (by omega), rdropWhile_digit_cons (by omega)]
    simp only [length_cons]
    rcases hpadding with h | rfl
    · omega
    · rfl

end Base64

end AiOrg

/-!
## The library on plain ASCII text

A `PyLib` that agrees with Python on ASCII text without escapes, for running definitions on
concrete inputs.
-/

namespace AiOrg

open List

/-- `literal_eval` of a quoted literal without escapes. -/
def asciiLiteral (literal : List Char) : Option String :=
  match literal with
  | quote :: body =>
    if body.getLast? = some quote ∧ '\\' ∉ body then some (String.ofList body.dropLast) else none
  | [] => none

/-- The text conversions on ASCII text. -/
def asciiLib : PyLib where
  strOther := fun _ => ""
  repr := fun s => "'" ++ s ++ "'"
  reprOther := fun _ => ""
  lower := fun s => String.ofList (s.toList.map Char.toLower)
  literalEval := fun s => asciiLiteral s.toList
  compareOther := fun _ _ _ => none
  dumps := fun _ => ""
  floatRepr := id
  decodeErrorText := fun _ => "Expecting value: line 1 column 1 (char 0)"
  sha256 := fun _ => ""

/-- `text.encode("ascii")`. -/
def asciiBytes (text : String) : Bytes := text.toList.map fun c => .ofNat c.toNat

end AiOrg
