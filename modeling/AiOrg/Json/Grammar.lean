import AiOrg.Proofs.GoJson

/-!
# JSON texts

The grammar of JSON texts in bytes. A derivation knows the string literals of its text from left to right, and how
deep the containers of the text are nested.
-/

namespace AiOrg

open List

namespace JsonGrammar

open GoJson (utf8Bytes isValidNumber IsNumberChar mem_utf8EncodeChar isNumberChar_of_isValidNumber)

/-- A hexadecimal digit, in either case. -/
structure HexDigit where
  value : Fin 16
  upper : Bool

def HexDigit.byte (digit : HexDigit) : UInt8 :=
  UInt8.ofNat (if digit.value.val < 10 then 0x30 + digit.value.val
    else (if digit.upper then 0x41 else 0x61) + (digit.value.val - 10))

/-- The bytes that stand for themselves in a string. -/
def IsPlain (byte : UInt8) : Prop := 0x20 ≤ byte.toNat ∧ byte ≠ 0x22 ∧ byte ≠ 0x5c

/-- The letters of the short escapes. -/
def escapeLetters : List UInt8 := [0x22, 0x5c, 0x2f, 0x62, 0x66, 0x6e, 0x72, 0x74]

/-- What a literal is made of. -/
inductive Item
  | plain (byte : UInt8) (h : IsPlain byte)
  | letter (byte : UInt8) (h : byte ∈ escapeLetters)
  | unit (a b c d : HexDigit)

namespace Item

def bytes : Item → List UInt8
  | .plain byte _ => [byte]
  | .letter byte _ => [0x5c, byte]
  | .unit a b c d => [0x5c, 0x75, a.byte, b.byte, c.byte, d.byte]

/-- The code unit of an escape by four digits. -/
def code : Item → Option ℕ
  | .unit a b c d =>
    some (a.value.val * 4096 + b.value.val * 256 + c.value.val * 16 + d.value.val)
  | _ => none

def isHigh (item : Item) : Bool := item.code.any fun code => 0xd800 ≤ code && code ≤ 0xdbff

def isLow (item : Item) : Bool := item.code.any fun code => 0xdc00 ≤ code && code ≤ 0xdfff

end Item

def quoted (literal : List Item) : List UInt8 := 0x22 :: literal.flatMap Item.bytes ++ [0x22]

def Spaces (bytes : List UInt8) : Prop := ∀ b ∈ bytes, b ∈ [0x20, 0x09, 0x0a, 0x0d]

/-- The names of values and the numbers. -/
def IsWord (text : List Char) : Prop :=
  text ∈ ["true".toList, "false".toList, "null".toList] ∨ isValidNumber text

/-- What a derivation is of: a value, an entry of a container, which is an object or an array, or its entries. -/
inductive Part
  | value
  | entry (object : Bool)
  | entries (object : Bool)

def opening (object : Bool) : UInt8 := if object then 0x7b else 0x5b

def closing (object : Bool) : UInt8 := if object then 0x7d else 0x5d

/-- A part of a text, the nesting of its containers and its literals. -/
inductive Derives : Part → List UInt8 → ℕ → List (List Item) → Prop
  | word {text : List Char} : IsWord text → Derives .value (utf8Bytes text) 0 []
  | string (literal : List Item) : Derives .value (quoted literal) 0 [literal]
  | empty (object : Bool) {space : List UInt8} :
      Spaces space → Derives .value (opening object :: space ++ [closing object]) 1 []
  | container {object : Bool} {text : List UInt8} {nesting : ℕ} {literals : List (List Item)} :
      Derives (.entries object) text nesting literals →
      Derives .value (opening object :: text ++ [closing object]) (nesting + 1) literals
  | padded {before text after : List UInt8} {nesting : ℕ} {literals : List (List Item)} :
      Spaces before → Spaces after → Derives .value text nesting literals →
      Derives .value (before ++ (text ++ after)) nesting literals
  | element {text : List UInt8} {nesting : ℕ} {literals : List (List Item)} :
      Derives .value text nesting literals → Derives (.entry false) text nesting literals
  | member {before after text : List UInt8} (key : List Item) {nesting : ℕ}
      {literals : List (List Item)} :
      Spaces before → Spaces after → Derives .value text nesting literals →
      Derives (.entry true) (before ++ (quoted key ++ (after ++ 0x3a :: text))) nesting
        (key :: literals)
  | last {object : Bool} {text : List UInt8} {nesting : ℕ} {literals : List (List Item)} :
      Derives (.entry object) text nesting literals → Derives (.entries object) text nesting literals
  | more {object : Bool} {text others : List UInt8} {nesting deeper : ℕ}
      {literals further : List (List Item)} :
      Derives (.entry object) text nesting literals → Derives (.entries object) others deeper further →
      Derives (.entries object) (text ++ 0x2c :: others) (max nesting deeper) (literals ++ further)

/-- Neither a quote nor a bracket. -/
def Neutral (byte : UInt8) : Prop := byte ∉ [0x22, 0x5b, 0x5d, 0x7b, 0x7d]

theorem Neutral.ne_quote {byte : UInt8} (h : Neutral byte) : byte ≠ 0x22 := by
  rintro rfl
  exact h (by simp)

theorem Spaces.neutral {bytes : List UInt8} (h : Spaces bytes) : ∀ b ∈ bytes, Neutral b := by
  intro b hb
  have hspace := h b hb
  simp only [mem_cons, not_mem_nil, or_false] at hspace
  rcases hspace with rfl | rfl | rfl | rfl <;> simp [Neutral]

theorem toNat_not_mem_of_isNumberChar {c : Char} (h : IsNumberChar c) :
    c.toNat ∉ [0x22, 0x5b, 0x5d, 0x7b, 0x7d] := by
  rcases h with h | rfl | rfl | rfl | rfl | rfl
  · simp only [Char.isDigit, Bool.and_eq_true, decide_eq_true_eq] at h
    have hle : c.toNat ≤ 57 := UInt32.le_iff_toNat_le.1 h.2
    have hge : 48 ≤ c.toNat := UInt32.le_iff_toNat_le.1 h.1
    simp only [mem_cons, not_mem_nil, or_false]
    omega
  all_goals decide

theorem IsWord.toNat_not_mem {text : List Char} (h : IsWord text) :
    ∀ c ∈ text, c.toNat ∉ [0x22, 0x5b, 0x5d, 0x7b, 0x7d] := by
  rcases h with h | h
  · simp only [mem_cons, not_mem_nil, or_false] at h
    rcases h with rfl | rfl | rfl <;> simp
  · exact fun c hc => toNat_not_mem_of_isNumberChar (isNumberChar_of_isValidNumber h c hc)

theorem IsWord.neutral {text : List Char} (h : IsWord text) : ∀ b ∈ utf8Bytes text, Neutral b := by
  intro b hb hmem
  obtain ⟨c, hc, hbyte⟩ := mem_flatMap.1 hb
  have hnot := h.toNat_not_mem c hc
  have hnat : b.toNat ∈ [0x22, 0x5b, 0x5d, 0x7b, 0x7d] := by
    simpa using mem_map_of_mem (f := UInt8.toNat) hmem
  rcases mem_utf8EncodeChar hbyte with heq | hle
  · exact hnot (heq ▸ hnat)
  · simp only [mem_cons, not_mem_nil, or_false] at hnat
    omega

end JsonGrammar

end AiOrg
