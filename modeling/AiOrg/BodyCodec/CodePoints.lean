import AiOrg.Go.JsonText
import AiOrg.Python.JsonText

/-!
# Python strings

A Python string is a list of code points, and a surrogate is one of them. What UTF-8 makes of characters is decoded
back to them (`utf8Decode_utf8Bytes`).
-/

namespace AiOrg

inductive CodePoint
  | scalar (c : Char)
  | surrogate (n : Fin 0x800)
  deriving DecidableEq

abbrev PyStr := List CodePoint

namespace CodePoint

def isChar (p : Char → Bool) : CodePoint → Bool
  | scalar c => p c
  | surrogate _ => false

/-- The code point of a number below `0x10000`. -/
def ofUnit (n : ℕ) : CodePoint :=
  if h : 0xd800 ≤ n ∧ n < 0xe000 then surrogate ⟨n - 0xd800, by omega⟩ else scalar (Char.ofNat n)

end CodePoint

namespace PyStr

def plain (text : List Char) : PyStr := text.map .scalar

end PyStr

theorem toNat_ofNat {n : ℕ} (h : n < 256) : (UInt8.ofNat n).toNat = n := by
  rw [UInt8.toNat_ofNat']
  exact Nat.mod_eq_of_lt h

theorem isUtf8Tail_ofNat {n : ℕ} (h : n < 64) : isUtf8Tail (UInt8.ofNat (n + 0x80)) = true := by
  rw [isUtf8Tail, toNat_ofNat (by omega), beq_iff_eq]
  omega

/-! One character of each length. -/

section Lengths

variable {a b c d : UInt8} (rest : Bytes)

theorem utf8Decode_one (ha : a.toNat < 0x80) :
    utf8Decode (a :: rest) = (utf8Decode rest).map (Char.ofNat a.toNat :: ·) := by
  rw [utf8Decode.eq_def]
  dsimp only
  rw [if_pos ha]

theorem utf8Decode_two (ha : 0xc2 ≤ a.toNat ∧ a.toNat < 0xe0) (hb : isUtf8Tail b = true) :
    utf8Decode (a :: b :: rest) =
      (utf8Decode rest).map (Char.ofNat (a.toNat % 32 * 64 + b.toNat % 64) :: ·) := by
  rw [utf8Decode.eq_def]
  dsimp only
  rw [if_neg (by omega), if_neg (by simp [hb]), if_pos ha]

theorem utf8Decode_three {n : ℕ} (ha : 0xe0 ≤ a.toNat ∧ a.toNat < 0xf0) (hb : isUtf8Tail b = true)
    (hc : isUtf8Tail c = true) (hn : a.toNat % 16 * 4096 + b.toNat % 64 * 64 + c.toNat % 64 = n)
    (hvalid : ¬ (n < 0x800 ∨ (0xd800 ≤ n ∧ n < 0xe000))) :
    utf8Decode (a :: b :: c :: rest) = (utf8Decode rest).map (Char.ofNat n :: ·) := by
  subst hn
  rw [utf8Decode.eq_def]
  dsimp only
  rw [if_neg (by omega), if_neg (by simp [hb]), if_neg (by omega), if_neg (by simp [hc]), if_pos ha, if_neg hvalid]

theorem utf8Decode_four {n : ℕ} (ha : 0xf0 ≤ a.toNat ∧ a.toNat < 0xf8) (hb : isUtf8Tail b = true)
    (hc : isUtf8Tail c = true) (hd : isUtf8Tail d = true)
    (hn : a.toNat % 8 * 262144 + b.toNat % 64 * 4096 + c.toNat % 64 * 64 + d.toNat % 64 = n)
    (hvalid : 0x10000 ≤ n ∧ n < 0x110000) :
    utf8Decode (a :: b :: c :: d :: rest) = (utf8Decode rest).map (Char.ofNat n :: ·) := by
  subst hn
  rw [utf8Decode.eq_def]
  dsimp only
  rw [if_neg (by omega), if_neg (by simp [hb]), if_neg (by omega), if_neg (by simp [hc]), if_neg (by omega), if_neg]
  simp only [hd, Bool.not_true, Bool.false_or, Bool.or_eq_true, decide_eq_true_eq]
  omega

end Lengths

theorem utf8Decode_char (c : Char) (rest : Bytes) :
    utf8Decode (String.utf8EncodeChar c ++ rest) = (utf8Decode rest).map (c :: ·) := by
  have hvalid : c.toNat < 0xd800 ∨ 0xdfff < c.toNat ∧ c.toNat < 0x110000 := c.valid
  have hc : Char.ofNat c.toNat = c := Char.ofNat_toNat c
  rw [String.utf8EncodeChar]
  simp only [show c.val.toNat = c.toNat from rfl]
  generalize c.toNat = n at hvalid hc ⊢
  have htail : isUtf8Tail (UInt8.ofNat (n % 0x40 + 0x80)) = true := isUtf8Tail_ofNat (by omega)
  have htail₂ : isUtf8Tail (UInt8.ofNat (n / 64 % 0x40 + 0x80)) = true := isUtf8Tail_ofNat (by omega)
  have htail₃ : isUtf8Tail (UInt8.ofNat (n / 4096 % 0x40 + 0x80)) = true := isUtf8Tail_ofNat (by omega)
  have hlast : (UInt8.ofNat (n % 0x40 + 0x80)).toNat = n % 0x40 + 0x80 := toNat_ofNat (by omega)
  have hlast₂ : (UInt8.ofNat (n / 64 % 0x40 + 0x80)).toNat = n / 64 % 0x40 + 0x80 := toNat_ofNat (by omega)
  have hlast₃ : (UInt8.ofNat (n / 4096 % 0x40 + 0x80)).toNat = n / 4096 % 0x40 + 0x80 := toNat_ofNat (by omega)
  subst hc
  by_cases h₁ : n ≤ 0x7f
  · have ha : (UInt8.ofNat n).toNat = n := toNat_ofNat (by omega)
    rw [if_pos h₁, List.singleton_append, utf8Decode_one rest (by omega), ha]
  rw [if_neg h₁]
  by_cases h₂ : n ≤ 0x7ff
  · have ha : (UInt8.ofNat (n / 64 % 0x20 + 0xc0)).toNat = n / 64 % 0x20 + 0xc0 := toNat_ofNat (by omega)
    rw [if_pos h₂]
    have hvalue : (n / 64 % 0x20 + 0xc0) % 32 * 64 + (n % 0x40 + 0x80) % 64 = n := by omega
    refine (utf8Decode_two rest (by omega) htail).trans ?_
    rw [ha, hlast, hvalue]
  rw [if_neg h₂]
  by_cases h₃ : n ≤ 0xffff
  · have ha : (UInt8.ofNat (n / 4096 % 0x10 + 0xe0)).toNat = n / 4096 % 0x10 + 0xe0 := toNat_ofNat (by omega)
    rw [if_pos h₃]
    exact utf8Decode_three rest (by omega) htail₂ htail (by omega) (by omega)
  · have ha : (UInt8.ofNat (n / 262144 % 0x08 + 0xf0)).toNat = n / 262144 % 0x08 + 0xf0 := toNat_ofNat (by omega)
    rw [if_neg h₃]
    exact utf8Decode_four rest (by omega) htail₃ htail₂ htail (by omega) (by omega)

theorem utf8Decode_utf8Bytes (text : List Char) : utf8Decode (GoJson.utf8Bytes text) = some text := by
  induction text with
  | nil => rfl
  | cons c text ih =>
    rw [GoJson.utf8Bytes, List.flatMap_cons, utf8Decode_char]
    exact congrArg (Option.map (c :: ·)) ih

end AiOrg
