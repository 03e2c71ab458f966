import AiOrg.Python.Text

/-!
# `int` of a text

White space at the ends, a sign, and decimal digits with single underscores between them, up to the limit on their
number. A run of digits is read as the number it spells (`pyInt_digits`).
-/

namespace AiOrg

open List

namespace Text

/-- The digits of `int(text)`, after the sign. -/
def unsignedInt (text : List Char) : Option ℕ :=
  let parts := text.splitOn '_'
  let digits := parts.flatten
  if parts.any List.isEmpty || !digits.all isDecimal || 4300 < digits.length then none else some (intOf digits)

/-- The runs of code points that are digits without a decimal value, such as the superscripts. -/
def digitRanges : List (ℕ × ℕ) :=
  [(0xb2, 0xb3), (0xb9, 0xb9), (0x1369, 0x1371), (0x19da, 0x19da), (0x2070, 0x2070), (0x2074, 0x2079),
    (0x2080, 0x2089), (0x2460, 0x2468), (0x2474, 0x247c), (0x2488, 0x2490), (0x24ea, 0x24ea), (0x24f5, 0x24fd),
    (0x24ff, 0x24ff), (0x2776, 0x277e), (0x2780, 0x2788), (0x278a, 0x2792), (0x10a40, 0x10a43), (0x10e60, 0x10e68),
    (0x11052, 0x1105a), (0x1f100, 0x1f10a)]

/-- Whether a character counts for `isdigit`. -/
def isDigitChar (c : Char) : Bool :=
  isDecimal c || digitRanges.any fun range => range.1 ≤ c.toNat && c.toNat ≤ range.2

/-- `text.isdigit()`. -/
def isdigit (text : List Char) : Bool := !text.isEmpty && text.all isDigitChar

/-- `int(text)`, `none` where it raises `ValueError`. -/
def pyInt (text : List Char) : Option ℤ :=
  match strip text with
  | '+' :: digits => (unsignedInt digits).map Int.ofNat
  | '-' :: digits => (unsignedInt digits).map fun n => -Int.ofNat n
  | digits => (unsignedInt digits).map Int.ofNat

theorem decimal_of_isDigit {c : Char} (h : c.isDigit = true) : decimal c = some (c.toNat - 48) := by
  have hrange : 48 ≤ c.toNat ∧ c.toNat < 58 := by
    simp only [Char.isDigit, Bool.and_eq_true, decide_eq_true_eq, UInt32.le_iff_toNat_le] at h
    exact ⟨h.1, Nat.lt_succ_of_le h.2⟩
  have hfind : decimalZeros.find? (fun z => z ≤ c.toNat && c.toNat < z + 10) = some 0x30 :=
    find?_cons_of_pos (by simpa using hrange)
  rw [decimal, hfind, Option.map_some]

theorem isDecimal_of_isDigit {c : Char} (h : c.isDigit = true) : isDecimal c = true := by
  rw [isDecimal, decimal_of_isDigit h, Option.isSome_some]

theorem foldl_decimal {digits : List Char} (h : ∀ c ∈ digits, c.isDigit = true) (n : ℕ) :
    digits.foldl (fun n c => 10 * n + (decimal c).getD 0) n = digits.foldl (fun n c => 10 * n + (c.toNat - 48)) n := by
  induction digits generalizing n with
  | nil => rfl
  | cons c digits ih =>
    obtain ⟨hc, hdigits⟩ := forall_mem_cons.1 h
    rw [foldl_cons, foldl_cons, decimal_of_isDigit hc, Option.getD_some, ih hdigits]

theorem intOf_zeros (k : ℕ) (digits : List Char) : intOf (replicate k '0' ++ digits) = intOf digits := by
  induction k with
  | zero => rfl
  | succ k ih => rw [replicate_succ, cons_append, intOf, foldl_cons]; exact ih

theorem isDigit_of_mem_toDigits {n : ℕ} : ∀ c ∈ Nat.toDigits 10 n, c.isDigit = true := fun _ hc =>
  Nat.isDigit_of_mem_toDigits (by decide) (by decide) hc

theorem toList_toString (n : ℕ) : (toString n).toList = Nat.toDigits 10 n := by
  rw [Nat.toString_eq_repr, Nat.toList_repr]

theorem intOf_toDigits (n : ℕ) : intOf (Nat.toDigits 10 n) = n := by
  rw [intOf, foldl_decimal isDigit_of_mem_toDigits]
  have h := Nat.ofDigitChars_ten_toDigits (n := n)
  rwa [Nat.ofDigitChars_eq_foldl] at h

theorem isDigitChar_of_isDecimal {c : Char} (h : isDecimal c = true) : isDigitChar c = true := by
  rw [isDigitChar, h, Bool.true_or]

theorem isSpace_of_isDigitChar {c : Char} (h : isDigitChar c = true) : isSpace c = false := by
  have hranges : ∀ range ∈ digitRanges, ∀ k ≤ range.2 - range.1, isSpaceCode (range.1 + k) = false := by decide
  rcases Bool.or_eq_true_iff.1 h with hc | hc
  · exact isSpace_of_isDecimal hc
  · obtain ⟨range, hrange, hle⟩ := any_eq_true.1 hc
    simp only [Bool.and_eq_true, decide_eq_true_eq] at hle
    have hspace := hranges range hrange (c.toNat - range.1) (by omega)
    rwa [Nat.add_sub_cancel' hle.1] at hspace

theorem unsignedInt_isdigit {digits : List Char} (h : isdigit digits = true) : unsignedInt digits =
    if (∀ c ∈ digits, isDecimal c = true) ∧ digits.length ≤ 4300 then some (intOf digits) else none := by
  simp only [isdigit, Bool.and_eq_true, Bool.not_eq_true', all_eq_true] at h
  have hmark : ∀ c ∈ digits, (c == '_') = false := by
    intro c hc
    rw [beq_eq_false_iff_ne]
    rintro rfl
    exact absurd (h.2 _ hc) (by decide)
  have hsplit : digits.splitOn '_' = [digits] := splitOnP_eq_singleton hmark
  simp only [unsignedInt, hsplit, any_cons, any_nil, flatten_cons, flatten_nil, append_nil, h.1]
  by_cases hall : ∀ c ∈ digits, isDecimal c = true
  · rw [all_eq_true.2 hall]
    by_cases hlength : digits.length ≤ 4300
    · rw [if_neg (by simp [hlength]), if_pos ⟨hall, hlength⟩]
    · simp [hlength, not_le.1 hlength]
  · have hfalse : digits.all isDecimal = false := by
      rw [Bool.eq_false_iff]
      exact fun htrue => hall (all_eq_true.1 htrue)
    simp [hall, hfalse]

theorem pyInt_isdigit {digits : List Char} (h : isdigit digits = true) : pyInt digits =
    if (∀ c ∈ digits, isDecimal c = true) ∧ digits.length ≤ 4300 then some (intOf digits : ℤ) else none := by
  have hunsigned := unsignedInt_isdigit h
  simp only [isdigit, Bool.and_eq_true, Bool.not_eq_true', all_eq_true] at h
  have htrimmed : Trimmed digits :=
    ⟨fun c hc => isSpace_of_isDigitChar (h.2 c (mem_of_mem_head? hc)),
      fun c hc => isSpace_of_isDigitChar (h.2 c (mem_of_getLast? hc))⟩
  rw [pyInt, strip_of_trimmed htrimmed]
  split
  · exact absurd (h.2 _ mem_cons_self) (by decide)
  · exact absurd (h.2 _ mem_cons_self) (by decide)
  · rw [hunsigned]
    split_ifs <;> rfl

/-- A run of decimal digits within the limit. -/
theorem pyInt_digits {digits : List Char} (hne : digits ≠ []) (hdigits : ∀ c ∈ digits, c.isDigit = true)
    (hlength : digits.length ≤ 4300) : pyInt digits = some (intOf digits : ℤ) := by
  have hdecimal : ∀ c ∈ digits, isDecimal c = true := fun c hc => isDecimal_of_isDigit (hdigits c hc)
  have hisdigit : isdigit digits = true := by
    simp only [isdigit, Bool.and_eq_true, Bool.not_eq_true', isEmpty_eq_false_iff, all_eq_true]
    exact ⟨hne, fun c hc => isDigitChar_of_isDecimal (hdecimal c hc)⟩
  rw [pyInt_isdigit hisdigit, if_pos ⟨hdecimal, hlength⟩]

end Text

end AiOrg
