import Mathlib

/-!
# Python text

`str` methods and regular-expression classes on lists of characters: white space, decimal
digits, `strip`.
-/

namespace AiOrg

open List

namespace Text

/-- Whether a code point is white space. -/
def isSpaceCode (n : Nat) : Bool :=
  (9 ≤ n && n ≤ 13) || (0x1c ≤ n && n ≤ 0x20) || n == 0x85 || n == 0xa0 || n == 0x1680
    || (0x2000 ≤ n && n ≤ 0x200a) || n == 0x2028 || n == 0x2029 || n == 0x202f || n == 0x205f
    || n == 0x3000

/-- `c.isspace()`, which is also the class `\s`. -/
def isSpace (c : Char) : Bool := isSpaceCode c.toNat

/-- The code points of the decimal zeros; each starts a run of ten digits. -/
def decimalZeros : List Nat :=
  [0x30, 0x660, 0x6f0, 0x7c0, 0x966, 0x9e6, 0xa66, 0xae6, 0xb66, 0xbe6, 0xc66, 0xce6, 0xd66, 0xde6,
    0xe50, 0xed0, 0xf20, 0x1040, 0x1090, 0x17e0, 0x1810, 0x1946, 0x19d0, 0x1a80, 0x1a90, 0x1b50,
    0x1bb0, 0x1c40, 0x1c50, 0xa620, 0xa8d0, 0xa900, 0xa9d0, 0xa9f0, 0xaa50, 0xabf0, 0xff10,
    0x104a0, 0x10d30, 0x11066, 0x110f0, 0x11136, 0x111d0, 0x112f0, 0x11450, 0x114d0, 0x11650,
    0x116c0, 0x11730, 0x118e0, 0x11950, 0x11c50, 0x11d50, 0x11da0, 0x16a60, 0x16ac0, 0x16b50,
    0x1d7ce, 0x1d7d8, 0x1d7e2, 0x1d7ec, 0x1d7f6, 0x1e140, 0x1e2f0, 0x1e950, 0x1fbf0]

/-- The value of a decimal digit, the class `\d`. -/
def decimal (c : Char) : Option Nat :=
  (decimalZeros.find? fun z => z ≤ c.toNat && c.toNat < z + 10).map (c.toNat - ·)

/-- Whether a character is in the class `\d`. -/
def isDecimal (c : Char) : Bool := (decimal c).isSome

/-- `int(digits)` for a run of decimal digits. -/
def intOf (digits : List Char) : Nat :=
  digits.foldl (fun n c => 10 * n + (decimal c).getD 0) 0

/-- `text.strip()`. -/
def strip (text : List Char) : List Char := (text.dropWhile isSpace).rdropWhile isSpace

theorem isSpace_of_isDecimal {c : Char} (h : isDecimal c) : isSpace c = false := by
  have hzeros : ∀ z ∈ decimalZeros, ∀ k < 10, isSpaceCode (z + k) = false := by decide
  obtain ⟨z, hz⟩ : ∃ z, decimalZeros.find? (fun z => z ≤ c.toNat && c.toNat < z + 10) = some z := by
    rw [← Option.isSome_iff_exists]
    simpa [isDecimal, decimal] using h
  have hrange := find?_some hz
  simp only [Bool.and_eq_true, decide_eq_true_eq] at hrange
  have := hzeros z (mem_of_find?_eq_some hz) (c.toNat - z) (by omega)
  rwa [Nat.add_sub_cancel' hrange.1] at this

theorem isDigit_of_mem_toString {n : ℕ} {c : Char} (h : c ∈ (toString n).toList) : c.isDigit := by
  rw [Nat.toString_eq_repr, Nat.toList_repr] at h
  exact Nat.isDigit_of_mem_toDigits (by decide) (by decide) h

theorem toString_toList_inj {m n : ℕ} (h : (toString m).toList = (toString n).toList) : m = n := by
  rw [Nat.toString_eq_repr, Nat.toString_eq_repr, Nat.toList_repr, Nat.toList_repr] at h
  rw [← Nat.ofDigitChars_ten_toDigits (n := m), h, Nat.ofDigitChars_ten_toDigits]

theorem strip_length_le (text : List Char) : (strip text).length ≤ text.length :=
  ( rdropWhile_prefix _ _).length_le.trans (dropWhile_suffix _).length_le

end Text

/-- `text.strip()`. -/
def pyStrip (text : String) : String := String.ofList (Text.strip text.toList)

end AiOrg

/-!
## Texts up to white space

`collapse` is `re.sub(r"\s+", " ", text)`. What it makes of a trimmed text in a normal form is in that form,
trimmed and collapsed (`squeeze_squeeze`), for any normal form that is inherited by parts of a text and does
not look across a space.
-/

namespace AiOrg

open List

namespace Text

/-- `re.sub(r"\s+", " ", text)`, within a run of white space or not. -/
def collapseFrom : Bool → List Char → List Char
  | _, [] => []
  | inRun, c :: text =>
    if isSpace c then
      if inRun then collapseFrom true text else ' ' :: collapseFrom true text
    else c :: collapseFrom false text

/-- `re.sub(r"\s+", " ", text)`. -/
def collapse (text : List Char) : List Char := collapseFrom false text

/-- `re.sub(r"\s+", " ", unicodedata.normalize("NFC", text).strip())`. -/
def squeeze (nfc : List Char → List Char) (text : List Char) : List Char :=
  collapse (strip (nfc text))

/-- What holds of `unicodedata.normalize("NFC", text)`: a normalized text stays as it is, so do its parts,
and a space neither composes nor moves. -/
structure IsNormalForm (nfc : List Char → List Char) : Prop where
  again : ∀ text, nfc (nfc text) = nfc text
  part : ∀ {text whole : List Char}, text <:+: whole → nfc whole = whole → nfc text = text
  space : ∀ text rest, nfc (text ++ ' ' :: rest) = nfc text ++ ' ' :: nfc rest

theorem isSpace_space : isSpace ' ' = true := by decide

theorem collapseFrom_collapseFrom (inRun : Bool) (text : List Char) :
    collapseFrom inRun (collapseFrom inRun text) = collapseFrom inRun text := by
  induction text generalizing inRun with
  | nil => rfl
  | cons c text ih =>
    rw [collapseFrom]
    split_ifs with hc hrun
    · rw [hrun, ih]
    · rw [collapseFrom, if_pos isSpace_space, if_neg hrun, ih]
    · rw [collapseFrom, if_neg hc, ih]

theorem collapseFrom_concat {c : Char} (hc : isSpace c = false) (inRun : Bool) (text : List Char) :
    collapseFrom inRun (text ++ [c]) = collapseFrom inRun text ++ [c] := by
  induction text generalizing inRun with
  | nil => simp [collapseFrom, hc]
  | cons d text ih =>
    rw [cons_append, collapseFrom, collapseFrom]
    split_ifs
    · rw [ih]
    · rw [ih, cons_append]
    · rw [ih, cons_append]

theorem IsNormalForm.of_collapse {nfc : List Char → List Char} (h : IsNormalForm nfc) (inRun : Bool)
    (front : List Char) {text : List Char} (hfront : inRun = true → front = [])
    (htext : nfc (front ++ text) = front ++ text) :
    nfc (front ++ collapseFrom inRun text) = front ++ collapseFrom inRun text := by
  induction text generalizing inRun front with
  | nil => exact htext
  | cons c text ih =>
    have hrest : nfc text = text := h.part ⟨front ++ [c], [], by simp⟩ htext
    have hrun : nfc (collapseFrom true text) = collapseFrom true text :=
      ih true [] (fun _ => rfl) hrest
    rw [collapseFrom]
    split_ifs with hc hinRun
    · rw [hfront hinRun]
      exact hrun
    · rw [h.space, hrun, h.part ⟨[], c :: text, rfl⟩ htext]
    · have hnext := ih false (front ++ [c]) nofun (by simpa using htext)
      simpa using hnext

/-- A text without white space at its ends. -/
def Trimmed (text : List Char) : Prop :=
  (∀ c ∈ text.head?, isSpace c = false) ∧ ∀ c ∈ text.getLast?, isSpace c = false

theorem strip_of_trimmed {text : List Char} (h : Trimmed text) : strip text = text := by
  have hfront : text.dropWhile isSpace = text := by
    rcases text with _ | ⟨c, text⟩
    · rfl
    · exact dropWhile_cons_of_neg (by simpa using h.1 c rfl)
  rw [strip, hfront, rdropWhile_eq_self_iff]
  intro hne
  simpa using h.2 _ (getLast?_eq_getLast_of_ne_nil hne)

theorem trimmed_strip (text : List Char) : Trimmed (strip text) := by
  constructor
  · intro c hc
    rw [strip] at hc
    have hhead : c ∈ (text.dropWhile isSpace).head? := by
      obtain ⟨rest, hrest⟩ := rdropWhile_prefix isSpace (text.dropWhile isSpace)
      rw [← hrest, head?_append, hc]
      rfl
    have hnot := head?_dropWhile_not isSpace text
    rw [hhead] at hnot
    simpa using hnot
  · intro c hc
    rw [strip] at hc
    have hne : List.rdropWhile isSpace (text.dropWhile isSpace) ≠ [] := by
      intro hnil
      rw [hnil] at hc
      cases hc
    have hnot := rdropWhile_last_not isSpace (text.dropWhile isSpace) hne
    rw [getLast?_eq_getLast_of_ne_nil hne] at hc
    obtain rfl := Option.some.inj hc
    simpa using hnot

theorem trimmed_collapse {text : List Char} (h : Trimmed text) : Trimmed (collapse text) := by
  constructor
  · rcases text with _ | ⟨c, text⟩
    · exact nofun
    · have hc := h.1 c rfl
      rw [collapse, collapseFrom, hc]
      simpa using hc
  · rcases eq_nil_or_concat text with rfl | ⟨text, c, rfl⟩
    · exact nofun
    · rw [concat_eq_append] at h ⊢
      have hc := h.2 c (by simp)
      rw [collapse, collapseFrom_concat hc]
      simpa using hc

/-- A squeezed text is not changed any more. -/
theorem squeeze_squeeze {nfc : List Char → List Char} (h : IsNormalForm nfc) (text : List Char) :
    squeeze nfc (squeeze nfc text) = squeeze nfc text := by
  have htrimmed := trimmed_strip (nfc text)
  have hstrip : nfc (strip (nfc text)) = strip (nfc text) := by
    refine h.part ?_ (h.again text)
    exact (( rdropWhile_prefix _ _).isInfix).trans (dropWhile_suffix _).isInfix
  have hform : nfc (collapse (strip (nfc text))) = collapse (strip (nfc text)) :=
    h.of_collapse false [] nofun hstrip
  rw [squeeze, squeeze, hform, strip_of_trimmed (trimmed_collapse htrimmed)]
  exact collapseFrom_collapseFrom false _

end Text

end AiOrg
