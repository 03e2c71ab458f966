import AiOrg.Coding.PrefixCode
import AiOrg.Go.JsonText

/-!
# JSON texts of Go

Strings are written in a prefix code between quotes, so they are read back off any text, and no control
character is left in them. A number that Go takes for one denotes a rational.
-/

namespace AiOrg

open List

namespace GoJson

open Coding (PrefixFree)
open StrictJson (IsDigits ExponentPart FractionPart Magnitude Denotes)

theorem mem_utf8EncodeChar {c : Char} {b : UInt8} (h : b ∈ String.utf8EncodeChar c) :
    b.toNat = c.toNat ∨ 0x80 ≤ b.toNat := by
  have hval : c.val.toNat = c.toNat := rfl
  unfold String.utf8EncodeChar at h
  dsimp only at h
  rw [hval] at h
  split_ifs at h with h1 h2 h3
  · rw [mem_singleton.1 h, UInt8.toNat_ofNat']
    omega
  · simp only [mem_cons, not_mem_nil, or_false] at h
    rcases h with rfl | rfl <;> rw [UInt8.toNat_ofNat'] <;> omega
  · simp only [mem_cons, not_mem_nil, or_false] at h
    rcases h with rfl | rfl | rfl <;> rw [UInt8.toNat_ofNat'] <;> omega
  · simp only [mem_cons, not_mem_nil, or_false] at h
    rcases h with rfl | rfl | rfl | rfl <;> rw [UInt8.toNat_ofNat'] <;> omega

theorem not_mem_utf8Bytes {text : List Char} {b : UInt8} (hb : b.toNat < 0x20)
    (h : ∀ c ∈ text, 0x20 ≤ c.toNat) : b ∉ utf8Bytes text := by
  intro hmem
  obtain ⟨c, hc, hbyte⟩ := mem_flatMap.1 hmem
  have := h c hc
  rcases mem_utf8EncodeChar hbyte with h | h <;> omega

theorem utf8Bytes_injective : Function.Injective utf8Bytes := by
  intro s t h
  have hencode : s.utf8Encode = t.utf8Encode := by
    unfold List.utf8Encode
    exact congrArg List.toByteArray h
  rw [← String.toByteArray_ofList, ← String.toByteArray_ofList, String.toByteArray_inj] at hencode
  exact String.ofList_injective hencode

section Strings

variable {c d : Char}

theorem hexDigit_inj {m n : ℕ} (hm : m < 16) (hn : n < 16) (h : hexDigit m = hexDigit n) :
    m = n := by
  interval_cases m <;> interval_cases n <;> first | rfl | exact absurd h (by decide)

theorem le_hexDigit {n : ℕ} (h : n < 16) : 0x20 ≤ (hexDigit n).toNat := by
  interval_cases n <;> decide

theorem hex4_inj {m n : ℕ} (hm : m < 65536) (hn : n < 65536) (h : hex4 m = hex4 n) : m = n := by
  have hmod : ∀ k : ℕ, k % 16 < 16 := fun k => Nat.mod_lt _ (by norm_num)
  simp only [hex4, List.cons.injEq, and_true] at h
  obtain ⟨h3, h2, h1, h0⟩ := h
  have e3 := hexDigit_inj (hmod _) (hmod _) h3
  have e2 := hexDigit_inj (hmod _) (hmod _) h2
  have e1 := hexDigit_inj (hmod _) (hmod _) h1
  have e0 := hexDigit_inj (hmod _) (hmod _) h0
  omega

theorem isEscapedHex_iff : isEscapedHex c ↔ c.toNat < 0x20 ∨ c = '<' ∨ c = '>' ∨ c = '&' ∨
    c.toNat = 0x2028 ∨ c.toNat = 0x2029 := by
  simp [isEscapedHex, or_assoc]

theorem toNat_lt_of_isEscapedHex (h : isEscapedHex c) : c.toNat < 65536 := by
  rcases isEscapedHex_iff.1 h with h | rfl | rfl | rfl | h | h
  · omega
  all_goals first | decide | omega

theorem escapeChar_cases (c : Char) :
    (∃ letter, escapeLetter c = some letter ∧ escapeChar c = ['\\', letter]) ∨
    (escapeLetter c = none ∧ isEscapedHex c ∧ escapeChar c = '\\' :: 'u' :: hex4 c.toNat) ∨
      escapeLetter c = none ∧ isEscapedHex c = false ∧ escapeChar c = [c] := by
  unfold escapeChar
  rcases hletter : escapeLetter c with _ | letter
  · rcases hhex : isEscapedHex c with _ | _
    · exact .inr (.inr ⟨rfl, rfl, rfl⟩)
    · exact .inr (.inl ⟨rfl, rfl, rfl⟩)
  · exact .inl ⟨letter, rfl, rfl⟩

theorem escapeLetter_inj {letter : Char} (hc : escapeLetter c = some letter)
    (hd : escapeLetter d = some letter) : c = d := by
  unfold escapeLetter at hc hd
  split_ifs at hc with h1 h2 h3 h4 h5 h6 h7 <;> cases hc <;>
    split_ifs at hd with k1 k2 k3 k4 k5 k6 k7 <;> cases hd
  all_goals simp_all

theorem escapeLetter_ne_u : escapeLetter c ≠ some 'u' := by
  unfold escapeLetter
  split_ifs <;> decide

theorem le_escapeLetter {letter : Char} (h : escapeLetter c = some letter) :
    0x20 ≤ letter.toNat := by
  unfold escapeLetter at h
  split_ifs at h <;> cases h <;> decide

theorem ne_of_escapeLetter_none (h : escapeLetter c = none) : c ≠ '\\' ∧ c ≠ '\x22' := by
  unfold escapeLetter at h
  split_ifs at h with h1 h2
  exact ⟨h2, h1⟩

theorem escapeChar_ne_nil (c : Char) : escapeChar c ≠ [] := by
  rcases escapeChar_cases c with ⟨letter, -, h⟩ | ⟨-, -, h⟩ | ⟨-, -, h⟩ <;> rw [h] <;> simp

theorem escapeChar_head (c : Char) : (escapeChar c).head? ≠ some '\x22' := by
  rcases escapeChar_cases c with ⟨letter, -, h⟩ | ⟨-, -, h⟩ | ⟨hnone, -, h⟩ <;> rw [h]
  · simp
  · simp
  · simpa using (ne_of_escapeLetter_none hnone).2

theorem le_escapeChar : ∀ e ∈ escapeChar c, 0x20 ≤ e.toNat := by
  intro e he
  rcases escapeChar_cases c with ⟨letter, hletter, h⟩ | ⟨-, -, h⟩ | ⟨-, hhex, h⟩ <;> rw [h] at he
  · simp only [mem_cons, not_mem_nil, or_false] at he
    rcases he with rfl | rfl
    · decide
    · exact le_escapeLetter hletter
  · have hdigit : ∀ k : ℕ, 0x20 ≤ (hexDigit (k % 16)).toNat := fun k =>
      le_hexDigit (Nat.mod_lt _ (by norm_num))
    simp only [hex4, mem_cons, not_mem_nil, or_false] at he
    rcases he with rfl | rfl | rfl | rfl | rfl | rfl
    · decide
    · decide
    all_goals exact hdigit _
  · rw [mem_singleton.1 he]
    by_contra hlt
    rw [isEscapedHex_iff.2 (.inl (not_le.1 hlt))] at hhex
    cases hhex

theorem escapeChar_prefixFree : PrefixFree escapeChar := by
  intro c d s t h
  rcases escapeChar_cases c with ⟨x, hx, hc⟩ | ⟨hcnone, hchex, hc⟩ | ⟨hcnone, hchex, hc⟩ <;>
    rcases escapeChar_cases d with ⟨y, hy, hd⟩ | ⟨hdnone, hdhex, hd⟩ | ⟨hdnone, hdhex, hd⟩ <;>
      rw [hc, hd] at h
  · simp only [cons_append, nil_append, List.cons.injEq, true_and] at h
    obtain ⟨rfl, rfl⟩ := h
    exact ⟨escapeLetter_inj hx hy, rfl⟩
  · simp only [cons_append, nil_append, List.cons.injEq, true_and] at h
    exact absurd (h.1 ▸ hx) escapeLetter_ne_u
  · simp only [cons_append, nil_append, List.cons.injEq] at h
    exact absurd h.1.symm (ne_of_escapeLetter_none hdnone).1
  · simp only [cons_append, nil_append, List.cons.injEq, true_and] at h
    exact absurd (h.1 ▸ hy) escapeLetter_ne_u
  · have hsame : hex4 c.toNat ++ s = hex4 d.toNat ++ t := by
      simpa only [cons_append, List.cons.injEq, true_and] using h
    obtain ⟨hhex, hst⟩ := append_inj hsame rfl
    have hcode := hex4_inj (toNat_lt_of_isEscapedHex hchex) (toNat_lt_of_isEscapedHex hdhex) hhex
    exact ⟨Char.toNat_inj.1 hcode, hst⟩
  · simp only [cons_append, nil_append, List.cons.injEq] at h
    exact absurd h.1.symm (ne_of_escapeLetter_none hdnone).1
  · simp only [cons_append, nil_append, List.cons.injEq] at h
    exact absurd h.1 (ne_of_escapeLetter_none hcnone).1
  · simp only [cons_append, nil_append, List.cons.injEq] at h
    exact absurd h.1 (ne_of_escapeLetter_none hcnone).1
  · simpa only [cons_append, nil_append, List.cons.injEq] using h

theorem quote_prefixFree : PrefixFree quote :=
  escapeChar_prefixFree.quoted escapeChar_ne_nil escapeChar_head

theorem le_quote {text : List Char} : ∀ e ∈ quote text, 0x20 ≤ e.toNat := by
  intro e he
  simp only [quote, cons_append, mem_cons, mem_append, not_mem_nil,
    or_false] at he
  rcases he with rfl | he | rfl
  · decide
  · obtain ⟨c, -, he⟩ := mem_flatMap.1 he
    exact le_escapeChar e he
  · decide

end Strings

section Numbers

variable {text : List Char}

def IsNumberChar (c : Char) : Prop :=
  c.isDigit ∨ c = '-' ∨ c = '+' ∨ c = '.' ∨ c = 'e' ∨ c = 'E'

theorem dropWhile_digits (text : List Char) : ∃ digits : List Char, (∀ c ∈ digits, c.isDigit) ∧
    text = digits ++ text.dropWhile Char.isDigit :=
  ⟨text.takeWhile Char.isDigit, fun _ hc => mem_takeWhile_imp hc,
    takeWhile_append_dropWhile.symm⟩

theorem exponentPart_of_isExponentEnd (h : isExponentEnd text) : ∃ e, ExponentPart text e := by
  rcases text with _ | ⟨mark, rest⟩
  · exact ⟨0, .absent⟩
  · rw [isExponentEnd, Bool.and_eq_true, Bool.and_eq_true, all_eq_true] at h
    obtain ⟨⟨hmark, hempty⟩, hall⟩ := h
    have hmark' : mark = 'e' ∨ mark = 'E' := by simpa using hmark
    have hdigits : IsDigits (unsigned rest) := ⟨by simpa using hempty, hall⟩
    unfold unsigned at hdigits
    split at hdigits
    · exact ⟨_, .plus hmark' hdigits⟩
    · exact ⟨_, .minus hmark' hdigits⟩
    · exact ⟨_, .bare hmark' hdigits⟩

theorem parts_of_isFractionEnd (h : isFractionEnd text) : ∃ point fraction scale e,
    text = point ++ scale ∧ FractionPart point fraction ∧ ExponentPart scale e := by
  unfold isFractionEnd at h
  split at h
  · rename_i c rest
    rw [Bool.and_eq_true] at h
    obtain ⟨digits, hdigits, hrest⟩ := dropWhile_digits rest
    obtain ⟨e, he⟩ := exponentPart_of_isExponentEnd h.2
    refine ⟨'.' :: c :: digits, c :: digits, _, e, ?_,
      .present (forall_mem_cons.2 ⟨h.1, hdigits⟩), he⟩
    rw [cons_append, cons_append, ← hrest]
  · obtain ⟨e, he⟩ := exponentPart_of_isExponentEnd h
    exact ⟨[], [], text, e, rfl, .absent, he⟩

theorem magnitude_of_isMagnitude (h : isMagnitude text) : ∃ q, Magnitude text q := by
  unfold isMagnitude at h
  split at h
  · obtain ⟨point, fraction, scale, e, rfl, hpoint, hscale⟩ := parts_of_isFractionEnd h
    have hinteger : IsDigits ['0'] := ⟨by simp, fun c hc => by rw [mem_singleton.1 hc]; rfl⟩
    exact ⟨_, Magnitude.mk hinteger hpoint hscale⟩
  · rename_i c rest _
    rw [Bool.and_eq_true] at h
    obtain ⟨digits, hdigits, hrest⟩ := dropWhile_digits rest
    obtain ⟨point, fraction, scale, e, heq, hpoint, hscale⟩ := parts_of_isFractionEnd h.2
    have hinteger : IsDigits (c :: digits) := ⟨by simp, forall_mem_cons.2 ⟨h.1, hdigits⟩⟩
    have htext : c :: rest = c :: digits ++ point ++ scale := by
      rw [append_assoc, ← heq, cons_append, ← hrest]
    rw [htext]
    exact ⟨_, .mk hinteger hpoint hscale⟩
  · cases h

theorem denotes_of_isValidNumber {text : String} (h : isValidNumber text.toList) :
    ∃ q, Denotes text q := by
  unfold isValidNumber at h
  split at h
  · rename_i number heq
    obtain ⟨q, hq⟩ := magnitude_of_isMagnitude h
    exact ⟨-q, .negated heq hq⟩
  · obtain ⟨q, hq⟩ := magnitude_of_isMagnitude h
    exact ⟨q, .plain hq⟩

theorem isNumberChar_of_magnitude {q : ℚ} (h : Magnitude text q) : ∀ c ∈ text, IsNumberChar c := by
  obtain ⟨hinteger, hpoint, hscale⟩ := h
  intro c hc
  rcases mem_append.1 hc with hc | hc
  · rcases mem_append.1 hc with hc | hc
    · exact .inl (hinteger.2 c hc)
    · cases hpoint with
      | absent => cases hc
      | present hdigits =>
        rcases mem_cons.1 hc with rfl | hc
        · simp [IsNumberChar]
        · exact .inl (hdigits c hc)
  · cases hscale with
    | absent => cases hc
    | bare hmark hdigits =>
      rcases mem_cons.1 hc with rfl | hc
      · exact .inr (.inr (.inr (.inr hmark)))
      · exact .inl (hdigits.2 c hc)
    | plus hmark hdigits | minus hmark hdigits =>
      rcases mem_cons.1 hc with rfl | hc
      · exact .inr (.inr (.inr (.inr hmark)))
      · rcases mem_cons.1 hc with rfl | hc
        · simp [IsNumberChar]
        · exact .inl (hdigits.2 c hc)

theorem isNumberChar_of_isValidNumber (h : isValidNumber text) : ∀ c ∈ text, IsNumberChar c := by
  unfold isValidNumber at h
  split at h
  · obtain ⟨q, hq⟩ := magnitude_of_isMagnitude h
    exact forall_mem_cons.2 ⟨by simp [IsNumberChar], isNumberChar_of_magnitude hq⟩
  · obtain ⟨q, hq⟩ := magnitude_of_isMagnitude h
    exact isNumberChar_of_magnitude hq

theorem ne_nil_of_isValidNumber (h : isValidNumber text) : text ≠ [] := by
  rintro rfl
  cases h

theorem IsNumberChar.le {c : Char} (h : IsNumberChar c) : 0x20 ≤ c.toNat := by
  rcases h with h | rfl | rfl | rfl | rfl | rfl
  · simp only [Char.isDigit, Bool.and_eq_true, decide_eq_true_eq] at h
    have := UInt32.le_iff_toNat_le.1 h.1
    exact le_trans (by decide) this
  all_goals decide

end Numbers

end GoJson

end AiOrg
