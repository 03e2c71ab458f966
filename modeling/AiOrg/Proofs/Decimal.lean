import AiOrg.StrictJson.Number

/-!
# Exact numbers

A numeral is read as the normal form of the rational number it denotes, and normal forms are equal
just where the numbers are. So numbers are compared exactly, whatever their exponents.
-/

namespace AiOrg

open List

namespace StrictJson

section Digits

variable {c d : Char} {a b digits : List Char}

theorem digit_lt (h : c.isDigit) : c.toNat - '0'.toNat < 10 := by
  have hle : c.toNat ≤ '9'.toNat := by
    simp only [Char.isDigit, Bool.and_eq_true, decide_eq_true_eq] at h
    exact UInt32.le_iff_toNat_le.1 h.2
  have h0 : '0'.toNat = 48 := rfl
  have h9 : '9'.toNat = 57 := rfl
  omega

theorem digit_inj (hc : c.isDigit) (hd : d.isDigit)
    (h : c.toNat - '0'.toNat = d.toNat - '0'.toNat) : c = d := by
  have hle : ∀ {e : Char}, e.isDigit → '0'.toNat ≤ e.toNat := fun he => by
    simp only [Char.isDigit, Bool.and_eq_true, decide_eq_true_eq] at he
    exact UInt32.le_iff_toNat_le.1 he.1
  have hc' := hle hc
  have hd' := hle hd
  exact Char.toNat_inj.1 (by omega)

theorem digitsValue_append_singleton (digits : List Char) (c : Char) :
    digitsValue (digits ++ [c]) = 10 * digitsValue digits + (c.toNat - '0'.toNat) := by
  simp [digitsValue]

theorem digitsValue_trimLeft (digits : List Char) :
    digitsValue (trimLeft digits) = digitsValue digits := by
  unfold trimLeft
  induction digits with
  | nil => rfl
  | cons c digits ih =>
    rw [dropWhile_cons]
    split_ifs with h
    · rw [ih, eq_of_beq h]
      rfl
    · rfl

theorem digitsValue_trimRight (digits : List Char) : digitsValue digits =
    digitsValue (trimRight digits) * 10 ^ (digits.length - (trimRight digits).length) := by
  unfold trimRight
  induction digits using reverseRecOn with
  | nil => rfl
  | append_singleton digits c ih =>
    by_cases h : c = '0'
    · have hle := ( rdropWhile_prefix (· == '0') digits).length_le
      rw [rdropWhile_concat_pos _ _ _ (by simpa using h), digitsValue_append_singleton, ih, h,
        length_append, length_singleton, Nat.succ_sub hle, pow_succ]
      have h0 : '0'.toNat - '0'.toNat = 0 := rfl
      rw [h0]
      ring
    · rw [rdropWhile_concat_neg _ _ _ (by simpa using h), Nat.sub_self, pow_zero, mul_one]

theorem digitsValue_pos (h : digits ≠ []) (hall : ∀ c ∈ digits, c.isDigit)
    (hhead : digits.head? ≠ some '0') : 0 < digitsValue digits := by
  induction digits using reverseRecOn with
  | nil => exact absurd rfl h
  | append_singleton digits c ih =>
    rw [digitsValue_append_singleton]
    rcases digits with _ | ⟨e, digits⟩
    · by_contra hzero
      refine hhead (congrArg some (digit_inj (hall c (by simp)) (by decide) ?_))
      have h0 : '0'.toNat - '0'.toNat = 0 := rfl
      omega
    · have hpos := ih (by simp) (fun c hc => hall c (mem_append_left _ hc)) hhead
      omega

theorem digitsValue_inj (ha : ∀ c ∈ a, c.isDigit) (hb : ∀ c ∈ b, c.isDigit)
    (hheada : a.head? ≠ some '0') (hheadb : b.head? ≠ some '0')
    (h : digitsValue a = digitsValue b) : a = b := by
  induction a using reverseRecOn generalizing b with
  | nil =>
    by_contra hne
    have := digitsValue_pos (Ne.symm hne) hb hheadb
    have hzero : digitsValue [] = 0 := rfl
    omega
  | append_singleton a c ih =>
    rcases b.eq_nil_or_concat' with rfl | ⟨b, d, rfl⟩
    · have := digitsValue_pos (by simp) ha hheada
      have hzero : digitsValue [] = 0 := rfl
      omega
    · rw [digitsValue_append_singleton, digitsValue_append_singleton] at h
      have hc := ha c (by simp)
      have hd := hb d (by simp)
      have hcd := digit_lt hc
      have hdd := digit_lt hd
      have hhead : ∀ {l : List Char} {e : Char}, (l ++ [e]).head? ≠ some '0' →
          l.head? ≠ some '0' := fun {l e} hl => by
        cases l
        · simp
        · simpa using hl
      rw [digit_inj hc hd (by omega), ih (fun e he => ha e (mem_append_left _ he))
        (fun e he => hb e (mem_append_left _ he)) (hhead hheada) (hhead hheadb) (by omega)]

end Digits

namespace DecimalNumber

def value (d : DecimalNumber) : ℚ :=
  (if d.negative then -1 else 1) * (digitsValue d.coefficient * 10 ^ d.exponent)

structure Normal (d : DecimalNumber) : Prop where
  digits : ∀ c ∈ d.coefficient, c.isDigit
  zero : d.zero ↔ d.coefficient = []
  head : d.coefficient.head? ≠ some '0'
  last : d.coefficient.getLast? ≠ some '0'

variable {x y : DecimalNumber}

theorem Normal.pos (h : x.Normal) (hzero : x.zero = false) : 0 < digitsValue x.coefficient :=
  digitsValue_pos (fun hnil => by simp [h.zero.2 hnil] at hzero) h.digits h.head

theorem Normal.not_dvd (h : x.Normal) (hzero : x.zero = false) :
    ¬ 10 ∣ digitsValue x.coefficient := by
  rcases x.coefficient.eq_nil_or_concat' with hnil | ⟨digits, c, hlast⟩
  · simp [h.zero.2 hnil] at hzero
  · have hc := h.digits c (by simp [hlast])
    have hne : c.toNat - '0'.toNat ≠ '0'.toNat - '0'.toNat := fun heq =>
      h.last (by rw [hlast, digit_inj hc (by decide) heq, getLast?_concat])
    have hlt := digit_lt hc
    rw [hlast, digitsValue_append_singleton]
    omega

theorem value_eq_zero (h : x.Normal) : x.value = 0 ↔ x.zero := by
  unfold value
  constructor
  · intro hvalue
    by_contra hzero
    have hpos := h.pos (by simpa using hzero)
    have hsign : (if x.negative then (-1 : ℚ) else 1) ≠ 0 := by split_ifs <;> norm_num
    have hcoefficient : (digitsValue x.coefficient : ℚ) ≠ 0 := by positivity
    have hpower : (10 : ℚ) ^ x.exponent ≠ 0 := by positivity
    exact mul_ne_zero hsign (mul_ne_zero hcoefficient hpower) hvalue
  · intro hzero
    rw [h.zero.1 hzero]
    simp [digitsValue]

theorem scaled_inj {m n : ℕ} {i j : ℤ} (hm : ¬ 10 ∣ m) (hn : ¬ 10 ∣ n)
    (h : (m : ℚ) * 10 ^ i = n * 10 ^ j) : m = n ∧ i = j := by
  wlog hle : i ≤ j generalizing m n i j
  · obtain ⟨hmn, hij⟩ := this hn hm h.symm (le_of_not_ge hle)
    exact ⟨hmn.symm, hij.symm⟩
  · obtain ⟨k, rfl⟩ := Int.le.dest hle
    have hpower : (10 : ℚ) ^ i ≠ 0 := by positivity
    have hnat : m = n * 10 ^ k := by
      have hrat : (m : ℚ) * 10 ^ i = n * 10 ^ k * 10 ^ i := by
        rw [h, zpow_add₀ (by norm_num), zpow_natCast]
        ring
      exact_mod_cast mul_right_cancel₀ hpower hrat
    rcases k with _ | k
    · exact ⟨by simpa using hnat, by simp⟩
    · exact absurd ⟨n * 10 ^ k, by rw [hnat, pow_succ]; ring⟩ hm

theorem value_inj (hx : x.Normal) (hy : y.Normal) (hxzero : x.zero = false)
    (hyzero : y.zero = false) : x.value = y.value ↔
      x.negative = y.negative ∧ x.coefficient = y.coefficient ∧ x.exponent = y.exponent := by
  constructor
  · intro h
    have hx0 : (0 : ℚ) < digitsValue x.coefficient * 10 ^ x.exponent := by
      have := hx.pos hxzero
      positivity
    have hy0 : (0 : ℚ) < digitsValue y.coefficient * 10 ^ y.exponent := by
      have := hy.pos hyzero
      positivity
    unfold value at h
    have hsign : x.negative = y.negative := by
      by_contra hne
      rcases hxn : x.negative with _ | _ <;> rcases hyn : y.negative with _ | _ <;>
        simp only [hxn, hyn, reduceCtorEq, if_true, if_false, not_true, Bool.false_eq_true] at h hne <;>
        linarith
    rw [hsign] at h
    have hunit : (if y.negative then (-1 : ℚ) else 1) ≠ 0 := by split_ifs <;> norm_num
    obtain ⟨hvalue, hexponent⟩ := scaled_inj (hx.not_dvd hxzero) (hy.not_dvd hyzero)
      (mul_left_cancel₀ hunit h)
    exact ⟨hsign, digitsValue_inj hx.digits hy.digits hx.head hy.head hvalue, hexponent⟩
  · rintro ⟨hsign, hcoefficient, hexponent⟩
    rw [value, value, hsign, hcoefficient, hexponent]

theorem value_eq_int (h : x.Normal) (hzero : x.zero = false) :
    (∃ z : ℤ, x.value = z) ↔ 0 ≤ x.exponent := by
  constructor
  · rintro ⟨z, hz⟩
    by_contra hneg
    have hpos := h.pos hzero
    -- the absolute value is whole too, and a multiple of ten times the power
    have habs : (digitsValue x.coefficient : ℚ) * 10 ^ x.exponent = z.natAbs := by
      have hpos' : (0 : ℚ) < digitsValue x.coefficient * 10 ^ x.exponent := by positivity
      rw [Nat.cast_natAbs, Int.cast_abs, ← hz, value, abs_mul, abs_of_pos hpos']
      split_ifs <;> simp
    obtain ⟨k, hk⟩ : ∃ k : ℕ, x.exponent = -(k + 1 : ℕ) := ⟨(-x.exponent).toNat - 1, by omega⟩
    have hnat : digitsValue x.coefficient = z.natAbs * 10 ^ (k + 1) := by
      have hpower : (10 : ℚ) ^ (k + 1) ≠ 0 := by positivity
      have hrat : (digitsValue x.coefficient : ℚ) = z.natAbs * 10 ^ (k + 1) := by
        rw [← habs, hk, zpow_neg, zpow_natCast, mul_assoc, inv_mul_cancel₀ hpower, mul_one]
      exact_mod_cast hrat
    exact h.not_dvd hzero ⟨z.natAbs * 10 ^ k, by rw [hnat, pow_succ]; ring⟩
  · intro hle
    obtain ⟨k, hk⟩ := Int.eq_ofNat_of_zero_le hle
    refine ⟨(if x.negative then -1 else 1) * (digitsValue x.coefficient * 10 ^ k), ?_⟩
    rw [value, hk, zpow_natCast]
    push_cast
    rfl

end DecimalNumber

/-! ### Reading -/

section Reading

variable {number text mantissa integer fraction point scale : List Char} {e : ℤ} {negative : Bool}

theorem span_eq_iff {α : Type} {p : α → Bool} {l a b : List α} :
    l.span p = (a, b) ↔ l = a ++ b ∧ (∀ x ∈ a, p x) ∧ ∀ x ∈ b.head?, ¬ p x := by
  rw [span_eq_takeWhile_dropWhile, Prod.mk.injEq]
  constructor
  · rintro ⟨rfl, rfl⟩
    refine ⟨takeWhile_append_dropWhile.symm, fun x hx => mem_takeWhile_imp hx,
      fun x hx => ?_⟩
    have := head?_dropWhile_not p l
    rw [Option.mem_def.1 hx] at this
    simpa using this
  · rintro ⟨rfl, ha, hb⟩
    have hdrop : b.takeWhile p = [] ∧ b.dropWhile p = b := by
      cases b with
      | nil => exact ⟨rfl, rfl⟩
      | cons x b =>
        have hx : p x = false := by simpa using hb x rfl
        exact ⟨by rw [takeWhile_cons, hx]; rfl, by rw [dropWhile_cons, hx]; rfl⟩
    rw [takeWhile_append_of_pos ha, dropWhile_append_of_pos ha, hdrop.1, hdrop.2,
      append_nil]
    exact ⟨rfl, rfl⟩

theorem isDigits_iff {digits : List Char} :
    (digits ≠ [] ∧ digits.all Char.isDigit) ↔ IsDigits digits := by
  rw [IsDigits, all_eq_true]

theorem setString_eq_some : setString text = some e ↔
    (IsDigits text ∧ e = digitsValue text) ∨
    (∃ digits, text = '+' :: digits ∧ IsDigits digits ∧ e = digitsValue digits) ∨
      ∃ digits, text = '-' :: digits ∧ IsDigits digits ∧ e = -digitsValue digits := by
  have hsign : ∀ {c : Char} {digits : List Char}, ¬ c.isDigit → ¬ IsDigits (c :: digits) :=
    fun hc h => hc (h.2 _ mem_cons_self)
  unfold setString
  split
  · have hminus := @hsign '-'
    split_ifs with h <;> rw [isDigits_iff] at h <;> simp [h, hminus, eq_comm]
  · have hplus := @hsign '+'
    split_ifs with h <;> rw [isDigits_iff] at h <;> simp [h, hplus, eq_comm]
  · rename_i hminus hplus
    split_ifs with h <;> rw [isDigits_iff] at h
    · simp only [h, Option.some.injEq, true_and]
      exact ⟨fun heq => .inl heq.symm, fun hcases => by
        rcases hcases with heq | ⟨digits, rfl, -⟩ | ⟨digits, rfl, -⟩
        · exact heq.symm
        · exact absurd rfl (hplus digits)
        · exact absurd rfl (hminus digits)⟩
    · simp only [h, false_and, false_or, false_iff, not_or]
      exact ⟨fun ⟨digits, heq, _⟩ => hplus digits heq, fun ⟨digits, heq, _⟩ => hminus digits heq⟩

theorem isExponentMark_iff {c : Char} : isExponentMark c ↔ c = 'e' ∨ c = 'E' := by
  simp [isExponentMark]

theorem exponentPart_cons {mark : Char} :
    ExponentPart (mark :: text) e ↔ isExponentMark mark ∧ setString text = some e := by
  rw [setString_eq_some, isExponentMark_iff]
  constructor
  · intro h
    cases h with
    | bare hmark hdigits => exact ⟨hmark, .inl ⟨hdigits, rfl⟩⟩
    | plus hmark hdigits => exact ⟨hmark, .inr (.inl ⟨_, rfl, hdigits, rfl⟩)⟩
    | minus hmark hdigits => exact ⟨hmark, .inr (.inr ⟨_, rfl, hdigits, rfl⟩)⟩
  · rintro ⟨hmark, ⟨hdigits, rfl⟩ | ⟨digits, rfl, hdigits, rfl⟩ | ⟨digits, rfl, hdigits, rfl⟩⟩
    · exact .bare hmark hdigits
    · exact .plus hmark hdigits
    · exact .minus hmark hdigits

theorem not_mark_of_digit {c : Char} (h : c.isDigit) : ¬ isExponentMark c := by
  rw [isExponentMark_iff]
  rintro (rfl | rfl) <;> exact absurd h (by decide)

theorem not_any_mark_of_setString (h : setString text = some e) : text.any isExponentMark = false := by
  rw [any_eq_false]
  have hall : ∀ {digits : List Char}, IsDigits digits → ∀ c ∈ digits, ¬ isExponentMark c :=
    fun hdigits c hc => not_mark_of_digit (hdigits.2 c hc)
  rcases setString_eq_some.1 h with ⟨hdigits, -⟩ | ⟨digits, rfl, hdigits, -⟩ |
    ⟨digits, rfl, hdigits, -⟩
  · exact hall hdigits
  · exact forall_mem_cons.2 ⟨by decide, hall hdigits⟩
  · exact forall_mem_cons.2 ⟨by decide, hall hdigits⟩

theorem splitExponent_eq_some : splitExponent number = some (mantissa, e) ↔
    (∀ c ∈ mantissa, ¬ isExponentMark c) ∧
      ∃ scale, number = mantissa ++ scale ∧ ExponentPart scale e := by
  unfold splitExponent
  constructor
  · intro h
    rcases hspan : number.span fun c => !isExponentMark c with ⟨m, _ | ⟨mark, exponentText⟩⟩ <;>
      rw [hspan] at h <;> obtain ⟨rfl, hm, hmark⟩ := span_eq_iff.1 hspan
    · cases h
      exact ⟨fun c hc => by simpa using hm c hc, [], rfl, .absent⟩
    · dsimp only at h
      split_ifs at h
      obtain ⟨exponent, hexponent, heq⟩ := Option.map_eq_some_iff.1 h
      cases heq
      exact ⟨fun c hc => by simpa using hm c hc, mark :: exponentText, rfl,
        exponentPart_cons.2 ⟨by simpa using hmark mark rfl, hexponent⟩⟩
  · rintro ⟨hm, scale, rfl, hscale⟩
    rcases scale with _ | ⟨mark, exponentText⟩
    · cases hscale
      rw [span_eq_iff.2 ⟨rfl, fun c hc => by simpa using hm c hc, by simp⟩]
    · obtain ⟨hmark, hexponent⟩ := exponentPart_cons.1 hscale
      rw [span_eq_iff.2 ⟨rfl, fun c hc => by simpa using hm c hc, by simpa using hmark⟩]
      dsimp only
      rw [not_any_mark_of_setString hexponent, if_neg (by simp), hexponent]
      rfl

theorem splitPoint_eq_some : splitPoint mantissa = some (integer, fraction) ↔
    '.' ∉ integer ∧ '.' ∉ fraction ∧ (mantissa = integer ∧ fraction = [] ∨
      mantissa = integer ++ '.' :: fraction) := by
  have hpoint : ∀ {l : List Char}, '.' ∉ l → ∀ c ∈ l, !(c == '.') := fun hl c hc => by
    rw [Bool.not_eq_true', beq_eq_false_iff_ne]
    rintro rfl
    exact hl hc
  unfold splitPoint
  constructor
  · intro h
    rcases hspan : mantissa.span fun c => !(c == '.') with ⟨i, _ | ⟨mark, f⟩⟩ <;>
      rw [hspan] at h <;> obtain ⟨rfl, hi, hmark⟩ := span_eq_iff.1 hspan
    · cases h
      exact ⟨fun hmem => by simpa using hi _ hmem, by simp, .inl ⟨by simp, rfl⟩⟩
    · dsimp only at h
      split_ifs at h with hcontains
      cases h
      obtain rfl : mark = '.' := by simpa using hmark mark rfl
      exact ⟨fun hmem => by simpa using hi _ hmem, by simpa using hcontains, .inr rfl⟩
  · rintro ⟨hi, hf, ⟨rfl, rfl⟩ | rfl⟩
    · rw [span_eq_iff.2 ⟨(append_nil _).symm, hpoint hi, by simp⟩]
    · rw [span_eq_iff.2 ⟨rfl, hpoint hi, by simp⟩]
      dsimp only
      rw [if_neg (by simpa using hf)]

theorem normalize_normal (h : ∀ c ∈ integer ++ fraction, c.isDigit) :
    (normalize negative integer fraction e).Normal := by
  unfold normalize
  dsimp only
  split_ifs with hnil
  · exact ⟨by simp, by simp, by simp, by simp⟩
  · have hall : ∀ c ∈ trimLeft (integer ++ fraction), c.isDigit := fun c hc =>
      h c (dropWhile_sublist _ |>.subset hc)
    have hhead : (trimLeft (integer ++ fraction)).head? ≠ some '0' := fun heq => by
      have := head?_dropWhile_not (· == '0') (integer ++ fraction)
      rw [show (integer ++ fraction).dropWhile (· == '0') = trimLeft (integer ++ fraction) from rfl,
        heq] at this
      simp at this
    generalize trimLeft (integer ++ fraction) = digits at hnil hall hhead
    have htrimmed : trimRight digits <+: digits := rdropWhile_prefix _ digits
    have hne : trimRight digits ≠ [] := fun htrim => by
      have hzeros := rdropWhile_eq_nil_iff.1 htrim
      rcases digits with _ | ⟨c, digits⟩
      · exact hnil rfl
      · exact hhead (by simpa using hzeros c mem_cons_self)
    refine ⟨fun c hc => hall c (htrimmed.subset hc), by simpa using hne, fun heq => hhead ?_, fun heq => ?_⟩
    · obtain ⟨rest, hrest⟩ := htrimmed
      rw [← hrest, head?_append_of_ne_nil _ hne]
      exact heq
    · have hlast := rdropWhile_last_not (· == '0') digits hne
      have hget : (trimRight digits).getLast hne = '0' := by
        rw [getLast?_eq_some_getLast hne] at heq
        exact Option.some.inj heq
      exact hlast (by simpa [trimRight] using hget)

theorem normalize_value : (normalize negative integer fraction e).value =
    (if negative then -1 else 1) *
      (digitsValue (integer ++ fraction) * 10 ^ (e - fraction.length)) := by
  have hvalue : (digitsValue (integer ++ fraction) : ℚ) =
      digitsValue (trimLeft (integer ++ fraction)) := by rw [digitsValue_trimLeft]
  unfold normalize DecimalNumber.value
  dsimp only
  rw [hvalue]
  by_cases hnil : trimLeft (integer ++ fraction) = []
  · rw [if_pos hnil, hnil]
    simp [digitsValue]
  · rw [if_neg hnil]
    generalize trimLeft (integer ++ fraction) = digits
    dsimp only
    have htrailing := digitsValue_trimRight digits
    generalize digits.length - (trimRight digits).length = trailing at htrailing
    rw [htrailing, zpow_add₀ (by norm_num), zpow_natCast]
    push_cast
    ring

theorem parseUnsigned_eq_some {d : DecimalNumber} : parseUnsigned negative number = some d ↔
    ∃ integer point fraction scale e, IsDigits integer ∧ FractionPart point fraction ∧
      ExponentPart scale e ∧ number = integer ++ point ++ scale ∧
        d = normalize negative integer fraction e := by
  unfold parseUnsigned
  constructor
  · intro h
    split at h
    · cases h
    · rename_i mantissa e hexponent
      split at h
      · cases h
      · rename_i integer fraction hpoint
        split_ifs at h with hdigits
        cases h
        rw [not_or, Bool.not_eq_true', Bool.not_eq_false, all_append, Bool.and_eq_true,
          all_eq_true, all_eq_true] at hdigits
        obtain ⟨-, scale, rfl, hscale⟩ := splitExponent_eq_some.1 hexponent
        obtain ⟨-, -, ⟨rfl, rfl⟩ | rfl⟩ := splitPoint_eq_some.1 hpoint
        · exact ⟨mantissa, [], [], scale, e, ⟨hdigits.1, hdigits.2.1⟩, .absent, hscale, by simp, rfl⟩
        · exact ⟨integer, '.' :: fraction, fraction, scale, e, ⟨hdigits.1, hdigits.2.1⟩,
            .present hdigits.2.2, hscale, rfl, rfl⟩
  · rintro ⟨integer, point, fraction, scale, e, hinteger, hpoint, hscale, rfl, rfl⟩
    have hfraction : (∀ c ∈ fraction, c.isDigit) ∧ (integer ++ point = integer ∧ fraction = [] ∨
        integer ++ point = integer ++ '.' :: fraction) := by
      cases hpoint with
      | absent => exact ⟨by simp, .inl ⟨by simp, rfl⟩⟩
      | present hdigits => exact ⟨hdigits, .inr rfl⟩
    have hpointless : ∀ {l : List Char}, (∀ c ∈ l, c.isDigit) → '.' ∉ l := fun hl hmem =>
      absurd (hl _ hmem) (by decide)
    have hmantissa : splitPoint (integer ++ point) = some (integer, fraction) :=
      splitPoint_eq_some.2 ⟨hpointless hinteger.2, hpointless hfraction.1, hfraction.2⟩
    have hmarks : ∀ c ∈ integer ++ point, ¬ isExponentMark c := by
      intro c hc
      rcases mem_append.1 hc with hc | hc
      · exact not_mark_of_digit (hinteger.2 c hc)
      · cases hpoint with
        | absent => cases hc
        | present hdigits =>
          rcases mem_cons.1 hc with rfl | hc
          · decide
          · exact not_mark_of_digit (hdigits c hc)
    rw [splitExponent_eq_some.2 ⟨hmarks, scale, rfl, hscale⟩]
    dsimp only
    rw [hmantissa]
    dsimp only
    rw [if_neg]
    rw [not_or, Bool.not_eq_true', Bool.not_eq_false, all_append, Bool.and_eq_true,
      all_eq_true, all_eq_true]
    exact ⟨hinteger.1, hinteger.2, hfraction.1⟩

theorem denotes_iff {text : String} {q : ℚ} : Denotes text q ↔
    ∃ d, parseDecimalNumber text = some d ∧ d.value = q := by
  have hsign : ∀ {number : List Char} {q : ℚ}, Magnitude number q → ∀ rest, number ≠ '-' :: rest := by
    rintro _ _ ⟨hinteger, -, -⟩ rest heq
    rename_i integer _ _ _ _
    rcases integer with _ | ⟨c, integer⟩
    · exact hinteger.1 rfl
    · obtain rfl := (List.cons.inj heq).1
      exact absurd (hinteger.2 _ mem_cons_self) (by decide)
  have hunsigned : ∀ (negative : Bool) (number : List Char) (q : ℚ),
      (∃ d, parseUnsigned negative number = some d ∧ d.value = q) ↔
        ∃ r, Magnitude number r ∧ q = (if negative then -1 else 1) * r := by
    intro negative number q
    constructor
    · rintro ⟨d, hd, rfl⟩
      obtain ⟨integer, point, fraction, scale, e, hinteger, hpoint, hscale, rfl, rfl⟩ :=
        parseUnsigned_eq_some.1 hd
      exact ⟨_, .mk hinteger hpoint hscale, normalize_value⟩
    · rintro ⟨r, ⟨hinteger, hpoint, hscale⟩, rfl⟩
      exact ⟨_, parseUnsigned_eq_some.2 ⟨_, _, _, _, _, hinteger, hpoint, hscale, rfl, rfl⟩,
        normalize_value⟩
  unfold parseDecimalNumber
  split
  · rename_i number heq
    rw [hunsigned]
    constructor
    · intro h
      cases h with
      | plain h => exact absurd heq (hsign h number)
      | negated htext h =>
        cases heq.symm.trans htext
        exact ⟨_, h, by simp⟩
    · rintro ⟨r, hr, rfl⟩
      rw [if_pos rfl, neg_one_mul]
      exact .negated heq hr
  · rename_i hne
    rw [hunsigned]
    constructor
    · intro h
      cases h with
      | plain h => exact ⟨_, h, by simp⟩
      | negated htext h => exact absurd htext (hne _)
    · rintro ⟨r, hr, rfl⟩
      rw [if_neg (by simp), one_mul]
      exact .plain hr

theorem parse_normal {text : String} {d : DecimalNumber} (h : parseDecimalNumber text = some d) :
    d.Normal := by
  have hunsigned : ∀ {negative : Bool} {number : List Char}, parseUnsigned negative number = some d →
      d.Normal := fun h => by
    obtain ⟨integer, point, fraction, scale, e, hinteger, hpoint, -, -, rfl⟩ :=
      parseUnsigned_eq_some.1 h
    refine normalize_normal fun c hc => ?_
    rcases mem_append.1 hc with hc | hc
    · exact hinteger.2 c hc
    · cases hpoint with
      | absent => cases hc
      | present hdigits => exact hdigits c hc
  unfold parseDecimalNumber at h
  split at h
  · exact hunsigned h
  · exact hunsigned h

theorem numberEqual_iff {a b : String} : numberEqual a b ↔ ∃ q, Denotes a q ∧ Denotes b q := by
  have hsame : (∃ q, Denotes a q ∧ Denotes b q) ↔ ∃ x y, parseDecimalNumber a = some x ∧
      parseDecimalNumber b = some y ∧ x.value = y.value := by
    simp only [denotes_iff]
    constructor
    · rintro ⟨q, ⟨x, hx, hxq⟩, y, hy, hyq⟩
      exact ⟨x, y, hx, hy, hxq.trans hyq.symm⟩
    · rintro ⟨x, y, hx, hy, h⟩
      exact ⟨y.value, ⟨x, hx, h⟩, y, hy, rfl⟩
  rw [hsame, numberEqual]
  rcases ha : parseDecimalNumber a with _ | x
  · simp
  rcases hb : parseDecimalNumber b with _ | y
  · simp
  have hx := parse_normal ha
  have hy := parse_normal hb
  simp only [Option.some.injEq, exists_and_left, exists_eq_left']
  by_cases hzero : x.zero ∨ y.zero
  · rw [if_pos (by simpa using hzero), Bool.and_eq_true, ← DecimalNumber.value_eq_zero hx,
      ← DecimalNumber.value_eq_zero hy]
    rw [← DecimalNumber.value_eq_zero hx, ← DecimalNumber.value_eq_zero hy] at hzero
    rcases hzero with hzero | hzero <;> rw [hzero] <;> simp [eq_comm]
  · rw [not_or, Bool.not_eq_true, Bool.not_eq_true] at hzero
    rw [if_neg (by simp [hzero]), decide_eq_true_eq,
      DecimalNumber.value_inj hx hy hzero.1 hzero.2]

theorem NumberIsInteger_iff {text : String} : NumberIsInteger text ↔ ∃ z : ℤ, Denotes text z := by
  simp only [denotes_iff]
  unfold NumberIsInteger
  rcases htext : parseDecimalNumber text with _ | d
  · simp
  have hd := parse_normal htext
  simp only [Option.some.injEq, exists_eq_left']
  rcases hzero : d.zero with _ | _
  · rw [Bool.false_or, decide_eq_true_eq, DecimalNumber.value_eq_int hd hzero]
  · exact iff_of_true rfl ⟨0, by simpa using (DecimalNumber.value_eq_zero hd).2 hzero⟩

end Reading

end StrictJson

end AiOrg
