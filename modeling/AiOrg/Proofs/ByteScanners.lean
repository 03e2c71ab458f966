import AiOrg.FlatReview.Encode
import AiOrg.Json.Grammar
import AiOrg.Stream.CheckStream

/-!
# Byte scanners on JSON

Two loops go over the bytes of a JSON text with no more than a few flags: one looks for unpaired surrogates in
escapes, the other bounds the nesting of containers. Each part of a text leaves the flags as they were, so both agree
with the grammar (`validUnicodeEscapes_iff`, `jsonDepthExceeds_iff`).
-/

namespace AiOrg

open List

namespace JsonGrammar

/-! ### Paired surrogates -/

/-- An escape of a high surrogate stands at an index. -/
def HighAt (literal : List Item) (i : ℕ) : Prop := ∃ item, literal[i]? = some item ∧ item.isHigh

/-- An escape of a low surrogate stands at an index. -/
def LowAt (literal : List Item) (i : ℕ) : Prop := ∃ item, literal[i]? = some item ∧ item.isLow

/-- After each high surrogate comes a low one, and a low one stands nowhere else. -/
structure Paired (literal : List Item) : Prop where
  followed : ∀ i, HighAt literal i → LowAt literal (i + 1)
  preceded : ∀ i, LowAt literal i → ∃ j, i = j + 1 ∧ HighAt literal j

section Paired

variable {item : Item} {items : List Item}

theorem highAt_zero : HighAt (item :: items) 0 ↔ item.isHigh := by simp [HighAt]

theorem lowAt_zero : LowAt (item :: items) 0 ↔ item.isLow := by simp [LowAt]

theorem paired_iff : Paired items ↔ ¬ LowAt items 0 ∧ ∀ i, HighAt items i ↔ LowAt items (i + 1) := by
  constructor
  · rintro ⟨hfollowed, hpreceded⟩
    refine ⟨fun hlow => ?_, fun i => ⟨hfollowed i, fun hlow => ?_⟩⟩
    · obtain ⟨j, hj, -⟩ := hpreceded 0 hlow
      omega
    · obtain ⟨j, hj, hhigh⟩ := hpreceded (i + 1) hlow
      obtain rfl : i = j := by omega
      exact hhigh
  · rintro ⟨hzero, hiff⟩
    refine ⟨fun i => (hiff i).1, fun i hlow => ?_⟩
    rcases i with _ | i
    · exact absurd hlow hzero
    · exact ⟨i, rfl, (hiff i).2 hlow⟩

theorem paired_cons : Paired (item :: items) ↔ ¬ item.isLow ∧ (item.isHigh ↔ LowAt items 0) ∧
    ∀ i, HighAt items i ↔ LowAt items (i + 1) := by
  rw [paired_iff, lowAt_zero]
  refine and_congr_right fun _ => ⟨fun h => ⟨?_, fun i => h (i + 1)⟩, fun h i => ?_⟩
  · rw [← @highAt_zero _ items]
    exact h 0
  · rcases i with _ | i
    · rw [highAt_zero]
      exact h.1
    · exact h.2 i

theorem isLow_of_isHigh (h : item.isHigh) : ¬ item.isLow := by
  unfold Item.isHigh at h
  unfold Item.isLow
  rcases hcode : item.code with _ | code
  · simp
  · rw [hcode] at h
    simp only [Option.any_some, Bool.and_eq_true, decide_eq_true_eq] at h ⊢
    omega

theorem paired_cons_neither (hhigh : ¬ item.isHigh) (hlow : ¬ item.isLow) :
    Paired (item :: items) ↔ Paired items := by
  rw [paired_cons, paired_iff]
  simp [hhigh, hlow]

theorem paired_cons_cons {low : Item} (hhigh : item.isHigh) (hlow : low.isLow) :
    Paired (item :: low :: items) ↔ Paired items := by
  have hnot : ¬ low.isHigh := fun h => isLow_of_isHigh h hlow
  rw [paired_cons, lowAt_zero, paired_iff]
  simp only [hhigh, hlow, isLow_of_isHigh hhigh, Bool.false_eq_true, not_false_eq_true, true_and]
  constructor
  · intro h
    exact ⟨fun hzero => hnot (highAt_zero.1 ((h 0).2 hzero)), fun i => h (i + 1)⟩
  · rintro ⟨hzero, h⟩ (_ | i)
    · rw [highAt_zero]
      exact ⟨fun hhigh => absurd hhigh hnot, fun hlow => absurd hlow hzero⟩
    · exact h i

end Paired

end JsonGrammar

namespace FlatReview

open JsonGrammar

theorem hexDigitValue_byte (digit : HexDigit) : hexDigitValue digit.byte = some digit.value.val := by
  obtain ⟨value, upper⟩ := digit
  revert value upper
  decide

/-- The code unit of four digits. -/
theorem hexCodeUnit_digits (a b c d : HexDigit) (tail : List UInt8) :
    hexCodeUnit (a.byte :: b.byte :: c.byte :: d.byte :: tail) = (Item.unit a b c d).code := by
  simp [hexCodeUnit, hexDigitValue_byte, Item.code]

theorem validEscapesFrom_neutral {bytes : List UInt8} (h : ∀ b ∈ bytes, Neutral b)
    (rest : List UInt8) : validEscapesFrom (bytes ++ rest) 0 false = validEscapesFrom rest 0 false := by
  induction bytes with
  | nil => rfl
  | cons b bytes ih =>
    obtain ⟨hb, hbytes⟩ := forall_mem_cons.1 h
    have hquote : (b == 0x22) = false := beq_eq_false_iff_ne.2 hb.ne_quote
    rw [cons_append, validEscapesFrom, hquote]
    exact ih hbytes

section Literals

variable {items : List Item} {rest : List UInt8}

theorem lowSurrogateNext_items :
    lowSurrogateNext (items.flatMap Item.bytes ++ 0x22 :: rest) = true ↔ LowAt items 0 := by
  rcases items with _ | ⟨item, items⟩
  · simp [lowSurrogateNext, LowAt]
  rw [lowAt_zero, flatMap_cons, append_assoc]
  cases item with
  | plain b h =>
    simp [Item.bytes, Item.isLow, Item.code, lowSurrogateNext, h.2.2]
  | letter b h =>
    have hb : b ≠ 0x75 := by
      rintro rfl
      simp [escapeLetters] at h
    simp [Item.bytes, Item.isLow, Item.code, lowSurrogateNext, hb]
  | unit a b c d =>
    simp [Item.bytes, lowSurrogateNext, hexCodeUnit_digits, Item.isLow, Item.code]

theorem validEscapesFrom_plain {b : UInt8} (h : IsPlain b) :
    validEscapesFrom (b :: rest) 0 true = validEscapesFrom rest 0 true := by
  rw [validEscapesFrom.eq_def]
  dsimp only
  rw [if_neg, if_pos h.2.2]
  intro hquote
  exact h.2.1 hquote

theorem validEscapesFrom_letter {b : UInt8} (h : b ∈ escapeLetters) :
    validEscapesFrom (0x5c :: b :: rest) 0 true = validEscapesFrom rest 0 true := by
  simp only [escapeLetters, mem_cons, not_mem_nil, or_false] at h
  rcases h with rfl | rfl | rfl | rfl | rfl | rfl | rfl | rfl <;> rfl

/-- What the loop does at an escape by four digits. -/
theorem validEscapesFrom_unit (a b c d : HexDigit) :
    validEscapesFrom ((Item.unit a b c d).bytes ++ rest) 0 true =
      if (Item.unit a b c d).isHigh then lowSurrogateNext rest && validEscapesFrom rest 6 true
      else if (Item.unit a b c d).isLow then false
      else validEscapesFrom rest 0 true := by
  show validEscapesFrom (0x5c :: 0x75 :: a.byte :: b.byte :: c.byte :: d.byte :: rest) 0 true = _
  rw [validEscapesFrom, if_neg (by decide), if_neg (by decide)]
  simp only [hexCodeUnit_digits]
  simp [validEscapesFrom, Item.isHigh, Item.isLow, Item.code]

/-- Inside a literal, where the closing quote comes after the items. -/
theorem validEscapesFrom_items (rest : List UInt8) : ∀ items : List Item,
    validEscapesFrom (items.flatMap Item.bytes ++ 0x22 :: rest) 0 true = true ↔
      Paired items ∧ validEscapesFrom rest 0 false = true
  | [] => by
    have hpaired : Paired [] := ⟨by simp [HighAt], by simp [LowAt]⟩
    rw [and_iff_right hpaired]
    rfl
  | .plain b h :: items => by
    rw [paired_cons_neither (by simp [Item.isHigh, Item.code]) (by simp [Item.isLow, Item.code]),
      ← validEscapesFrom_items rest items]
    exact iff_of_eq (congrArg (· = true) (validEscapesFrom_plain h))
  | .letter b h :: items => by
    rw [paired_cons_neither (by simp [Item.isHigh, Item.code]) (by simp [Item.isLow, Item.code]),
      ← validEscapesFrom_items rest items]
    exact iff_of_eq (congrArg (· = true) (validEscapesFrom_letter h))
  | .unit a b c d :: items => by
    rw [flatMap_cons, append_assoc, validEscapesFrom_unit]
    by_cases hhigh : (Item.unit a b c d).isHigh
    · rw [if_pos hhigh, Bool.and_eq_true, lowSurrogateNext_items]
      rcases items with _ | ⟨low, items⟩
      · simp [LowAt, paired_cons, hhigh]
      by_cases hlow : low.isLow
      · rw [lowAt_zero, paired_cons_cons hhigh hlow, ← validEscapesFrom_items rest items,
          and_iff_right hlow]
        cases low with
        | plain b h => simp [Item.isLow, Item.code] at hlow
        | letter b h => simp [Item.isLow, Item.code] at hlow
        | unit a b c d => rfl
      · simp [lowAt_zero, paired_cons, hhigh, hlow]
    · rw [if_neg hhigh]
      by_cases hlow : (Item.unit a b c d).isLow
      · simp [paired_cons, hlow]
      · rw [if_neg hlow, paired_cons_neither hhigh hlow]
        exact validEscapesFrom_items rest items

end Literals

/-- The loop passes a part of a text if its literals are paired. -/
theorem validEscapesFrom_derives {part : Part} {text : List UInt8} {nesting : ℕ}
    {literals : List (List Item)} (h : JsonGrammar.Derives part text nesting literals) :
    ∀ rest, validEscapesFrom (text ++ rest) 0 false = true ↔
      (∀ literal ∈ literals, Paired literal) ∧ validEscapesFrom rest 0 false = true := by
  have hbyte : ∀ {b : UInt8} (rest : List UInt8), b ≠ 0x22 →
      validEscapesFrom (b :: rest) 0 false = validEscapesFrom rest 0 false := fun rest hb => by
    rw [validEscapesFrom, beq_eq_false_iff_ne.2 hb]
  have hopening : ∀ object, opening object ≠ 0x22 := by decide
  have hclosing : ∀ object, closing object ≠ 0x22 := by decide
  have hquoted : ∀ (literal : List Item) (rest : List UInt8),
      validEscapesFrom (quoted literal ++ rest) 0 false = true ↔
        Paired literal ∧ validEscapesFrom rest 0 false = true := fun literal rest => by
    rw [← validEscapesFrom_items, quoted, cons_append, cons_append, append_assoc]
    rfl
  induction h with
  | word hword =>
    intro rest
    rw [validEscapesFrom_neutral hword.neutral]
    simp
  | string literal =>
    intro rest
    rw [hquoted]
    simp
  | empty object hspace =>
    intro rest
    rw [cons_append, cons_append, hbyte _ (hopening object), append_assoc,
      validEscapesFrom_neutral hspace.neutral, singleton_append, hbyte _ (hclosing object)]
    simp
  | @container object _ _ _ _ ih =>
    intro rest
    rw [cons_append, cons_append, hbyte _ (hopening object), append_assoc, ih,
      singleton_append, hbyte _ (hclosing object)]
  | padded hbefore hafter _ ih =>
    intro rest
    rw [append_assoc, validEscapesFrom_neutral hbefore.neutral, append_assoc, ih,
      validEscapesFrom_neutral hafter.neutral]
  | element _ ih => exact ih
  | member key hbefore hafter _ ih =>
    intro rest
    rw [append_assoc, validEscapesFrom_neutral hbefore.neutral, append_assoc, hquoted,
      append_assoc, validEscapesFrom_neutral hafter.neutral, cons_append,
      hbyte _ (by decide), ih, forall_mem_cons, and_assoc]
  | last _ ih => exact ih
  | more _ _ ih ihmore =>
    intro rest
    rw [append_assoc, ih, cons_append, hbyte _ (by decide), ihmore, forall_mem_append,
      and_assoc]

/-- The escapes of a JSON text are valid if in each of its literals the surrogates are paired. -/
theorem validUnicodeEscapes_iff {src : List UInt8} {nesting : ℕ} {literals : List (List Item)}
    (h : JsonGrammar.Derives .value src nesting literals) :
    validUnicodeEscapes src = true ↔ ∀ literal ∈ literals, Paired literal := by
  have hsrc := validEscapesFrom_derives h []
  rw [append_nil] at hsrc
  unfold validUnicodeEscapes
  rw [hsrc]
  simp [validEscapesFrom]

/-- `"\ud83d\ude00"`. -/
def smiley : List Item :=
  [.unit ⟨0xd, false⟩ ⟨8, false⟩ ⟨3, false⟩ ⟨0xd, false⟩, .unit ⟨0xd, false⟩ ⟨0xe, false⟩ ⟨0, false⟩ ⟨0, false⟩]

theorem validUnicodeEscapes_smiley :
    validUnicodeEscapes (quoted smiley) = true ↔ ∀ literal ∈ [smiley], Paired literal :=
  validUnicodeEscapes_iff (.string smiley)

end FlatReview

namespace CheckStream

open JsonGrammar

section Depth

variable {limit depth : ℕ}

theorem jsonDepthExceedsFrom_neutral {bytes : List UInt8} (h : ∀ b ∈ bytes, Neutral b)
    (rest : List UInt8) : jsonDepthExceedsFrom limit ⟨depth, false, false⟩ (bytes ++ rest) =
      jsonDepthExceedsFrom limit ⟨depth, false, false⟩ rest := by
  induction bytes with
  | nil => rfl
  | cons b bytes ih =>
    obtain ⟨hb, hbytes⟩ := forall_mem_cons.1 h
    simp only [Neutral, mem_cons, not_mem_nil, or_false, not_or] at hb
    rw [cons_append, jsonDepthExceedsFrom]
    simp only [hb, Bool.false_eq_true, if_false, or_self]
    exact ih hbytes

theorem jsonDepthExceedsFrom_byte (rest : List UInt8) {b : UInt8} (hquote : b ≠ 0x22) (hslash : b ≠ 0x5c) :
    jsonDepthExceedsFrom limit ⟨depth, true, false⟩ (b :: rest) =
      jsonDepthExceedsFrom limit ⟨depth, true, false⟩ rest := by
  rw [jsonDepthExceedsFrom]
  simp [hquote, hslash]

theorem hexDigit_byte_ne (digit : HexDigit) : digit.byte ≠ 0x22 ∧ digit.byte ≠ 0x5c := by
  obtain ⟨value, upper⟩ := digit
  revert value upper
  decide

/-- An item of a literal does not end the string. -/
theorem jsonDepthExceedsFrom_item (item : Item) (rest : List UInt8) :
    jsonDepthExceedsFrom limit ⟨depth, true, false⟩ (item.bytes ++ rest) =
      jsonDepthExceedsFrom limit ⟨depth, true, false⟩ rest := by
  cases item with
  | plain b h => exact jsonDepthExceedsFrom_byte rest h.2.1 h.2.2
  | letter b h => rfl
  | unit a b c d =>
    show jsonDepthExceedsFrom limit ⟨depth, true, false⟩
      (a.byte :: b.byte :: c.byte :: d.byte :: rest) = _
    simp only [jsonDepthExceedsFrom_byte _ (hexDigit_byte_ne _).1 (hexDigit_byte_ne _).2]

theorem jsonDepthExceedsFrom_quoted (literal : List Item) (rest : List UInt8) :
    jsonDepthExceedsFrom limit ⟨depth, false, false⟩ (quoted literal ++ rest) =
      jsonDepthExceedsFrom limit ⟨depth, false, false⟩ rest := by
  have hitems : jsonDepthExceedsFrom limit ⟨depth, true, false⟩
      (literal.flatMap Item.bytes ++ 0x22 :: rest) =
        jsonDepthExceedsFrom limit ⟨depth, false, false⟩ rest := by
    induction literal with
    | nil => rfl
    | cons item literal ih =>
      rw [flatMap_cons, append_assoc, jsonDepthExceedsFrom_item]
      exact ih
  rw [quoted, cons_append, cons_append, append_assoc]
  exact hitems

theorem jsonDepthExceedsFrom_opening (object : Bool) (rest : List UInt8) :
    jsonDepthExceedsFrom limit ⟨depth, false, false⟩ (opening object :: rest) =
      if limit < depth + 1 then true
      else jsonDepthExceedsFrom limit ⟨depth + 1, false, false⟩ rest := by
  cases object <;> rfl

theorem jsonDepthExceedsFrom_closing (object : Bool) (rest : List UInt8) :
    jsonDepthExceedsFrom limit ⟨depth + 1, false, false⟩ (closing object :: rest) =
      jsonDepthExceedsFrom limit ⟨depth, false, false⟩ rest := by
  cases object <;> rfl

end Depth

/-- A part of a text is too deep, or it leaves the scan as it was. -/
theorem jsonDepthExceedsFrom_derives {limit : ℕ} {part : Part} {text : List UInt8} {nesting : ℕ}
    {literals : List (List Item)} (h : JsonGrammar.Derives part text nesting literals) :
    ∀ depth rest, depth ≤ limit → (jsonDepthExceedsFrom limit ⟨depth, false, false⟩ (text ++ rest) = true ↔
      limit < depth + nesting ∨ jsonDepthExceedsFrom limit ⟨depth, false, false⟩ rest = true) := by
  induction h with
  | word hword =>
    intro depth rest hdepth
    rw [jsonDepthExceedsFrom_neutral hword.neutral, or_iff_right (by omega)]
  | string literal =>
    intro depth rest hdepth
    rw [jsonDepthExceedsFrom_quoted, or_iff_right (by omega)]
  | empty object hspace =>
    intro depth rest hdepth
    rw [cons_append, cons_append, jsonDepthExceedsFrom_opening, append_assoc,
      jsonDepthExceedsFrom_neutral hspace.neutral, singleton_append, jsonDepthExceedsFrom_closing]
    split_ifs with hlimit <;> simp [hlimit]
  | @container object _ nesting _ _ ih =>
    intro depth rest hdepth
    rw [cons_append, cons_append, jsonDepthExceedsFrom_opening, append_assoc]
    split_ifs with hlimit
    · simp only [true_iff]
      omega
    · rw [ih _ _ (by omega), singleton_append, jsonDepthExceedsFrom_closing,
        Nat.add_right_comm depth 1 nesting, Nat.add_assoc]
  | padded hbefore hafter _ ih =>
    intro depth rest hdepth
    rw [append_assoc, jsonDepthExceedsFrom_neutral hbefore.neutral, append_assoc, ih _ _ hdepth,
      jsonDepthExceedsFrom_neutral hafter.neutral]
  | element _ ih => exact ih
  | member key hbefore hafter _ ih =>
    intro depth rest hdepth
    rw [append_assoc, jsonDepthExceedsFrom_neutral hbefore.neutral, append_assoc,
      jsonDepthExceedsFrom_quoted, append_assoc, jsonDepthExceedsFrom_neutral hafter.neutral,
      ← ih _ _ hdepth]
    rfl
  | last _ ih => exact ih
  | more _ _ ih ihmore =>
    intro depth rest hdepth
    have hcomma : ∀ bytes : List UInt8, jsonDepthExceedsFrom limit ⟨depth, false, false⟩ (0x2c :: bytes) =
        jsonDepthExceedsFrom limit ⟨depth, false, false⟩ bytes := fun _ => rfl
    rw [append_assoc, ih _ _ hdepth, cons_append, hcomma, ihmore _ _ hdepth, ← or_assoc]
    refine or_congr_left ?_
    omega

/-- The scan of a JSON text reports an excess if the containers of the text are nested too deep. -/
theorem jsonDepthExceeds_iff {record : List UInt8} {nesting : ℕ} {literals : List (List Item)}
    (h : JsonGrammar.Derives .value record nesting literals) (limit : ℕ) :
    jsonDepthExceeds record limit = true ↔ limit < nesting := by
  have hrecord := jsonDepthExceedsFrom_derives h 0 [] (Nat.zero_le limit)
  rw [append_nil] at hrecord
  unfold jsonDepthExceeds
  rw [hrecord]
  simp [jsonDepthExceedsFrom]

theorem jsonDepthExceeds_nested : jsonDepthExceeds [0x5b, 0x5b, 0x5d, 0x5d] 1 = true ↔ 1 < 2 := by
  have hempty : JsonGrammar.Derives .value [0x5b, 0x5d] 1 [] := @JsonGrammar.Derives.empty false [] (by simp [Spaces])
  have hnested : JsonGrammar.Derives .value [0x5b, 0x5b, 0x5d, 0x5d] 2 [] := .container (.last (.element hempty))
  exact jsonDepthExceeds_iff hnested 1

end CheckStream

end AiOrg
