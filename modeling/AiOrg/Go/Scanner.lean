import AiOrg.BodyCodec.CodePoints
import AiOrg.Proofs.GoJson
import AiOrg.Proofs.JsonPlain
import AiOrg.Proofs.JsonText
import AiOrg.StrictJson.Parse

/-!
# The scanner of `encoding/json`

How the decoder splits a document into lexemes. A string is scanned as in Python, but a lone surrogate of an escape
is replaced, and a number ends where the next character does not continue it. What the scanner takes for a number is
one (`scanLexeme_number`).
-/

namespace AiOrg

open List

namespace GoJson

open StrictJson (Lexeme Token Delim Source)

/-- The character of a code unit that stands alone. -/
def unitRune (n : ℕ) : Char :=
  if isHighSurrogate n || isLowSurrogate n then '\ufffd' else Char.ofNat n

/-- The characters of code units, a surrogate pair being one. -/
def joinRunes : List ℕ → List Char
  | [] => []
  | [m] => [unitRune m]
  | m :: n :: rest =>
    if isHighSurrogate m && isLowSurrogate n then
      Char.ofNat (0x10000 + (m - 0xd800) * 0x400 + (n - 0xdc00)) :: joinRunes rest
    else unitRune m :: joinRunes (n :: rest)

def pastExponent : List Char → Option (List Char)
  | [] => some []
  | mark :: rest =>
    if mark == 'e' || mark == 'E' then
      if (unsigned rest).head?.any Char.isDigit then some ((unsigned rest).dropWhile Char.isDigit) else none
    else some (mark :: rest)

def pastFraction : List Char → Option (List Char)
  | '.' :: rest => if rest.head?.any Char.isDigit then pastExponent (rest.dropWhile Char.isDigit) else none
  | rest => pastExponent rest

/-- The text behind a number without a sign. -/
def pastMagnitude : List Char → Option (List Char)
  | [] => none
  | c :: rest =>
    if c = '0' then pastFraction rest
    else if c.isDigit then pastFraction (rest.dropWhile Char.isDigit)
    else none

/-- The text behind a number. -/
def pastNumber : List Char → Option (List Char)
  | '-' :: rest => pastMagnitude rest
  | rest => pastMagnitude rest

/-! ### Lexemes -/

def punctuation (c : Char) : Option Lexeme :=
  if c = '\x7b' then some (.token (.delim .openObject))
  else if c = '\x7d' then some (.token (.delim .closeObject))
  else if c = '[' then some (.token (.delim .openArray))
  else if c = ']' then some (.token (.delim .closeArray))
  else if c = ':' then some .colon
  else if c = ',' then some .comma
  else none

/-- What a text begins with that is no string and no punctuation. -/
def scanLiteral (text : List Char) : Lexeme × List Char :=
  if "null".toList <+: text then (.token .null, text.drop 4)
  else if "true".toList <+: text then (.token (.bool true), text.drop 4)
  else if "false".toList <+: text then (.token (.bool false), text.drop 5)
  else match pastNumber text with
    | some rest => (.token (.number (String.ofList (text.take (text.length - rest.length)))), rest)
    | none => (.invalid, [])

/-- The lexeme that a text begins with, and the text behind it. -/
def scanLexeme : List Char → Lexeme × List Char
  | [] => (.invalid, [])
  | c :: rest =>
    match punctuation c with
    | some lexeme => (lexeme, rest)
    | none =>
      if c = '\x22' then
        match scanUnits rest with
        | some (units, rest) => (.token (.string (String.ofList (joinRunes units))), rest)
        | none => (.invalid, [])
      else scanLiteral (c :: rest)

def lexemesFrom (size : ℕ) : ℕ → List Char → List (Lexeme × ℕ)
  | 0, _ => []
  | fuel + 1, text =>
    match skipSpace text with
    | [] => []
    | c :: rest =>
      let scanned := scanLexeme (c :: rest)
      (scanned.1, size - (utf8Bytes scanned.2).length) :: lexemesFrom size fuel scanned.2

def lexemesOf (text : List Char) : List (Lexeme × ℕ) :=
  lexemesFrom (utf8Bytes text).length text.length text

/-- How Go reads bytes. -/
def source : Source where
  utf8Valid src := (utf8Decode src).isSome
  lexemes src := lexemesOf ((utf8Decode src).getD [])

end GoJson

end AiOrg

/-!
## Reading lexemes off a text
-/

namespace AiOrg

open List

namespace GoJson

open StrictJson (Lexeme Token Delim Source)

section Numbers

variable {text rest number : List Char}

theorem digits_append (text : List Char) : ∃ digits : List Char, (∀ c ∈ digits, c.isDigit) ∧
    text = digits ++ text.dropWhile Char.isDigit ∧
      ∀ c more, text.dropWhile Char.isDigit = c :: more → ¬ c.isDigit := by
  obtain ⟨digits, hdigits, htext⟩ := dropWhile_digits text
  refine ⟨digits, hdigits, htext, fun c more hmore => ?_⟩
  have hnot := head?_dropWhile_not Char.isDigit text
  rw [hmore] at hnot
  simpa using hnot

theorem pastExponent_spec (h : pastExponent text = some rest) :
    ∃ scale, text = scale ++ rest ∧ isExponentEnd scale := by
  unfold pastExponent at h
  split at h
  · obtain rfl := Option.some.inj h
    exact ⟨[], rfl, rfl⟩
  · rename_i mark more
    split_ifs at h with hmark hdigit
    · obtain ⟨digits, hdigits, hmore, -⟩ := digits_append (unsigned more)
      have hrest := Option.some.inj h
      rw [hrest] at hmore
      have hne : digits ≠ [] := by
        rintro rfl
        rw [nil_append] at hmore
        rw [hmore] at hrest hdigit
        rcases rest with _ | ⟨c, rest⟩
        · simp at hdigit
        · have hc : c.isDigit := by simpa using hdigit
          have hlength := congrArg List.length hrest
          rw [dropWhile_cons_of_pos hc] at hlength
          have := (dropWhile_sublist Char.isDigit (l := rest)).length_le
          simp at hlength
          omega
      have hunsigned : ∀ sign : List Char, unsigned (sign ++ digits) = digits →
          isExponentEnd (mark :: (sign ++ digits)) := fun sign hsign => by
        rw [isExponentEnd, hsign, hmark]
        simpa [hne] using hdigits
      have hplain : unsigned digits = digits := by
        rcases digits with _ | ⟨c, digits⟩
        · rfl
        · have hc := hdigits c mem_cons_self
          unfold unsigned
          split
          · rename_i heq
            rw [(List.cons.inj heq).1] at hc
            exact absurd hc (by decide)
          · rename_i heq
            rw [(List.cons.inj heq).1] at hc
            exact absurd hc (by decide)
          · rfl
      unfold unsigned at hmore
      split at hmore
      · exact ⟨mark :: ('+' :: digits), by rw [hmore]; rfl, hunsigned ['+'] rfl⟩
      · exact ⟨mark :: ('-' :: digits), by rw [hmore]; rfl, hunsigned ['-'] rfl⟩
      · exact ⟨mark :: digits, by rw [hmore]; rfl, hunsigned [] hplain⟩
    · obtain rfl := Option.some.inj h
      exact ⟨[], rfl, rfl⟩

theorem isExponentEnd_cons {c : Char} (h : isExponentEnd (c :: text)) : ¬ c.isDigit ∧ c ≠ '.' := by
  rw [isExponentEnd, Bool.and_eq_true, Bool.and_eq_true, Bool.or_eq_true, beq_iff_eq, beq_iff_eq] at h
  rcases h.1.1 with rfl | rfl <;> decide

theorem isFractionEnd_of_isExponentEnd (h : isExponentEnd text) : isFractionEnd text := by
  unfold isFractionEnd
  split
  · exact absurd rfl (isExponentEnd_cons h).2
  · exact h

theorem dropWhile_digits_append {digits : List Char} (hdigits : ∀ c ∈ digits, c.isDigit)
    (hrest : ∀ c more, rest = c :: more → ¬ c.isDigit) : (digits ++ rest).dropWhile Char.isDigit = rest := by
  rw [dropWhile_append_of_pos hdigits]
  rcases rest with _ | ⟨c, more⟩
  · rfl
  · exact dropWhile_cons_of_neg (hrest c more rfl)

theorem pastFraction_spec (h : pastFraction text = some rest) :
    ∃ fraction, text = fraction ++ rest ∧ isFractionEnd fraction := by
  unfold pastFraction at h
  split at h
  · rename_i more
    split_ifs at h with hdigit
    obtain ⟨digits, hdigits, hmore, hend⟩ := digits_append more
    obtain ⟨scale, hscale, hexponent⟩ := pastExponent_spec h
    rcases digits with _ | ⟨c, digits⟩
    · rcases more with _ | ⟨c, more⟩
      · simp at hdigit
      · exact absurd (by simpa using hdigit) (hend c more hmore.symm)
    · refine ⟨'.' :: c :: (digits ++ scale), ?_, ?_⟩
      · rw [hmore, hscale]
        simp
      · obtain ⟨hc, hdigits⟩ := forall_mem_cons.1 hdigits
        rw [isFractionEnd, hc, Bool.true_and, dropWhile_digits_append hdigits]
        · exact hexponent
        · rintro d scale rfl
          exact (isExponentEnd_cons hexponent).1
  · obtain ⟨scale, rfl, hexponent⟩ := pastExponent_spec h
    exact ⟨scale, rfl, isFractionEnd_of_isExponentEnd hexponent⟩

theorem isFractionEnd_cons {c : Char} (h : isFractionEnd (c :: text)) : ¬ c.isDigit := by
  unfold isFractionEnd at h
  split at h
  · rename_i heq
    rw [(List.cons.inj heq).1]
    decide
  · exact (isExponentEnd_cons h).1

theorem pastMagnitude_spec (h : pastMagnitude text = some rest) :
    ∃ number, text = number ++ rest ∧ isMagnitude number := by
  unfold pastMagnitude at h
  split at h
  · cases h
  · rename_i c more
    split_ifs at h with hzero hdigit
    · obtain ⟨fraction, rfl, hfraction⟩ := pastFraction_spec h
      exact ⟨c :: fraction, rfl, by rwa [hzero]⟩
    · obtain ⟨digits, hdigits, hmore, -⟩ := digits_append more
      obtain ⟨fraction, heq, hfraction⟩ := pastFraction_spec h
      refine ⟨c :: (digits ++ fraction), by rw [hmore, heq]; simp, ?_⟩
      unfold isMagnitude
      split
      · rename_i heq
        exact absurd (List.cons.inj heq).1 hzero
      · rename_i heq
        obtain ⟨rfl, rfl⟩ := List.cons.inj heq
        rw [hdigit, Bool.true_and, dropWhile_digits_append hdigits]
        · exact hfraction
        · rintro d scale rfl
          exact isFractionEnd_cons hfraction
      · rename_i heq
        cases heq

theorem isMagnitude_ne_minus (h : isMagnitude text) (more : List Char) : text ≠ '-' :: more := by
  rintro rfl
  cases h

theorem pastNumber_spec (h : pastNumber text = some rest) :
    ∃ number, text = number ++ rest ∧ isValidNumber number := by
  unfold pastNumber at h
  split at h
  · obtain ⟨number, rfl, hnumber⟩ := pastMagnitude_spec h
    exact ⟨'-' :: number, rfl, hnumber⟩
  · obtain ⟨number, rfl, hnumber⟩ := pastMagnitude_spec h
    refine ⟨number, rfl, ?_⟩
    unfold isValidNumber
    split
    · exact absurd rfl (isMagnitude_ne_minus hnumber _)
    · exact hnumber

/-- What can stand behind a number. -/
def NumberEnd (rest : List Char) : Prop := ∀ c more, rest = c :: more → ¬ IsNumberChar c

theorem NumberEnd.not_digit (h : NumberEnd rest) : ∀ c more, rest = c :: more → ¬ c.isDigit :=
  fun c more hrest hdigit => h c more hrest (.inl hdigit)

theorem unsigned_append (h : unsigned text ≠ []) : unsigned (text ++ rest) = unsigned text ++ rest := by
  unfold unsigned at h ⊢
  rcases text with _ | ⟨c, text⟩
  · exact absurd rfl h
  · split <;> split <;> simp_all

theorem pastExponent_append (h : isExponentEnd text) (hrest : NumberEnd rest) :
    pastExponent (text ++ rest) = some rest := by
  rcases text with _ | ⟨mark, text⟩
  · rw [nil_append]
    rcases rest with _ | ⟨c, more⟩
    · rfl
    · have hc := hrest c more rfl
      rw [pastExponent, if_neg]
      rw [Bool.or_eq_true, beq_iff_eq, beq_iff_eq]
      exact fun hmark => hc (.inr (.inr (.inr (.inr hmark))))
  · rw [isExponentEnd, Bool.and_eq_true, Bool.and_eq_true, all_eq_true] at h
    obtain ⟨⟨hmark, hempty⟩, hdigits⟩ := h
    have hne : unsigned text ≠ [] := by simpa using hempty
    rw [cons_append, pastExponent, if_pos hmark, unsigned_append hne,
      dropWhile_digits_append hdigits hrest.not_digit, if_pos]
    rcases hunsigned : unsigned text with _ | ⟨c, digits⟩
    · exact absurd hunsigned hne
    · simpa using hdigits c (by rw [hunsigned]; exact mem_cons_self)

theorem pastFraction_append (h : isFractionEnd text) (hrest : NumberEnd rest) :
    pastFraction (text ++ rest) = some rest := by
  unfold isFractionEnd at h
  split at h
  · rename_i c text
    rw [Bool.and_eq_true] at h
    obtain ⟨digits, hdigits, htext, -⟩ := digits_append text
    have hdrop : (c :: text ++ rest).dropWhile Char.isDigit = text.dropWhile Char.isDigit ++ rest := by
      have happend : c :: text ++ rest = (c :: digits) ++ (text.dropWhile Char.isDigit ++ rest) := by
        rw [← append_assoc, cons_append, cons_append, ← htext, cons_append]
      rw [happend]
      refine dropWhile_digits_append (forall_mem_cons.2 ⟨h.1, hdigits⟩) fun d more heq => ?_
      rcases hscale : text.dropWhile Char.isDigit with _ | ⟨e, scale⟩ <;> rw [hscale] at heq h
      · exact hrest.not_digit d more heq
      · rw [← (List.cons.inj heq).1]
        exact (isExponentEnd_cons h.2).1
    rw [cons_append, pastFraction, if_pos (by simpa using h.1), hdrop]
    exact pastExponent_append h.2 hrest
  · unfold pastFraction
    split
    · rename_i more heq
      rcases text with _ | ⟨c, text⟩
      · exact absurd (by simp [IsNumberChar]) (hrest '.' more heq)
      · exact absurd (List.cons.inj heq).1 (isExponentEnd_cons h).2
    · exact pastExponent_append h hrest

theorem pastMagnitude_append (h : isMagnitude text) (hrest : NumberEnd rest) :
    pastMagnitude (text ++ rest) = some rest := by
  unfold isMagnitude at h
  split at h
  · rw [cons_append, pastMagnitude, if_pos rfl]
    exact pastFraction_append h hrest
  · rename_i c text hzero
    rw [Bool.and_eq_true] at h
    obtain ⟨digits, hdigits, htext, -⟩ := digits_append text
    have hdrop : (text ++ rest).dropWhile Char.isDigit = text.dropWhile Char.isDigit ++ rest := by
      have happend : text ++ rest = digits ++ (text.dropWhile Char.isDigit ++ rest) := by
        rw [← append_assoc, ← htext]
      rw [happend]
      refine dropWhile_digits_append hdigits fun d more heq => ?_
      rcases hscale : text.dropWhile Char.isDigit with _ | ⟨e, scale⟩ <;> rw [hscale] at heq h
      · exact hrest.not_digit d more heq
      · rw [← (List.cons.inj heq).1]
        exact isFractionEnd_cons h.2
    rw [cons_append, pastMagnitude, if_neg hzero, if_pos h.1, hdrop]
    exact pastFraction_append h.2 hrest
  · cases h

theorem pastNumber_append (h : isValidNumber text) (hrest : NumberEnd rest) :
    pastNumber (text ++ rest) = some rest := by
  unfold isValidNumber at h
  split at h
  · exact pastMagnitude_append h hrest
  · rename_i hminus
    unfold pastNumber
    split
    · rename_i more heq
      rcases text with _ | ⟨c, text⟩
      · cases h
      · exact absurd (by rw [(List.cons.inj heq).1]) (hminus text)
    · exact pastMagnitude_append h hrest

theorem length_lt_of_pastNumber (h : pastNumber text = some rest) : rest.length < text.length := by
  obtain ⟨number, rfl, hnumber⟩ := pastNumber_spec h
  rw [length_append]
  have := length_pos_iff.2 (ne_nil_of_isValidNumber hnumber)
  omega

end Numbers

section Lexemes

variable {c : Char} {text rest : List Char} {size fuel stop : ℕ}

theorem scanLiteral_length (c : Char) (rest : List Char) : (scanLiteral (c :: rest)).2.length ≤ rest.length := by
  unfold scanLiteral
  split_ifs
  · simp
  · simp
  · simp
  · split
    · rename_i more hmore
      exact Nat.le_of_lt_succ (length_lt_of_pastNumber hmore)
    · exact Nat.zero_le _

theorem scanLexeme_cases (c : Char) (rest : List Char) :
    (∃ lexeme, punctuation c = some lexeme ∧ scanLexeme (c :: rest) = (lexeme, rest)) ∨
    (∃ units more, scanUnits rest = some (units, more) ∧
      scanLexeme (c :: rest) = (.token (.string (String.ofList (joinRunes units))), more)) ∨
    scanLexeme (c :: rest) = (.invalid, []) ∨ scanLexeme (c :: rest) = scanLiteral (c :: rest) := by
  rw [scanLexeme]
  rcases hpunctuation : punctuation c with _ | lexeme
  · dsimp only
    split_ifs
    · rcases hscan : scanUnits rest with _ | ⟨units, more⟩
      · exact .inr (.inr (.inl rfl))
      · exact .inr (.inl ⟨units, more, rfl, rfl⟩)
    · exact .inr (.inr (.inr rfl))
  · exact .inl ⟨lexeme, rfl, rfl⟩

theorem scanLexeme_length (c : Char) (rest : List Char) : (scanLexeme (c :: rest)).2.length ≤ rest.length := by
  rcases scanLexeme_cases c rest with ⟨lexeme, -, h⟩ | ⟨units, more, hscan, h⟩ | h | h <;> rw [h]
  · exact Nat.le_of_lt (scanUnits_length rest _ hscan)
  · exact Nat.zero_le _
  · exact scanLiteral_length c rest

theorem punctuation_number {lexeme : Lexeme} (h : punctuation c = some lexeme) (number : String) :
    lexeme ≠ .token (.number number) := by
  unfold punctuation at h
  split_ifs at h <;> cases h <;> simp

/-- The number of a lexeme is one. -/
theorem scanLexeme_number {number : String} (h : (scanLexeme text).1 = .token (.number number)) :
    isValidNumber number.toList := by
  rcases text with _ | ⟨c, text⟩
  · cases h
  rcases scanLexeme_cases c text with ⟨lexeme, hp, heq⟩ | ⟨units, more, -, heq⟩ | heq | heq <;> rw [heq] at h
  · exact absurd h (punctuation_number hp number)
  · cases h
  · cases h
  · unfold scanLiteral at h
    split_ifs at h
    · cases h
    · cases h
    · cases h
    split at h
    · rename_i rest hrest
      obtain ⟨taken, htaken, hnumber⟩ := pastNumber_spec hrest
      cases h
      rw [htaken, length_append, Nat.add_sub_cancel, take_left, String.toList_ofList]
      exact hnumber
    · cases h

theorem lexemesFrom_number {number : String} (h : (.token (.number number), stop) ∈ lexemesFrom size fuel text) :
    isValidNumber number.toList := by
  induction fuel generalizing text with
  | zero => cases h
  | succ fuel ih =>
    unfold lexemesFrom at h
    split at h
    · cases h
    · rcases mem_cons.1 h with h | h
      · exact scanLexeme_number (Prod.mk.inj h).1.symm
      · exact ih h

theorem lexemesFrom_eq (h : text.length ≤ fuel) : lexemesFrom size fuel text = lexemesFrom size text.length text := by
  induction hlength : text.length using Nat.strong_induction_on generalizing text fuel with
  | _ length ih =>
    rcases fuel with _ | fuel
    · obtain rfl : length = 0 := by omega
      rfl
    rcases length with _ | length
    · rw [length_eq_zero_iff.1 hlength]
      rfl
    rw [lexemesFrom, lexemesFrom]
    rcases hskip : skipSpace text with _ | ⟨c, rest⟩
    · rfl
    · have hshort := (scanLexeme_length c rest).trans_lt (skipSpace_cons_length hskip)
      simp only
      rw [ih _ (by omega) (by omega) rfl, ← @ih _ (by omega) _ length (by omega) rfl]

end Lexemes

end GoJson

end AiOrg
