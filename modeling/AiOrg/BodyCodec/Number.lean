import AiOrg.BodyCodec.CodePoints

/-!
# Exact numbers

A number is kept as the token that spells it. The scanner takes the longest numeral at the front of a text
(`scanNumber`); what it takes is a token (`parts_of_scanNumber`), and it takes a token as a whole wherever no character
follows that could go on with it (`scanNumber_append`).
-/

namespace AiOrg

open List

namespace BodyCodec

open PyStr (plain)

def isDigit : CodePoint → Bool := CodePoint.isChar Char.isDigit

def isExponentMark : CodePoint → Bool := CodePoint.isChar fun c => c = 'e' ∨ c = 'E'

def isSign : CodePoint → Bool := CodePoint.isChar fun c => c = '+' ∨ c = '-'

def isMinus : CodePoint → Bool := CodePoint.isChar (· = '-')

/-- `_JSON_NUMBER_RE`. -/
structure NumberParts where
  minus : PyStr
  whole : PyStr
  fraction : PyStr
  exponent : PyStr
  minus_ok : minus = [] ∨ minus = plain ['-']
  whole_ok : whole = plain ['0'] ∨ ∃ d ds, whole = d :: ds ∧ isDigit d = true ∧ d ≠ .scalar '0' ∧ ∀ c ∈ ds, isDigit c = true
  fraction_ok : fraction = [] ∨ ∃ d ds, fraction = .scalar '.' :: d :: ds ∧ ∀ c ∈ d :: ds, isDigit c = true
  exponent_ok : exponent = [] ∨ ∃ e sign d ds, exponent = e :: sign ++ d :: ds ∧ isExponentMark e = true ∧
    (sign = [] ∨ ∃ s, sign = [s] ∧ isSign s = true) ∧ ∀ c ∈ d :: ds, isDigit c = true

def NumberParts.lexeme (parts : NumberParts) : PyStr :=
  parts.minus ++ (parts.whole ++ (parts.fraction ++ parts.exponent))

/-- A number token as it is spelled. -/
structure ExactJSONNumber where
  lexeme : PyStr
  valid : ∃ parts : NumberParts, parts.lexeme = lexeme

instance : DecidableEq ExactJSONNumber := fun a b =>
  decidable_of_iff (a.lexeme = b.lexeme) ⟨fun h => by cases a; cases b; cases h; rfl, fun h => h ▸ rfl⟩

/-! The longest numeral at the front of a text, part by part; each takes its part off the text. What counts as a digit
after the first one of the whole part is a parameter: it is only the ASCII ones for a scanner of JSON, and a class `\d`
has others too. -/

def scanMinus : PyStr → PyStr × PyStr
  | c :: rest => if isMinus c = true then ([c], rest) else ([], c :: rest)
  | [] => ([], [])

def scanSign : PyStr → PyStr × PyStr
  | c :: rest => if isSign c = true then ([c], rest) else ([], c :: rest)
  | [] => ([], [])

section Scan

variable (digit : CodePoint → Bool)

def scanWhole : PyStr → Option (PyStr × PyStr)
  | c :: rest =>
    if c = .scalar '0' then some ([c], rest)
    else if isDigit c = true then some (c :: rest.takeWhile digit, rest.dropWhile digit)
    else none
  | [] => none

def scanFraction : PyStr → PyStr × PyStr
  | c :: d :: rest =>
    if c = .scalar '.' ∧ digit d = true then
      (c :: d :: rest.takeWhile digit, rest.dropWhile digit)
    else ([], c :: d :: rest)
  | text => ([], text)

def scanExponent : PyStr → PyStr × PyStr
  | e :: rest =>
    if isExponentMark e = true then
      match (scanSign rest).2 with
      | d :: digits =>
        if digit d = true then
          (e :: (scanSign rest).1 ++ d :: digits.takeWhile digit, digits.dropWhile digit)
        else ([], e :: rest)
      | [] => ([], e :: rest)
    else ([], e :: rest)
  | [] => ([], [])

/-- `_match_number`: the token and the text after it. -/
def scanNumber (text : PyStr) : Option (PyStr × PyStr) :=
  let minus := scanMinus text
  (scanWhole digit minus.2).map fun whole =>
    let fraction := scanFraction digit whole.2
    let exponent := scanExponent digit fraction.2
    (minus.1 ++ (whole.1 ++ (fraction.1 ++ exponent.1)), exponent.2)

end Scan

variable {digit : CodePoint → Bool}

theorem scanMinus_ok (text : PyStr) : (scanMinus text).1 = [] ∨ (scanMinus text).1 = plain ['-'] := by
  cases text with
  | nil => exact .inl rfl
  | cons c rest =>
    rw [scanMinus]
    split_ifs with h
    · cases c with
      | scalar c =>
        obtain rfl : c = '-' := by simpa [isMinus, CodePoint.isChar] using h
        exact .inr rfl
      | surrogate n => cases h
    · exact .inl rfl

theorem scanSign_ok (text : PyStr) : (scanSign text).1 = [] ∨ ∃ s, (scanSign text).1 = [s] ∧ isSign s = true := by
  cases text with
  | nil => exact .inl rfl
  | cons c rest =>
    rw [scanSign]
    split_ifs with h
    · exact .inr ⟨c, rfl, h⟩
    · exact .inl rfl

theorem mem_takeWhile {p : CodePoint → Bool} {text : PyStr} : ∀ c ∈ text.takeWhile p, p c = true :=
  fun _ hc => mem_takeWhile_imp hc

theorem scanWhole_ok {text whole rest : PyStr} (h : scanWhole digit text = some (whole, rest)) :
    whole = plain ['0'] ∨
      ∃ d ds, whole = d :: ds ∧ isDigit d = true ∧ d ≠ .scalar '0' ∧ ∀ c ∈ ds, digit c = true := by
  cases text with
  | nil => cases h
  | cons c text =>
    rw [scanWhole] at h
    split_ifs at h with hzero hdigit
    · obtain ⟨rfl, -⟩ := Prod.mk.inj (Option.some.inj h)
      exact .inl (by rw [hzero]; rfl)
    · obtain ⟨rfl, -⟩ := Prod.mk.inj (Option.some.inj h)
      exact .inr ⟨c, _, rfl, hdigit, hzero, mem_takeWhile⟩

theorem scanFraction_ok (text : PyStr) : (scanFraction digit text).1 = [] ∨
    ∃ d ds, (scanFraction digit text).1 = .scalar '.' :: d :: ds ∧ ∀ c ∈ d :: ds, digit c = true := by
  unfold scanFraction
  split
  · split_ifs with h
    · exact .inr ⟨_, _, by rw [h.1], forall_mem_cons.2 ⟨h.2, mem_takeWhile⟩⟩
    · exact .inl rfl
  · exact .inl rfl

theorem scanExponent_ok (text : PyStr) : (scanExponent digit text).1 = [] ∨
    ∃ e sign d ds, (scanExponent digit text).1 = e :: sign ++ d :: ds ∧ isExponentMark e = true ∧
      (sign = [] ∨ ∃ s, sign = [s] ∧ isSign s = true) ∧ ∀ c ∈ d :: ds, digit c = true := by
  cases text with
  | nil => exact .inl rfl
  | cons e rest =>
    rw [scanExponent]
    split_ifs with hmark
    · split
      · split_ifs with hdigit
        · exact .inr ⟨e, _, _, _, rfl, hmark, scanSign_ok rest, forall_mem_cons.2 ⟨hdigit, mem_takeWhile⟩⟩
        · exact .inl rfl
      · exact .inl rfl
    · exact .inl rfl

/-! Each part and what is left of the text are the text. -/

theorem scanMinus_append_eq (text : PyStr) : (scanMinus text).1 ++ (scanMinus text).2 = text := by
  cases text with
  | nil => rfl
  | cons c rest =>
    rw [scanMinus]
    split_ifs <;> rfl

theorem scanSign_append_eq (text : PyStr) : (scanSign text).1 ++ (scanSign text).2 = text := by
  cases text with
  | nil => rfl
  | cons c rest =>
    rw [scanSign]
    split_ifs <;> rfl

theorem scanWhole_append_eq {text whole rest : PyStr} (h : scanWhole digit text = some (whole, rest)) :
    text = whole ++ rest := by
  cases text with
  | nil => cases h
  | cons c text =>
    rw [scanWhole] at h
    split_ifs at h <;> obtain ⟨rfl, rfl⟩ := Prod.mk.inj (Option.some.inj h)
    · rfl
    · rw [cons_append, takeWhile_append_dropWhile]

theorem scanFraction_append_eq (text : PyStr) : (scanFraction digit text).1 ++ (scanFraction digit text).2 = text := by
  unfold scanFraction
  split
  · split_ifs
    · rw [cons_append, cons_append, takeWhile_append_dropWhile]
    · rfl
  · rfl

theorem scanExponent_append_eq (text : PyStr) : (scanExponent digit text).1 ++ (scanExponent digit text).2 = text := by
  cases text with
  | nil => rfl
  | cons e rest =>
    rw [scanExponent]
    split_ifs
    · split
      · rename_i d digits heq
        split_ifs
        · have := scanSign_append_eq rest
          rw [heq] at this
          simp only [cons_append, append_assoc, takeWhile_append_dropWhile]
          rw [this]
        · rfl
      · rfl
    · rfl

theorem parts_of_scanNumber {text lexeme rest : PyStr} (h : scanNumber isDigit text = some (lexeme, rest)) :
    ∃ parts : NumberParts, parts.lexeme = lexeme := by
  rw [scanNumber] at h
  obtain ⟨⟨whole, after⟩, hwhole, h⟩ := Option.map_eq_some_iff.1 h
  obtain ⟨rfl, -⟩ := Prod.mk.inj h
  exact ⟨⟨_, whole, _, _, scanMinus_ok text, scanWhole_ok hwhole, scanFraction_ok _, scanExponent_ok _⟩, rfl⟩

theorem append_of_scanNumber {text lexeme rest : PyStr} (h : scanNumber digit text = some (lexeme, rest)) :
    text = lexeme ++ rest := by
  rw [scanNumber] at h
  obtain ⟨⟨whole, after⟩, hwhole, h⟩ := Option.map_eq_some_iff.1 h
  obtain ⟨rfl, rfl⟩ := Prod.mk.inj h
  simp only [append_assoc]
  rw [scanExponent_append_eq, scanFraction_append_eq, ← scanWhole_append_eq hwhole, scanMinus_append_eq]

/-- A text does not go on with a number. -/
def Stops (digit : CodePoint → Bool) (text : PyStr) : Prop :=
  ∀ c, text.head? = some c → digit c = false ∧ c ≠ .scalar '.' ∧ isExponentMark c = false

/-- A class of digits that has the ASCII ones and nothing that a number goes on with. -/
structure DigitClass (digit : CodePoint → Bool) : Prop where
  ascii : ∀ c, isDigit c = true → digit c = true
  point : digit (.scalar '.') = false
  mark : ∀ c, isExponentMark c = true → digit c = false

theorem takeWhile_append {p : CodePoint → Bool} {front rest : PyStr} (hfront : ∀ c ∈ front, p c = true)
    (hrest : ∀ c, rest.head? = some c → p c = false) :
    (front ++ rest).takeWhile p = front ∧ (front ++ rest).dropWhile p = rest := by
  rw [takeWhile_append_of_pos hfront, dropWhile_append_of_pos hfront]
  cases rest with
  | nil => simp
  | cons c rest => simp [hrest c rfl]

theorem isDigit_of_isExponentMark {c : CodePoint} (h : isExponentMark c = true) : isDigit c = false := by
  cases c with
  | scalar c =>
    rcases (by simpa [isExponentMark, CodePoint.isChar] using h : c = 'e' ∨ c = 'E') with rfl | rfl <;> decide
  | surrogate n => rfl

theorem isMinus_of_isDigit {c : CodePoint} (h : isDigit c = true) : isMinus c = false := by
  by_contra hminus
  cases c with
  | scalar c =>
    obtain rfl : c = '-' := by simpa [isMinus, CodePoint.isChar] using hminus
    exact absurd h (by decide)
  | surrogate n => exact hminus rfl

theorem isSign_of_isDigit {c : CodePoint} (h : isDigit c = true) : isSign c = false := by
  by_contra hsign
  cases c with
  | scalar c =>
    rcases (by simpa [isSign, CodePoint.isChar, or_iff_not_imp_left] using hsign : c = '+' ∨ c = '-') with rfl | rfl <;>
      exact absurd h (by decide)
  | surrogate n => exact hsign rfl

theorem digitClass_isDigit : DigitClass isDigit where
  ascii _ h := h
  point := by decide
  mark _ := isDigit_of_isExponentMark

theorem scanExponent_append (hclass : DigitClass digit) (parts : NumberParts) {rest : PyStr} (h : Stops digit rest) :
    scanExponent digit (parts.exponent ++ rest) = (parts.exponent, rest) := by
  rcases parts.exponent_ok with hnil | ⟨e, sign, d, ds, hexp, hmark, hsign, hdigits⟩
  · rw [hnil, nil_append]
    cases rest with
    | nil => rfl
    | cons c rest => rw [scanExponent, if_neg (by simp [(h c rfl).2.2])]
  · obtain ⟨hd, hds⟩ := forall_mem_cons.1 hdigits
    have hscan : scanSign (sign ++ d :: (ds ++ rest)) = (sign, d :: (ds ++ rest)) := by
      rcases hsign with rfl | ⟨s, rfl, hs⟩
      · rw [nil_append, scanSign, if_neg (by simp [isSign_of_isDigit hd])]
      · rw [singleton_append, scanSign, if_pos hs]
    obtain ⟨htake, hdrop⟩ := takeWhile_append (fun c hc => hclass.ascii c (hds c hc)) fun c hc => (h c hc).1
    rw [hexp, cons_append, cons_append, append_assoc, cons_append, scanExponent, if_pos hmark, hscan]
    simp only [hclass.ascii d hd, if_true, htake, hdrop]
    rfl

theorem scanFraction_append (hclass : DigitClass digit) (parts : NumberParts) {rest : PyStr}
    (hdigit : ∀ c, rest.head? = some c → digit c = false) (hpoint : ∀ c, rest.head? = some c → c ≠ .scalar '.') :
    scanFraction digit (parts.fraction ++ rest) = (parts.fraction, rest) := by
  rcases parts.fraction_ok with hnil | ⟨d, ds, hfraction, hdigits⟩
  · rw [hnil, nil_append]
    match rest with
    | [] => rfl
    | [c] => rfl
    | c :: d :: rest => rw [scanFraction, if_neg fun hc => hpoint c rfl hc.1]
  · obtain ⟨hd, hds⟩ := forall_mem_cons.1 hdigits
    obtain ⟨htake, hdrop⟩ := takeWhile_append (fun c hc => hclass.ascii c (hds c hc)) hdigit
    rw [hfraction, cons_append, cons_append, scanFraction, if_pos ⟨rfl, hclass.ascii d hd⟩, htake, hdrop]

theorem scanWhole_append (hclass : DigitClass digit) (parts : NumberParts) {rest : PyStr}
    (h : ∀ c, rest.head? = some c → digit c = false) :
    scanWhole digit (parts.whole ++ rest) = some (parts.whole, rest) := by
  rcases parts.whole_ok with hzero | ⟨d, ds, hwhole, hd, hne, hds⟩
  · rw [hzero]
    rfl
  · obtain ⟨htake, hdrop⟩ := takeWhile_append (fun c hc => hclass.ascii c (hds c hc)) h
    rw [hwhole, cons_append, scanWhole, if_neg hne, if_pos hd, htake, hdrop]

theorem scanMinus_append (parts : NumberParts) (rest : PyStr) :
    scanMinus (parts.minus ++ (parts.whole ++ rest)) = (parts.minus, parts.whole ++ rest) := by
  rcases parts.minus_ok with hnil | hminus
  · rw [hnil, nil_append]
    rcases parts.whole_ok with hzero | ⟨d, ds, hwhole, hd, -, -⟩
    · rw [hzero]
      rfl
    · rw [hwhole, cons_append, scanMinus, if_neg (by simp [isMinus_of_isDigit hd])]
  · rw [hminus]
    rfl

theorem head_exponent (hclass : DigitClass digit) (parts : NumberParts) {rest : PyStr} (h : Stops digit rest)
    {c : CodePoint} (hc : (parts.exponent ++ rest).head? = some c) : digit c = false ∧ c ≠ .scalar '.' := by
  rcases parts.exponent_ok with hnil | ⟨e, sign, d, ds, hexp, hmark, -, -⟩
  · rw [hnil, nil_append] at hc
    exact ⟨(h c hc).1, (h c hc).2.1⟩
  · rw [hexp] at hc
    obtain rfl : e = c := Option.some.inj hc
    refine ⟨hclass.mark e hmark, ?_⟩
    rintro rfl
    exact absurd hmark (by decide)

theorem head_fraction (hclass : DigitClass digit) (parts : NumberParts) {rest : PyStr} (h : Stops digit rest)
    {c : CodePoint} (hc : (parts.fraction ++ (parts.exponent ++ rest)).head? = some c) : digit c = false := by
  rcases parts.fraction_ok with hnil | ⟨d, ds, hfraction, -⟩
  · rw [hnil, nil_append] at hc
    exact (head_exponent hclass parts h hc).1
  · rw [hfraction] at hc
    obtain rfl : CodePoint.scalar '.' = c := Option.some.inj hc
    exact hclass.point

theorem scanNumber_append (hclass : DigitClass digit) (parts : NumberParts) {rest : PyStr} (h : Stops digit rest) :
    scanNumber digit (parts.lexeme ++ rest) = some (parts.lexeme, rest) := by
  have hlexeme : parts.lexeme ++ rest =
      parts.minus ++ (parts.whole ++ (parts.fraction ++ (parts.exponent ++ rest))) := by
    simp only [NumberParts.lexeme, append_assoc]
  rw [hlexeme, scanNumber]
  simp only [scanMinus_append, scanWhole_append hclass parts fun c hc => head_fraction hclass parts h hc,
    Option.map_some, scanFraction_append hclass parts (fun c hc => (head_exponent hclass parts h hc).1) fun c hc =>
      (head_exponent hclass parts h hc).2, scanExponent_append hclass parts h]
  rfl

end BodyCodec

end AiOrg
