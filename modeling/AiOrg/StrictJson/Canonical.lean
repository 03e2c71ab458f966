import AiOrg.StrictJson.Reordered

/-!
# Canonical JSON

`encodeStrictJSON` writes a tree with the members of every object in the order of their names. A tree that is written as
it stands is what the parser reads (`parse_plain`), so the encoding parses to the sorted tree (`encode_canonical`).
-/

namespace AiOrg

open List

namespace StrictJson

open GoJson (quote utf8Bytes)

/-- What stands before an element or member that is not the first one. -/
def separator (first : Bool) : List Char := if first then [] else [',']

def writeRows (first : Bool) : List (String × List Char) → List Char
  | [] => []
  | (name, text) :: rows => separator first ++ quote name.toList ++ ':' :: text ++ writeRows false rows

mutual

/-- `writeStrictJSON`. The values are written before the members are sorted, which goes by the names alone. -/
def writeStrictJSON : Node → List Char
  | .null => "null".toList
  | .bool value => if value then "true".toList else "false".toList
  | .number text => text.toList
  | .string text => quote text.toList
  | .array elements => '[' :: writeElements true elements ++ [']']
  | .object members => '\x7b' :: writeRows true ((rows members).insertionSort fun a b => a.1 ≤ b.1) ++ ['\x7d']

def writeElements (first : Bool) : List Node → List Char
  | [] => []
  | element :: elements => separator first ++ writeStrictJSON element ++ writeElements false elements

def rows : List (String × Node) → List (String × List Char)
  | [] => []
  | (name, value) :: members => (name, writeStrictJSON value) :: rows members

end

def encodeStrictJSON (n : Node) : List UInt8 := utf8Bytes (writeStrictJSON n)

mutual

/-- A tree with its members in the order they have. -/
def plain : Node → List Char
  | .null => "null".toList
  | .bool value => if value then "true".toList else "false".toList
  | .number text => text.toList
  | .string text => quote text.toList
  | .array elements => '[' :: plainElements true elements ++ [']']
  | .object members => '\x7b' :: plainMembers true members ++ ['\x7d']

def plainElements (first : Bool) : List Node → List Char
  | [] => []
  | element :: elements => separator first ++ plain element ++ plainElements false elements

def plainMembers (first : Bool) : List (String × Node) → List Char
  | [] => []
  | (name, value) :: members =>
    separator first ++ quote name.toList ++ ':' :: plain value ++ plainMembers false members

end

/-- The lexeme before an element or member that is not the first one. -/
def separatorLexeme (first : Bool) : List Lexeme := if first then [] else [.comma]

mutual

def treeLexemes : Node → List Lexeme
  | .null => [.token .null]
  | .bool value => [.token (.bool value)]
  | .number text => [.token (.number text)]
  | .string text => [.token (.string text)]
  | .array elements => .token (.delim .openArray) :: elementLexemes true elements ++ [.token (.delim .closeArray)]
  | .object members => .token (.delim .openObject) :: memberLexemes true members ++ [.token (.delim .closeObject)]

def elementLexemes (first : Bool) : List Node → List Lexeme
  | [] => []
  | element :: elements => separatorLexeme first ++ treeLexemes element ++ elementLexemes false elements

def memberLexemes (first : Bool) : List (String × Node) → List Lexeme
  | [] => []
  | (name, value) :: members =>
    separatorLexeme first ++ .token (.string name) :: .colon :: treeLexemes value ++ memberLexemes false members

end

mutual

/-- The tree with the members of every object in the order of their names. -/
def sorted : Node → Node
  | .array elements => .array (sortedElements elements)
  | .object members => .object ((sortedValues members).insertionSort fun a b => a.1 ≤ b.1)
  | n => n

def sortedElements : List Node → List Node
  | [] => []
  | element :: elements => sorted element :: sortedElements elements

def sortedValues : List (String × Node) → List (String × Node)
  | [] => []
  | (name, value) :: members => (name, sorted value) :: sortedValues members

end

mutual

def repeats (path : String) : Node → List String
  | .array elements => elementsRepeats path 0 elements
  | .object members => membersRepeats path [] members
  | _ => []

def elementsRepeats (path : String) (index : ℕ) : List Node → List String
  | [] => []
  | element :: elements => repeats (joinPointer path (toString index)) element ++ elementsRepeats path (index + 1) elements

def membersRepeats (path : String) (seen : List String) : List (String × Node) → List String
  | [] => []
  | (name, value) :: members => (if name ∈ seen then [joinPointer path name] else []) ++
      repeats (joinPointer path name) value ++ membersRepeats path (name :: seen) members

end

/-- The bytes are the JSON text of a tree, which may have names twice. -/
structure Spells (source : Source) (src : List UInt8) (n : Node) : Prop where
  utf8 : source.utf8Valid src = true
  lexemes : (source.lexemes src).map (·.1) = treeLexemes n

def Repeated (errors : List Error) (pointers : List String) : Prop :=
  errors.map (fun e => (e.code, e.path)) = pointers.map (ErrorCode.duplicateKey, ·)

end StrictJson

/-! ### Lexemes of a written tree -/

namespace GoJson

open StrictJson (Lexeme Token Delim)

def words (text : List Char) : List Lexeme := (lexemesFrom 0 text.length text).map (·.1)

theorem map_lexemesFrom (size fuel : ℕ) (text : List Char) :
    (lexemesFrom size fuel text).map (·.1) = (lexemesFrom 0 fuel text).map (·.1) := by
  induction fuel generalizing text with
  | zero => rfl
  | succ fuel ih =>
    rw [lexemesFrom, lexemesFrom]
    rcases skipSpace text with _ | ⟨c, rest⟩
    · rfl
    · simp only [map_cons, ih]

theorem map_lexemesOf (text : List Char) : (lexemesOf text).map (·.1) = words text := map_lexemesFrom _ _ _

section Words

variable {c : Char} {text rest : List Char}

theorem words_cons {lexeme : Lexeme} (hspace : isJsonSpace c = false)
    (h : scanLexeme (c :: text) = (lexeme, rest)) : words (c :: text) = lexeme :: words rest := by
  have hlength := scanLexeme_length c text
  rw [h] at hlength
  rw [words, length_cons, lexemesFrom, skipSpace_cons hspace]
  simp only [h, map_cons]
  rw [lexemesFrom_eq hlength]
  rfl

theorem words_punctuation {lexeme : Lexeme} (hspace : isJsonSpace c = false) (h : punctuation c = some lexeme) :
    words (c :: text) = lexeme :: words text := by
  refine words_cons hspace ?_
  rw [scanLexeme, h]

theorem scanUnits_escapeChar (c : Char) (rest : List Char) :
    scanUnits (escapeChar c ++ rest) = (scanUnits rest).map fun r => (c.toNat :: r.1, r.2) := by
  rcases escapeChar_cases c with ⟨letter, hletter, h⟩ | ⟨-, hhex, h⟩ | ⟨hnone, hhex, h⟩ <;> rw [h]
  · have hu : letter ≠ 'u' := by
      rintro rfl
      exact escapeLetter_ne_u hletter
    refine scanUnits_letter hu ?_
    unfold escapeLetter at hletter
    split_ifs at hletter with h1 h2 h3 h4 h5 h6 h7 <;> cases hletter <;> subst c <;> rfl
  · exact scanUnits_hex4 (toNat_lt_of_isEscapedHex hhex)
  · obtain ⟨hslash, hquote⟩ := ne_of_escapeLetter_none hnone
    have hcontrol : ¬ c.toNat ≤ 0x1f := fun hle => by
      rw [isEscapedHex_iff.2 (.inl (by omega))] at hhex
      cases hhex
    rw [singleton_append, scanUnits.eq_def]
    dsimp only
    rw [if_neg hquote, if_neg hslash, if_neg hcontrol]

theorem scanUnits_quoted (text rest : List Char) :
    scanUnits (text.flatMap escapeChar ++ '\x22' :: rest) = some (text.map Char.toNat, rest) := by
  induction text with
  | nil =>
    rw [flatMap_nil, nil_append, scanUnits.eq_def]
    dsimp only
    rw [if_pos rfl]
    rfl
  | cons c text ih =>
    rw [flatMap_cons, append_assoc, scanUnits_escapeChar, ih]
    rfl

theorem joinRunes_toNat (text : List Char) : joinRunes (text.map Char.toNat) = text := by
  induction text with
  | nil => rfl
  | cons c text ih =>
    obtain ⟨hhigh, hlow⟩ := not_surrogate c
    have hrune : unitRune c.toNat = c := by
      rw [unitRune, hhigh, hlow]
      simp [Char.ofNat_toNat]
    rcases text with _ | ⟨d, text⟩
    · rw [map_cons, map_nil, joinRunes, hrune]
    · rw [map_cons, map_cons, joinRunes, hhigh, Bool.false_and, if_neg Bool.false_ne_true, hrune,
        ← map_cons, ih]

theorem words_quote (text rest : List Char) :
    words (quote text ++ rest) = .token (.string (String.ofList text)) :: words rest := by
  have hquote : quote text ++ rest = '\x22' :: (text.flatMap escapeChar ++ '\x22' :: rest) := by
    rw [quote, cons_append, cons_append, append_assoc]
    rfl
  rw [hquote]
  refine words_cons (by decide) ?_
  have hp : punctuation '\x22' = none := by decide
  rw [scanLexeme, hp]
  simp only [↓reduceIte]
  rw [scanUnits_quoted]
  dsimp only
  rw [joinRunes_toNat]

theorem words_number (h : isValidNumber text) (hrest : NumberEnd rest) :
    words (text ++ rest) = .token (.number (String.ofList text)) :: words rest := by
  rcases text with _ | ⟨c, text⟩
  · cases h
  have hc : c.isDigit ∨ c = '-' := by
    unfold isValidNumber at h
    split at h
    · rename_i heq
      exact .inr (List.cons.inj heq).1
    · unfold isMagnitude at h
      split at h
      · rename_i heq
        rw [(List.cons.inj heq).1]
        exact .inl (by decide)
      · rename_i heq
        rw [Bool.and_eq_true, ← (List.cons.inj heq).1] at h
        exact .inl h.1
      · cases h
  have hne : ∀ d : Char, d.isDigit = false → d ≠ '-' → c ≠ d := by
    rintro d hd hminus rfl
    rcases hc with hc | hc
    · rw [hd] at hc
      cases hc
    · exact hminus hc
  have hspace : isJsonSpace c = false := by
    simp [isJsonSpace, hne ' ' (by decide) (by decide), hne '\t' (by decide) (by decide),
      hne '\n' (by decide) (by decide), hne '\r' (by decide) (by decide)]
  have hp : punctuation c = none := by
    simp [punctuation, hne '\x7b' (by decide) (by decide), hne '\x7d' (by decide) (by decide),
      hne '[' (by decide) (by decide), hne ']' (by decide) (by decide), hne ':' (by decide) (by decide),
      hne ',' (by decide) (by decide)]
  have hword : ∀ d more, d.isDigit = false → d ≠ '-' → ¬ d :: more <+: c :: (text ++ rest) :=
    fun d more hd hminus hprefix => hne d hd hminus (cons_prefix_cons.1 hprefix).1.symm
  rw [cons_append]
  refine words_cons hspace ?_
  rw [scanLexeme, hp]
  simp only [hne '\x22' (by decide) (by decide), ↓reduceIte]
  have hnull : ¬ "null".toList <+: c :: (text ++ rest) := hword 'n' ['u', 'l', 'l'] (by decide) (by decide)
  have htrue : ¬ "true".toList <+: c :: (text ++ rest) := hword 't' ['r', 'u', 'e'] (by decide) (by decide)
  have hfalse : ¬ "false".toList <+: c :: (text ++ rest) :=
    hword 'f' ['a', 'l', 's', 'e'] (by decide) (by decide)
  rw [scanLiteral, if_neg hnull, if_neg htrue, if_neg hfalse, ← cons_append, pastNumber_append h hrest]
  dsimp only
  rw [length_append, Nat.add_sub_cancel, take_left]

theorem words_null (rest : List Char) : words ("null".toList ++ rest) = .token .null :: words rest := by
  have h : "null".toList <+: "null".toList ++ rest := ⟨rest, rfl⟩
  refine @words_cons 'n' (['u', 'l', 'l'] ++ rest) rest _ (by decide) ?_
  have hp : punctuation 'n' = none := by decide
  rw [scanLexeme, hp]
  simp only [Char.reduceEq, ↓reduceIte]
  exact if_pos h

theorem words_bool (value : Bool) (rest : List Char) :
    words ((if value then "true".toList else "false".toList) ++ rest) = .token (.bool value) :: words rest := by
  cases value with
  | true =>
    have h : "true".toList <+: "true".toList ++ rest := ⟨rest, rfl⟩
    have hnull : ¬ "null".toList <+: "true".toList ++ rest := fun hnull =>
      absurd (cons_prefix_cons.1 hnull).1 (by decide)
    refine @words_cons 't' (['r', 'u', 'e'] ++ rest) rest _ (by decide) ?_
    have hp : punctuation 't' = none := by decide
    rw [scanLexeme, hp]
    simp only [Char.reduceEq, ↓reduceIte]
    exact (if_neg hnull).trans (if_pos h)
  | false =>
    have h : "false".toList <+: "false".toList ++ rest := ⟨rest, rfl⟩
    have hnull : ¬ "null".toList <+: "false".toList ++ rest := fun hnull =>
      absurd (cons_prefix_cons.1 hnull).1 (by decide)
    have htrue : ¬ "true".toList <+: "false".toList ++ rest := fun htrue =>
      absurd (cons_prefix_cons.1 htrue).1 (by decide)
    refine @words_cons 'f' (['a', 'l', 's', 'e'] ++ rest) rest _ (by decide) ?_
    have hp : punctuation 'f' = none := by decide
    rw [scanLexeme, hp]
    simp only [Char.reduceEq, ↓reduceIte]
    exact (if_neg hnull).trans ((if_neg htrue).trans (if_pos h))

end Words

end GoJson

namespace StrictJson

open GoJson (words NumberEnd utf8Bytes)

theorem words_separator (first : Bool) (rest : List Char) :
    words (separator first ++ rest) = separatorLexeme first ++ words rest := by
  cases first with
  | true => rfl
  | false => exact GoJson.words_punctuation (by decide) (by decide)

theorem numberEnd_cons {c : Char} {rest : List Char} (h : ¬ GoJson.IsNumberChar c) : NumberEnd (c :: rest) := by
  rintro d more heq
  rwa [← (List.cons.inj heq).1]

theorem numberEnd_elements {rest : List Char} (h : NumberEnd rest) (elements : List Node) :
    NumberEnd (plainElements false elements ++ rest) := by
  cases elements with
  | nil => exact h
  | cons => exact numberEnd_cons (by simp [GoJson.IsNumberChar])

theorem numberEnd_members {rest : List Char} (h : NumberEnd rest) (members : List (String × Node)) :
    NumberEnd (plainMembers false members ++ rest) := by
  cases members with
  | nil => exact h
  | cons => exact numberEnd_cons (by simp [GoJson.IsNumberChar])

mutual

theorem words_plain : ∀ (n : Node) {rest : List Char}, n.ValidNumbers → NumberEnd rest →
    words (plain n ++ rest) = treeLexemes n ++ words rest
  | .null, rest, _, _ => GoJson.words_null rest
  | .bool value, rest, _, _ => GoJson.words_bool value rest
  | .number text, rest, h, hrest => by
    cases h with
    | number hvalid => simpa [plain, treeLexemes] using GoJson.words_number hvalid hrest
  | .string text, rest, _, _ => by simpa [plain, treeLexemes] using GoJson.words_quote text.toList rest
  | .array elements, rest, h, hrest => by
    have hinner := @words_plainElements true elements (']' :: rest)
      (fun element helement => h.of_mem_array helement) (numberEnd_cons (by simp [GoJson.IsNumberChar]))
    have hclose : words (']' :: rest) = .token (.delim .closeArray) :: words rest :=
      GoJson.words_punctuation (by decide) (by decide)
    have hopen : words (plain (.array elements) ++ rest) = .token (.delim .openArray) ::
        words (plainElements true elements ++ ']' :: rest) := by
      rw [plain, cons_append, cons_append, append_assoc]
      exact GoJson.words_punctuation (by decide) (by decide)
    rw [hopen, hinner, hclose, treeLexemes]
    simp
  | .object members, rest, h, hrest => by
    have hinner := @words_plainMembers true members ('\x7d' :: rest)
      (fun member hmember => h.of_mem hmember) (numberEnd_cons (by simp [GoJson.IsNumberChar]))
    have hclose : words ('\x7d' :: rest) = .token (.delim .closeObject) :: words rest :=
      GoJson.words_punctuation (by decide) (by decide)
    have hopen : words (plain (.object members) ++ rest) = .token (.delim .openObject) ::
        words (plainMembers true members ++ '\x7d' :: rest) := by
      rw [plain, cons_append, cons_append, append_assoc]
      exact GoJson.words_punctuation (by decide) (by decide)
    rw [hopen, hinner, hclose, treeLexemes]
    simp

theorem words_plainElements (first : Bool) : ∀ (elements : List Node) {rest : List Char},
    (∀ element ∈ elements, element.ValidNumbers) → NumberEnd rest →
    words (plainElements first elements ++ rest) = elementLexemes first elements ++ words rest
  | [], rest, _, _ => rfl
  | element :: elements, rest, h, hrest => by
    have hhead := words_plain element (h _ mem_cons_self) (numberEnd_elements hrest elements)
    have htail := words_plainElements false elements (fun e he => h e (mem_cons_of_mem _ he)) hrest
    rw [plainElements, elementLexemes, append_assoc, append_assoc, words_separator, hhead, htail]
    simp

theorem words_plainMembers (first : Bool) : ∀ (members : List (String × Node)) {rest : List Char},
    (∀ member ∈ members, member.2.ValidNumbers) → NumberEnd rest →
    words (plainMembers first members ++ rest) = memberLexemes first members ++ words rest
  | [], rest, _, _ => rfl
  | (name, value) :: members, rest, h, hrest => by
    have hhead := words_plain value (h (name, value) mem_cons_self) (numberEnd_members hrest members)
    have htail := words_plainMembers false members (fun m hm => h m (mem_cons_of_mem _ hm)) hrest
    have hcolon : ∀ more, words (':' :: more) = .colon :: words more := fun more =>
      GoJson.words_punctuation (by decide) (by decide)
    rw [plainMembers, memberLexemes, append_assoc, append_assoc, append_assoc, words_separator,
      GoJson.words_quote, cons_append, hcolon, append_assoc, hhead, htail]
    simp

end

/-! ### Parsing the lexemes of a tree -/

namespace Decoder

def lead : TokenState → List Lexeme
  | .arrayComma | .objectComma => [.comma]
  | .objectColon => [.colon]
  | _ => []

def lexemes (dec : Decoder) : List Lexeme := dec.rest.map (·.1)

/-- Where a value may begin. -/
def ValueDue (state : TokenState) : Prop :=
  state = .topValue ∨ state = .objectColon ∨ state = .arrayStart ∨ state = .arrayComma

variable {dec : Decoder} {t : Token} {more : List Lexeme}

theorem token_of_lead {state : TokenState} (h : dec.lexemes = lead dec.state ++ .token t :: more)
    (hstate : (dec.state = .arrayComma ∧ state = .arrayValue) ∨ (dec.state = .objectComma ∧ state = .objectKey) ∨
      (dec.state = .objectColon ∧ state = .objectValue) ∨ lead dec.state = [] ∧ state = dec.state) :
    ∃ stop rest, rest.map (·.1) = more ∧ dec.token = accept t stop rest state dec.stack := by
  unfold lexemes at h
  obtain ⟨rest, current, stack, offset⟩ := dec
  dsimp only at h hstate
  have hcomma : ∀ lexeme, (skipped current lexeme = some state) → lead current = [lexeme] →
      ∃ stop rest', rest'.map (·.1) = more ∧
        (⟨rest, current, stack, offset⟩ : Decoder).token = accept t stop rest' state stack := by
    intro lexeme hskip hlead
    rw [hlead, singleton_append] at h
    obtain ⟨⟨first, stop⟩, tail, rfl, rfl, htail⟩ := map_eq_cons_iff.1 h
    obtain ⟨⟨second, stop'⟩, rest', rfl, rfl, hrest⟩ := map_eq_cons_iff.1 htail
    exact ⟨stop', rest', hrest, (tokenFrom_skip hskip).trans (tokenFrom_token _ _ _ _ _)⟩
  rcases hstate with ⟨rfl, rfl⟩ | ⟨rfl, rfl⟩ | ⟨rfl, rfl⟩ | ⟨hlead, rfl⟩
  · exact hcomma .comma rfl rfl
  · exact hcomma .comma rfl rfl
  · exact hcomma .colon rfl rfl
  · rw [hlead, nil_append] at h
    obtain ⟨⟨first, stop⟩, rest', rfl, rfl, hrest⟩ := map_eq_cons_iff.1 h
    exact ⟨stop, rest', hrest, tokenFrom_token _ _ _ _ _⟩

theorem token_of_valueDue (h : dec.lexemes = lead dec.state ++ .token t :: more) (hdue : ValueDue dec.state) :
    ∃ state stop rest, rest.map (·.1) = more ∧ dec.token = accept t stop rest state dec.stack ∧
      state.valueAllowed = true ∧ state.valueEnd = dec.state.behind := by
  rcases hdue with hstate | hstate | hstate | hstate
  · obtain ⟨stop, rest, hrest, htoken⟩ := token_of_lead h (.inr (.inr (.inr ⟨by rw [hstate]; rfl, rfl⟩)))
    exact ⟨_, stop, rest, hrest, htoken, by rw [hstate]; rfl, by rw [hstate]; rfl⟩
  · obtain ⟨stop, rest, hrest, htoken⟩ := token_of_lead h (.inr (.inr (.inl ⟨hstate, rfl⟩)))
    exact ⟨_, stop, rest, hrest, htoken, rfl, by rw [hstate]; rfl⟩
  · obtain ⟨stop, rest, hrest, htoken⟩ := token_of_lead h (.inr (.inr (.inr ⟨by rw [hstate]; rfl, rfl⟩)))
    exact ⟨_, stop, rest, hrest, htoken, by rw [hstate]; rfl, by rw [hstate]; rfl⟩
  · obtain ⟨stop, rest, hrest, htoken⟩ := token_of_lead h (.inl ⟨hstate, rfl⟩)
    exact ⟨_, stop, rest, hrest, htoken, rfl, by rw [hstate]; rfl⟩

theorem token_scalar (h : dec.lexemes = lead dec.state ++ .token t :: more) (hdue : ValueDue dec.state)
    (hscalar : t.isScalar = true) : ∃ dec', dec.token = .ok (t, dec') ∧ dec'.lexemes = more ∧
      dec'.state = dec.state.behind ∧ dec'.stack = dec.stack := by
  obtain ⟨state, stop, rest, hrest, htoken, hallowed, hend⟩ := token_of_valueDue h hdue
  refine ⟨⟨rest, state.valueEnd, dec.stack, stop⟩, ?_, hrest, hend, rfl⟩
  rw [htoken]
  cases t with
  | delim d => cases hscalar
  | string text => cases state <;> first | rfl | cases hallowed
  | _ => exact if_pos hallowed

theorem token_openArray (h : dec.lexemes = lead dec.state ++ .token (.delim .openArray) :: more)
    (hdue : ValueDue dec.state) : ∃ dec' outer, dec.token = .ok (.delim .openArray, dec') ∧ dec'.lexemes = more ∧
      dec'.state = .arrayStart ∧ dec'.stack = outer :: dec.stack ∧ outer.valueEnd = dec.state.behind := by
  obtain ⟨state, stop, rest, hrest, htoken, hallowed, hend⟩ := token_of_valueDue h hdue
  refine ⟨⟨rest, .arrayStart, state :: dec.stack, stop⟩, state, ?_, hrest, rfl, rfl, hend⟩
  rw [htoken]
  exact if_pos hallowed

theorem token_openObject (h : dec.lexemes = lead dec.state ++ .token (.delim .openObject) :: more)
    (hdue : ValueDue dec.state) : ∃ dec' outer, dec.token = .ok (.delim .openObject, dec') ∧ dec'.lexemes = more ∧
      dec'.state = .objectStart ∧ dec'.stack = outer :: dec.stack ∧ outer.valueEnd = dec.state.behind := by
  obtain ⟨state, stop, rest, hrest, htoken, hallowed, hend⟩ := token_of_valueDue h hdue
  refine ⟨⟨rest, .objectStart, state :: dec.stack, stop⟩, state, ?_, hrest, rfl, rfl, hend⟩
  rw [htoken]
  exact if_pos hallowed

theorem token_member {name : String} (h : dec.lexemes = lead dec.state ++ .token (.string name) :: more)
    (hdue : dec.state.inObject = true) : ∃ dec', dec.token = .ok (.string name, dec') ∧ dec'.lexemes = more ∧
      dec'.state = .objectColon ∧ dec'.stack = dec.stack := by
  cases hstate : dec.state <;> rw [hstate] at hdue <;> simp [TokenState.inObject] at hdue
  · obtain ⟨stop, rest, hrest, htoken⟩ := token_of_lead h (.inr (.inr (.inr ⟨by rw [hstate]; rfl, rfl⟩)))
    rw [hstate] at htoken
    exact ⟨_, htoken, hrest, rfl, rfl⟩
  · obtain ⟨stop, rest, hrest, htoken⟩ := token_of_lead h (.inr (.inl ⟨hstate, rfl⟩))
    exact ⟨_, htoken, hrest, rfl, rfl⟩

theorem token_end {d : Delim} {outer : TokenState} {stack : List TokenState} (hstack : dec.stack = outer :: stack)
    (h : dec.lexemes = .token (.delim d) :: more) (hclose : (d = .closeArray ∧ dec.state.inArray = true) ∨
      d = .closeObject ∧ dec.state.inObject = true) :
    dec.more = false ∧ ∃ dec', dec.token = .ok (.delim d, dec') ∧ dec'.lexemes = more ∧
      dec'.state = outer.valueEnd ∧ dec'.stack = stack := by
  unfold lexemes at h
  obtain ⟨rest, current, stack', offset⟩ := dec
  dsimp only at h hstack hclose
  obtain ⟨⟨first, stop⟩, rest', rfl, rfl, hrest⟩ := map_eq_cons_iff.1 h
  subst hstack
  rcases hclose with ⟨rfl, hstate⟩ | ⟨rfl, hstate⟩
  · cases current <;> first | exact absurd hstate (by decide) | exact ⟨rfl, _, rfl, hrest, rfl, rfl⟩
  · cases current <;> first | exact absurd hstate (by decide) | exact ⟨rfl, _, rfl, hrest, rfl, rfl⟩

end Decoder

section Parsing

open Decoder

theorem inArray_iff {state : TokenState} : state.inArray = true ↔ state = .arrayStart ∨ state = .arrayComma := by
  cases state <;> simp [TokenState.inArray]

theorem inObject_iff {state : TokenState} : state.inObject = true ↔ state = .objectStart ∨ state = .objectComma := by
  cases state <;> simp [TokenState.inObject]

theorem more_of_lexemes {dec : Decoder} {lexeme : Lexeme} {more : List Lexeme} (h : dec.lexemes = lexeme :: more)
    (harray : lexeme ≠ .token (.delim .closeArray)) (hobject : lexeme ≠ .token (.delim .closeObject)) :
    dec.more = true := by
  obtain ⟨⟨first, stop⟩, rest, hrest, rfl, -⟩ := map_eq_cons_iff.1 h
  unfold Decoder.more
  rw [hrest]
  split
  · contradiction
  · rename_i heq
    exact absurd (Prod.mk.inj (List.cons.inj heq).1).1 harray
  · rename_i heq
    exact absurd (Prod.mk.inj (List.cons.inj heq).1).1 hobject
  · rfl

theorem treeLexemes_head (n : Node) : ∃ t more, treeLexemes n = .token t :: more ∧ t ≠ .delim .closeArray ∧
    t ≠ .delim .closeObject := by
  cases n <;> exact ⟨_, _, rfl, by simp, by simp⟩

theorem treeLexemes_length_pos (n : Node) : 0 < (treeLexemes n).length := by
  obtain ⟨t, more, htree, -⟩ := treeLexemes_head n
  rw [htree]
  exact Nat.succ_pos _

theorem more_of_tree {dec : Decoder} {n : Node} {more : List Lexeme}
    (h : dec.lexemes = lead dec.state ++ treeLexemes n ++ more) : dec.more = true := by
  obtain ⟨t, tail, htree, harray, hobject⟩ := treeLexemes_head n
  rw [htree] at h
  unfold lead at h
  split at h
  · exact more_of_lexemes h (by simp) (by simp)
  · exact more_of_lexemes h (by simp) (by simp)
  · exact more_of_lexemes h (by simp) (by simp)
  · exact more_of_lexemes h (by simpa using harray) (by simpa using hobject)

theorem Repeated.append {errors errors' : List Error} {pointers pointers' : List String} (h : Repeated errors pointers)
    (h' : Repeated errors' pointers') : Repeated (errors ++ errors') (pointers ++ pointers') := by
  rw [Repeated, map_append, map_append, h, h']

mutual

theorem parseValue_tree : ∀ (n : Node) (fuel : ℕ) (b : Building) (path : String) (depth : ℤ) {more : List Lexeme},
    (treeLexemes n).length ≤ fuel → ValueDue b.dec.state → b.dec.lexemes = lead b.dec.state ++ treeLexemes n ++ more →
    ∃ dec' errors, parseValue fuel b path depth 0 = (.ok n, ⟨dec', b.duplicates ++ errors⟩) ∧
      Repeated errors (repeats path n) ∧ dec'.lexemes = more ∧ dec'.state = b.dec.state.behind ∧ dec'.stack = b.dec.stack
  | n, 0, b, path, depth, more, hfuel, _, _ => by
    obtain ⟨t, tail, htree, -⟩ := treeLexemes_head n
    rw [htree] at hfuel
    exact absurd hfuel (by simp)
  | .null, fuel + 1, b, path, depth, more, _, hdue, h => by
    obtain ⟨dec', htoken, hdec⟩ := token_scalar (t := .null) (by simpa [treeLexemes] using h) hdue rfl
    refine ⟨dec', [], ?_, rfl, hdec⟩
    rw [parseValue, if_neg (by simp), htoken, append_nil]
  | .bool value, fuel + 1, b, path, depth, more, _, hdue, h => by
    obtain ⟨dec', htoken, hdec⟩ := token_scalar (t := .bool value) (by simpa [treeLexemes] using h) hdue rfl
    refine ⟨dec', [], ?_, rfl, hdec⟩
    rw [parseValue, if_neg (by simp), htoken, append_nil]
  | .number text, fuel + 1, b, path, depth, more, _, hdue, h => by
    obtain ⟨dec', htoken, hdec⟩ := token_scalar (t := .number text) (by simpa [treeLexemes] using h) hdue rfl
    refine ⟨dec', [], ?_, rfl, hdec⟩
    rw [parseValue, if_neg (by simp), htoken, append_nil]
  | .string text, fuel + 1, b, path, depth, more, _, hdue, h => by
    obtain ⟨dec', htoken, hdec⟩ := token_scalar (t := .string text) (by simpa [treeLexemes] using h) hdue rfl
    refine ⟨dec', [], ?_, rfl, hdec⟩
    rw [parseValue, if_neg (by simp), htoken, append_nil]
  | .array elements, fuel + 1, b, path, depth, more, hfuel, hdue, h => by
    obtain ⟨dec, outer, htoken, hlexemes, hstate, hstack, hend⟩ :=
      token_openArray (show b.dec.lexemes = lead b.dec.state ++ .token (.delim .openArray) ::
        (elementLexemes true elements ++ .token (.delim .closeArray) :: more) by simpa [treeLexemes] using h) hdue
    obtain ⟨dec', errors, hparse, herrors, hrest, hstate', hstack'⟩ := parseElements_tree elements fuel dec b.duplicates
      path depth 0 [] (by rw [hstate]; simpa [treeLexemes] using hfuel) (by rw [hstate]; rfl) hstack
      (by rw [hstate]; exact hlexemes)
    refine ⟨dec', errors, ?_, herrors, hrest, hstate'.trans hend, hstack'⟩
    rw [parseValue, if_neg (by simp), htoken]
    exact hparse
  | .object members, fuel + 1, b, path, depth, more, hfuel, hdue, h => by
    obtain ⟨dec, outer, htoken, hlexemes, hstate, hstack, hend⟩ :=
      token_openObject (show b.dec.lexemes = lead b.dec.state ++ .token (.delim .openObject) ::
        (memberLexemes true members ++ .token (.delim .closeObject) :: more) by simpa [treeLexemes] using h) hdue
    obtain ⟨dec', errors, hparse, herrors, hrest, hstate', hstack'⟩ := parseMembers_tree members fuel dec b.duplicates
      path depth [] [] (by rw [hstate]; simpa [treeLexemes] using hfuel) (by rw [hstate]; rfl) hstack
      (by rw [hstate]; exact hlexemes)
    refine ⟨dec', errors, ?_, herrors, hrest, hstate'.trans hend, hstack'⟩
    rw [parseValue, if_neg (by simp), htoken]
    exact hparse

theorem parseElements_tree : ∀ (elements : List Node) (fuel : ℕ) (dec : Decoder) (duplicates : List Error)
    (path : String) (depth : ℤ) (index : ℕ) (acc : List Node) {outer : TokenState} {stack : List TokenState}
    {more : List Lexeme},
    (elementLexemes (decide (dec.state = .arrayStart)) elements).length + 1 ≤ fuel → dec.state.inArray = true →
    dec.stack = outer :: stack →
    dec.lexemes = elementLexemes (decide (dec.state = .arrayStart)) elements ++ .token (.delim .closeArray) :: more →
    ∃ dec' errors, parseElements fuel ⟨dec, duplicates⟩ path depth 0 index acc =
      (.ok (.array (acc ++ elements)), ⟨dec', duplicates ++ errors⟩) ∧
      Repeated errors (elementsRepeats path index elements) ∧ dec'.lexemes = more ∧ dec'.state = outer.valueEnd ∧
      dec'.stack = stack
  | elements, 0, dec, duplicates, path, depth, index, acc, outer, stack, more, hfuel, _, _, _ =>
    absurd hfuel (by simp)
  | [], fuel + 1, dec, duplicates, path, depth, index, acc, outer, stack, more, _, hstate, hstack, h => by
    obtain ⟨hmore, dec', htoken, hdec⟩ := token_end hstack h (.inl ⟨rfl, hstate⟩)
    refine ⟨dec', [], ?_, rfl, hdec⟩
    rw [parseElements, if_neg (by simp [hmore]), htoken, append_nil, append_nil]
  | element :: elements, fuel + 1, dec, duplicates, path, depth, index, acc, outer, stack, more, hfuel, hstate, hstack,
      h => by
    obtain ⟨hlead, hdue, hbehind⟩ : separatorLexeme (decide (dec.state = .arrayStart)) = lead dec.state ∧
        ValueDue dec.state ∧ dec.state.behind = .arrayComma := by
      rcases inArray_iff.1 hstate with hdec | hdec <;> rw [hdec] <;> exact ⟨rfl, by simp [ValueDue], rfl⟩
    have hpos := treeLexemes_length_pos element
    rw [elementLexemes, hlead] at h hfuel
    simp only [length_append] at hfuel
    have hlexemes : dec.lexemes = lead dec.state ++ treeLexemes element ++
        (elementLexemes false elements ++ .token (.delim .closeArray) :: more) := by
      rw [h, append_assoc _ (elementLexemes false elements)]
    obtain ⟨dec₁, errors₁, hparse₁, herrors₁, hrest₁, hstate₁, hstack₁⟩ := parseValue_tree element fuel
      ⟨dec, duplicates⟩ (joinPointer path (toString index)) (depth + 1) (by omega) hdue hlexemes
    rw [hbehind] at hstate₁
    have hflag : decide (dec₁.state = .arrayStart) = false := by
      rw [hstate₁]
      decide
    obtain ⟨dec', errors, hparse, herrors, hdec⟩ := parseElements_tree elements fuel dec₁ (duplicates ++ errors₁) path
      depth (index + 1) (acc ++ [element]) (by rw [hflag]; omega) (by rw [hstate₁]; rfl) (hstack₁.trans hstack)
      (by rw [hflag]; exact hrest₁)
    refine ⟨dec', errors₁ ++ errors, ?_, herrors₁.append herrors, hdec⟩
    rw [parseElements, if_pos (more_of_tree hlexemes), hparse₁]
    dsimp only
    rw [hparse, append_assoc, append_assoc, singleton_append]

theorem parseMembers_tree : ∀ (members : List (String × Node)) (fuel : ℕ) (dec : Decoder) (duplicates : List Error)
    (path : String) (depth : ℤ) (seen : List String) (acc : List (String × Node)) {outer : TokenState}
    {stack : List TokenState} {more : List Lexeme},
    (memberLexemes (decide (dec.state = .objectStart)) members).length + 1 ≤ fuel → dec.state.inObject = true →
    dec.stack = outer :: stack →
    dec.lexemes = memberLexemes (decide (dec.state = .objectStart)) members ++ .token (.delim .closeObject) :: more →
    ∃ dec' errors, parseMembers fuel ⟨dec, duplicates⟩ path depth 0 seen acc =
      (.ok (.object (acc ++ members)), ⟨dec', duplicates ++ errors⟩) ∧
      Repeated errors (membersRepeats path seen members) ∧ dec'.lexemes = more ∧ dec'.state = outer.valueEnd ∧
      dec'.stack = stack
  | members, 0, dec, duplicates, path, depth, seen, acc, outer, stack, more, hfuel, _, _, _ =>
    absurd hfuel (by simp)
  | [], fuel + 1, dec, duplicates, path, depth, seen, acc, outer, stack, more, _, hstate, hstack, h => by
    obtain ⟨hmore, dec', htoken, hdec⟩ := token_end hstack h (.inr ⟨rfl, hstate⟩)
    refine ⟨dec', [], ?_, rfl, hdec⟩
    rw [parseMembers, if_neg (by simp [hmore]), htoken, append_nil, append_nil]
  | (name, value) :: members, fuel + 1, dec, duplicates, path, depth, seen, acc, outer, stack, more, hfuel, hstate,
      hstack, h => by
    have hlead : separatorLexeme (decide (dec.state = .objectStart)) = lead dec.state := by
      rcases inObject_iff.1 hstate with hdec | hdec <;> rw [hdec] <;> rfl
    rw [memberLexemes, hlead] at h hfuel
    simp only [length_append, length_cons] at hfuel
    have hlexemes : dec.lexemes = lead dec.state ++ .token (.string name) :: .colon :: (treeLexemes value ++
        (memberLexemes false members ++ .token (.delim .closeObject) :: more)) := by
      rw [h]
      simp
    have hmore : dec.more = true := by
      unfold lead at hlexemes
      split at hlexemes <;> exact more_of_lexemes hlexemes (by simp) (by simp)
    obtain ⟨dec₁, htoken, hrest₁, hstate₁, hstack₁⟩ := token_member hlexemes hstate
    obtain ⟨own, hown, hrepeated⟩ : ∃ own, (if name ∈ seen then
        duplicates ++ [⟨.duplicateKey, joinPointer path name, dec₁.offset⟩] else duplicates) = duplicates ++ own ∧
        Repeated own (if name ∈ seen then [joinPointer path name] else []) := by
      split_ifs
      · exact ⟨_, rfl, rfl⟩
      · exact ⟨[], (append_nil _).symm, rfl⟩
    obtain ⟨dec₂, errors₂, hparse₂, herrors₂, hrest₂, hstate₂, hstack₂⟩ := parseValue_tree value fuel
      ⟨dec₁, duplicates ++ own⟩ (joinPointer path name) (depth + 1) (by omega) (by rw [hstate₁]; simp [ValueDue])
      (by rw [hstate₁]; exact hrest₁)
    dsimp only at hstate₂ hstack₂
    rw [hstate₁] at hstate₂
    have hflag : decide (dec₂.state = .objectStart) = false := by
      rw [hstate₂]
      decide
    obtain ⟨dec', errors, hparse, herrors, hdec⟩ := parseMembers_tree members fuel dec₂ (duplicates ++ own ++ errors₂) path
      depth (name :: seen) (acc ++ [(name, value)]) (by rw [hflag]; omega) (by rw [hstate₂]; rfl)
      ((hstack₂.trans hstack₁).trans hstack) (by rw [hflag]; exact hrest₂)
    refine ⟨dec', own ++ errors₂ ++ errors, ?_, (hrepeated.append herrors₂).append herrors, hdec⟩
    rw [parseMembers, if_pos hmore, htoken]
    dsimp only
    rw [hown, hparse₂]
    dsimp only
    rw [hparse, append_assoc, singleton_append]
    simp only [append_assoc]

end

end Parsing

theorem parse_spells {source : Source} {src : List UInt8} {n : Node} (h : Spells source src n) :
    ∃ errors, Repeated errors (repeats "" n) ∧
      Parse source src = match selectDuplicateError errors with | some e => .error e | none => .ok n := by
  have hparse : Parse source src = if source.utf8Valid src then build (source.lexemes src) 0
      else .error ⟨.invalidUTF8, "", 0⟩ := rfl
  have hlength := congrArg List.length h.lexemes
  rw [length_map] at hlength
  obtain ⟨dec', errors, hbuilt, herrors, hrest, -⟩ := parseValue_tree n (2 * (source.lexemes src).length + 2)
    ⟨.new (source.lexemes src), []⟩ "" 1 (by omega) (.inl rfl) (h.lexemes.trans (append_nil (treeLexemes n)).symm)
  have hend : dec'.rest = [] := map_eq_nil_iff.1 hrest
  have htrailing : trailing dec' = none := by
    unfold trailing Decoder.token
    rw [hend]
    rfl
  refine ⟨errors, herrors, ?_⟩
  rw [hparse, if_pos h.utf8, build, hbuilt]
  dsimp only
  rw [finish, htrailing]
  rfl

theorem Repeated.eq_nil {errors : List Error} (h : Repeated errors []) : errors = [] := map_eq_nil_iff.1 h

mutual

theorem Node.Distinct.repeats_eq_nil : ∀ {n : Node} {path : String}, n.Distinct → repeats path n = []
  | .null, _, _ | .bool _, _, _ | .number _, _, _ | .string _, _, _ => rfl
  | .array elements, path, h => elementsRepeats_eq_nil fun _ hmem => h.of_mem_array hmem
  | .object members, path, h => membersRepeats_eq_nil (fun _ hmem => h.of_member hmem) h.nodup (by simp)

theorem elementsRepeats_eq_nil : ∀ {elements : List Node} {path : String} {index : ℕ},
    (∀ element ∈ elements, element.Distinct) → elementsRepeats path index elements = []
  | [], _, _, _ => rfl
  | element :: elements, path, index, h => by
    rw [elementsRepeats, (h _ mem_cons_self).repeats_eq_nil,
      elementsRepeats_eq_nil fun e he => h e (mem_cons_of_mem _ he), append_nil]

theorem membersRepeats_eq_nil : ∀ {members : List (String × Node)} {path : String} {seen : List String},
    (∀ member ∈ members, member.2.Distinct) → (members.map (·.1)).Nodup → (∀ member ∈ members, member.1 ∉ seen) →
    membersRepeats path seen members = []
  | [], _, _, _, _, _ => rfl
  | (name, value) :: members, path, seen, h, hnodup, hseen => by
    rw [map_cons, nodup_cons] at hnodup
    rw [membersRepeats, if_neg (hseen _ mem_cons_self),
      Node.Distinct.repeats_eq_nil (n := value) (h _ mem_cons_self),
      membersRepeats_eq_nil (fun m hm => h m (mem_cons_of_mem _ hm)) hnodup.2 ?_]
    · rfl
    · intro member hmember hmem
      rcases mem_cons.1 hmem with heq | hmem
      · exact hnodup.1 (mem_map.2 ⟨member, hmember, heq⟩)
      · exact hseen member (mem_cons_of_mem _ hmember) hmem

end

theorem spells_plain {n : Node} (hvalid : n.ValidNumbers) : Spells GoJson.source (utf8Bytes (plain n)) n := by
  have hread := words_plain n hvalid (show NumberEnd [] from fun _ _ heq => by cases heq)
  rw [append_nil] at hread
  refine ⟨congrArg Option.isSome (utf8Decode_utf8Bytes (plain n)), ?_⟩
  have hlexemes : GoJson.source.lexemes (utf8Bytes (plain n)) = GoJson.lexemesOf (plain n) :=
    congrArg (fun text : Option (List Char) => GoJson.lexemesOf (text.getD [])) (utf8Decode_utf8Bytes (plain n))
  rw [hlexemes, GoJson.map_lexemesOf, hread]
  exact append_nil _

/-- A tree that is written as it stands is parsed to itself. -/
theorem parse_plain {n : Node} (h : n.Distinct) (hvalid : n.ValidNumbers) :
    Parse GoJson.source (utf8Bytes (plain n)) = .ok n := by
  obtain ⟨errors, herrors, hparse⟩ := parse_spells (spells_plain hvalid)
  rw [h.repeats_eq_nil] at herrors
  rw [hparse, herrors.eq_nil]
  rfl

section Sorting

variable {a b : Node}

theorem insertionSort_eq_of_perm {α : Type*} {as bs : List (String × α)} (h : as.Perm bs)
    (hnodup : (as.map (·.1)).Nodup) :
    as.insertionSort (fun a b => a.1 ≤ b.1) = bs.insertionSort fun a b => a.1 ≤ b.1 := by
  refine List.Perm.eq_of_pairwise (fun x y hx hy hle hge => ?_) (pairwise_insertionSort _ as)
    (pairwise_insertionSort _ bs) (((perm_insertionSort _ as).trans h).trans
      (perm_insertionSort _ bs).symm)
  have hx' := (mem_insertionSort _).1 hx
  have hy' := h.mem_iff.2 ((mem_insertionSort _).1 hy)
  exact inj_on_of_nodup_map hnodup hx' hy' (le_antisymm hle hge)

theorem sortedElements_eq (elements : List Node) : sortedElements elements = elements.map sorted := by
  induction elements with
  | nil => rfl
  | cons element elements ih => rw [sortedElements, ih, map_cons]

theorem sortedValues_eq (members : List (String × Node)) :
    sortedValues members = members.map fun member => (member.1, sorted member.2) := by
  induction members with
  | nil => rfl
  | cons member members ih => rw [sortedValues, ih, map_cons]

mutual

theorem writeStrictJSON_eq : ∀ n : Node, writeStrictJSON n = plain (sorted n)
  | .null | .bool _ | .number _ | .string _ => rfl
  | .array elements => by rw [writeStrictJSON, sorted, plain, writeElements_eq]
  | .object members => by
    have hrows : ∀ (first : Bool) (members : List (String × Node)),
        writeRows first (members.map fun member => (member.1, plain member.2)) = plainMembers first members := by
      intro first members
      induction members generalizing first with
      | nil => rfl
      | cons member members ih => rw [map_cons, writeRows, plainMembers, ih]
    rw [writeStrictJSON, sorted, plain, rows_eq members, ← hrows,
      map_insertionSort (fun a b : String × Node => a.1 ≤ b.1) (fun a b : String × List Char => a.1 ≤ b.1)]
    exact fun _ _ _ _ => Iff.rfl

theorem writeElements_eq (first : Bool) : ∀ elements : List Node,
    writeElements first elements = plainElements first (sortedElements elements)
  | [] => rfl
  | element :: elements => by
    rw [writeElements, sortedElements, plainElements, writeStrictJSON_eq element, writeElements_eq false elements]

theorem rows_eq : ∀ members : List (String × Node),
    rows members = (sortedValues members).map fun member => (member.1, plain member.2)
  | [] => rfl
  | (name, value) :: members => by
    rw [rows, sortedValues, map_cons, writeStrictJSON_eq value, rows_eq members]

end

mutual

theorem reordered_sorted : ∀ n : Node, Reordered n (sorted n)
  | .null => .null
  | .bool _ => .bool
  | .number _ => .number
  | .string _ => .string
  | .array elements => by
    rw [sorted, sortedElements_eq]
    exact .array (by simp) (reordered_elements elements)
  | .object members => by
    rw [sorted, sortedValues_eq]
    exact .object _ (by simp) (reordered_members members) (perm_insertionSort _ _).symm

theorem reordered_elements : ∀ elements : List Node,
    ∀ pair ∈ elements.zip (elements.map sorted), Reordered pair.1 pair.2
  | [] => by simp
  | element :: elements => by
    rw [map_cons, zip_cons_cons]
    exact forall_mem_cons.2 ⟨reordered_sorted element, reordered_elements elements⟩

theorem reordered_members : ∀ members : List (String × Node),
    ∀ pair ∈ members.zip (members.map fun member => (member.1, sorted member.2)), Reordered pair.1.2 pair.2.2
  | [] => by simp
  | (name, value) :: members => by
    rw [map_cons, zip_cons_cons]
    exact forall_mem_cons.2 ⟨reordered_sorted value, reordered_members members⟩

end

theorem map_eq_of_zip {α β γ : Type*} {f : α → γ} {g : β → γ} {as : List α} {bs : List β}
    (hlength : as.length = bs.length) (h : ∀ pair ∈ as.zip bs, f pair.1 = g pair.2) : as.map f = bs.map g := by
  rw [← forall₂_eq_eq_eq, forall₂_map_left_iff, forall₂_map_right_iff, forall₂_iff_zip]
  exact ⟨hlength, fun hmem => h _ hmem⟩

theorem Reordered.sorted_eq (h : Reordered a b) (ha : a.Distinct) : sorted a = sorted b := by
  induction h with
  | null | bool | number | string => rfl
  | array hlength _ ih =>
    rw [sorted, sorted, sortedElements_eq, sortedElements_eq]
    refine congrArg Node.array (map_eq_of_zip hlength fun pair hpair => ?_)
    exact ih pair hpair (ha.of_mem_array (of_mem_zip hpair).1)
  | @object as bs cs hnames _ hperm ih =>
    have hvalues : as.map (fun member => (member.1, sorted member.2)) =
        cs.map fun member => (member.1, sorted member.2) := by
      refine map_eq_of_zip (by simpa using congrArg List.length hnames) fun pair hpair => ?_
      exact Prod.ext ((names_eq_iff.1 hnames).2 pair hpair) (ih pair hpair (ha.of_mem (of_mem_zip hpair).1))
    rw [sorted, sorted, sortedValues_eq, sortedValues_eq, hvalues]
    refine congrArg Node.object (insertionSort_eq_of_perm (hperm.map _) ?_)
    rw [map_map]
    exact hnames ▸ ha.nodup

end Sorting

/-- The encoding of a parsed tree is parsed to an equal one, with the same numbers, whose encoding is the same; and the
order of members has no part in it. -/
theorem encode_canonical {src : List UInt8} {n : Node} (h : Parse GoJson.source src = .ok n) :
    (∃ m, Parse GoJson.source (encodeStrictJSON n) = .ok m ∧ Equal n m = true ∧ Reordered n m ∧
      encodeStrictJSON m = encodeStrictJSON n) ∧
    ∀ m, Reordered n m → encodeStrictJSON m = encodeStrictJSON n := by
  have hparsed : Parsed n := ⟨src, h⟩
  have hsorted := reordered_sorted n
  have hencode : ∀ m, Reordered n m → encodeStrictJSON m = encodeStrictJSON n := fun m hm => by
    rw [encodeStrictJSON, encodeStrictJSON, writeStrictJSON_eq, writeStrictJSON_eq, hm.sorted_eq hparsed.distinct]
  refine ⟨⟨sorted n, ?_, ?_, hsorted, hencode _ hsorted⟩, hencode⟩
  · rw [encodeStrictJSON, writeStrictJSON_eq]
    exact parse_plain (hsorted.distinct hparsed.distinct) (hsorted.validNumbers hparsed.validNumbers)
  · exact (equal_iff hparsed.distinct (hsorted.distinct hparsed.distinct)).2 (hsorted.sameValue hparsed.validNumbers)

/-- A tree whose members are not in the order of their names. -/
def unsortedTree : Node := .object [("b", .number "1E+2"), ("a", .array [.string "<\u2028\n", .null])]

theorem encode_canonical_unsorted :
    (∃ m, Parse GoJson.source (encodeStrictJSON unsortedTree) = .ok m ∧ Equal unsortedTree m = true ∧
      Reordered unsortedTree m ∧ encodeStrictJSON m = encodeStrictJSON unsortedTree) ∧
    ∀ m, Reordered unsortedTree m → encodeStrictJSON m = encodeStrictJSON unsortedTree := by
  refine encode_canonical (parse_plain (.object (by decide) ?_) (.object ?_))
  · have hlist : (Node.array [.string "<\u2028\n", .null]).Distinct :=
      .array (forall_mem_cons.2 ⟨.string, forall_mem_singleton.2 .null⟩)
    exact forall_mem_cons.2 ⟨.number, forall_mem_singleton.2 hlist⟩
  · have hlist : (Node.array [.string "<\u2028\n", .null]).ValidNumbers :=
      .array (forall_mem_cons.2 ⟨.string, forall_mem_singleton.2 .null⟩)
    exact forall_mem_cons.2 ⟨.number (by decide), forall_mem_singleton.2 hlist⟩

example : encodeStrictJSON unsortedTree =
    utf8Bytes "\x7b\"a\":[\"\\u003c\\u2028\\n\",null],\"b\":1E+2\x7d".toList := by decide

end StrictJson

end AiOrg
