import AiOrg.StrictJson.Parse

/-!
# Which error is reported

The loops over the duplicates pick the first least one (`selectDuplicateError_eq`), and so does the
trie of the preflight, so both select the same error (`selectPreflightError_eq`).
-/

namespace AiOrg

open List

namespace StrictJson

open Selection

def duplicateKey (e : Error) : List Char ×ₗ ℕ := entryKey (e.path.toList, e.offset)

/-- Errors in the order of `selectParseError`. -/
def errorKey (e : Error) : List Char ×ₗ (ℕ ×ₗ ℕ) :=
  toLex (e.path.toList, toLex (parseErrorRank e.code, e.offset))

theorem duplicateKey_lt {e f : Error} :
    duplicateKey e < duplicateKey f ↔ e.path < f.path ∨ e.path = f.path ∧ e.offset < f.offset := by
  unfold duplicateKey
  rw [entryKey_lt, ← String.lt_iff_toList_lt, String.toList_inj]

theorem errorKey_lt {e f : Error} : errorKey e < errorKey f ↔ e.path < f.path ∨
    e.path = f.path ∧ parseErrorRank e.code < parseErrorRank f.code ∨
      e.path = f.path ∧ parseErrorRank e.code = parseErrorRank f.code ∧ e.offset < f.offset := by
  unfold errorKey
  rw [Prod.Lex.toLex_lt_toLex, Prod.Lex.toLex_lt_toLex, ← String.lt_iff_toList_lt,
    String.toList_inj]
  tauto

theorem selectDuplicateError_eq (candidates : List Error) :
    selectDuplicateError candidates = least duplicateKey candidates := by
  induction candidates using reverseRecOn with
  | nil => rfl
  | append_singleton candidates e ih =>
    unfold selectDuplicateError at ih ⊢
    rw [foldl_append, ih, least_append_singleton, foldl_cons, foldl_nil]
    rcases least duplicateKey candidates with _ | best
    · rfl
    · simp only [better, duplicateKey_lt]
      split_ifs <;> rfl

theorem selectByPath_eq (primary : Error) (duplicates : List Error) :
    selectByPath primary duplicates = duplicates.foldl (better errorKey) primary := by
  unfold selectByPath better
  simp only [errorKey_lt]

/-! ### The trie -/

def pathsOf (duplicates : List Error) : DuplicatePaths :=
  Trie.ofList (duplicates.map fun e => (e.path.toList, e.offset))

theorem materializeScanPath_cons (name : String) (path : ScanPath) :
    materializeScanPath (name :: path) = joinPointer (materializeScanPath path) name := by
  have hescape : ∀ token : List Char, (token.flatMap fun c =>
      if c = '~' then ['~', '0'] else if c = '/' then ['~', '1'] else [c]) =
        replaceAll '/' "~1" (replaceAll '~' "~0" token) := fun token => by
    unfold replaceAll
    rw [flatMap_assoc]
    refine flatMap_congr fun c _ => ?_
    by_cases htilde : c = '~'
    · rw [if_pos htilde, if_pos htilde]
      decide
    · rw [if_neg htilde, if_neg htilde, flatMap_singleton]
      rfl
  apply String.toList_injective
  simp [materializeScanPath, joinPointer, escape, writeEscapedPointerToken, hescape]

theorem pathsOf_append (duplicates : List Error) (path : ScanPath) (offset : ℕ) :
    pathsOf (duplicates ++ [⟨.duplicateKey, materializeScanPath path, offset⟩]) =
      (pathsOf duplicates).add path offset := by
  unfold pathsOf Trie.ofList DuplicatePaths.add
  rw [map_append, foldl_append]
  rfl

/-- Diagnostics of duplicate names. -/
def AllDuplicates (duplicates : List Error) : Prop := ∀ e ∈ duplicates, e.code = .duplicateKey

theorem selected_pathsOf {duplicates : List Error} (h : AllDuplicates duplicates) :
    (pathsOf duplicates).selected = selectDuplicateError duplicates := by
  unfold DuplicatePaths.selected pathsOf
  rw [(Trie.first_ofList _).2, least_map, Option.map_map, selectDuplicateError_eq]
  have hkey : entryKey ∘ (fun e : Error => (e.path.toList, e.offset)) = duplicateKey := rfl
  rw [hkey]
  rcases hbest : least duplicateKey duplicates with _ | best
  · rfl
  · have hcode := h best (least_mem _ hbest)
    obtain ⟨code, path, offset⟩ := best
    obtain rfl : code = .duplicateKey := hcode
    simp

theorem least_errorKey {duplicates : List Error} (h : AllDuplicates duplicates) :
    least errorKey duplicates = least duplicateKey duplicates :=
  least_congr errorKey fun e he f hf => by
    rw [errorKey_lt, duplicateKey_lt, h e he, h f hf]
    simp

theorem selectParseError_eq {primary : Error} (hprimary : primary.code ≠ .depthLimit)
    {duplicates : List Error} (h : AllDuplicates duplicates) :
    selectParseError primary duplicates = match selectDuplicateError duplicates with
      | none => primary
      | some duplicate => better errorKey primary duplicate := by
  have hbypath : selectParseError primary duplicates = selectByPath primary duplicates := by
    unfold selectParseError
    split
    · rename_i hdepth _
      exact absurd hdepth hprimary
    · rfl
  rw [hbypath, selectByPath_eq, foldl_better_eq, least_errorKey h, selectDuplicateError_eq]
  rcases least duplicateKey duplicates with _ | duplicate <;> rfl

theorem selectPreflightError_eq {primary : Error} (hprimary : primary.code ≠ .depthLimit)
    {duplicates : List Error} (h : AllDuplicates duplicates) :
    selectPreflightError primary (pathsOf duplicates) = selectParseError primary duplicates := by
  unfold selectPreflightError
  rw [selected_pathsOf h, selectParseError_eq hprimary h]
  rcases hbest : selectDuplicateError duplicates with _ | best
  · rfl
  · rw [selectDuplicateError_eq] at hbest
    have hone : AllDuplicates [best] := by
      simpa [AllDuplicates] using h best (least_mem _ hbest)
    exact selectParseError_eq hprimary hone

theorem selectParseError_offset {code : ErrorCode} (hdepth : code ≠ .depthLimit)
    (hduplicate : code ≠ .duplicateKey) (path : String) (offset offset' : ℕ)
    {duplicates : List Error} (h : AllDuplicates duplicates) :
    (selectParseError ⟨code, path, offset⟩ duplicates).code =
        (selectParseError ⟨code, path, offset'⟩ duplicates).code ∧
      (selectParseError ⟨code, path, offset⟩ duplicates).path =
        (selectParseError ⟨code, path, offset'⟩ duplicates).path := by
  rw [selectParseError_eq hdepth h, selectParseError_eq hdepth h]
  rcases hbest : selectDuplicateError duplicates with _ | best
  · exact ⟨rfl, rfl⟩
  · rw [selectDuplicateError_eq] at hbest
    have hcode := h best (least_mem _ hbest)
    have hrank : parseErrorRank best.code ≠ parseErrorRank code := by
      rw [hcode]
      cases code <;> first | exact absurd rfl hduplicate | decide
    simp only [better, errorKey_lt, hrank, false_and, and_false, or_false]
    split_ifs <;> exact ⟨rfl, rfl⟩

end StrictJson

end AiOrg

/-!
## Tokens by state

What `Token` can return depends on the state of the decoder and on what `More` says: in an array or
object a closing delimiter where there is no more, and a value or a name where there is.
-/

namespace AiOrg

open List

namespace StrictJson

def Token.isScalar : Token → Bool
  | .delim _ => false
  | _ => true

namespace TokenState

/-- An array is open and its next element or its end is due. -/
def inArray : TokenState → Bool
  | arrayStart | arrayComma => true
  | _ => false

def inObject : TokenState → Bool
  | objectStart | objectComma => true
  | _ => false

def behind : TokenState → TokenState
  | arrayStart | arrayComma | arrayValue => arrayComma
  | objectColon | objectValue => objectComma
  | state => state

end TokenState

namespace Decoder

/-- A value is due. -/
def AtValue (dec : Decoder) : Prop :=
  dec.state = .topValue ∨ dec.state = .objectColon ∨ dec.state.inArray = true ∧ dec.more = true

/-- What `Token` returns where a value is due. -/
inductive BeginsValue (dec : Decoder) : Token → Decoder → Prop
  | scalar {token : Token} {dec' : Decoder} (scalar : token.isScalar = true)
      (state : dec'.state = dec.state.behind) (stack : dec'.stack = dec.stack) :
      BeginsValue dec token dec'
  | array {dec' : Decoder} {outer : TokenState} (state : dec'.state = .arrayStart)
      (stack : dec'.stack = outer :: dec.stack) (after : outer.valueEnd = dec.state.behind) :
      BeginsValue dec (.delim .openArray) dec'
  | object {dec' : Decoder} {outer : TokenState} (state : dec'.state = .objectStart)
      (stack : dec'.stack = outer :: dec.stack) (after : outer.valueEnd = dec.state.behind) :
      BeginsValue dec (.delim .openObject) dec'

variable {dec dec' : Decoder} {token : Token}

inductive Accepts (state : TokenState) (stack : List TokenState) (dec' : Decoder) : Token → Prop
  | scalar {t : Token} (scalar : t.isScalar = true) (allowed : state.valueAllowed = true)
      (state' : dec'.state = state.valueEnd) (stack' : dec'.stack = stack) : Accepts state stack dec' t
  | openArray (allowed : state.valueAllowed = true) (state' : dec'.state = .arrayStart)
      (stack' : dec'.stack = state :: stack) : Accepts state stack dec' (.delim .openArray)
  | openObject (allowed : state.valueAllowed = true) (state' : dec'.state = .objectStart)
      (stack' : dec'.stack = state :: stack) : Accepts state stack dec' (.delim .openObject)
  | closeArray {outer : TokenState} (within : state.inArray = true)
      (stack' : stack = outer :: dec'.stack) (state' : dec'.state = outer.valueEnd) :
      Accepts state stack dec' (.delim .closeArray)
  | closeObject {outer : TokenState} (within : state.inObject = true)
      (stack' : stack = outer :: dec'.stack) (state' : dec'.state = outer.valueEnd) :
      Accepts state stack dec' (.delim .closeObject)
  | name {text : String} (due : state = .objectStart ∨ state = .objectKey)
      (state' : dec'.state = .objectColon) (stack' : dec'.stack = stack) :
      Accepts state stack dec' (.string text)

theorem accept_spec {stop : ℕ} {rest : List (Lexeme × ℕ)} {state : TokenState}
    {stack : List TokenState} {t : Token} (h : accept t stop rest state stack = .ok (token, dec')) :
    token = t ∧ dec'.rest = rest ∧ Accepts state stack dec' t := by
  unfold accept at h
  split at h
  · split_ifs at h with hallowed
    cases h
    exact ⟨rfl, rfl, .openArray hallowed rfl rfl⟩
  · split_ifs at h with hallowed
    cases h
    exact ⟨rfl, rfl, .openObject hallowed rfl rfl⟩
  · cases h
    exact ⟨rfl, rfl, .closeArray rfl rfl rfl⟩
  · cases h
    exact ⟨rfl, rfl, .closeArray rfl rfl rfl⟩
  · cases h
    exact ⟨rfl, rfl, .closeObject rfl rfl rfl⟩
  · cases h
    exact ⟨rfl, rfl, .closeObject rfl rfl rfl⟩
  · cases h
  · cases h
    exact ⟨rfl, rfl, .name (.inl rfl) rfl rfl⟩
  · cases h
    exact ⟨rfl, rfl, .name (.inr rfl) rfl rfl⟩
  · split_ifs at h with hallowed
    cases h
    refine ⟨rfl, rfl, .scalar ?_ hallowed rfl rfl⟩
    cases token with
    | delim d => simp_all
    | _ => rfl

def skipped : TokenState → Lexeme → Option TokenState
  | .objectColon, .colon => some .objectValue
  | .arrayComma, .comma => some .arrayValue
  | .objectComma, .comma => some .objectKey
  | _, _ => none

theorem tokenFrom_token (stack : List TokenState) (t : Token) (stop : ℕ)
    (rest : List (Lexeme × ℕ)) (state : TokenState) :
    tokenFrom stack ((.token t, stop) :: rest) state = accept t stop rest state stack := by
  cases state <;> rfl

theorem tokenFrom_settled {stack : List TokenState} {rest : List (Lexeme × ℕ)}
    {state : TokenState} (hstate : ∀ lexeme, skipped state lexeme = none)
    (h : tokenFrom stack rest state = .ok (token, dec')) :
    ∃ stop, rest = (.token token, stop) :: dec'.rest ∧ Accepts state stack dec' token := by
  rcases rest with _ | ⟨⟨t | _ | _ | _, stop⟩, rest⟩
  · exact absurd h nofun
  · rw [tokenFrom_token] at h
    obtain ⟨rfl, rfl, haccepts⟩ := accept_spec h
    exact ⟨stop, rfl, haccepts⟩
  · have hcolon := hstate .colon
    cases state <;> first | exact absurd hcolon (by decide) | simp [tokenFrom] at h
  · have hcomma := hstate .comma
    cases state <;> first | exact absurd hcomma (by decide) | simp [tokenFrom] at h
  · cases state <;> simp [tokenFrom] at h

theorem tokenFrom_skip {stack : List TokenState} {lexeme : Lexeme} {stop : ℕ}
    {rest : List (Lexeme × ℕ)} {state state' : TokenState}
    (hskip : skipped state lexeme = some state') :
    tokenFrom stack ((lexeme, stop) :: rest) state = tokenFrom stack rest state' := by
  unfold skipped at hskip
  split at hskip <;> first | (cases hskip; rfl) | exact absurd hskip nofun

theorem skipped_settled {state state' : TokenState} {lexeme : Lexeme}
    (hskip : skipped state lexeme = some state') (other : Lexeme) : skipped state' other = none := by
  unfold skipped at hskip
  split at hskip <;> first | (cases hskip; rfl) | exact absurd hskip nofun

theorem tokenFrom_spec {stack : List TokenState} {rest : List (Lexeme × ℕ)} {state : TokenState}
    (h : tokenFrom stack rest state = .ok (token, dec')) :
    (∃ stop, rest = (.token token, stop) :: dec'.rest ∧ Accepts state stack dec' token) ∨
      ∃ lexeme stop stop' state', rest = (lexeme, stop) :: (.token token, stop') :: dec'.rest ∧
        skipped state lexeme = some state' ∧ Accepts state' stack dec' token := by
  by_cases hsettled : ∀ lexeme, skipped state lexeme = none
  · exact .inl (tokenFrom_settled hsettled h)
  rcases rest with _ | ⟨⟨lexeme, stop⟩, rest⟩
  · exact absurd h nofun
  rcases hskip : skipped state lexeme with _ | state'
  · cases lexeme with
    | token t =>
      rw [tokenFrom_token] at h
      obtain ⟨rfl, rfl, haccepts⟩ := accept_spec h
      exact .inl ⟨stop, rfl, haccepts⟩
    | _ => cases state <;> first | exact absurd hskip (by decide) | simp [tokenFrom] at h
  · rw [tokenFrom_skip hskip] at h
    obtain ⟨stop', rfl, haccepts⟩ := tokenFrom_settled (skipped_settled hskip) h
    exact .inr ⟨lexeme, stop, stop', state', rfl, hskip, haccepts⟩

theorem token_length (h : dec.token = .ok (token, dec')) : dec'.rest.length < dec.rest.length := by
  rcases tokenFrom_spec h with ⟨_, hrest, -⟩ | ⟨_, _, _, _, hrest, -⟩
  · rw [hrest]
    exact Nat.lt_succ_self _
  · rw [hrest]
    exact (Nat.lt_succ_self _).trans (Nat.lt_succ_self _)

theorem skipped_eq {state state' : TokenState} {lexeme : Lexeme}
    (h : skipped state lexeme = some state') :
    (state = .objectColon ∧ lexeme = .colon ∧ state' = .objectValue) ∨
      (state = .arrayComma ∧ lexeme = .comma ∧ state' = .arrayValue) ∨
      (state = .objectComma ∧ lexeme = .comma ∧ state' = .objectKey) := by
  unfold skipped at h
  split at h
  · exact .inl ⟨rfl, rfl, (Option.some.inj h).symm⟩
  · exact .inr (.inl ⟨rfl, rfl, (Option.some.inj h).symm⟩)
  · exact .inr (.inr ⟨rfl, rfl, (Option.some.inj h).symm⟩)
  · cases h

theorem Accepts.of_not_allowed {state : TokenState} {stack : List TokenState}
    (hstate : state.valueAllowed = false) (h : Accepts state stack dec' token) :
    token = .delim .closeArray ∧ state.inArray = true ∨
      token = .delim .closeObject ∧ state.inObject = true ∨
      ∃ name, token = .string name ∧ (state = .objectStart ∨ state = .objectKey) ∧
        dec'.state = .objectColon ∧ dec'.stack = stack := by
  cases h with
  | scalar _ hallowed => simp [hstate] at hallowed
  | openArray hallowed => simp [hstate] at hallowed
  | openObject hallowed => simp [hstate] at hallowed
  | closeArray hwithin => exact .inl ⟨rfl, hwithin⟩
  | closeObject hwithin => exact .inr (.inl ⟨rfl, hwithin⟩)
  | name hdue hstate' hstack => exact .inr (.inr ⟨_, rfl, hdue, hstate', hstack⟩)

theorem BeginsValue.of_accepts {state : TokenState} (hstate : state.valueEnd = dec.state.behind)
    (hallowed : state.valueAllowed = true) (hclose : state.inArray = false ∨
      token ≠ .delim .closeArray) (h : Accepts state dec.stack dec' token) :
    BeginsValue dec token dec' := by
  cases h with
  | scalar hscalar _ hstate' hstack => exact .scalar hscalar (hstate'.trans hstate) hstack
  | openArray _ hstate' hstack => exact .array hstate' hstack hstate
  | openObject _ hstate' hstack => exact .object hstate' hstack hstate
  | closeArray hwithin => simp [hwithin] at hclose
  | closeObject hwithin =>
    cases state <;> simp [TokenState.inObject, TokenState.valueAllowed] at hwithin hallowed
  | name hdue => rcases hdue with rfl | rfl <;> simp [TokenState.valueAllowed] at hallowed

theorem more_of_close {rest : List (Lexeme × ℕ)} {stop : ℕ}
    (hrest : dec.rest = (.token token, stop) :: rest) (hmore : dec.more = true) :
    token ≠ .delim .closeArray ∧ token ≠ .delim .closeObject := by
  unfold more at hmore
  rw [hrest] at hmore
  constructor <;> rintro rfl <;> cases hmore

theorem not_more_of_close {rest : List (Lexeme × ℕ)} {lexeme : Lexeme} {stop : ℕ}
    (hrest : dec.rest = (lexeme, stop) :: rest) (hmore : dec.more = false) :
    lexeme = .token (.delim .closeArray) ∨ lexeme = .token (.delim .closeObject) := by
  unfold more at hmore
  rw [hrest] at hmore
  split at hmore
  · rename_i heq
    cases heq
  · rename_i heq
    cases heq
    exact .inl rfl
  · rename_i heq
    cases heq
    exact .inr rfl
  · cases hmore

theorem AtValue.begins (hvalue : dec.AtValue) (h : dec.token = .ok (token, dec')) :
    BeginsValue dec token dec' := by
  rcases tokenFrom_spec h with ⟨stop, hrest, haccepts⟩ | ⟨lexeme, _, _, state, _, hskip, haccepts⟩
  · rcases hvalue with hstate | hstate | ⟨hstate, hmore⟩
    · exact .of_accepts (by rw [hstate]; rfl) (by rw [hstate]; rfl) (.inl (by rw [hstate]; rfl))
        haccepts
    · rcases haccepts.of_not_allowed (by rw [hstate]; rfl) with ⟨-, h⟩ | ⟨-, h⟩ | ⟨_, -, h, -⟩ <;>
        simp [hstate, TokenState.inArray, TokenState.inObject] at h
    · have hclose := more_of_close hrest hmore
      rcases hdec : dec.state with _ | _ | _ | _ | _ | _ | _ | _ | _ <;>
        simp [hdec, TokenState.inArray] at hstate
      · exact .of_accepts (by rw [hdec]; rfl) (by rw [hdec]; rfl) (.inr hclose.1) haccepts
      · rcases haccepts.of_not_allowed (by rw [hdec]; rfl) with ⟨h, -⟩ | ⟨h, -⟩ | ⟨_, -, h, -⟩
        · exact absurd h hclose.1
        · exact absurd h hclose.2
        · simp [hdec] at h
  · have hbehind : state.valueEnd = dec.state.behind ∧ state.valueAllowed = true ∧
        state.inArray = false := by
      rcases skipped_eq hskip with ⟨hdec, -, rfl⟩ | ⟨hdec, -, rfl⟩ | ⟨hdec, -, rfl⟩
      · exact ⟨by rw [hdec]; rfl, rfl, rfl⟩
      · exact ⟨by rw [hdec]; rfl, rfl, rfl⟩
      · rcases hvalue with hstate | hstate | ⟨hstate, -⟩ <;> rw [hdec] at hstate <;> cases hstate
    exact .of_accepts hbehind.1 hbehind.2.1 (.inl hbehind.2.2) haccepts

theorem token_name (hstate : dec.state.inObject = true) (hmore : dec.more = true)
    (h : dec.token = .ok (token, dec')) :
    ∃ name, token = .string name ∧ dec'.state = .objectColon ∧ dec'.stack = dec.stack := by
  rcases tokenFrom_spec h with ⟨stop, hrest, haccepts⟩ | ⟨lexeme, _, _, state, _, hskip, haccepts⟩
  · have hclose := more_of_close hrest hmore
    have hallowed : dec.state.valueAllowed = false := by
      cases hdec : dec.state <;> simp [hdec, TokenState.inObject] at hstate <;> rfl
    rcases haccepts.of_not_allowed hallowed with ⟨h, -⟩ | ⟨h, -⟩ | ⟨name, htoken, -, h⟩
    · exact absurd h hclose.1
    · exact absurd h hclose.2
    · exact ⟨name, htoken, h⟩
  · rcases skipped_eq hskip with ⟨hdec, -, rfl⟩ | ⟨hdec, -, rfl⟩ | ⟨-, -, rfl⟩
    · simp [hdec, TokenState.inObject] at hstate
    · simp [hdec, TokenState.inObject] at hstate
    · rcases haccepts.of_not_allowed rfl with ⟨-, h⟩ | ⟨-, h⟩ | ⟨name, htoken, -, h⟩
      · cases h
      · cases h
      · exact ⟨name, htoken, h⟩

theorem token_close (hmore : dec.more = false) (h : dec.token = .ok (token, dec')) :
    Accepts dec.state dec.stack dec' token ∧
      (token = .delim .closeArray ∨ token = .delim .closeObject) := by
  rcases tokenFrom_spec h with ⟨stop, hrest, haccepts⟩ | ⟨lexeme, _, _, state, hrest, hskip, -⟩
  · refine ⟨haccepts, (not_more_of_close hrest hmore).imp ?_ ?_⟩
    · exact fun heq => Lexeme.token.inj heq
    · exact fun heq => Lexeme.token.inj heq
  · rcases not_more_of_close hrest hmore with rfl | rfl <;>
      rcases skipped_eq hskip with ⟨-, heq, -⟩ | ⟨-, heq, -⟩ | ⟨-, heq, -⟩ <;> cases heq

theorem token_closeArray (hstate : dec.state.inArray = true) (hmore : dec.more = false)
    (h : dec.token = .ok (token, dec')) : token = .delim .closeArray ∧
      ∃ outer, dec.stack = outer :: dec'.stack ∧ dec'.state = outer.valueEnd := by
  obtain ⟨haccepts, rfl | rfl⟩ := token_close hmore h
  · cases haccepts with
    | scalar hscalar => simp [Token.isScalar] at hscalar
    | closeArray _ hstack hstate' => exact ⟨rfl, _, hstack, hstate'⟩
  · cases haccepts with
    | scalar hscalar => simp [Token.isScalar] at hscalar
    | closeObject hwithin =>
      cases hdec : dec.state <;> simp [hdec, TokenState.inArray, TokenState.inObject]
        at hstate hwithin

theorem token_closeObject (hstate : dec.state.inObject = true) (hmore : dec.more = false)
    (h : dec.token = .ok (token, dec')) : token = .delim .closeObject ∧
      ∃ outer, dec.stack = outer :: dec'.stack ∧ dec'.state = outer.valueEnd := by
  obtain ⟨haccepts, rfl | rfl⟩ := token_close hmore h
  · cases haccepts with
    | scalar hscalar => simp [Token.isScalar] at hscalar
    | closeArray hwithin =>
      cases hdec : dec.state <;> simp [hdec, TokenState.inArray, TokenState.inObject]
        at hstate hwithin
  · cases haccepts with
    | scalar hscalar => simp [Token.isScalar] at hscalar
    | closeObject _ hstack hstate' => exact ⟨rfl, _, hstack, hstate'⟩

end Decoder

end StrictJson

end AiOrg
