import AiOrg.Python.Dict
import AiOrg.Python.Lines

/-!
# Terms and their tokens

The key of a term, and the index of the tokens of the terms, by which a read that misses a key finds the keys of
terms that say nearly the same.
-/

namespace AiOrg

namespace Precedent

/-- What the program takes from `unicodedata`, `str.casefold` and the class `\w`. -/
structure Unicode where
  nfkc : String → String
  nfc : String → String
  casefold : String → String
  isPunctuation : Char → Bool
  isWord : Char → Bool

section Key

variable (py : PyLib) (uni : Unicode)

def termKeyFillerSuffixes : List String := ["mechanic", "mechanics", "system", "systems"]

/-- White space and punctuation go from the end, in any order. -/
def _strip_trailing_punctuation (value : List Char) : List Char :=
  value.rdropWhile fun c => Text.isSpace c || uni.isPunctuation c

/-- What stands before a filler at the end of a text, less the white space between them. -/
def beforeFiller (text : List Char) (filler : List Char) : Option (List Char) :=
  if text = filler then some []
  else if filler <:+ text then
    match text[text.length - filler.length - 1]? with
    | some c => if Text.isSpace c then some (text.take (text.length - filler.length - 1)) else none
    | none => none
  else none

def dropFillers : ℕ → List Char → List Char
  | 0, text => text
  | turns + 1, text =>
    match termKeyFillerSuffixes.findSome? fun filler => beforeFiller text filler.toList with
    | none => text
    | some front => dropFillers turns (_strip_trailing_punctuation uni front)

def _normalize_term (term : String) : String :=
  let text := Text.strip (Text.collapse (py.lower (uni.nfkc term)).toList)
  let text := _strip_trailing_punctuation uni text
  String.ofList (dropFillers uni text.length text)

end Key

section Tokens

variable (uni : Unicode)

def _paraphrase_tokens (text : String) : List String :=
  let pieces := (uni.casefold (uni.nfc text)).toList.splitOnP fun c => !uni.isWord c || c = '_'
  sorted ((pieces.filter (!·.isEmpty)).map String.ofList).dedup

def paraphraseFamilySuffixes : List String := ["ation", "tion", "ment", "ing", "es", "ed", "up", "s"]

def paraphraseFamilyMinStemLength : ℕ := 4

def _paraphrase_family_token (token : String) : String :=
  if token ≠ "" ∧ token.toList.all Char.isAlpha then
    let suffix := paraphraseFamilySuffixes.find? fun suffix =>
      suffix.toList.isSuffixOf token.toList && paraphraseFamilyMinStemLength ≤ token.length - suffix.length
    match suffix with
    | some suffix => String.ofList (token.toList.take (token.length - suffix.length))
    | none => ""
  else ""

structure TokenRow where
  token : String
  kind : String
  source_token : String
  term_key : String
  deriving DecidableEq, Repr

/-- `INSERT OR IGNORE`. -/
def insertToken (rows : List TokenRow) (row : TokenRow) : List TokenRow :=
  if row ∈ rows then rows else rows ++ [row]

def _index_term_tokens (rows : List TokenRow) (term term_key : String) : List TokenRow :=
  if term_key = "" then rows
  else (_paraphrase_tokens uni term).foldl (fun rows token =>
    let rows := insertToken rows ⟨token, "exact", token, term_key⟩
    let family := _paraphrase_family_token token
    if family = "" then rows else insertToken rows ⟨family, "family", token, term_key⟩) rows

/-- `lookup_map[token]`: the tokens of the query that a token of the index stands for. -/
def originsOf (query_tokens : List String) (token : String) : List String :=
  query_tokens.filter fun query => query = token || (_paraphrase_family_token query = token && token != "")

/-- What a key scores: the tokens of the query and of the stored terms that match, and those that match exactly. -/
structure Score where
  term_key : String
  matched : ℕ
  stored : ℕ
  exact : ℕ

def scoreOf (query_tokens : List String) (hits : List TokenRow) (term_key : String) : Score :=
  let own := hits.filter (·.term_key = term_key)
  { term_key
    matched := (own.flatMap fun row => originsOf query_tokens row.token).dedup.length
    stored := (own.map (·.source_token)).dedup.length
    exact := ((own.filter fun row => row.kind = "exact" && query_tokens.contains row.token).map (·.token)).dedup.length }

/-- Both fractions are at least three fifths, that of the stored tokens where the stored term is the shorter one. -/
def eligible (queryLength total : ℕ) (score : Score) : Bool :=
  3 * queryLength ≤ 5 * score.matched
    && !(total < queryLength && (total == 0 || decide (5 * score.stored < 3 * total)))

/-- The order of the keys: more matched tokens first, then more exact ones, then the key. -/
def Score.before (a b : Score) : Bool :=
  b.matched < a.matched || (a.matched == b.matched && (b.exact < a.exact ||
    (a.exact == b.exact && decide (a.term_key ≤ b.term_key))))

def _paraphrase_candidate_keys (rows : List TokenRow) (term : String) : List String :=
  let query_tokens := _paraphrase_tokens uni term
  let hits := rows.filter fun row => !(originsOf query_tokens row.token).isEmpty
  let scores := ((hits.map (·.term_key)).dedup.map (scoreOf query_tokens hits)).filter fun score =>
    let total := (rows.filter fun row => row.term_key = score.term_key && row.kind = "exact").length
    eligible query_tokens.length total score
  (scores.mergeSort Score.before).map (·.term_key)

end Tokens

end Precedent

end AiOrg
