import AiOrg.Python.Lines

/-!
# Search queries

GitHub refuses a query with more than five operators, so a keyword that has more is cut at them. An operator is cut at
between spaces but counted wherever its letters stand alone. Nothing of a keyword is lost, and the limit is kept where
few operators are left in the stretches (`search_queries_iff`).
-/

namespace AiOrg

open List

/-- `\w`. -/
structure WordClass where
  word : Char → Bool
  not_space : word ' ' = false
  letter : ∀ c ∈ "ANDORT".toList, word c = true

namespace SearchQuery

open Text

def GITHUB_SEARCH_BOOLEAN_OPERATOR_LIMIT : ℕ := 5

def operators : List (List Char) := ["AND".toList, "OR".toList, "NOT".toList]

variable (w : WordClass) (ops : List (List Char))

/-- `\b`, between two characters or at an end. -/
def boundary (before after : Option Char) : Bool := before.any w.word != after.any w.word

/-- The operator that `\b(?:...)\b` matches here, after the character `before`. -/
def matchOperator (before : Option Char) (text : List Char) : Option (List Char) :=
  ops.find? fun op => op.isPrefixOf text && boundary w before text.head? &&
    boundary w op.getLast? (text.drop op.length).head?

/-- `len(re.findall(r"\b(?:...)\b", text))`; the characters of a match are skipped. -/
def countFrom : ℕ → Option Char → List Char → ℕ
  | _, _, [] => 0
  | skip + 1, _, c :: rest => countFrom skip (some c) rest
  | 0, before, c :: rest =>
    match matchOperator w ops before (c :: rest) with
    | none => countFrom 0 (some c) rest
    | some op => countFrom (op.length - 1) (some c) rest + 1

def _github_search_boolean_operator_count (query : List Char) : ℕ := countFrom w operators 0 none query

/-- How many characters `\s+\b(?:...)\b\s+` takes here. -/
def separatorLength (text : List Char) : ℕ :=
  let spaces := text.takeWhile isSpace
  match matchOperator w ops spaces.getLast? (text.drop spaces.length) with
  | none => 0
  | some op =>
    let after := (text.drop (spaces.length + op.length)).takeWhile isSpace
    if spaces = [] ∨ after = [] then 0 else spaces.length + op.length + after.length

/-- `re.split`, with the piece that is being read reversed. -/
def splitFrom : ℕ → List Char → List Char → List (List Char)
  | _, piece, [] => [piece.reverse]
  | skip + 1, piece, _ :: rest => splitFrom skip piece rest
  | 0, piece, c :: rest =>
    match separatorLength w ops (c :: rest) with
    | 0 => splitFrom 0 (c :: piece) rest
    | skip + 1 => piece.reverse :: splitFrom skip [] rest

/-- `[part.strip() for part in re.split(...) if part.strip()]`. -/
def splitParts (text : List Char) : List (List Char) := ((splitFrom w ops 0 [] text).map strip).filter (· ≠ [])

def _chunks {α : Type} (values : List α) (size : ℕ) : List (List α) :=
  (List.range ((values.length + max 1 size - 1) / max 1 size)).map fun index =>
    (values.drop (index * max 1 size)).take size

/-- `" ".join(str(text or "").strip().split())`. -/
def clean (text : List Char) : List Char := squashChars (strip text)

def joinOr : List (List Char) → List Char := " OR ".toList.intercalate

def _split_github_boolean_query (query : List Char) : List (List Char) :=
  let cleaned := clean query
  if cleaned = [] then []
  else if _github_search_boolean_operator_count w cleaned ≤ GITHUB_SEARCH_BOOLEAN_OPERATOR_LIMIT then [cleaned]
  else
    let parts := splitParts w ["OR".toList] cleaned
    if countFrom w ["AND".toList, "NOT".toList] 0 none cleaned = 0 ∧ parts ≠ [] then
      (_chunks parts (GITHUB_SEARCH_BOOLEAN_OPERATOR_LIMIT + 1)).map joinOr
    else
      let operands := splitParts w operators cleaned
      if operands = [] then [cleaned] else operands

/-- The queries for a part of a keyword. -/
def partQueries (refinements : List (List Char)) (keyword_query : List Char) : List (List Char) :=
  if refinements = [] then [keyword_query]
  else
    let operator_count := _github_search_boolean_operator_count w keyword_query
    let max_refinement_terms := max 1 (GITHUB_SEARCH_BOOLEAN_OPERATOR_LIMIT + 1 - operator_count)
    (_chunks refinements max_refinement_terms).flatMap fun chunk =>
      let query := keyword_query ++ ' ' :: joinOr chunk
      if _github_search_boolean_operator_count w query ≤ GITHUB_SEARCH_BOOLEAN_OPERATOR_LIMIT then [query]
      else chunk.map fun term => keyword_query ++ ' ' :: term

def _github_repo_search_queries (keywords refinements : List (List Char)) : List (List Char × List Char) :=
  keywords.flatMap fun keyword =>
    let found_via := clean keyword
    if found_via = [] then []
    else (_split_github_boolean_query w found_via).flatMap fun keyword_query =>
      (partQueries w refinements keyword_query).map fun query => (query, found_via)

section Count

variable {w ops}

/-- All characters of the operators are of the class. -/
def Lettered (w : WordClass) (ops : List (List Char)) : Prop := ∀ op ∈ ops, op ≠ [] ∧ ∀ c ∈ op, w.word c = true

theorem lettered_of_subset (h : ops ⊆ operators) : Lettered w ops := by
  intro op hop
  have hall : ∀ op ∈ operators, op ≠ [] ∧ ∀ c ∈ op, c ∈ "ANDORT".toList := by simp [operators]
  exact ⟨(hall op (h hop)).1, fun c hc => w.letter c ((hall op (h hop)).2 c hc)⟩

theorem Lettered.not_space (hops : Lettered w ops) {op : List Char} (hop : op ∈ ops) : ' ' ∉ op := fun hc => by
  simpa [w.not_space] using (hops op hop).2 ' ' hc

@[simp] theorem boundary_space (after : Option Char) : boundary w (some ' ') after = boundary w none after := by
  simp [boundary, w.not_space]

@[simp] theorem matchOperator_space (text : List Char) :
    matchOperator w ops (some ' ') text = matchOperator w ops none text := by
  simp only [matchOperator, boundary_space]

theorem countFrom_after_space (text : List Char) : countFrom w ops 0 (some ' ') text = countFrom w ops 0 none text := by
  cases text with
  | nil => rfl
  | cons c rest => simp only [countFrom, matchOperator_space]

theorem prefix_of_not_space {p u v : List Char} (hp : ' ' ∉ p) (h : p <+: u ++ ' ' :: v) : p <+: u := by
  induction u generalizing p with
  | nil =>
    rcases p with _ | ⟨c, p⟩
    · exact nil_prefix
    · exact absurd (cons_prefix_cons.1 h).1 fun hc => hp (hc ▸ mem_cons_self)
  | cons d u ih =>
    rcases p with _ | ⟨c, p⟩
    · exact nil_prefix
    · rw [cons_append, cons_prefix_cons] at h
      obtain ⟨rfl, h⟩ := h
      exact cons_prefix_cons.2 ⟨rfl, ih (fun hspace => hp (mem_cons_of_mem _ hspace)) h⟩

/-- What comes after a space does not matter before it. -/
theorem matchOperator_append (hops : Lettered w ops) (before : Option Char) (u v : List Char) :
    matchOperator w ops before (u ++ ' ' :: v) = matchOperator w ops before u := by
  unfold matchOperator
  refine find?_congr fun op hop => ?_
  by_cases hprefix : op <+: u
  · obtain ⟨rest, rfl⟩ := hprefix
    obtain ⟨c, op, rfl⟩ := exists_cons_of_ne_nil (hops op hop).1
    have hself (text : List Char) : op.isPrefixOf (op ++ text) = true :=
      isPrefixOf_iff_prefix.2 (prefix_append _ _)
    rcases rest with _ | ⟨d, rest⟩
    · have hwhole := hself []
      rw [append_nil] at hwhole
      simp [boundary, w.not_space, hself, hwhole]
    · simp [hself]
  · have hnot : ¬ op <+: u ++ ' ' :: v := fun h => hprefix (prefix_of_not_space (hops.not_space hop) h)
    have hfalse {text : List Char} (h : ¬ op <+: text) : op.isPrefixOf text = false :=
      Bool.eq_false_iff.2 fun htrue => h ( isPrefixOf_iff_prefix.1 htrue)
    rw [hfalse hprefix, hfalse hnot]
    rfl

theorem matchOperator_some {before : Option Char} {text op : List Char} (h : matchOperator w ops before text = some op) :
    op ∈ ops ∧ op <+: text ∧ boundary w op.getLast? (text.drop op.length).head? = true := by
  have hfound := find?_some h
  simp only [Bool.and_eq_true, isPrefixOf_iff_prefix] at hfound
  exact ⟨mem_of_find?_eq_some h, hfound.1.1, hfound.2⟩

theorem countFrom_append (hops : Lettered w ops) (v : List Char) : ∀ (u : List Char) (skip : ℕ) (before : Option Char),
    skip ≤ u.length → countFrom w ops skip before (u ++ ' ' :: v) = countFrom w ops skip before u + countFrom w ops 0 none v
  | [], 0, before, _ => by
    have hnone : matchOperator w ops before (' ' :: v) = none := by
      have hnil : matchOperator w ops before [] = none := by
        rcases hmatch : matchOperator w ops before [] with _ | op
        · rfl
        · obtain ⟨hop, hprefix, -⟩ := matchOperator_some hmatch
          exact absurd (prefix_nil.1 hprefix) (hops op hop).1
      rw [← hnil]
      exact matchOperator_append hops before [] v
    simp [countFrom, hnone, countFrom_after_space]
  | c :: u, skip + 1, before, h => countFrom_append hops v u skip (some c) (Nat.le_of_succ_le_succ h)
  | c :: u, 0, before, _ => by
    rw [cons_append, countFrom, countFrom, ← cons_append, matchOperator_append hops]
    rcases hmatch : matchOperator w ops before (c :: u) with _ | op
    · exact countFrom_append hops v u 0 (some c) (Nat.zero_le _)
    · have hlength := (matchOperator_some hmatch).2.1.length_le
      rw [length_cons] at hlength
      dsimp only
      rw [countFrom_append hops v u (op.length - 1) (some c) (by omega)]
      omega

theorem count_append (u v : List Char) : _github_search_boolean_operator_count w (u ++ ' ' :: v) =
    _github_search_boolean_operator_count w u + _github_search_boolean_operator_count w v :=
  countFrom_append (lettered_of_subset (List.Subset.refl _)) v u 0 none (Nat.zero_le _)

theorem count_or : _github_search_boolean_operator_count w "OR".toList = 1 := by
  have hO := w.letter 'O' (by simp)
  have hR := w.letter 'R' (by simp)
  simp [_github_search_boolean_operator_count, countFrom, matchOperator, operators, boundary, hO, hR]

/-- The operators between the texts, and those in them. -/
theorem count_joinOr (texts : List (List Char)) : _github_search_boolean_operator_count w (joinOr texts) =
    (texts.map (_github_search_boolean_operator_count w)).sum + (texts.length - 1) := by
  induction texts with
  | nil => rfl
  | cons text texts ih =>
    rcases texts with _ | ⟨next, texts⟩
    · simp [joinOr]
    · have hjoin : joinOr (text :: next :: texts) = text ++ ' ' :: ("OR".toList ++ ' ' :: joinOr (next :: texts)) := by
        simp [joinOr]
      rw [hjoin, count_append, count_append, ih, count_or]
      simp only [map_cons, sum_cons, length_cons]
      omega

end Count

/-! ### Cutting -/

abbrev sentence (words : List (List Char)) : List Char := [' '].intercalate words

/-- The stretches of words between the operators that are cut at: those with a word on each side, where no cut is just
before. -/
def stretches : List (List Char) → List (List (List Char))
  | [] => [[]]
  | [word] => [[word]]
  | [word, last] => [[word, last]]
  | word :: op :: next :: rest =>
    if op ∈ ops then [word] :: stretches (next :: rest)
    else (stretches (op :: next :: rest)).modifyHead (word :: ·)

section Cut

variable {w ops} {words run : List (List Char)}

theorem takeWhile_isSpace {word rest : List Char} (h : IsWord word) : (word ++ rest).takeWhile isSpace = [] := by
  obtain ⟨c, word, rfl⟩ := exists_cons_of_ne_nil h.1
  exact takeWhile_cons_of_neg (by simp [h.2 c mem_cons_self])

theorem matchOperator_of_mem (hops : Lettered w ops) {word : List Char} (h : word ∈ ops) :
    matchOperator w ops none word = some word := by
  have hletters := (hops word h).2
  have hlast {op : List Char} (hop : op ∈ ops) : op.getLast?.any w.word = true := by
    rw [getLast?_eq_getLast_of_ne_nil (hops op hop).1]
    exact (hops op hop).2 _ (getLast_mem _)
  rcases hmatch : matchOperator w ops none word with _ | op
  · have hnone := find?_eq_none.1 hmatch word h
    obtain ⟨c, rest, hcons⟩ := exists_cons_of_ne_nil (hops word h).1
    have hc := hletters c (hcons ▸ mem_cons_self)
    have hend := hlast h
    rw [hcons] at hend
    simp [boundary, hcons, hc, hend] at hnone
  · obtain ⟨hop, ⟨rest, rfl⟩, hend⟩ := matchOperator_some hmatch
    rcases rest with _ | ⟨d, rest⟩
    · rw [append_nil]
    · simp [boundary, hlast hop, hletters d] at hend

theorem splitFrom_word {word : List Char} (h : ∀ c ∈ word, isSpace c = false) (piece rest : List Char) :
    splitFrom w ops 0 piece (word ++ rest) = splitFrom w ops 0 (word.reverse ++ piece) rest := by
  induction word generalizing piece with
  | nil => rfl
  | cons c word ih =>
    obtain ⟨hc, hword⟩ := forall_mem_cons.1 h
    have hspaces : (c :: (word ++ rest)).takeWhile isSpace = [] := takeWhile_cons_of_neg (by simp [hc])
    have hlength : separatorLength w ops (c :: (word ++ rest)) = 0 := by
      unfold separatorLength
      rw [hspaces]
      dsimp only
      split
      · rfl
      · rw [if_pos (.inl rfl)]
    rw [cons_append, splitFrom, hlength]
    dsimp only
    rw [ih hword]
    simp

theorem splitFrom_skip (piece taken rest : List Char) :
    splitFrom w ops taken.length piece (taken ++ rest) = splitFrom w ops 0 piece rest := by
  induction taken with
  | nil => rfl
  | cons c taken ih => exact ih

/-- A word between spaces is cut at if it is an operator, and the last word is not. -/
theorem separatorLength_word (hops : Lettered w ops) {word rest : List Char} (hword : IsWord word)
    (hrest : rest = [] ∨ ∃ next more, IsWord next ∧ rest = ' ' :: (next ++ more)) :
    separatorLength w ops (' ' :: (word ++ rest)) = if word ∈ ops ∧ rest ≠ [] then word.length + 2 else 0 := by
  have hspaces : (' ' :: (word ++ rest)).takeWhile isSpace = [' '] := by
    rw [takeWhile_cons_of_pos isSpace_space, takeWhile_isSpace hword]
  unfold separatorLength
  rw [hspaces]
  simp only [getLast?_singleton, length_singleton, matchOperator_space, Nat.add_comm 1,
    drop_succ_cons, drop_zero, cons_ne_nil, false_or]
  rcases hrest with rfl | ⟨next, more, hnext, rfl⟩
  · rw [append_nil, if_neg (by simp)]
    rcases matchOperator w ops none word with _ | op
    · rfl
    · have hafter : (word.drop op.length).takeWhile isSpace = [] := by
        rcases hdrop : word.drop op.length with _ | ⟨c, rest⟩
        · rfl
        · exact takeWhile_cons_of_neg (by
            simp [hword.2 c (mem_of_mem_drop (hdrop ▸ mem_cons_self))])
      dsimp only
      rw [hafter]
      rfl
  · rw [matchOperator_append hops]
    rcases hmatch : matchOperator w ops none word with _ | op
    · have hnot : word ∉ ops := fun hmem => by simp [matchOperator_of_mem hops hmem] at hmatch
      rw [if_neg fun h => hnot h.1]
    · obtain ⟨hop, ⟨rest, rfl⟩, -⟩ := matchOperator_some hmatch
      rcases rest with _ | ⟨d, rest⟩
      · have hblank := @takeWhile_isSpace _ more hnext
        rw [append_nil] at hmatch ⊢
        simp [hop, isSpace_space, hblank]
      · have hnot : op ++ d :: rest ∉ ops := fun hmem => by simp [matchOperator_of_mem hops hmem] at hmatch
        have hd : isSpace d = false := hword.2 d (by simp)
        simp [hnot, hd]

theorem sentence_cons (h : words ≠ []) (word : List Char) :
    sentence (word :: words) = word ++ ' ' :: sentence words := by
  rw [sentence, intercalate_cons_of_ne_nil h, append_assoc]
  rfl

theorem sentence_append {a b : List (List Char)} (ha : a ≠ []) (hb : b ≠ []) :
    sentence (a ++ b) = sentence a ++ ' ' :: sentence b := by
  induction a with
  | nil => exact absurd rfl ha
  | cons word a ih =>
    rcases a with _ | ⟨next, a⟩
    · rw [singleton_append, sentence_cons hb, sentence, sentence, intercalate_singleton]
    · rw [cons_append, sentence_cons (by simp), ih (cons_ne_nil _ _), sentence_cons (cons_ne_nil _ _)]
      simp

variable (ops) in
theorem stretches_cons (word : List Char) (words : List (List Char)) :
    ∃ first others, stretches ops (word :: words) = (word :: first) :: others := by
  match words with
  | [] => exact ⟨[], [], rfl⟩
  | [last] => exact ⟨[last], [], rfl⟩
  | op :: next :: rest =>
    rw [stretches]
    split_ifs
    · exact ⟨[], _, rfl⟩
    · rcases hrest : stretches ops (op :: next :: rest) with _ | ⟨first, others⟩
      · obtain ⟨first, others, hcons⟩ := stretches_cons op (next :: rest)
        simp [hcons] at hrest
      · exact ⟨first, others, rfl⟩

theorem stretches_ne_nil (h : words ≠ []) : stretches ops words ≠ [] := by
  obtain ⟨word, words, rfl⟩ := exists_cons_of_ne_nil h
  obtain ⟨first, others, hcons⟩ := stretches_cons ops word words
  exact hcons ▸ cons_ne_nil _ _

theorem splitFrom_sentence (hops : Lettered w ops) : ∀ {words : List (List Char)}, (∀ word ∈ words, IsWord word) →
    ∀ piece, splitFrom w ops 0 piece (sentence words) =
      ((stretches ops words).map sentence).modifyHead (piece.reverse ++ ·)
  | [], _, piece => by simp [splitFrom, stretches]
  | [word], h, piece => by
    have hword := @splitFrom_word w ops _ (h word (by simp)).2 piece []
    rw [append_nil] at hword
    simp [stretches, hword, splitFrom]
  | [word, last], h, piece => by
    have hlast := @splitFrom_word w ops _ (h last (by simp)).2 (' ' :: (word.reverse ++ piece)) []
    have hlength := separatorLength_word hops (h last (by simp)) (.inl rfl)
    rw [append_nil] at hlast hlength
    rw [sentence_cons (cons_ne_nil _ _), sentence, intercalate_singleton, splitFrom_word (h word (by simp)).2,
      splitFrom, hlength]
    simp [hlast, splitFrom, stretches]
  | word :: op :: next :: rest, h, piece => by
    have hop : IsWord op := h op (by simp)
    have hsentence : ∃ more, sentence (next :: rest) = next ++ more := by
      rcases rest with _ | ⟨after, rest⟩
      · exact ⟨[], by simp⟩
      · exact ⟨_, sentence_cons (cons_ne_nil _ _) _⟩
    obtain ⟨more, hmore⟩ := hsentence
    have hlength := separatorLength_word hops hop (.inr ⟨next, more, h next (by simp), rfl⟩)
    rw [sentence_cons (cons_ne_nil _ _), splitFrom_word (h word (by simp)).2, sentence_cons (cons_ne_nil _ _),
      hmore, splitFrom, hlength, ← hmore, stretches]
    have hrest : ∀ word ∈ next :: rest, IsWord word := fun word hword =>
      h word (mem_cons_of_mem _ (mem_cons_of_mem _ hword))
    by_cases hmem : op ∈ ops
    · have hskip := @splitFrom_skip w ops [] (op ++ [' ']) (sentence (next :: rest))
      rw [length_append, append_assoc, splitFrom_sentence hops hrest] at hskip
      rw [if_pos ⟨hmem, cons_ne_nil _ _⟩, if_pos hmem]
      dsimp only
      refine (congrArg _ hskip).trans ?_
      obtain ⟨first, others, hcons⟩ := stretches_cons ops next rest
      simp [hcons]
    · rw [if_neg fun hand => hmem hand.1, if_neg hmem]
      dsimp only
      rw [← sentence_cons (cons_ne_nil _ _), splitFrom_sentence hops (forall_mem_cons.2 ⟨hop, hrest⟩)]
      obtain ⟨first, others, hcons⟩ := stretches_cons ops op (next :: rest)
      simp [hcons]

theorem mem_stretches : ∀ {words : List (List Char)}, words ≠ [] → ∀ {stretch}, stretch ∈ stretches ops words →
    stretch ≠ [] ∧ stretch ⊆ words
  | [], h, _, _ => absurd rfl h
  | [word], _, stretch, hstretch => by simp_all [stretches]
  | [word, last], _, stretch, hstretch => by simp_all [stretches]
  | word :: op :: next :: rest, _, stretch, hstretch => by
    rw [stretches] at hstretch
    split_ifs at hstretch with hop
    · rcases mem_cons.1 hstretch with rfl | hstretch
      · simp
      · obtain ⟨hne, hsubset⟩ := mem_stretches (cons_ne_nil _ _) hstretch
        exact ⟨hne, fun x hx => mem_cons_of_mem _ (mem_cons_of_mem _ (hsubset hx))⟩
    · have hrest {other} := @mem_stretches (op :: next :: rest) (cons_ne_nil _ _) other
      obtain ⟨first, others, hcons⟩ := stretches_cons ops op (next :: rest)
      rw [hcons] at hstretch hrest
      rcases mem_cons.1 hstretch with rfl | hstretch
      · exact ⟨cons_ne_nil _ _, cons_subset_cons _ (hrest mem_cons_self).2⟩
      · obtain ⟨hne, hsubset⟩ := hrest (mem_cons_of_mem _ hstretch)
        exact ⟨hne, fun x hx => mem_cons_of_mem _ (hsubset hx)⟩

theorem trimmed_sentence (hne : words ≠ []) (h : ∀ word ∈ words, IsWord word) :
    sentence words ≠ [] ∧ Trimmed (sentence words) := by
  induction words with
  | nil => exact absurd rfl hne
  | cons word words ih =>
    obtain ⟨hword, hwords⟩ := forall_mem_cons.1 h
    have hone : Trimmed word :=
      ⟨fun c hc => hword.2 c (mem_of_mem_head? hc), fun c hc => hword.2 c (mem_of_mem_getLast? hc)⟩
    rcases words with _ | ⟨next, words⟩
    · rw [sentence, intercalate_singleton]
      exact ⟨hword.1, hone⟩
    · obtain ⟨hrest, htrimmed⟩ := ih (cons_ne_nil _ _) hwords
      rw [sentence_cons (cons_ne_nil _ _)]
      refine ⟨by simp, fun c hc => hone.1 c ?_, fun c hc => htrimmed.2 c ?_⟩
      · rwa [head?_append_of_ne_nil _ hword.1] at hc
      · rwa [getLast?_append_of_ne_nil _ (cons_ne_nil _ _), getLast?_cons_of_ne_nil hrest] at hc

theorem splitParts_sentence (hops : Lettered w ops) (hne : words ≠ []) (h : ∀ word ∈ words, IsWord word) :
    splitParts w ops (sentence words) = (stretches ops words).map sentence := by
  have htrimmed : ∀ stretch ∈ stretches ops words, sentence stretch ≠ [] ∧ Trimmed (sentence stretch) := by
    intro stretch hstretch
    obtain ⟨hstretch, hsubset⟩ := mem_stretches hne hstretch
    exact trimmed_sentence hstretch fun word hword => h word (hsubset hword)
  have hsplit : splitFrom w ops 0 [] (sentence words) = (stretches ops words).map sentence := by
    rw [splitFrom_sentence hops h]
    rcases stretches ops words with _ | ⟨first, others⟩ <;> rfl
  rw [splitParts, hsplit, map_map, map_congr_left fun stretch hstretch =>
    show (strip ∘ sentence) stretch = sentence stretch from strip_of_trimmed (htrimmed stretch hstretch).2]
  refine filter_eq_self.2 fun part hpart => ?_
  obtain ⟨stretch, hstretch, rfl⟩ := mem_map.1 hpart
  simpa using (htrimmed stretch hstretch).1

theorem prefix_stretch : ∀ {words run : List (List Char)}, run <+: words → (∀ op ∈ ops, op ∉ run) → words ≠ [] →
    ∃ first others, stretches ops words = first :: others ∧ run <+: first
  | [], _, _, _, hne => absurd rfl hne
  | [word], _, h, _, _ => ⟨[word], [], rfl, h⟩
  | [word, last], _, h, _, _ => ⟨[word, last], [], rfl, h⟩
  | word :: op :: next :: rest, [], _, _, _ => by
    obtain ⟨first, others, hcons⟩ := stretches_cons ops word (op :: next :: rest)
    exact ⟨_, _, hcons, nil_prefix⟩
  | word :: op :: next :: rest, first :: run, h, hrun, _ => by
    rw [cons_prefix_cons] at h
    obtain ⟨rfl, h⟩ := h
    rw [stretches]
    split_ifs with hop
    · rcases run with _ | ⟨second, run⟩
      · exact ⟨_, _, rfl, prefix_rfl⟩
      · rw [cons_prefix_cons] at h
        exact absurd (by simp [h.1]) (hrun op hop)
    · obtain ⟨stretch, others, hcons, hprefix⟩ := prefix_stretch h
        (fun op hop hmem => hrun op hop (mem_cons_of_mem _ hmem)) (cons_ne_nil _ _)
      exact ⟨_, others, by rw [hcons]; rfl, cons_prefix_cons.2 ⟨rfl, hprefix⟩⟩

/-- A run of words without an operator is in one stretch. -/
theorem infix_stretch (hrun : ∀ op ∈ ops, op ∉ run) :
    ∀ {words : List (List Char)}, run <:+: words → words ≠ [] → ∃ stretch ∈ stretches ops words, run <:+: stretch
  | [], _, hne => absurd rfl hne
  | [word], h, _ => ⟨[word], by simp [stretches], h⟩
  | [word, last], h, _ => ⟨[word, last], by simp [stretches], h⟩
  | word :: op :: next :: rest, h, hne => by
    rcases infix_cons_iff.1 h with h | h
    · obtain ⟨first, others, hcons, hprefix⟩ := prefix_stretch h hrun hne
      exact ⟨first, by simp [hcons], hprefix.isInfix⟩
    · rw [stretches]
      split_ifs with hop
      · rcases infix_cons_iff.1 h with h | h
        · rcases run with _ | ⟨first, run⟩
          · exact ⟨_, mem_cons_self, nil_infix⟩
          · rw [cons_prefix_cons] at h
            exact absurd (by simp [h.1]) (hrun op hop)
        · obtain ⟨stretch, hstretch, hinfix⟩ := infix_stretch hrun h (cons_ne_nil _ _)
          exact ⟨stretch, mem_cons_of_mem _ hstretch, hinfix⟩
      · obtain ⟨stretch, hstretch, hinfix⟩ := infix_stretch hrun h (cons_ne_nil _ _)
        obtain ⟨first, others, hcons⟩ := stretches_cons ops op (next :: rest)
        rw [hcons] at hstretch ⊢
        rcases mem_cons.1 hstretch with rfl | hstretch
        · exact ⟨_, mem_cons_self, infix_cons hinfix⟩
        · exact ⟨stretch, mem_cons_of_mem _ hstretch, hinfix⟩

theorem infix_sentence (h : run <:+: words) : sentence run <:+: sentence words := by
  obtain ⟨front, after, rfl⟩ := h
  by_cases hrun : run = []
  · rw [hrun]
    exact nil_infix
  have hprefix : sentence (front ++ run) <+: sentence (front ++ run ++ after) := by
    rcases after with _ | ⟨word, after⟩
    · rw [append_nil]
    · rw [sentence_append (by simp [hrun]) (cons_ne_nil _ _)]
      exact prefix_append _ _
  refine List.IsInfix.trans (List.IsSuffix.isInfix ?_) hprefix.isInfix
  rcases front with _ | ⟨word, front⟩
  · exact suffix_refl _
  · rw [sentence_append (cons_ne_nil _ _) hrun]
    exact (suffix_cons _ _).trans (suffix_append _ _)

theorem infix_intercalate {separator text : List Char} {texts : List (List Char)} (h : text ∈ texts) :
    text <:+: separator.intercalate texts := by
  induction texts with
  | nil => cases h
  | cons first texts ih =>
    rcases texts with _ | ⟨next, texts⟩
    · rw [mem_singleton.1 h, intercalate_singleton]
    · rw [intercalate_cons_cons]
      rcases mem_cons.1 h with rfl | h
      · rw [append_assoc]
        exact (prefix_append _ _).isInfix
      · exact (ih h).trans (suffix_append _ _).isInfix

theorem mem_chunks {α : Type} {values : List α} {size : ℕ} (hsize : 0 < size) {x : α} (h : x ∈ values) :
    ∃ chunk ∈ _chunks values size, x ∈ chunk := by
  obtain ⟨i, hi, rfl⟩ := mem_iff_getElem.1 h
  have hmax : max 1 size = size := by omega
  refine ⟨_, mem_map.2 ⟨i / size, ?_, rfl⟩, ?_⟩
  · rw [mem_range, hmax, Nat.div_lt_iff_lt_mul hsize]
    have := Nat.div_mul_le_self (values.length + size - 1) size
    have hlt := Nat.lt_div_mul_add hsize (a := values.length + size - 1)
    omega
  · rw [hmax, mem_iff_getElem]
    have := Nat.div_add_mod' i size
    have := Nat.mod_lt i hsize
    exact ⟨i % size, by simp; omega, by simp [Nat.div_add_mod' i size]⟩

theorem chunks_map {α β : Type} (f : α → β) (values : List α) (size : ℕ) :
    _chunks (values.map f) size = (_chunks values size).map (List.map f) := by
  simp [_chunks, Function.comp_def, map_drop, map_take]

theorem subset_of_mem_chunks {α : Type} {values chunk : List α} {size : ℕ} (h : chunk ∈ _chunks values size) :
    chunk ⊆ values := by
  obtain ⟨index, -, rfl⟩ := mem_map.1 h
  exact List.Subset.trans (take_subset _ _) (drop_subset _ _)

end Cut

/-! ### The queries -/

/-- The operators in words, one by one. -/
def operatorCount (words : List (List Char)) : ℕ := (words.map (_github_search_boolean_operator_count w)).sum

/-- A keyword with at most five operators, or one with few that are left in its stretches: with `AND` or `NOT`, five in
each of them; else each six of them, counted from the first, have in all no more operators than are missing to seven. -/
def Fits (words : List (List Char)) : Prop :=
  operatorCount w words ≤ GITHUB_SEARCH_BOOLEAN_OPERATOR_LIMIT ∨
    if ∀ word ∈ words, countFrom w ["AND".toList, "NOT".toList] 0 none word = 0 then
      ∀ chunk ∈ _chunks (stretches ["OR".toList] words) (GITHUB_SEARCH_BOOLEAN_OPERATOR_LIMIT + 1),
        (chunk.map (operatorCount w)).sum + (chunk.length - 1) ≤ GITHUB_SEARCH_BOOLEAN_OPERATOR_LIMIT
    else ∀ stretch ∈ stretches operators words, operatorCount w stretch ≤ GITHUB_SEARCH_BOOLEAN_OPERATOR_LIMIT

abbrev Limited (query : List Char) : Prop :=
  _github_search_boolean_operator_count w query ≤ GITHUB_SEARCH_BOOLEAN_OPERATOR_LIMIT

/-- The limit is kept, and nothing is lost: not a keyword, not words of it without an operator, not a refinement. -/
structure Faithful (keywords refinements : List (List Char)) : Prop where
  limit : ∀ query ∈ _github_repo_search_queries w keywords refinements, Limited w query.1
  keyword : ∀ keyword ∈ keywords, clean keyword ≠ [] →
    ∃ query ∈ _github_repo_search_queries w keywords refinements, query.2 = clean keyword
  operand : ∀ keyword ∈ keywords, ∀ run, run <:+: splitWords (strip keyword) → run ≠ [] →
    (∀ word ∈ run, word ∉ operators) →
      ∃ query ∈ _github_repo_search_queries w keywords refinements, query.2 = clean keyword ∧ sentence run <:+: query.1
  refinement : ∀ keyword ∈ keywords, ∀ part ∈ _split_github_boolean_query w (clean keyword), ∀ term ∈ refinements,
    ∃ chunk ⊆ refinements, term ∈ chunk ∧
      (part ++ ' ' :: joinOr chunk, clean keyword) ∈ _github_repo_search_queries w keywords refinements

section Queries

variable {w ops} {words run : List (List Char)}

theorem countFrom_sentence (hops : Lettered w ops) (words : List (List Char)) :
    countFrom w ops 0 none (sentence words) = (words.map (countFrom w ops 0 none)).sum := by
  induction words with
  | nil => rfl
  | cons word words ih =>
    rcases words with _ | ⟨next, words⟩
    · simp [sentence]
    · rw [sentence_cons (cons_ne_nil _ _), countFrom_append hops _ _ _ _ (Nat.zero_le _), ih]
      rfl

theorem count_sentence (words : List (List Char)) :
    _github_search_boolean_operator_count w (sentence words) = operatorCount w words :=
  countFrom_sentence (lettered_of_subset (List.Subset.refl _)) words

theorem clean_sentence (hne : words ≠ []) (h : ∀ word ∈ words, IsWord word) : clean (sentence words) = sentence words := by
  rw [clean, strip_of_trimmed (trimmed_sentence hne h).2, squashChars, splitWords_intercalate h]

/-- What a keyword is split into. -/
theorem split_sentence (hne : words ≠ []) (h : ∀ word ∈ words, IsWord word) :
    _split_github_boolean_query w (sentence words) =
      if operatorCount w words ≤ GITHUB_SEARCH_BOOLEAN_OPERATOR_LIMIT then [sentence words]
      else if ∀ word ∈ words, countFrom w ["AND".toList, "NOT".toList] 0 none word = 0 then
        (_chunks ((stretches ["OR".toList] words).map sentence) (GITHUB_SEARCH_BOOLEAN_OPERATOR_LIMIT + 1)).map joinOr
      else (stretches operators words).map sentence := by
  have hnonempty (ops : List (List Char)) : (stretches ops words).map sentence ≠ [] :=
    map_eq_nil_iff.not.2 (stretches_ne_nil hne)
  have hsearch : countFrom w ["AND".toList, "NOT".toList] 0 none (sentence words) = 0 ↔
      ∀ word ∈ words, countFrom w ["AND".toList, "NOT".toList] 0 none word = 0 := by
    rw [countFrom_sentence (lettered_of_subset (by simp [operators])), sum_eq_zero_iff]
    simp
  unfold _split_github_boolean_query
  rw [clean_sentence hne h, if_neg (trimmed_sentence hne h).1, count_sentence,
    splitParts_sentence (lettered_of_subset (by simp [operators])) hne h,
    splitParts_sentence (lettered_of_subset (List.Subset.refl _)) hne h]
  simp only [hsearch, hnonempty, ne_eq, not_false_eq_true, and_true, if_false]

theorem split_limit_iff (hne : words ≠ []) (h : ∀ word ∈ words, IsWord word) :
    (∀ part ∈ _split_github_boolean_query w (sentence words), Limited w part) ↔ Fits w words := by
  rw [split_sentence hne h, Fits]
  by_cases hfew : operatorCount w words ≤ GITHUB_SEARCH_BOOLEAN_OPERATOR_LIMIT
  · simp [hfew, Limited, count_sentence]
  · rw [if_neg hfew, or_iff_right hfew]
    split_ifs
    · simp [chunks_map, Limited, count_joinOr, Function.comp_def, count_sentence]
    · simp [Limited, count_sentence]

theorem split_run (hne : words ≠ []) (h : ∀ word ∈ words, IsWord word) (hrun : run <:+: words)
    (hfree : ∀ word ∈ run, word ∉ operators) :
    ∃ part ∈ _split_github_boolean_query w (sentence words), sentence run <:+: part := by
  rw [split_sentence hne h]
  split_ifs
  · exact ⟨_, mem_singleton_self _, infix_sentence hrun⟩
  · have hor : ["OR".toList] ⊆ operators := by simp [operators]
    obtain ⟨stretch, hstretch, hinfix⟩ := infix_stretch (fun op hop hmem => hfree op hmem (hor hop)) hrun hne
    obtain ⟨chunk, hchunk, hmem⟩ := mem_chunks (Nat.succ_pos GITHUB_SEARCH_BOOLEAN_OPERATOR_LIMIT)
      (mem_map_of_mem (f := sentence) hstretch)
    exact ⟨_, mem_map_of_mem hchunk, (infix_sentence hinfix).trans (infix_intercalate hmem)⟩
  · obtain ⟨stretch, hstretch, hinfix⟩ := infix_stretch (fun op hop hmem => hfree op hmem hop) hrun hne
    exact ⟨_, mem_map_of_mem hstretch, infix_sentence hinfix⟩

variable {keywords refinements : List (List Char)} {keyword part term : List Char}

theorem exists_partQuery (hterm : term ∈ refinements) (part : List Char) : ∃ chunk ⊆ refinements, term ∈ chunk ∧
    part ++ ' ' :: joinOr chunk ∈ partQueries w refinements part := by
  have hsize : 0 < max 1 (GITHUB_SEARCH_BOOLEAN_OPERATOR_LIMIT + 1 - _github_search_boolean_operator_count w part) := by omega
  obtain ⟨chunk, hchunk, hmem⟩ := mem_chunks hsize hterm
  have hquery {query : List Char} (h : query ∈ if Limited w (part ++ ' ' :: joinOr chunk)
      then [part ++ ' ' :: joinOr chunk] else chunk.map fun term => part ++ ' ' :: term) :
      query ∈ partQueries w refinements part := by
    rw [partQueries, if_neg (ne_nil_of_mem hterm)]
    exact mem_flatMap.2 ⟨chunk, hchunk, h⟩
  by_cases hlimited : Limited w (part ++ ' ' :: joinOr chunk)
  · exact ⟨chunk, subset_of_mem_chunks hchunk, hmem, hquery (by simp [hlimited])⟩
  · refine ⟨[term], by simpa using hterm, mem_singleton_self _, hquery ?_⟩
    rw [if_neg hlimited]
    exact mem_map.2 ⟨term, hmem, by simp [joinOr]⟩

/-- The refinements keep a part in the limit, and do not bring it there. -/
theorem partQueries_limited (hfree : ∀ term ∈ refinements, _github_search_boolean_operator_count w term = 0) :
    (∀ query ∈ partQueries w refinements part, Limited w query) ↔ Limited w part := by
  by_cases hnone : refinements = []
  · simp [partQueries, hnone]
  refine ⟨fun h => ?_, fun hpart query hquery => ?_⟩
  · obtain ⟨term, hterm⟩ := exists_mem_of_ne_nil _ hnone
    obtain ⟨chunk, -, -, hmem⟩ := exists_partQuery (w := w) hterm part
    have hquery := h _ hmem
    rw [Limited, count_append] at hquery
    exact le_trans (Nat.le_add_right _ _) hquery
  · rw [partQueries, if_neg hnone, mem_flatMap] at hquery
    obtain ⟨chunk, hchunk, hquery⟩ := hquery
    dsimp only at hquery
    split_ifs at hquery with hlimited
    · rw [mem_singleton.1 hquery]
      exact hlimited
    · obtain ⟨term, hterm, rfl⟩ := mem_map.1 hquery
      rw [Limited, count_append, hfree term (subset_of_mem_chunks hchunk hterm)]
      exact hpart

theorem mem_queries {query : List Char × List Char} : query ∈ _github_repo_search_queries w keywords refinements ↔
    ∃ keyword ∈ keywords, (∃ part ∈ _split_github_boolean_query w (clean keyword), query.1 ∈ partQueries w refinements part) ∧
      query.2 = clean keyword := by
  unfold _github_repo_search_queries
  rw [mem_flatMap]
  constructor
  · rintro ⟨keyword, hkeyword, h⟩
    dsimp only at h
    split_ifs at h
    · cases h
    · simp only [mem_flatMap, mem_map] at h
      obtain ⟨part, hpart, text, htext, rfl⟩ := h
      exact ⟨keyword, hkeyword, ⟨part, hpart, htext⟩, rfl⟩
  · rintro ⟨keyword, hkeyword, ⟨part, hpart, htext⟩, hvia⟩
    refine ⟨keyword, hkeyword, ?_⟩
    dsimp only
    rw [if_neg fun hblank => by rw [hblank] at hpart; cases hpart]
    exact mem_flatMap.2 ⟨part, hpart, mem_map.2 ⟨query.1, htext, Prod.ext rfl hvia.symm⟩⟩

/-- For a part there is a query that begins with it. -/
theorem exists_query (hkeyword : keyword ∈ keywords) (hpart : part ∈ _split_github_boolean_query w (clean keyword)) :
    ∃ query ∈ _github_repo_search_queries w keywords refinements, query.2 = clean keyword ∧ part <+: query.1 := by
  have hquery : ∃ query ∈ partQueries w refinements part, part <+: query := by
    rcases refinements with _ | ⟨term, refinements⟩
    · exact ⟨part, by simp [partQueries], prefix_rfl⟩
    · obtain ⟨chunk, -, -, hmem⟩ := exists_partQuery (w := w) (mem_cons_self (a := term) (l := refinements)) part
      exact ⟨_, hmem, prefix_append _ _⟩
  obtain ⟨query, hmem, hprefix⟩ := hquery
  exact ⟨(query, clean keyword), mem_queries.2 ⟨keyword, hkeyword, ⟨part, hpart, hmem⟩, rfl⟩, rfl, hprefix⟩

/-- For refinements without operators, the queries keep the limit and lose nothing just where each keyword fits. -/
theorem search_queries_iff (hfree : ∀ term ∈ refinements, _github_search_boolean_operator_count w term = 0) :
    Faithful w keywords refinements ↔ ∀ keyword ∈ keywords, Fits w (splitWords (strip keyword)) := by
  refine ⟨fun h keyword hkeyword => ?_, fun h => ⟨?_, ?_, ?_, ?_⟩⟩
  · by_cases hne : splitWords (strip keyword) = []
    · rw [hne]
      exact .inl (Nat.zero_le _)
    · refine (split_limit_iff hne (fun _ => isWord_of_mem_splitWords)).1 fun part hpart => (partQueries_limited hfree).1 fun query hquery => ?_
      exact h.limit (query, clean keyword) (mem_queries.2 ⟨keyword, hkeyword, ⟨part, hpart, hquery⟩, rfl⟩)
  · intro query hquery
    obtain ⟨keyword, hkeyword, ⟨part, hpart, hmem⟩, -⟩ := mem_queries.1 hquery
    have hne : splitWords (strip keyword) ≠ [] := by
      intro hnil
      rw [clean, squashChars, hnil] at hpart
      cases hpart
    exact (partQueries_limited hfree).2 ((split_limit_iff hne (fun _ => isWord_of_mem_splitWords)).2 (h keyword hkeyword) part hpart) _ hmem
  · intro keyword hkeyword hblank
    have hwords : splitWords (strip keyword) ≠ [] := fun hnil => hblank (by rw [clean, squashChars, hnil]; rfl)
    obtain ⟨part, hpart, -⟩ := split_run (w := w) hwords (fun _ => isWord_of_mem_splitWords) nil_infix (by simp)
    obtain ⟨query, hmem, hvia, -⟩ := @exists_query w keywords refinements _ _ hkeyword hpart
    exact ⟨query, hmem, hvia⟩
  · intro keyword hkeyword run hrun hne hfree
    have hwords : splitWords (strip keyword) ≠ [] := fun hnil => hne (infix_nil.1 (hnil ▸ hrun))
    obtain ⟨part, hpart, hinfix⟩ := split_run (w := w) hwords (fun _ => isWord_of_mem_splitWords) hrun hfree
    obtain ⟨query, hmem, hvia, hprefix⟩ := @exists_query w keywords refinements _ _ hkeyword hpart
    exact ⟨query, hmem, hvia, hinfix.trans hprefix.isInfix⟩
  · intro keyword hkeyword part hpart term hterm
    obtain ⟨chunk, hsubset, hmem, hquery⟩ := exists_partQuery (w := w) hterm part
    exact ⟨chunk, hsubset, hmem, mem_queries.2 ⟨keyword, hkeyword, ⟨part, hpart, hquery⟩, rfl⟩⟩

end Queries

section Example

def asciiWords : WordClass where
  word := fun c => c.isAlphanum || c == '_'
  not_space := rfl
  letter := by simp

def slashes : List Char := "a/OR/b/OR/c/OR/d/OR/e/OR/f/OR/g".toList

/-- Six operators that no space surrounds are counted and not cut at. -/
theorem not_faithful_slashes : ¬ ∀ (w : WordClass) (keywords refinements : List (List Char)),
    (∀ term ∈ refinements, _github_search_boolean_operator_count w term = 0) → Faithful w keywords refinements :=
  fun h => absurd ((h asciiWords [slashes] [] (by simp)).limit (slashes, slashes) (by decide +kernel)) (by decide +kernel)

theorem search_queries_docs : Faithful asciiWords ["job OR queue".toList] ["docs".toList] :=
  (search_queries_iff (by decide)).2 fun keyword hkeyword => by
    rw [mem_singleton.1 hkeyword]
    exact .inl (by decide +kernel)

end Example

end SearchQuery

end AiOrg
