import AiOrg.Python.Text
import AiOrg.Python.Value

/-!
# Lines and separators

`str` methods that cut a text: `splitlines`, `partition`, the last occurrence of a separator,
`removeprefix`, and what they give on a text that was put together from lines.
-/

namespace AiOrg

open List

namespace Text

/-- The characters `splitlines` cuts at. -/
def isLineBoundary (c : Char) : Bool :=
  [0x0a, 0x0b, 0x0c, 0x0d, 0x1c, 0x1d, 0x1e, 0x85, 0x2028, 0x2029].contains c.toNat

def splitlinesFrom (line : List Char) : List Char → List (List Char)
  | [] => if line.isEmpty then [] else [line]
  | c :: rest =>
    if isLineBoundary c then
      match rest with
      | [] => [line]
      | d :: rest =>
        if c = '\r' ∧ d = '\n' then line :: splitlinesFrom [] rest
        else line :: splitlinesFrom [] (d :: rest)
    else splitlinesFrom (line ++ [c]) rest

/-- `text.splitlines()`. -/
def splitlines (text : List Char) : List (List Char) := splitlinesFrom [] text

/-- `"\n".join(lines)`. -/
def joinLines (lines : List (List Char)) : List Char := ['\n'].intercalate lines

/-- `text.partition(separator)`: what stands before and after its first occurrence. -/
def partition (separator : List Char) (text : List Char) : Option (List Char × List Char) :=
  if separator <+: text then some ([], text.drop separator.length)
  else match text with
  | [] => none
  | c :: rest => (partition separator rest).map fun parts => (c :: parts.1, parts.2)

/-- The text cut at the last occurrence of a separator, which starts the second part. -/
def splitLast (separator : List Char) : List Char → Option (List Char × List Char)
  | [] => none
  | c :: rest =>
    match splitLast separator rest with
    | some parts => some (c :: parts.1, parts.2)
    | none => if separator <+: c :: rest then some ([], c :: rest) else none

/-- `text.removeprefix(front)`. -/
def removePrefix (front text : List Char) : List Char :=
  if front <+: text then text.drop front.length else text

/-- `text.split()`. -/
def splitWords (text : List Char) : List (List Char) :=
  (text.splitOnP isSpace).filter (!·.isEmpty)

/-- `text.split(mark, 1)`, for a mark that occurs. -/
def splitOnce (mark : Char) (text : List Char) : List Char × List Char :=
  (text.takeWhile (· != mark), (text.dropWhile (· != mark)).drop 1)

@[simp] theorem removePrefix_append (front text : List Char) :
    removePrefix front (front ++ text) = text := by
  simp [removePrefix]

theorem partition_append {separator front text : List Char} {mark : Char}
    (hmark : separator.head? = some mark) (hfront : mark ∉ front) :
    partition separator (front ++ separator ++ text) = some (front, text) := by
  induction front with
  | nil =>
    rw [partition.eq_def]
    simp
  | cons c front ih =>
    rw [mem_cons, not_or] at hfront
    obtain ⟨hc, hfront⟩ := hfront
    have hstart : ¬ separator <+: c :: (front ++ separator ++ text) := by
      obtain ⟨separator, rfl⟩ := head?_eq_some_iff.1 hmark
      rw [cons_prefix_cons]
      exact fun h => hc h.1
    rw [cons_append, cons_append, partition.eq_def, if_neg hstart]
    simp only [ih hfront, Option.map_some]

theorem splitOnce_append {mark : Char} {front text : List Char} (h : mark ∉ front) :
    splitOnce mark (front ++ mark :: text) = (front, text) := by
  have hne : ∀ c ∈ front, (c != mark) = true := fun c hc => by
    rw [bne_iff_ne]
    rintro rfl
    exact h hc
  unfold splitOnce
  rw [takeWhile_append_of_pos hne, dropWhile_append_of_pos hne]
  simp

theorem splitLast_eq_none {separator text : List Char}
    (h : ∀ tail, tail <:+ text → ¬ separator <+: tail) : splitLast separator text = none := by
  induction text with
  | nil => rfl
  | cons c rest ih =>
    rw [splitLast, ih fun tail htail => h tail (htail.trans (suffix_cons c rest))]
    exact if_neg (h _ (suffix_refl _))

theorem splitLast_append {separator front text : List Char} {mark : Char}
    (h : ∀ tail, tail <:+ text → ¬ mark :: separator <+: tail) (hfront : separator <+: text) :
    splitLast (mark :: separator) (front ++ mark :: text) = some (front, mark :: text) := by
  induction front with
  | nil =>
    rw [nil_append, splitLast, splitLast_eq_none h]
    exact if_pos (cons_prefix_cons.2 ⟨rfl, hfront⟩)
  | cons c front ih =>
    rw [cons_append, splitLast, ih]

/-! ### Lines -/

theorem splitlinesFrom_append (line : List Char) {text : List Char} (rest : List Char)
    (h : ∀ c ∈ text, isLineBoundary c = false) :
    splitlinesFrom line (text ++ rest) = splitlinesFrom (line ++ text) rest := by
  induction text generalizing line with
  | nil => rw [nil_append, append_nil]
  | cons c text ih =>
    obtain ⟨hc, htext⟩ := forall_mem_cons.1 h
    rw [cons_append, splitlinesFrom.eq_def]
    simp only [hc, Bool.false_eq_true, ↓reduceIte]
    rw [ih _ htext, append_assoc]
    rfl

theorem splitlinesFrom_lf (line rest : List Char) :
    splitlinesFrom line ('\n' :: rest) = line :: splitlinesFrom [] rest := by
  rw [splitlinesFrom.eq_def]
  rcases rest with _ | ⟨d, rest⟩
  · rfl
  · simp [isLineBoundary]

theorem splitlinesFrom_lf_append (line text rest : List Char) :
    splitlinesFrom line (text ++ '\n' :: rest) =
      splitlinesFrom line (text ++ ['\n']) ++ splitlinesFrom [] rest := by
  induction hlength : text.length using Nat.strong_induction_on generalizing line text with
  | _ n ih =>
    match text with
    | [] =>
      rw [nil_append, nil_append, splitlinesFrom_lf, splitlinesFrom_lf]
      rfl
    | [c] =>
      rw [singleton_append, singleton_append, splitlinesFrom.eq_def]
      conv_rhs => rw [splitlinesFrom.eq_def]
      by_cases hc : isLineBoundary c
      · by_cases hcr : c = '\r'
        · simp [hcr, isLineBoundary, splitlinesFrom]
        · simp only [hc, hcr, false_and, ↓reduceIte, splitlinesFrom_lf]
          rfl
      · simp only [hc, Bool.false_eq_true, ↓reduceIte]
        rw [splitlinesFrom_lf, splitlinesFrom_lf]
        rfl
    | c :: d :: text =>
      have hshort := ih text.length (by simp at hlength; omega) [] text rfl
      have hnext := fun line => ih (d :: text).length (by simp at hlength ⊢; omega) line (d :: text) rfl
      simp only [cons_append] at hnext ⊢
      rw [splitlinesFrom.eq_def]
      conv_rhs => rw [splitlinesFrom.eq_def]
      by_cases hc : isLineBoundary c
      · by_cases hcr : c = '\r' ∧ d = '\n'
        · obtain ⟨rfl, rfl⟩ := hcr
          simp [hc, hshort]
        · simp only [hc, hcr, ↓reduceIte, hnext, cons_append]
      · simp only [hc, Bool.false_eq_true, ↓reduceIte, hnext]

/-- Without a character `splitlines` cuts at. -/
def Plain (text : List Char) : Prop := ∀ c ∈ text, isLineBoundary c = false

theorem Plain.sublist {text part : List Char} (h : Plain text) (hpart : part.Sublist text) :
    Plain part := fun c hc => h c (hpart.subset hc)

theorem plain_nil : Plain [] := fun _ hc => absurd hc not_mem_nil

theorem plain_of_mem_splitlinesFrom {text line : List Char} (hline : Plain line) :
    ∀ cut ∈ splitlinesFrom line text, Plain cut := by
  induction line, text using splitlinesFrom.induct with
  | case1 line h =>
    rw [splitlinesFrom, if_pos h]
    simp
  | case2 line h =>
    rw [splitlinesFrom, if_neg h]
    simpa using hline
  | case3 line c hc =>
    rw [splitlinesFrom, if_pos hc]
    simpa using hline
  | case4 line c hc d rest hcr ih =>
    rw [splitlinesFrom, if_pos hc]
    simp only [hcr, and_self, ↓reduceIte]
    exact forall_mem_cons.2 ⟨hline, ih plain_nil⟩
  | case5 line c hc d rest hcr ih =>
    rw [splitlinesFrom, if_pos hc]
    simp only [hcr, ↓reduceIte]
    exact forall_mem_cons.2 ⟨hline, ih plain_nil⟩
  | case6 line c rest hc ih =>
    rw [splitlinesFrom.eq_def]
    simp only [hc]
    refine ih fun d hd => ?_
    rcases mem_append.1 hd with hd | hd
    · exact hline d hd
    · obtain rfl := mem_singleton.1 hd
      exact Bool.eq_false_iff.2 hc

theorem plain_of_mem_splitlines {text line : List Char} (h : line ∈ splitlines text) :
    Plain line := plain_of_mem_splitlinesFrom plain_nil line h

theorem joinLines_singleton (line : List Char) : joinLines [line] = line := by
  simp [joinLines, List.intercalate]

theorem joinLines_cons_cons (line next : List Char) (lines : List (List Char)) :
    joinLines (line :: next :: lines) = line ++ '\n' :: joinLines (next :: lines) := by
  simp [joinLines, List.intercalate]

theorem splitlines_joinLines : ∀ {lines : List (List Char)},
    (∀ line ∈ lines, line ≠ [] ∧ ∀ c ∈ line, isLineBoundary c = false) →
      splitlines (joinLines lines) = lines
  | [], _ => rfl
  | [line], h => by
    obtain ⟨hne, hline⟩ := h line mem_cons_self
    have hsplit := splitlinesFrom_append [] [] hline
    rw [append_nil, nil_append] at hsplit
    rw [joinLines_singleton, splitlines, hsplit, splitlinesFrom, if_neg (by simpa using hne)]
  | line :: next :: lines, h => by
    obtain ⟨⟨-, hline⟩, hlines⟩ := forall_mem_cons.1 h
    have ih := splitlines_joinLines hlines
    rw [splitlines] at ih
    rw [joinLines_cons_cons, splitlines, splitlinesFrom_append _ _ hline, nil_append,
      splitlinesFrom_lf, ih]

theorem joinLines_concat : ∀ {lines : List (List Char)}, lines ≠ [] →
    (∀ line ∈ lines, line ≠ [] ∧ '\n' ∉ line) → ∃ text c, joinLines lines = text ++ [c] ∧ c ≠ '\n'
  | [line], _, h => by
    obtain ⟨hne, hline⟩ := h line mem_cons_self
    refine ⟨line.dropLast, line.getLast hne, ?_, fun hc => hline (hc ▸ getLast_mem hne)⟩
    rw [joinLines_singleton, dropLast_append_getLast]
  | line :: next :: lines, _, h => by
    obtain ⟨text, c, htext, hc⟩ :=
      joinLines_concat (cons_ne_nil next lines) (forall_mem_cons.1 h).2
    refine ⟨line ++ '\n' :: text, c, ?_, hc⟩
    rw [joinLines_cons_cons, htext, append_assoc]
    rfl

/-- Not both characters are line feeds. -/
def NotBlank (c d : Char) : Prop := ¬ (c = '\n' ∧ d = '\n')

theorem notBlank_line : ∀ {line rest : List Char}, '\n' ∉ line → rest.IsChain NotBlank →
    (line ++ rest).IsChain NotBlank
  | [], _, _, hrest => hrest
  | c :: line, rest, h, hrest => by
    have ih := @notBlank_line line rest (fun hline => h (mem_cons_of_mem c hline)) hrest
    rw [cons_append]
    rcases htext : line ++ rest with _ | ⟨d, text⟩
    · exact isChain_singleton c
    · rw [htext] at ih
      exact List.IsChain.cons_cons (fun hc => h (hc.1 ▸ mem_cons_self)) ih

theorem notBlank_cons_line {line rest : List Char} (hne : line ≠ []) (hline : '\n' ∉ line)
    (hrest : rest.IsChain NotBlank) : ('\n' :: (line ++ rest)).IsChain NotBlank := by
  have htext := notBlank_line hline hrest
  obtain ⟨c, line, rfl⟩ := exists_cons_of_ne_nil hne
  exact List.IsChain.cons_cons (fun hc => hline (hc.2 ▸ mem_cons_self)) htext

theorem notBlank_joinLines : ∀ {lines : List (List Char)},
    (∀ line ∈ lines, line ≠ [] ∧ '\n' ∉ line) → ('\n' :: joinLines lines).IsChain NotBlank
  | [], _ => isChain_singleton _
  | [line], h => by
    obtain ⟨hne, hline⟩ := h line mem_cons_self
    rw [joinLines_singleton, ← append_nil line]
    exact notBlank_cons_line hne hline isChain_nil
  | line :: next :: lines, h => by
    obtain ⟨⟨hne, hline⟩, hlines⟩ := forall_mem_cons.1 h
    rw [joinLines_cons_cons]
    exact notBlank_cons_line hne hline (notBlank_joinLines hlines)

theorem not_prefix_of_notBlank {separator tail text : List Char} (h : text.IsChain NotBlank)
    (htail : tail <:+ text) : ¬ '\n' :: '\n' :: separator <+: tail := by
  intro hfront
  obtain ⟨rest, rfl⟩ := hfront
  have hchain := h.suffix htail
  exact (isChain_cons_cons.1 hchain).1 ⟨rfl, rfl⟩

end Text

end AiOrg

/-!
## Words

`squash` is `" ".join(text.split())`: the words of a text with one space between them. Its words are those of the
text, so squashing again changes nothing (`squash_squash`).
-/

namespace AiOrg

open List

namespace Text

/-- `" ".join(text.split())`. -/
def squashChars (text : List Char) : List Char := [' '].intercalate (splitWords text)

/-- A word is not empty and has no white space. -/
def IsWord (word : List Char) : Prop := word ≠ [] ∧ ∀ c ∈ word, isSpace c = false

theorem of_mem_splitOnP {p : Char → Bool} {text piece : List Char} (h : piece ∈ text.splitOnP p) :
    ∀ c ∈ piece, p c = false := by
  induction text generalizing piece with
  | nil =>
    rw [splitOnP_nil, mem_singleton] at h
    simp [h]
  | cons d text ih =>
    rw [splitOnP_cons_eq_if_modifyHead] at h
    split_ifs at h with hd
    · rcases mem_cons.1 h with rfl | h
      · simp
      · exact ih h
    · obtain ⟨first, rest, hsplit⟩ := exists_cons_of_ne_nil (splitOnP_ne_nil p text)
      rw [hsplit] at h ih
      rcases mem_cons.1 h with rfl | h
      · intro c hc
        rcases mem_cons.1 hc with rfl | hc
        · simpa using hd
        · exact ih mem_cons_self c hc
      · exact ih (mem_cons_of_mem _ h)

theorem isWord_of_mem_splitWords {text word : List Char} (h : word ∈ splitWords text) : IsWord word := by
  rw [splitWords, mem_filter] at h
  refine ⟨?_, of_mem_splitOnP h.1⟩
  rintro rfl
  simp at h

theorem splitWords_intercalate {words : List (List Char)} (h : ∀ word ∈ words, IsWord word) :
    splitWords ([' '].intercalate words) = words := by
  induction words with
  | nil => rfl
  | cons word words ih =>
    obtain ⟨hword, hwords⟩ := forall_mem_cons.1 h
    have hkept : (!word.isEmpty) = true := by simpa using hword.1
    rcases words with _ | ⟨next, words⟩
    · rw [intercalate_singleton, splitWords, splitOnP_eq_singleton hword.2, filter_cons, hkept]
      rfl
    · rw [intercalate_cons_cons, append_assoc, singleton_append, splitWords,
        splitOnP_append_cons_of_forall_mem hword.2 ' ' (by decide), filter_cons, hkept, if_pos rfl]
      exact congrArg (word :: ·) (ih hwords)

theorem squashChars_squashChars (text : List Char) : squashChars (squashChars text) = squashChars text := by
  rw [squashChars, squashChars, splitWords_intercalate fun word hword => isWord_of_mem_splitWords hword]

end Text

/-- `" ".join(text.split())`. -/
def squash (text : String) : String := String.ofList (Text.squashChars text.toList)

@[simp] theorem squash_squash (text : String) : squash (squash text) = squash text := by
  rw [squash, squash, String.toList_ofList, Text.squashChars_squashChars]

@[simp] theorem pyStrip_pyStrip (text : String) : pyStrip (pyStrip text) = pyStrip text := by
  rw [pyStrip, pyStrip, String.toList_ofList]
  exact congrArg String.ofList (Text.strip_of_trimmed (Text.trimmed_strip _))

/-- What the documentation of `str.lower` says: white space stays as it is, and so do small ASCII letters and the
underscore. -/
structure IsLower (lower : String → String) : Prop where
  squash : ∀ text, lower (squash text) = squash (lower text)
  small : ∀ text : String, (∀ c ∈ text.toList, c.isLower = true ∨ c = '_') → lower text = text

end AiOrg
