import AiOrg.Approach.Tree

/-!
# Slugs

A slug is made of the words of a name, its runs of letters and digits in small letters, with hyphens between them, cut
off after eighty characters. Names have the same slug if and only if these texts begin the same (`slug_eq_iff`).
-/

namespace AiOrg

open List

namespace Approach

def slugWords (text : List Char) : List (List Char) := (text.splitOnP fun c => !isSlugChar c).filter (!·.isEmpty)

def hyphenated (text : List Char) : List Char := ['-'].intercalate (slugWords text)

def startsSoft (text : List Char) : Bool := text.head?.any fun c => !isSlugChar c

theorem slugWords_soft {c : Char} {text : List Char} (hc : isSlugChar c = false) :
    slugWords (c :: text) = slugWords text := by
  simp [slugWords, splitOnP_cons_eq_if_modifyHead, hc]

theorem slugWords_hard {c : Char} {text : List Char} (hc : isSlugChar c = true) : slugWords (c :: text) =
    if text = [] ∨ startsSoft text = true then [c] :: slugWords text else (slugWords text).modifyHead (c :: ·) := by
  cases text with
  | nil => simp [slugWords, splitOnP_cons_eq_if_modifyHead, hc]
  | cons d text =>
    by_cases hd : isSlugChar d = true
    · obtain ⟨first, rest, hsplit⟩ := exists_cons_of_ne_nil (splitOnP_ne_nil (fun c => !isSlugChar c) text)
      simp [slugWords, splitOnP_cons_eq_if_modifyHead, hc, hd, hsplit, startsSoft]
    · simp only [Bool.not_eq_true] at hd
      simp [slugWords, splitOnP_cons_eq_if_modifyHead, hc, hd, startsSoft]

theorem slugWords_hard_ne_nil {c : Char} {text : List Char} (hc : isSlugChar c = true) : slugWords (c :: text) ≠ [] := by
  rw [slugWords_hard hc]
  split_ifs with hstart
  · exact cons_ne_nil _ _
  · obtain ⟨hne, hsoft⟩ := not_or.1 hstart
    obtain ⟨d, rest, rfl⟩ := exists_cons_of_ne_nil hne
    have hd : isSlugChar d = true := by simpa [startsSoft] using hsoft
    have h := @slugWords_hard_ne_nil d rest hd
    obtain ⟨first, words, heq⟩ := exists_cons_of_ne_nil h
    rw [heq, modifyHead_cons]
    exact cons_ne_nil _ _
  termination_by text.length

theorem mem_dashes {c : Char} {dashed : Bool} {text : List Char} (h : c ∈ dashes dashed text) :
    isSlugChar c = true ∨ c = '-' := by
  induction text generalizing dashed with
  | nil => cases h
  | cons d text ih =>
    rw [dashes] at h
    split_ifs at h with hd hdashed
    · rcases mem_cons.1 h with rfl | h
      · exact .inl hd
      · exact ih h
    · exact ih h
    · rcases mem_cons.1 h with rfl | h
      · exact .inr rfl
      · exact ih h

theorem mem_of_mem_stripDashes {c : Char} {text : List Char} (h : c ∈ stripDashes text) : c ∈ text := by
  rw [stripDashes, mem_reverse] at h
  exact (dropWhile_sublist _).subset (mem_reverse.1 ((dropWhile_sublist _).subset h))

theorem hyphenated_soft {c : Char} {text : List Char} (hc : isSlugChar c = false) :
    hyphenated (c :: text) = hyphenated text := by
  rw [hyphenated, slugWords_soft hc, hyphenated]

theorem hyphenated_hard {c : Char} {text : List Char} (hc : isSlugChar c = true) : hyphenated (c :: text) =
    c :: if slugWords text = [] then [] else if startsSoft text = true then '-' :: hyphenated text
      else hyphenated text := by
  rw [hyphenated, slugWords_hard hc]
  cases hwords : slugWords text with
  | nil =>
    have hstart : text = [] ∨ startsSoft text = true := by
      by_contra hnot
      obtain ⟨hne, hsoft⟩ := not_or.1 hnot
      obtain ⟨d, rest, rfl⟩ := exists_cons_of_ne_nil hne
      exact slugWords_hard_ne_nil (by simpa [startsSoft] using hsoft) hwords
    rw [if_pos hstart, if_pos rfl, intercalate_singleton]
  | cons first words =>
    rw [if_neg (cons_ne_nil _ _)]
    have hne : text ≠ [] := by
      rintro rfl
      cases hwords
    by_cases hsoft : startsSoft text = true
    · rw [if_pos (.inr hsoft), if_pos hsoft, intercalate_cons_cons, hyphenated, hwords]
      rfl
    · rw [if_neg (by simp [hne, hsoft]), if_neg hsoft, modifyHead_cons, hyphenated, hwords]
      cases words with
      | nil => rw [intercalate_singleton, intercalate_singleton]
      | cons second words => rw [intercalate_cons_cons, intercalate_cons_cons]; rfl

theorem hyphen_not_slugChar {c : Char} (hc : isSlugChar c = true) : c ≠ '-' := by
  rintro rfl
  exact absurd hc (by decide)

theorem rdropWhile_cons (p : Char → Bool) (c : Char) (text : List Char) : (c :: text).rdropWhile p =
    if text.rdropWhile p = [] then if p c = true then [] else [c] else c :: text.rdropWhile p := by
  simp only [List.rdropWhile, reverse_cons, dropWhile_append, reverse_eq_nil_iff]
  by_cases hempty : List.dropWhile p text.reverse = []
  · by_cases hc : p c = true <;> simp [hempty, hc]
  · have hfalse : (List.dropWhile p text.reverse).isEmpty = false := isEmpty_eq_false_iff.2 hempty
    simp [hempty, hfalse]

theorem intercalate_eq_nil {words : List (List Char)} (h : ∀ word ∈ words, word ≠ []) :
    ['-'].intercalate words = [] ↔ words = [] := by
  cases words with
  | nil => simp
  | cons word words =>
    have hword := h word mem_cons_self
    cases words with
    | nil => simp [intercalate_singleton, hword]
    | cons next words => simp [intercalate_cons_cons, hword]

theorem hyphenated_eq_nil {text : List Char} : hyphenated text = [] ↔ slugWords text = [] := by
  refine intercalate_eq_nil fun word hword => ?_
  simpa using (mem_filter.1 hword).2

theorem rdropWhile_dashes (text : List Char) : (dashes true text).rdropWhile (· = '-') = hyphenated text ∧
    (dashes false text).rdropWhile (· = '-') = if slugWords text = [] then [] else
      if startsSoft text = true then '-' :: hyphenated text else hyphenated text := by
  induction text with
  | nil => simp [dashes, hyphenated, slugWords]
  | cons c text ih =>
    by_cases hc : isSlugChar c = true
    · have hrest : (c :: dashes false text).rdropWhile (· = '-') = hyphenated (c :: text) := by
        rw [rdropWhile_cons, ih.2, hyphenated_hard hc]
        have hne := hyphen_not_slugChar hc
        by_cases hwords : slugWords text = []
        · simp [hwords, hne]
        · have hyphens := mt hyphenated_eq_nil.1 hwords
          by_cases hsoft : startsSoft text = true <;> simp [hwords, hsoft, hyphens]
      have hstart : startsSoft (c :: text) = false := by simp [startsSoft, hc]
      rw [dashes, dashes, if_pos hc, if_pos hc, if_neg (slugWords_hard_ne_nil hc), hstart, hrest]
      exact ⟨rfl, rfl⟩
    · have hc' : isSlugChar c = false := by simpa using hc
      have hstart : startsSoft (c :: text) = true := by simp [startsSoft, hc']
      rw [dashes, dashes, if_neg hc, if_neg hc, if_pos rfl, if_neg (by simp), hyphenated_soft hc', slugWords_soft hc',
        if_pos hstart, rdropWhile_cons, ih.1]
      refine ⟨rfl, ?_⟩
      by_cases hwords : slugWords text = []
      · simp [hwords, hyphenated_eq_nil.2 hwords]
      · simp [hwords, mt hyphenated_eq_nil.1 hwords]

theorem dashes_true_head (text : List Char) : ∀ c ∈ (dashes true text).head?, c ≠ '-' := by
  induction text with
  | nil => exact fun c hc => by cases hc
  | cons d text ih =>
    by_cases hd : isSlugChar d = true
    · rw [dashes, if_pos hd]
      intro c hc
      rw [← Option.some.inj hc]
      exact hyphen_not_slugChar hd
    · rw [dashes, if_neg hd, if_pos rfl]
      exact ih

theorem dropWhile_dashes (text : List Char) : (dashes false text).dropWhile (· = '-') = dashes true text := by
  cases text with
  | nil => rfl
  | cons c text =>
    by_cases hc : isSlugChar c = true
    · rw [dashes, dashes, if_pos hc, if_pos hc]
      exact dropWhile_cons_of_neg (by simpa using hyphen_not_slugChar hc)
    · rw [dashes, dashes, if_neg hc, if_neg hc, if_pos rfl, if_neg (by simp), dropWhile_cons_of_pos (by simp)]
      cases hdashes : dashes true text with
      | nil => rfl
      | cons d rest =>
        have hd := dashes_true_head text d (by rw [hdashes]; rfl)
        exact dropWhile_cons_of_neg (by simpa using hd)

theorem stripDashes_dashes (text : List Char) : stripDashes (dashes false text) = hyphenated text := by
  rw [stripDashes, dropWhile_dashes, ← List.rdropWhile, (rdropWhile_dashes text).1]

def slugText (py : PyLib) (name : String) : List Char := hyphenated (py.lower (pyStrip name)).toList

theorem underscore_not_mem_slugText (py : PyLib) (name : String) : '_' ∉ slugText py name := by
  intro h
  rw [slugText, ← stripDashes_dashes] at h
  rcases mem_dashes (mem_of_mem_stripDashes h) with h | h <;> revert h <;> decide

/-- Names have the same slug if and only if the words of them with hyphens between begin with the same eighty
characters. -/
theorem slug_eq_iff (py : PyLib) {a b : String} :
    _slug py a = _slug py b ↔ (slugText py a).take 80 = (slugText py b).take 80 := by
  have hreserved : ∀ name, String.ofList ((slugText py name).take 80) ≠ "patch_series" := by
    intro name h
    have hmem : '_' ∈ (slugText py name).take 80 := by
      rw [← String.toList_ofList (l := (slugText py name).take 80), h]
      decide
    exact underscore_not_mem_slugText py name (mem_of_mem_take hmem)
  simp only [_slug, stripDashes_dashes]
  refine ⟨fun h => ?_, fun h => ?_⟩
  · split_ifs at h with ha hb hb
    · exact ha.trans hb.symm
    · exact absurd h.symm (hreserved b)
    · exact absurd h (hreserved a)
    · exact String.ofList_injective h
  · simp only [slugText] at h
    rw [h]

end Approach

end AiOrg
