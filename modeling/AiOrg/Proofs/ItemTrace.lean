import AiOrg.PatchAuthor.ItemTrace

/-!
# What is read back of an item commit

The first line of the message is a beginning of the subject, whatever is in the title, and a value of a trailer is one
trimmed line. So the item is read back exactly where the subject's first line ends in it, and the obligations exactly
where they are trimmed lines (`item_commit_trace_iff`).
-/

namespace AiOrg

open List

namespace ItemTrace

open CodeWorker (Brief itemSubject universalNewlines)

theorem takeWhile_append_of_false {p : Char → Bool} {text rest : List Char} (h : ∀ c ∈ rest.head?, p c = false) :
    (text ++ rest).takeWhile p = text.takeWhile p := by
  induction text with
  | nil =>
    cases rest with
    | nil => rfl
    | cons c rest => simp [h c rfl]
  | cons c text ih =>
    rw [cons_append, takeWhile_cons, takeWhile_cons, ih]

def lineOf (text : List Char) : List Char := text.takeWhile fun c => !Text.isLineBoundary c

theorem plain_lineOf (text : List Char) : Text.Plain (lineOf text) := fun c hc => by
  simpa using mem_takeWhile_imp hc

theorem lineOf_lf (text rest : List Char) : lineOf (text ++ '\n' :: rest) = lineOf text :=
  takeWhile_append_of_false (by simp [Text.isLineBoundary])

theorem lineOf_append {text : List Char} (h : Text.Plain text) (rest : List Char) :
    lineOf (text ++ rest) = text ++ lineOf rest :=
  takeWhile_append_of_pos fun c hc => by simp [h c hc]

theorem lineOf_of_plain {text : List Char} (h : Text.Plain text) : lineOf text = text :=
  takeWhile_eq_self_iff.2 fun c hc => by simp [h c hc]

theorem lineOf_append_of_not_plain {text : List Char} (h : ¬ Text.Plain text) (rest : List Char) :
    lineOf (text ++ rest) = lineOf text := by
  induction text with
  | nil => exact absurd Text.plain_nil h
  | cons c text ih =>
    cases hc : Text.isLineBoundary c with
    | true => simp [lineOf, hc]
    | false =>
      have htext : ¬ Text.Plain text := fun hplain => h (forall_mem_cons.2 ⟨hc, hplain⟩)
      simpa [lineOf, hc] using ih htext

theorem lineOf_rdropWhile (text : List Char) : lineOf (text.rdropWhile (· = '\n')) = lineOf text := by
  have hsplit : text.rdropWhile (· = '\n') ++ text.rtakeWhile (· = '\n') = text := rdropWhile_append_rtakeWhile
  have hhead : ∀ c ∈ (text.rtakeWhile (· = '\n')).head?, (!Text.isLineBoundary c) = false := fun c hc => by
    have hmem := mem_rtakeWhile_imp (mem_of_mem_head? hc)
    obtain rfl : c = '\n' := by simpa using hmem
    rfl
  rw [lineOf, ← takeWhile_append_of_false hhead, hsplit]
  rfl

theorem exists_splitlines {text : List Char} (h : text ≠ []) : ∃ rest, Text.splitlines text = lineOf text :: rest := by
  have hfrom : ∀ line, line ++ text ≠ [] → ∃ rest, Text.splitlinesFrom line text = (line ++ lineOf text) :: rest := by
    clear h
    induction text with
    | nil =>
      intro line hline
      rw [append_nil] at hline
      exact ⟨[], by simp [Text.splitlinesFrom, hline, lineOf]⟩
    | cons c text ih =>
      intro line _
      cases hc : Text.isLineBoundary c with
      | true =>
        have hline : lineOf (c :: text) = [] := by simp [lineOf, hc]
        rw [Text.splitlinesFrom.eq_def, hline, append_nil]
        dsimp only
        rw [if_pos hc]
        cases text with
        | nil => exact ⟨[], rfl⟩
        | cons d text =>
          dsimp only
          split_ifs
          · exact ⟨_, rfl⟩
          · exact ⟨_, rfl⟩
      | false =>
        obtain ⟨rest, hrest⟩ := ih (line ++ [c]) (by simp)
        refine ⟨rest, ?_⟩
        rw [Text.splitlinesFrom.eq_def]
        dsimp only
        rw [if_neg (by simp [hc]), hrest]
        simp [lineOf, hc]
  exact hfrom [] (by simpa using h)

theorem universalNewlines_cons {c : Char} (hc : c ≠ '\r') (rest : List Char) :
    universalNewlines (c :: rest) = c :: universalNewlines rest := by
  rw [universalNewlines]
  · exact fun _ h _ => hc h
  · exact hc

theorem universalNewlines_cr {rest : List Char} (h : rest.head? ≠ some '\n') :
    universalNewlines ('\r' :: rest) = '\n' :: universalNewlines rest := by
  rw [universalNewlines]
  rintro rest rfl
  exact h rfl

theorem universalNewlines_plain {text : List Char} (h : '\r' ∉ text) : universalNewlines text = text := by
  induction text with
  | nil => rfl
  | cons c text ih =>
    rw [mem_cons, not_or] at h
    rw [universalNewlines_cons (Ne.symm h.1), ih h.2]

theorem exists_universalNewlines (rest : List Char) : ∀ text : List Char,
    ∃ front, universalNewlines (text ++ '\n' :: rest) = front ++ '\n' :: universalNewlines rest
  | [] => ⟨[], universalNewlines_cons (by decide) rest⟩
  | c :: text => by
    by_cases hc : c = '\r'
    · subst hc
      rcases text with _ | ⟨d, text⟩
      · exact ⟨[], rfl⟩
      · by_cases hd : d = '\n'
        · subst hd
          obtain ⟨front, hfront⟩ := exists_universalNewlines rest text
          exact ⟨'\n' :: front, congrArg ('\n' :: ·) hfront⟩
        · obtain ⟨front, hfront⟩ := exists_universalNewlines rest (d :: text)
          refine ⟨'\n' :: front, ?_⟩
          rw [cons_append, universalNewlines_cr (by simpa using hd), hfront]
          rfl
    · obtain ⟨front, hfront⟩ := exists_universalNewlines rest text
      refine ⟨c :: front, ?_⟩
      rw [cons_append, universalNewlines_cons hc, hfront]
      rfl
  termination_by text => text.length

theorem lineOf_universalNewlines (text : List Char) : lineOf (universalNewlines text) = lineOf text := by
  induction text with
  | nil => rfl
  | cons c text ih =>
    by_cases hc : c = '\r'
    · subst hc
      have hcr : ∃ rest, universalNewlines ('\r' :: text) = '\n' :: rest := by
        by_cases htext : text.head? = some '\n'
        · obtain ⟨text, rfl⟩ := head?_eq_some_iff.1 htext
          exact ⟨_, rfl⟩
        · exact ⟨_, universalNewlines_cr htext⟩
      obtain ⟨rest, hrest⟩ := hcr
      rw [hrest]
      rfl
    · rw [universalNewlines_cons hc, lineOf, lineOf, takeWhile_cons, takeWhile_cons]
      exact congrArg (fun line => if !Text.isLineBoundary c then c :: line else []) ih

theorem stripspace_cons {line : List Char} (h : line.rdropWhile Git.isSpace ≠ []) (lines : List (List Char)) :
    stripspace false false (line :: lines) = line.rdropWhile Git.isSpace :: stripspace true false lines := by
  simp [stripspace, h]

/-- Lines that git keeps as they are. -/
def Kept (lines : List (List Char)) : Prop := ∀ line ∈ lines, line ≠ [] ∧ line.rdropWhile Git.isSpace = line

theorem stripspace_kept {lines : List (List Char)} (h : Kept lines) : stripspace true false lines = lines := by
  induction lines with
  | nil => rfl
  | cons line lines ih =>
    obtain ⟨hline, hlines⟩ := forall_mem_cons.1 h
    simp [stripspace, hline.1, hline.2, ih hlines]

theorem stripspace_append {lines kept : List (List Char)} {written : Bool} (empties : Bool) (hne : kept ≠ [])
    (hkept : Kept kept) (h : written = true ∨ ∃ line ∈ lines, line.rdropWhile Git.isSpace ≠ []) :
    stripspace written empties (lines ++ [] :: kept) = stripspace written empties lines ++ [] :: kept := by
  induction lines generalizing written empties with
  | nil =>
    obtain rfl : written = true := by simpa using h
    obtain ⟨line, kept, rfl⟩ := exists_cons_of_ne_nil hne
    obtain ⟨hline, hlines⟩ := forall_mem_cons.1 hkept
    simp [stripspace, hline.1, hline.2, stripspace_kept hlines]
  | cons line lines ih =>
    by_cases hline : line.rdropWhile Git.isSpace = []
    · have h' : written = true ∨ ∃ line ∈ lines, line.rdropWhile Git.isSpace ≠ [] := by
        refine h.imp_right ?_
        rintro ⟨other, hmem, hother⟩
        rcases mem_cons.1 hmem with rfl | hmem
        · exact absurd hline hother
        · exact ⟨other, hmem, hother⟩
      rw [cons_append, stripspace, stripspace]
      simpa [hline] using ih true h'
    · rw [cons_append, stripspace, stripspace]
      simp [hline, ih false (.inl rfl)]

def keptLine (subject : List Char) : List Char := (subject.takeWhile (· ≠ '\n')).rdropWhile Git.isSpace

theorem exists_splitOn (subject body : List Char) :
    ∃ lines, (subject ++ '\n' :: body).splitOn '\n' = subject.takeWhile (· ≠ '\n') :: lines := by
  have hsplit : ∃ rest, subject ++ '\n' :: body = subject.takeWhile (· ≠ '\n') ++ '\n' :: rest := by
    have hjoin := @takeWhile_append_dropWhile _ (· ≠ '\n') subject
    cases hdrop : subject.dropWhile (· ≠ '\n') with
    | nil =>
      rw [hdrop, append_nil] at hjoin
      exact ⟨body, by rw [hjoin]⟩
    | cons c rest =>
      have hc := head?_dropWhile_not (· ≠ '\n') subject
      rw [hdrop] at hc
      obtain rfl : c = '\n' := by simpa using hc
      refine ⟨rest ++ '\n' :: body, ?_⟩
      conv_lhs => rw [← hjoin, hdrop]
      simp
  obtain ⟨rest, hrest⟩ := hsplit
  have hline : '\n' ∉ subject.takeWhile (· ≠ '\n') := fun hmem => by simpa using mem_takeWhile_imp hmem
  exact ⟨rest.splitOn '\n', by rw [hrest, splitOn_append_cons_self_of_not_mem hline]⟩

theorem exists_messageLines {subject : List Char} (h : keptLine subject ≠ []) (body : List Char) :
    ∃ lines, messageLines subject body = keptLine subject :: lines := by
  obtain ⟨lines, hlines⟩ := exists_splitOn subject ('\n' :: body)
  exact ⟨stripspace true false lines, by rw [messageLines, hlines, stripspace_cons h]; rfl⟩

theorem exists_lines {subject : List Char} (h : lineOf (keptLine subject) ≠ []) (body : List Char) :
    ∃ rest, Text.splitlines (commit_message (Text.joinLines (messageLines subject body) ++ ['\n'])) =
      lineOf (keptLine subject) :: rest := by
  have hkept : keptLine subject ≠ [] := by
    intro hnil
    rw [hnil] at h
    exact h rfl
  obtain ⟨lines, hlines⟩ := exists_messageLines hkept body
  have hfront : ∃ rest, Text.joinLines (messageLines subject body) ++ ['\n'] ++ ['\n'] =
      keptLine subject ++ '\n' :: rest := by
    rw [hlines]
    cases lines with
    | nil => exact ⟨['\n'], by rw [Text.joinLines_singleton, append_assoc]; rfl⟩
    | cons next lines => exact ⟨_, by rw [Text.joinLines_cons_cons, append_assoc, append_assoc]; rfl⟩
  obtain ⟨rest, hrest⟩ := hfront
  have hline : lineOf (commit_message (Text.joinLines (messageLines subject body) ++ ['\n'])) =
      lineOf (keptLine subject) := by
    rw [commit_message, lineOf_rdropWhile, lineOf_universalNewlines, hrest, lineOf_lf]
  rw [← hline] at h ⊢
  refine exists_splitlines fun hnil => h ?_
  rw [hnil]
  rfl

theorem not_mem_joinLines {lines : List (List Char)} (h : ∀ line ∈ lines, '\r' ∉ line) : '\r' ∉ Text.joinLines lines := by
  induction lines with
  | nil => exact not_mem_nil
  | cons line lines ih =>
    obtain ⟨hline, hlines⟩ := forall_mem_cons.1 h
    cases lines with
    | nil => rwa [Text.joinLines_singleton]
    | cons next lines =>
      rw [Text.joinLines_cons_cons]
      simp [hline, ih hlines]

theorem joinLines_append {front lines : List (List Char)} (hfront : front ≠ []) (hlines : lines ≠ []) :
    Text.joinLines (front ++ [] :: lines) = Text.joinLines front ++ '\n' :: '\n' :: Text.joinLines lines := by
  obtain ⟨line, lines, rfl⟩ := exists_cons_of_ne_nil hlines
  induction front with
  | nil => exact absurd rfl hfront
  | cons first front ih =>
    cases front with
    | nil => simp [Text.joinLines_cons_cons, Text.joinLines_singleton]
    | cons next front =>
      rw [cons_append, cons_append, Text.joinLines_cons_cons, Text.joinLines_cons_cons, ← cons_append,
        ih (by simp)]
      simp

theorem exists_commit_message {front lines : List (List Char)} (hfront : front ≠ []) (hlines : lines ≠ [])
    (h : ∀ line ∈ lines, line ≠ [] ∧ Text.Plain line) :
    ∃ text, commit_message (Text.joinLines (front ++ [] :: lines) ++ ['\n']) =
      text ++ '\n' :: '\n' :: Text.joinLines lines := by
  have hlf : ∀ line ∈ lines, line ≠ [] ∧ '\n' ∉ line := fun line hline =>
    ⟨(h line hline).1, fun hmem => absurd ((h line hline).2 _ hmem) (by decide)⟩
  obtain ⟨body, c, hbody, hc⟩ := Text.joinLines_concat hlines hlf
  have hcr : '\r' ∉ Text.joinLines lines ++ ['\n'] ++ ['\n'] := by
    simp only [mem_append, mem_singleton, not_or]
    exact ⟨⟨not_mem_joinLines fun line hline hmem => absurd ((h line hline).2 _ hmem) (by decide), by decide⟩,
      by decide⟩
  obtain ⟨text, htext⟩ := exists_universalNewlines ('\n' :: (Text.joinLines lines ++ ['\n'] ++ ['\n']))
    (Text.joinLines front)
  refine ⟨text, ?_⟩
  have hmessage : Text.joinLines (front ++ [] :: lines) ++ ['\n'] ++ ['\n'] =
      Text.joinLines front ++ '\n' :: '\n' :: (Text.joinLines lines ++ ['\n'] ++ ['\n']) := by
    rw [joinLines_append hfront hlines]
    simp
  rw [commit_message, hmessage, htext, universalNewlines_cons (by decide), universalNewlines_plain hcr, hbody]
  simp [List.rdropWhile, hc]

theorem matchTrailer_trailerLine {key value : String} (hkey : key.toList ≠ [])
    (hchars : ∀ c ∈ key.toList, (c.isAlphanum || c == '-') = true) (hvalue : OneLine value) :
    matchTrailer (trailerLine key value).toList = some (key, value) := by
  have hline : (trailerLine key value).toList = key.toList ++ ':' :: ' ' :: value.toList := by
    simp [trailerLine, String.toList_append]
  have htake : (key.toList ++ ':' :: ' ' :: value.toList).takeWhile (fun c => c.isAlphanum || c == '-') =
      key.toList := by
    rw [takeWhile_append_of_pos hchars, takeWhile_cons_of_neg (by decide), append_nil]
  have hlf : '\n' ∉ ' ' :: value.toList := by
    rw [mem_cons, not_or]
    exact ⟨by decide, fun hmem => absurd (hvalue.1 _ hmem) (by decide)⟩
  have hstrip : Text.strip ((' ' :: value.toList).dropWhile fun c => c == ' ' || c == '\t') = value.toList := by
    have hdrop : value.toList.dropWhile (fun c => c == ' ' || c == '\t') = value.toList := by
      cases htext : value.toList with
      | nil => rfl
      | cons c text =>
        have hc := hvalue.2.1 c (by rw [htext]; rfl)
        refine dropWhile_cons_of_neg ?_
        simp only [Bool.or_eq_true, beq_iff_eq, not_or]
        exact ⟨by rintro rfl; exact absurd hc (by decide), by rintro rfl; exact absurd hc (by decide)⟩
    rw [dropWhile_cons_of_pos (by decide), hdrop, Text.strip_of_trimmed hvalue.2]
  simp only [matchTrailer, hline, htake, drop_left]
  rw [if_neg (not_or.2 ⟨hkey, hlf⟩), hstrip, String.ofList_toList, String.ofList_toList]

theorem oneLine_of_matchTrailer {line : List Char} {trailer : String × String} (hline : Text.Plain line)
    (h : matchTrailer line = some trailer) : OneLine trailer.2 := by
  unfold matchTrailer at h
  dsimp only at h
  split at h
  · rename_i value hdrop
    split_ifs at h
    obtain rfl := Option.some.inj h
    have hvalue : value.Sublist line :=
      (sublist_cons_self ':' value).trans (hdrop ▸ drop_sublist _ _)
    refine ⟨?_, ?_⟩
    · rw [String.toList_ofList]
      exact hline.sublist ((( rdropWhile_prefix _ _).sublist.trans
        (dropWhile_sublist _)).trans ((dropWhile_sublist _).trans hvalue))
    · rw [String.toList_ofList]
      exact Text.trimmed_strip _
  · cases h

theorem oneLine_of_mem_trailers {message : List Char} {trailer : String × String}
    (h : trailer ∈ _message_trailers message) : OneLine trailer.2 := by
  have hlines : ∀ line ∈ (Text.splitlines (message.rdropWhile (· = '\n'))).reverse, Text.Plain line :=
    fun line hline => Text.plain_of_mem_splitlines (mem_reverse.1 hline)
  have hblock : trailer ∈ (((Text.splitlines (message.rdropWhile (· = '\n'))).reverse.takeWhile
      fun line => (matchTrailer line).isSome).filterMap matchTrailer).reverse := by
    unfold _message_trailers at h
    dsimp only at h
    split at h
    · exact h
    · split_ifs at h
      · exact h
      · exact absurd h not_mem_nil
  obtain ⟨line, hline, hmatch⟩ := mem_filterMap.1 (mem_reverse.1 hblock)
  exact oneLine_of_matchTrailer (hlines line ((takeWhile_sublist _).subset hline)) hmatch

theorem message_trailers_eq {text : List Char} {lines : List (List Char)} (hne : lines ≠ [])
    (hplain : ∀ line ∈ lines, line ≠ [] ∧ Text.Plain line) (h : ∀ line ∈ lines, (matchTrailer line).isSome = true) :
    _message_trailers (text ++ '\n' :: '\n' :: Text.joinLines lines) = lines.filterMap matchTrailer := by
  have hlf : ∀ line ∈ lines, line ≠ [] ∧ '\n' ∉ line := fun line hline =>
    ⟨(hplain line hline).1, fun hmem => absurd ((hplain line hline).2 _ hmem) (by decide)⟩
  obtain ⟨body, c, hbody, hc⟩ := Text.joinLines_concat hne hlf
  have hkept : (text ++ '\n' :: '\n' :: Text.joinLines lines).rdropWhile (· = '\n') =
      text ++ '\n' :: '\n' :: Text.joinLines lines := by
    rw [hbody]
    simp [List.rdropWhile, hc]
  have hsplit : Text.splitlines (text ++ '\n' :: '\n' :: Text.joinLines lines) =
      Text.splitlines (text ++ ['\n']) ++ [] :: lines := by
    rw [Text.splitlines, Text.splitlinesFrom_lf_append, Text.splitlinesFrom_lf]
    exact congrArg (fun lines => Text.splitlines (text ++ ['\n']) ++ [] :: lines) (Text.splitlines_joinLines hplain)
  have hstop : (matchTrailer []).isSome = false := rfl
  have htake : (lines.reverse ++ [] :: (Text.splitlines (text ++ ['\n'])).reverse).takeWhile
      (fun line => (matchTrailer line).isSome) = lines.reverse := by
    rw [takeWhile_append_of_pos fun line hline => h line (mem_reverse.1 hline),
      takeWhile_cons_of_neg (by simp [hstop]), append_nil]
  unfold _message_trailers
  simp only [hkept, hsplit, reverse_append, reverse_cons, append_assoc, singleton_append, htake,
    drop_left]
  rw [if_pos (Text.strip_of_trimmed ⟨by simp, by simp⟩), filterMap_reverse, reverse_reverse]

theorem bracketed_iff {subject item_id : List Char} :
    ('[' ∈ subject ∧ subject.getLast? = some ']') ∧ bracketed subject = item_id ↔
      '[' ∉ item_id ∧ '[' :: (item_id ++ [']']) <:+ subject := by
  constructor
  · rintro ⟨⟨hmem, hlast⟩, rfl⟩
    have hjoin := @rdropWhile_append_rtakeWhile _ (· ≠ '[') subject
    have hfree : '[' ∉ subject.rtakeWhile (· ≠ '[') := fun hin => by simpa using mem_rtakeWhile_imp hin
    have hne : subject.rdropWhile (· ≠ '[') ≠ [] := by
      intro hnil
      rw [hnil, nil_append] at hjoin
      exact hfree (hjoin.symm ▸ hmem)
    have hopen : (subject.rdropWhile (· ≠ '[')).getLast hne = '[' := by
      simpa using rdropWhile_last_not (· ≠ '[') subject hne
    rcases eq_nil_or_concat (subject.rtakeWhile (· ≠ '[')) with hnil | ⟨item_id, c, htake⟩
    · rw [hnil, append_nil] at hjoin
      rw [← hjoin, getLast?_eq_getLast_of_ne_nil hne, hopen] at hlast
      simp at hlast
    · rw [concat_eq_append] at htake
      obtain rfl : c = ']' := by
        rw [← hjoin, htake, ← append_assoc, getLast?_concat] at hlast
        exact Option.some.inj hlast
      rw [bracketed, htake, dropLast_concat]
      rw [htake, mem_append, not_or] at hfree
      refine ⟨hfree.1, (subject.rdropWhile (· ≠ '[')).dropLast, ?_⟩
      have hback := dropLast_append_getLast hne
      rw [hopen] at hback
      rw [← singleton_append, ← append_assoc, hback, ← htake, hjoin]
  · rintro ⟨hfree, front, rfl⟩
    have htake : (front ++ '[' :: (item_id ++ [']'])).rtakeWhile (· ≠ '[') = item_id ++ [']'] := by
      have hreverse : (front ++ '[' :: (item_id ++ [']'])).reverse = (item_id ++ [']']).reverse ++ '[' :: front.reverse := by
        simp
      have hall : ∀ c ∈ (item_id ++ [']']).reverse, (decide (c ≠ '[')) = true := fun c hc => by
        rw [mem_reverse, mem_append, mem_singleton] at hc
        rw [decide_eq_true_iff]
        rintro rfl
        rcases hc with hc | hc
        · exact hfree hc
        · exact absurd hc (by decide)
      rw [List.rtakeWhile, hreverse, takeWhile_append_of_pos hall, takeWhile_cons_of_neg (by decide),
        append_nil, reverse_reverse]
    refine ⟨⟨by simp, ?_⟩, ?_⟩
    · rw [← cons_append, ← append_assoc, getLast?_concat]
    · rw [bracketed, htake, dropLast_concat]

theorem suffix_append_iff {mark : Char} {front text item : List Char} (h : mark ∉ front) :
    mark :: item <:+ front ++ text ↔ mark :: item <:+ text := by
  refine ⟨fun hsuffix => ?_, fun hsuffix => hsuffix.trans (suffix_append front text)⟩
  induction front with
  | nil => exact hsuffix
  | cons c front ih =>
    rw [mem_cons, not_or] at h
    rw [cons_append, suffix_cons_iff] at hsuffix
    rcases hsuffix with heq | hsuffix
    · exact absurd (List.cons.inj heq).1 h.1
    · exact ih h.2 hsuffix

theorem rdropWhile_append_of_last {p : Char → Bool} {front : List Char} {c : Char} (hc : p c = false)
    (rest : List Char) : ((front ++ [c]) ++ rest).rdropWhile p = front ++ [c] ++ rest.rdropWhile p := by
  induction rest using reverseRecOn with
  | nil => rw [append_nil, rdropWhile_concat_neg _ _ _ (by simp [hc]), rdropWhile_nil, append_nil]
  | append_singleton rest d ih =>
    rw [← append_assoc, rdropWhile_concat, rdropWhile_concat]
    split_ifs
    · exact ih
    · exact append_assoc _ _ _

theorem suffix_lineOf_iff {item : List Char} (text : List Char) :
    '[' :: item <:+ lineOf ((' ' :: text).rdropWhile Git.isSpace) ↔
      '[' :: item <:+ lineOf (text.rdropWhile Git.isSpace) := by
  have hcons : (' ' :: text).rdropWhile Git.isSpace = [] ∧ text.rdropWhile Git.isSpace = [] ∨
      (' ' :: text).rdropWhile Git.isSpace = ' ' :: text.rdropWhile Git.isSpace := by
    rw [List.rdropWhile, List.rdropWhile, reverse_cons, dropWhile_append]
    split_ifs with hnil
    · left
      rw [List.isEmpty_iff] at hnil
      rw [hnil]
      exact ⟨rfl, rfl⟩
    · right
      rw [reverse_append]
      rfl
  rcases hcons with ⟨hnil, hnil'⟩ | hcons
  · rw [hnil, hnil']
  · rw [hcons, lineOf, takeWhile_cons_of_pos (by decide), suffix_cons_iff]
    exact ⟨fun h => h.resolve_left fun heq => absurd (List.cons.inj heq).1 (by decide), .inr⟩

section Subjects

variable (py : PyLib) (brief : Brief)

theorem plain_patch : Text.Plain "patch:".toList := fun c hc => by
  fin_cases hc <;> rfl

def tail (item_id : List Char) : List Char := ' ' :: '[' :: (item_id ++ [']'])

theorem plain_tail {item_id : List Char} (h : Text.Plain item_id) : Text.Plain (tail item_id) := by
  intro c hc
  simp only [tail, mem_cons, mem_append, not_mem_nil, or_false] at hc
  rcases hc with rfl | rfl | hc | rfl
  · rfl
  · rfl
  · exact h c hc
  · rfl

theorem itemSubject_toList (item_id : String) : (itemSubject py brief item_id).toList =
    "patch:".toList ++ (' ' :: ((title py brief).toList ++ tail item_id.toList)) := by
  simp [itemSubject, title, tail, String.toList_append]

theorem lineOf_itemSubject (item_id : String) : lineOf (keptLine (itemSubject py brief item_id).toList) =
    "patch:".toList ++ lineOf ((' ' :: ((title py brief).toList ++ tail item_id.toList).takeWhile (· ≠ '\n')).rdropWhile
      Git.isSpace) := by
  have hfront : ∀ c ∈ "patch:".toList, decide (c ≠ '\n') = true := fun c hc => by
    rw [decide_eq_true_iff]
    rintro rfl
    exact absurd (plain_patch _ hc) (by decide)
  rw [keptLine, itemSubject_toList, takeWhile_append_of_pos hfront, takeWhile_cons_of_pos (by decide),
    ← lineOf_append plain_patch]
  exact congrArg lineOf (@rdropWhile_append_of_last Git.isSpace "patch".toList ':' (by decide) _)

theorem suffix_subject_iff {item_id : String} (hid : Text.Plain item_id.toList) :
    '[' :: (item_id.toList ++ [']']) <:+ lineOf (keptLine (itemSubject py brief item_id).toList) ↔
      Text.Plain (title py brief).toList ∨ '[' :: (item_id.toList ++ [']']) <:+ firstLine (title py brief).toList := by
  rw [lineOf_itemSubject, suffix_append_iff (by decide), suffix_lineOf_iff]
  by_cases hlf : '\n' ∈ (title py brief).toList
  · have htitle : ¬ Text.Plain (title py brief).toList := fun hplain => absurd (hplain _ hlf) (by decide)
    have htake : ((title py brief).toList ++ tail item_id.toList).takeWhile (· ≠ '\n') =
        (title py brief).toList.takeWhile (· ≠ '\n') := by
      obtain ⟨front, rest, hrest⟩ := append_of_mem hlf
      have hstop : ∀ text : List Char, (front ++ '\n' :: text).takeWhile (· ≠ '\n') = front.takeWhile (· ≠ '\n') :=
        fun text => takeWhile_append_of_false (by simp)
      rw [hrest, append_assoc, cons_append, hstop, hstop]
    rw [htake, firstLine, if_pos hlf]
    exact (or_iff_right htitle).symm
  · have hall : ∀ c ∈ (title py brief).toList ++ tail item_id.toList, decide (c ≠ '\n') = true := by
      intro c hc
      rw [decide_eq_true_iff]
      rintro rfl
      rcases mem_append.1 hc with hc | hc
      · exact hlf hc
      · exact absurd (plain_tail hid _ hc) (by decide)
    have hlast : ((title py brief).toList ++ tail item_id.toList).rdropWhile Git.isSpace =
        (title py brief).toList ++ tail item_id.toList := by
      rw [tail, ← cons_append, ← cons_append, ← append_assoc]
      exact rdropWhile_concat_neg _ _ _ (by decide)
    rw [takeWhile_eq_self_iff.2 hall, hlast, firstLine, if_neg hlf]
    by_cases htitle : Text.Plain (title py brief).toList
    · rw [lineOf_append htitle, lineOf_of_plain (plain_tail hid)]
      exact iff_of_true ((suffix_cons _ _).trans (suffix_append _ _)) (.inl htitle)
    · rw [lineOf_append_of_not_plain htitle]
      exact (or_iff_right htitle).symm

theorem lineOf_itemSubject_ne_nil (item_id : String) : lineOf (keptLine (itemSubject py brief item_id).toList) ≠ [] := by
  rw [lineOf_itemSubject]
  exact append_ne_nil_of_left_ne_nil (by decide) _

theorem bracketed_line_iff {item_id : String} {line : List Char}
    (hline : line = lineOf (keptLine (itemSubject py brief item_id).toList)) :
    (('[' ∈ line ∧ line.getLast? = some ']') ∧ bracketed line = item_id.toList) ↔
      Bracketed (title py brief).toList item_id.toList := by
  subst hline
  rw [bracketed_iff, Bracketed]
  refine and_congr_right fun _ => ⟨fun hsuffix => ?_, fun h => (suffix_subject_iff py brief h.1).2 h.2⟩
  have hid : Text.Plain item_id.toList := (plain_lineOf _).sublist
    (((prefix_append _ [']']).sublist.trans (sublist_cons_self '[' _)).trans hsuffix.sublist)
  exact ⟨hid, (suffix_subject_iff py brief hid).1 hsuffix⟩

end Subjects

/-! ### The round trip -/

theorem item_binding_trailers_ok {digest : String} {ids trailers : List String}
    (h : item_binding_trailers digest (.arr (ids.map .str)) = .ok trailers) :
    trailers = trailerLine TASK_BINDING_DIGEST_TRAILER digest :: ids.map (trailerLine OBLIGATION_ID_TRAILER) ∧
      isDigest digest = true ∧ ∀ id ∈ ids, id ≠ "" := by
  have hmap : ∀ texts : List String, (texts.map Json.str).mapM nonEmptyText = none ∨
      (texts.map Json.str).mapM nonEmptyText = some texts ∧ ∀ text ∈ texts, text ≠ "" := by
    intro texts
    induction texts with
    | nil => exact .inr ⟨rfl, forall_mem_nil _⟩
    | cons text texts ih =>
      rw [map_cons, mapM_cons, nonEmptyText]
      split_ifs with htext
      · exact .inl rfl
      · rcases ih with ih | ⟨ih, htexts⟩
        · exact .inl (by rw [ih]; rfl)
        · exact .inr ⟨by rw [ih]; rfl, forall_mem_cons.2 ⟨htext, htexts⟩⟩
  rw [item_binding_trailers] at h
  split_ifs at h with hdigest hnil
  rcases hmap ids with htexts | ⟨htexts, hne⟩
  · rw [htexts] at h
    cases h
  · rw [htexts] at h
    dsimp only at h
    split_ifs at h
    exact ⟨(Except.ok.inj h).symm, by simpa using hdigest, hne⟩

theorem exists_of_commit_item {py : PyLib} {brief : Brief} {item : Item} {binding : Binding} {obligations : Fields}
    {value : Json} {message : List Char} (hmap : binding.obligation_ids_by_item = .obj obligations)
    (hvalue : obligations.lookup item.item_id = some value)
    (h : _commit_item py brief item (some binding) = .ok message) :
    ∃ trailers, item_binding_trailers binding.body_sha256 value = .ok trailers ∧
      message = Text.joinLines (messageLines (itemSubject py brief item.item_id).toList
        (Text.joinLines ((explanation item ++ "" :: trailers).map String.toList))) ++ ['\n'] := by
  have hget : Fields.get obligations item.item_id = value := by rw [Fields.get, hvalue, Option.getD_some]
  have hcontains : Fields.contains obligations item.item_id = true := by rw [Fields.contains, hvalue]; rfl
  cases htrailers : item_binding_trailers binding.body_sha256 value with
  | error detail =>
    have hlines : bodyLines item (some binding) = .error detail := by
      simp [bodyLines, hmap, hcontains, hget, htrailers, Except.map]
    rw [_commit_item, hlines] at h
    cases h
  | ok trailers =>
    have hlines : bodyLines item (some binding) = .ok (explanation item ++ "" :: trailers) := by
      simp [bodyLines, hmap, hcontains, hget, htrailers, Except.map]
    rw [_commit_item, hlines] at h
    simp only [bind, Except.bind] at h
    split_ifs at h
    exact ⟨trailers, rfl, (Except.ok.inj h).symm⟩

theorem isLineBoundary_of_not_isSpace {c : Char} (h : Text.isSpace c = false) : Text.isLineBoundary c = false := by
  by_contra hc
  simp only [Bool.not_eq_false, Text.isLineBoundary, contains_eq_mem, decide_eq_true_eq] at hc
  have hall : ∀ n ∈ [0x0a, 0x0b, 0x0c, 0x0d, 0x1c, 0x1d, 0x1e, 0x85, 0x2028, 0x2029], Text.isSpaceCode n = true := by
    decide
  rw [Text.isSpace, hall _ hc] at h
  cases h

theorem isSpace_of_hex {c : Char} (h : (('0' ≤ c && c ≤ '9') || ('a' ≤ c && c ≤ 'f')) = true) :
    Text.isSpace c = false := by
  have hcode : 48 ≤ c.toNat ∧ c.toNat ≤ 57 ∨ 97 ≤ c.toNat ∧ c.toNat ≤ 102 := by
    simp only [Bool.or_eq_true, Bool.and_eq_true, decide_eq_true_eq, Char.le_def, UInt32.le_iff_toNat_le] at h
    exact h
  simp only [Text.isSpace, Text.isSpaceCode, Bool.or_eq_false_iff, Bool.and_eq_false_iff, decide_eq_false_iff_not,
    beq_eq_false_iff_ne]
  omega

theorem oneLine_of_isDigest {digest : String} (h : isDigest digest = true) : OneLine digest := by
  have hchars : ∀ c ∈ digest.toList, Text.isLineBoundary c = false ∧ Text.isSpace c = false := by
    intro c hc
    rw [isDigest, Bool.and_eq_true] at h
    have hspace := isSpace_of_hex (all_eq_true.1 h.2 c hc)
    exact ⟨isLineBoundary_of_not_isSpace hspace, hspace⟩
  exact ⟨fun c hc => (hchars c hc).1, fun c hc => (hchars c (mem_of_mem_head? hc)).2,
    fun c hc => (hchars c (mem_of_getLast? hc)).2⟩

theorem row_of_commitTrace {digest oid : String} {message line : List Char} {rest : List (List Char)} {row : TraceRow}
    (hlines : Text.splitlines (commit_message message) = line :: rest)
    (h : commitTrace digest (oid, message) = .ok (some row)) :
    ('[' ∈ line ∧ line.getLast? = some ']') ∧ row.item_id = String.ofList (bracketed line) ∧
      row.production_obligation_ids = valuesOf (_message_trailers (commit_message message)) OBLIGATION_ID_TRAILER := by
  rw [commitTrace, hlines] at h
  dsimp only at h
  split_ifs at h with _ _ _ hsubject
  · cases h
  split at h
  · cases h
  · obtain rfl := Option.some.inj (Except.ok.inj h)
    rw [not_or, not_not, not_not] at hsubject
    exact ⟨hsubject, rfl, rfl⟩

theorem commitTrace_eq {digest oid : String} {message line : List Char} {rest : List (List Char)} {ids : List String}
    (hlines : Text.splitlines (commit_message message) = line :: rest)
    (htrailers : _message_trailers (commit_message message) =
      (TASK_BINDING_DIGEST_TRAILER, digest) :: ids.map fun id => (OBLIGATION_ID_TRAILER, id))
    (hline : '[' ∈ line ∧ line.getLast? = some ']')
    (hbinding : ∃ trailers, item_binding_trailers digest (.arr (ids.map .str)) = .ok trailers) :
    commitTrace digest (oid, message) = .ok (some ⟨String.ofList (bracketed line), oid, digest, ids⟩) := by
  have hdigests : valuesOf (_message_trailers (commit_message message)) TASK_BINDING_DIGEST_TRAILER = [digest] := by
    have hother : OBLIGATION_ID_TRAILER ≠ TASK_BINDING_DIGEST_TRAILER := by decide
    simp [htrailers, valuesOf, filter_map, Function.comp_def, hother]
  have hids : valuesOf (_message_trailers (commit_message message)) OBLIGATION_ID_TRAILER = ids := by
    have hother : TASK_BINDING_DIGEST_TRAILER ≠ OBLIGATION_ID_TRAILER := by decide
    simp [htrailers, valuesOf, filter_map, Function.comp_def, hother]
  have hkeys : ∀ key ∈ (_message_trailers (commit_message message)).map Prod.fst, key ∈ ITEM_TRACE_TRAILER_KEYS := by
    simp [htrailers, ITEM_TRACE_TRAILER_KEYS]
  have hoid : TASK_BINDING_COMMIT_OID_TRAILER ∉ (_message_trailers (commit_message message)).map Prod.fst :=
    fun hmem => absurd (hkeys _ hmem) (by decide)
  have hunsupported : ((_message_trailers (commit_message message)).map Prod.fst).filter
      (· ∉ ITEM_TRACE_TRAILER_KEYS) = [] :=
    filter_eq_nil_iff.2 fun key hkey => by simpa using hkeys key hkey
  obtain ⟨trailers, hbinding⟩ := hbinding
  rw [commitTrace, hlines]
  simp only [hdigests, hids, hunsupported, hbinding]
  rw [if_neg (by simp), if_neg hoid, if_neg (by simp [sorted]), if_neg (by simpa using hline), if_neg (by simp)]

theorem exists_messageLines_append {subject : List Char} (hsubject : keptLine subject ≠ []) (front : List (List Char))
    (hfront : front ≠ []) {lines : List (List Char)} (hne : lines ≠ [])
    (hlines : ∀ line ∈ lines, line ≠ [] ∧ Text.Plain line ∧ line.rdropWhile Git.isSpace = line) :
    ∃ kept, kept ≠ [] ∧ messageLines subject (Text.joinLines (front ++ [] :: lines)) = kept ++ [] :: lines := by
  have hlf : ∀ line ∈ lines, '\n' ∉ line := fun line hline hmem =>
    absurd ((hlines line hline).2.1 _ hmem) (by decide)
  obtain ⟨rest, hrest⟩ := exists_splitOn subject ('\n' :: Text.joinLines front)
  have hsplit : (subject ++ '\n' :: '\n' :: Text.joinLines (front ++ [] :: lines)).splitOn '\n' =
      (subject ++ '\n' :: '\n' :: Text.joinLines front).splitOn '\n' ++ [] :: lines := by
    have hempty := @splitOn_append_cons_self _ _ _ '\n' [] (Text.joinLines lines)
    rw [nil_append, Text.joinLines, splitOn_intercalate '\n' hlf hne] at hempty
    rw [joinLines_append hfront hne, ← cons_append, ← cons_append, ← append_assoc,
      splitOn_append_cons_self, Text.joinLines.eq_def lines, hempty]
    rfl
  refine ⟨stripspace false false ((subject ++ '\n' :: '\n' :: Text.joinLines front).splitOn '\n'), ?_, ?_⟩
  · rw [hrest, stripspace_cons hsubject]
    exact cons_ne_nil _ _
  · rw [messageLines, hsplit]
    exact stripspace_append false hne (fun line hline => ⟨(hlines line hline).1, (hlines line hline).2.2⟩)
      (.inr ⟨_, hrest ▸ mem_cons_self, hsubject⟩)

theorem matchTrailer_bound {key value : String} (hkey : key ∈ ITEM_TRACE_TRAILER_KEYS) (hvalue : OneLine value) :
    matchTrailer (trailerLine key value).toList = some (key, value) := by
  have hchars : ∀ key ∈ ITEM_TRACE_TRAILER_KEYS,
      key.toList ≠ [] ∧ (key.toList.all fun c => c.isAlphanum || c == '-') = true := by decide
  exact matchTrailer_trailerLine (hchars key hkey).1 (all_eq_true.1 (hchars key hkey).2) hvalue

theorem kept_trailerLine {key value : String} (hkey : key ∈ ITEM_TRACE_TRAILER_KEYS) (hvalue : OneLine value)
    (hne : value ≠ "") : (trailerLine key value).toList ≠ [] ∧ Text.Plain (trailerLine key value).toList ∧
      (trailerLine key value).toList.rdropWhile Git.isSpace = (trailerLine key value).toList := by
  have hplain : ∀ key ∈ ITEM_TRACE_TRAILER_KEYS, ((key ++ ": ").toList.all fun c => !Text.isLineBoundary c) = true := by
    decide
  have hline : (trailerLine key value).toList = (key ++ ": ").toList ++ value.toList := String.toList_append
  have hvalue_ne : value.toList ≠ [] := fun hnil => hne (String.toList_eq_nil_iff.1 hnil)
  obtain ⟨front, c, hlast⟩ := eq_nil_or_concat value.toList |>.resolve_left hvalue_ne
  rw [concat_eq_append] at hlast
  have hspace : Git.isSpace c = false := by
    have hc := hvalue.2.2 c (by rw [hlast, getLast?_concat]; rfl)
    rw [Git.isSpace, Bool.eq_false_iff]
    intro h
    simp only [Bool.or_eq_true, beq_iff_eq] at h
    rcases h with ((rfl | rfl) | rfl) | rfl <;> exact absurd hc (by decide)
  rw [hline]
  refine ⟨append_ne_nil_of_right_ne_nil _ hvalue_ne, fun d hd => ?_, ?_⟩
  · rcases mem_append.1 hd with hd | hd
    · simpa using all_eq_true.1 (hplain key hkey) d hd
    · exact hvalue.1 d hd
  · rw [hlast, ← append_assoc]
    exact rdropWhile_concat_neg _ _ _ (by simp [hspace])

theorem message_trailers_of_oneLine {subject : List Char} (hsubject : keptLine subject ≠ []) {front : List String}
    (hfront : front ≠ []) {trailers : List (String × String)} (hne : trailers ≠ [])
    (h : ∀ trailer ∈ trailers, trailer.1 ∈ ITEM_TRACE_TRAILER_KEYS ∧ OneLine trailer.2 ∧ trailer.2 ≠ "") :
    _message_trailers (commit_message (Text.joinLines (messageLines subject (Text.joinLines
      ((front ++ "" :: trailers.map fun trailer => trailerLine trailer.1 trailer.2).map String.toList))) ++ ['\n'])) =
        trailers := by
  have hlines : ∀ line ∈ trailers.map fun trailer => (trailerLine trailer.1 trailer.2).toList,
      line ≠ [] ∧ Text.Plain line ∧ line.rdropWhile Git.isSpace = line := by
    intro line hline
    obtain ⟨trailer, hmem, rfl⟩ := mem_map.1 hline
    obtain ⟨hkey, hvalue, hvalue_ne⟩ := h trailer hmem
    exact kept_trailerLine hkey hvalue hvalue_ne
  have hmatch : ∀ trailer ∈ trailers,
      matchTrailer (trailerLine trailer.1 trailer.2).toList = some trailer := fun trailer hmem =>
    matchTrailer_bound (h trailer hmem).1 (h trailer hmem).2.1
  have hmap : (front ++ "" :: trailers.map fun trailer => trailerLine trailer.1 trailer.2).map String.toList =
      front.map String.toList ++ [] :: trailers.map fun trailer => (trailerLine trailer.1 trailer.2).toList := by
    simp
  obtain ⟨kept, hkept, hmessage⟩ := exists_messageLines_append hsubject (front.map String.toList) (by simpa using hfront)
    (by simpa using hne) hlines
  obtain ⟨text, htext⟩ := exists_commit_message hkept (by simpa using hne)
    fun line hline => ⟨(hlines line hline).1, (hlines line hline).2.1⟩
  rw [hmap, hmessage, htext, message_trailers_eq (by simpa using hne)
    (fun line hline => ⟨(hlines line hline).1, (hlines line hline).2.1⟩)]
  · rw [filterMap_map]
    exact (filterMap_congr hmatch).trans filterMap_some
  · intro line hline
    obtain ⟨trailer, hmem, rfl⟩ := mem_map.1 hline
    rw [hmatch trailer hmem]
    rfl

theorem item_commit_trace_singleton {digest : String} {commit : String × List Char} {row : TraceRow} :
    item_commit_trace digest [commit] = .ok [row] ↔ commitTrace digest commit = .ok (some row) := by
  rw [item_commit_trace, item_commit_trace]
  cases commitTrace digest commit with
  | error detail => simp [bind, Except.bind]
  | ok found => cases found <;> simp [bind, Except.bind, pure, Except.pure]

/-- A bound item is read back where the first line of its subject ends in it and its obligations are trimmed lines. -/
theorem item_commit_trace_iff {py : PyLib} {brief : Brief} {item : Item} {binding : Binding} {obligations : Fields}
    {ids : List String} {message : List Char} (oid : String)
    (hmap : binding.obligation_ids_by_item = .obj obligations)
    (hids : obligations.lookup item.item_id = some (.arr (ids.map .str)))
    (h : _commit_item py brief item (some binding) = .ok message) :
    item_commit_trace binding.body_sha256 [(oid, message)] = .ok [⟨item.item_id, oid, binding.body_sha256, ids⟩] ↔
      Bracketed (title py brief).toList item.item_id.toList ∧ ∀ id ∈ ids, OneLine id := by
  obtain ⟨trailers, hbinding, rfl⟩ := exists_of_commit_item hmap hids h
  obtain ⟨rfl, hdigest, hids_ne⟩ := item_binding_trailers_ok hbinding
  have hline := lineOf_itemSubject_ne_nil py brief item.item_id
  obtain ⟨rest, hrest⟩ := exists_lines hline (Text.joinLines ((explanation item ++
    "" :: trailerLine TASK_BINDING_DIGEST_TRAILER binding.body_sha256 ::
      ids.map (trailerLine OBLIGATION_ID_TRAILER)).map String.toList))
  rw [item_commit_trace_singleton, ← bracketed_line_iff py brief rfl]
  constructor
  · intro hrow
    obtain ⟨hsubject, hitem, hread⟩ := row_of_commitTrace hrest hrow
    refine ⟨⟨hsubject, ?_⟩, fun id hid => ?_⟩
    · rw [← String.toList_inj] at hitem
      simpa using hitem.symm
    · dsimp only at hread
      obtain ⟨trailer, htrailer, rfl⟩ := mem_map.1 (hread ▸ hid)
      exact oneLine_of_mem_trailers (mem_filter.1 htrailer).1
  · rintro ⟨⟨hsubject, hitem⟩, hids_line⟩
    have hkept : keptLine (itemSubject py brief item.item_id).toList ≠ [] := fun hnil => hline (by rw [hnil]; rfl)
    have hbound : ∀ trailer ∈ (TASK_BINDING_DIGEST_TRAILER, binding.body_sha256) ::
        ids.map fun id => (OBLIGATION_ID_TRAILER, id),
        trailer.1 ∈ ITEM_TRACE_TRAILER_KEYS ∧ OneLine trailer.2 ∧ trailer.2 ≠ "" := by
      refine forall_mem_cons.2 ⟨⟨by simp [ITEM_TRACE_TRAILER_KEYS], oneLine_of_isDigest hdigest, ?_⟩, ?_⟩
      · intro hempty
        dsimp only at hempty
        rw [hempty] at hdigest
        exact absurd hdigest (by decide)
      · intro trailer htrailer
        obtain ⟨id, hid, rfl⟩ := mem_map.1 htrailer
        exact ⟨by simp [ITEM_TRACE_TRAILER_KEYS], hids_line id hid, hids_ne id hid⟩
    have htrailers := message_trailers_of_oneLine hkept (cons_ne_nil _ _ : explanation item ≠ [])
      (cons_ne_nil _ _) hbound
    rw [map_cons, map_map] at htrailers
    rw [commitTrace_eq hrest htrailers hsubject ⟨_, hbinding⟩, hitem, String.ofList_toList]

def sampleBrief : Brief :=
  ⟨"series/site-core", "site-core", "site-core-plan", [("working_title", .str "Book rooms")], .obj [], []⟩

def sampleItem (item_id : String) : Item := ⟨item_id, "feature", ["site-core#rooms"], [], 0⟩

def sampleBinding (item_id : String) : Binding :=
  ⟨String.ofList (replicate 64 'a'), .obj [(item_id, .arr [.str "rooms.list", .str "rooms.book"])]⟩

def sampleMessage (item_id : String) : List Char :=
  match _commit_item asciiLib sampleBrief (sampleItem item_id) (some (sampleBinding item_id)) with
  | .ok message => message
  | .error _ => []

theorem item_commit_trace_iff_sample :
    _commit_item asciiLib sampleBrief (sampleItem "rooms") (some (sampleBinding "rooms")) = .ok (sampleMessage "rooms") ∧
      (item_commit_trace (sampleBinding "rooms").body_sha256 [("c1", sampleMessage "rooms")] =
          .ok [⟨"rooms", "c1", (sampleBinding "rooms").body_sha256, ["rooms.list", "rooms.book"]⟩] ↔
        Bracketed (title asciiLib sampleBrief).toList "rooms".toList ∧
          ∀ id ∈ ["rooms.list", "rooms.book"], OneLine id) := by
  have hcommit : _commit_item asciiLib sampleBrief (sampleItem "rooms") (some (sampleBinding "rooms")) =
      .ok (sampleMessage "rooms") := by decide +kernel
  exact ⟨hcommit, item_commit_trace_iff "c1" rfl rfl hcommit⟩

/-- An item with a bracket in its id is read back as what stands behind the bracket. -/
theorem bracket_not_read_back :
    _commit_item asciiLib sampleBrief (sampleItem "rooms[1]") (some (sampleBinding "rooms[1]")) =
        .ok (sampleMessage "rooms[1]") ∧
      item_commit_trace (sampleBinding "rooms[1]").body_sha256 [("c1", sampleMessage "rooms[1]")] =
        .ok [⟨"1]", "c1", (sampleBinding "rooms[1]").body_sha256, ["rooms.list", "rooms.book"]⟩] := by
  decide +kernel

end ItemTrace

end AiOrg
