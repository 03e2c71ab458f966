import AiOrg.MailingList.Protocol

/-!
# Clean posts read back

The commit message of a post without line boundaries in its trailer texts is parsed to the post it
was made from (`parsePostMessage_message`): the two blank lines are where the parser looks for them,
the trailers are the lines that were joined, and each name collects the values it was given.
-/

namespace AiOrg

open List

namespace MailingList

theorem isKindChar_of_mem {kind : List Char} (h : isKind kind = true) :
    ∀ c ∈ kind, isKindChar c = true := by
  unfold isKind at h
  split at h
  · simp
  · simp only [Bool.and_eq_true, all_eq_true] at h
    refine forall_mem_cons.2 ⟨?_, h.2⟩
    simp [isKindChar, h.1.1]

theorem isLineBoundary_iff (c : Char) : Text.isLineBoundary c = true ↔
    (0x0a ≤ c.toNat ∧ c.toNat ≤ 0x0d) ∨ (0x1c ≤ c.toNat ∧ c.toNat ≤ 0x1e) ∨ c.toNat = 0x85 ∨
      c.toNat = 0x2028 ∨ c.toNat = 0x2029 := by
  simp only [Text.isLineBoundary, contains_iff_mem, mem_cons, not_mem_nil, or_false]
  omega

theorem not_isLineBoundary_of_range {c : Char} (h : 0x20 ≤ c.toNat ∧ c.toNat < 0x7f) :
    Text.isLineBoundary c = false := by
  rw [Bool.eq_false_iff]
  intro hc
  rcases (isLineBoundary_iff c).1 hc with h' | h' | h' | h' | h' <;> omega

theorem le_iff_toNat_le (c d : Char) : c ≤ d ↔ c.toNat ≤ d.toNat := Iff.rfl

theorem isKindChar_range {c : Char} (h : isKindChar c = true) :
    (97 ≤ c.toNat ∧ c.toNat ≤ 122) ∨ (48 ≤ c.toNat ∧ c.toNat ≤ 57) ∨ c.toNat = 95 ∨
      c.toNat = 45 := by
  simp only [isKindChar, isLowerAscii, Bool.or_eq_true, Bool.and_eq_true, decide_eq_true_eq,
    beq_iff_eq, le_iff_toNat_le] at h
  rcases h with ((h | h) | rfl) | rfl
  · exact Or.inl h
  · exact Or.inr (Or.inl h)
  · exact Or.inr (Or.inr (Or.inl rfl))
  · exact Or.inr (Or.inr (Or.inr rfl))

theorem upper_range {c : Char} (h : isKindChar c = true) :
    0x2d ≤ c.toUpper.toNat ∧ c.toUpper.toNat ≤ 0x5f ∧ c.toUpper ≠ ':' := by
  have hascii : ∀ n < 128, isKindChar (Char.ofNat n) = true →
      0x2d ≤ (Char.ofNat n).toUpper.toNat ∧ (Char.ofNat n).toUpper.toNat ≤ 0x5f ∧
        (Char.ofNat n).toUpper ≠ ':' := by decide +kernel
  have hlt : c.toNat < 128 := by
    have := isKindChar_range h
    omega
  have hc := hascii c.toNat hlt
  rw [Char.ofNat_toNat] at hc
  exact hc h

theorem mem_upper {kind : List Char} (h : isKind kind = true) :
    ∀ c ∈ upper kind, 0x2d ≤ c.toNat ∧ c.toNat ≤ 0x5f ∧ c ≠ ':' := by
  intro c hc
  obtain ⟨d, hd, rfl⟩ := mem_map.1 hc
  exact upper_range (isKindChar_of_mem h d hd)

theorem quoteByte_range (byte : UInt8) : ∀ c ∈ quoteByte byte, 0x20 ≤ c.toNat ∧ c.toNat < 0x7f := by
  have hhex : ∀ n < 16, 0x20 ≤ (hexDigitUpper n).toNat ∧ (hexDigitUpper n).toNat < 0x7f := by decide
  have hkept : ∀ n < 127, isUnreserved n = true →
      0x20 ≤ (Char.ofNat n).toNat ∧ (Char.ofNat n).toNat < 0x7f := by decide +kernel
  have hbyte := byte.toNat_lt
  unfold quoteByte
  split_ifs with hunreserved
  · have hlt : byte.toNat < 127 := by
      simp only [isUnreserved, Bool.or_eq_true, Bool.and_eq_true, decide_eq_true_eq,
        beq_iff_eq] at hunreserved
      omega
    simpa using hkept byte.toNat hlt hunreserved
  · simp only [forall_mem_cons, not_mem_nil, false_implies, implies_true, and_true]
    exact ⟨by decide, hhex _ (by omega), hhex _ (by omega)⟩

theorem quote_range (text : List Char) : ∀ c ∈ quote text, 0x20 ≤ c.toNat ∧ c.toNat < 0x7f := by
  intro c hc
  obtain ⟨d, -, hc⟩ := mem_flatMap.1 hc
  obtain ⟨byte, -, hc⟩ := mem_flatMap.1 hc
  exact quoteByte_range byte c hc

theorem isDigit_range {c : Char} (h : c.isDigit = true) : 48 ≤ c.toNat ∧ c.toNat ≤ 57 := by
  simp only [Char.isDigit, Bool.and_eq_true, decide_eq_true_eq] at h
  exact h

theorem messageId_range {kind : List Char} (h : isKind kind = true) (coordinate : List Char)
    (sequence : ℕ) :
    ∀ c ∈ messageId kind coordinate sequence, 0x20 ≤ c.toNat ∧ c.toNat < 0x7f := by
  have hsuffix : ("@ai-org-list".toList.all fun c => 0x20 ≤ c.toNat ∧ c.toNat < 0x7f) = true := by
    decide
  intro c hc
  simp only [messageId, mem_append, mem_cons] at hc
  rcases hc with ((hc | rfl | hc) | rfl | hc) | hc
  · have := isKindChar_range (isKindChar_of_mem h c hc)
    omega
  · decide
  · exact quote_range coordinate c hc
  · decide
  · have := isDigit_range (Text.isDigit_of_mem_toString hc)
    omega
  · simpa using all_eq_true.1 hsuffix c hc

/-- A trailer line: it is not empty and `splitlines` does not cut it. -/
def IsLine (line : List Char) : Prop := line ≠ [] ∧ ∀ c ∈ line, Text.isLineBoundary c = false

theorem isLine_append {field text : List Char} (hfield : IsLine field)
    (htext : ∀ c ∈ text, Text.isLineBoundary c = false) : IsLine (field ++ text) := by
  refine ⟨append_ne_nil_of_left_ne_nil hfield.1 _, fun c hc => ?_⟩
  rcases mem_append.1 hc with hc | hc
  · exact hfield.2 c hc
  · exact htext c hc

theorem isLine_field {field : String} (hne : field.toList ≠ [])
    (h : field.toList.all (fun c => !Text.isLineBoundary c) = true) : IsLine field.toList :=
  ⟨hne, fun c hc => by simpa using all_eq_true.1 h c hc⟩

theorem IsLine.not_lf {line : List Char} (h : IsLine line) : line ≠ [] ∧ '\n' ∉ line :=
  ⟨h.1, fun hmem => absurd (h.2 '\n' hmem) (by decide)⟩

theorem Post.Clean.pairs {post : Post} (h : post.Clean) :
    ∀ pair ∈ post.correspondsTo ++ post.refs,
      ∀ c ∈ pair.1 ++ '=' :: pair.2, Text.isLineBoundary c = false := by
  intro pair hpair c hc
  have htext : ∀ text ∈ [pair.1, pair.2], ∀ c ∈ text, Text.isLineBoundary c = false :=
    fun text ht => h text (mem_append_right _ (mem_flatMap.2 ⟨pair, hpair, ht⟩))
  rcases mem_append.1 hc with hc | hc
  · exact htext pair.1 (by simp) c hc
  rcases mem_cons.1 hc with rfl | hc
  · decide
  · exact htext pair.2 (by simp) c hc

theorem isLine_pairTrailer {field : String} (hfield : IsLine field.toList)
    {pair : List Char × List Char}
    (h : ∀ c ∈ pair.1 ++ '=' :: pair.2, Text.isLineBoundary c = false) :
    IsLine (pairTrailer field pair) := by
  unfold pairTrailer
  rw [append_assoc]
  exact isLine_append hfield h

theorem trailers_isLine {post : Post} (h : post.Clean) {id : List Char}
    (hid : ∀ c ∈ id, Text.isLineBoundary c = false) : ∀ line ∈ post.trailers id, IsLine line := by
  have hkind : ∀ c ∈ post.kind, Text.isLineBoundary c = false := fun c hc => by
    have := isKindChar_range (isKindChar_of_mem post.kind_ok c hc)
    exact not_isLineBoundary_of_range (by omega)
  intro line hline
  simp only [Post.trailers, mem_append, mem_cons, not_mem_nil, or_false,
    mem_map] at hline
  rcases hline with (((rfl | rfl) | ⟨reply, hreply, rfl⟩) | ⟨pair, hpair, rfl⟩) | ⟨pair, hpair, rfl⟩
  · exact isLine_append (isLine_field (by decide) (by decide)) hkind
  · exact isLine_append (isLine_field (by decide) (by decide)) hid
  · exact isLine_append (isLine_field (by decide) (by decide))
      (h reply (mem_append_left _ hreply))
  · exact isLine_pairTrailer (isLine_field (by decide) (by decide))
      (h.pairs pair (mem_append_left _ hpair))
  · exact isLine_pairTrailer (isLine_field (by decide) (by decide))
      (h.pairs pair (mem_append_right _ hpair))

/-! ### One trailer -/

def ofValues : List (List Char) → Option TrailerValue
  | [] => none
  | [value] => some (.one value)
  | values => some (.many values)

def valuesOf (pairs : TrailerPairs) (name : List Char) : List (List Char) :=
  (pairs.filter fun pair => pair.1 = name).map (·.2)

/-- Parsed pairs hold what the pairs give each name. -/
def Collects (parsed : ParsedPairs) (pairs : TrailerPairs) : Prop :=
  ∀ name, parsed.lookup name = ofValues (valuesOf pairs name)

theorem lookup_setPair (values : ParsedPairs) (name k : List Char) (value : TrailerValue) :
    (setPair name value values).lookup k = if k = name then some value else values.lookup k := by
  induction values with
  | nil =>
    simp only [setPair, lookup_cons, lookup_nil]
    by_cases hk : k = name
    · simp [hk]
    · simp [hk, beq_eq_false_iff_ne.2 hk]
  | cons entry values ih =>
    obtain ⟨l, v⟩ := entry
    simp only [setPair]
    by_cases hl : l = name
    · subst hl
      simp only [↓reduceIte, lookup_cons]
      by_cases hk : k = l
      · simp [hk]
      · simp [hk, beq_eq_false_iff_ne.2 hk]
    · simp only [hl, ↓reduceIte, lookup_cons, ih]
      by_cases hk : k = l
      · subst hk
        simp [hl]
      · simp [beq_eq_false_iff_ne.2 hk]

theorem valuesOf_append_singleton (pairs : TrailerPairs) (name value k : List Char) :
    valuesOf (pairs ++ [(name, value)]) k =
      if k = name then valuesOf pairs k ++ [value] else valuesOf pairs k := by
  unfold valuesOf
  rw [filter_append, map_append]
  by_cases hk : k = name
  · simp [hk]
  · simp [hk, Ne.symm hk]

theorem ofValues_append_singleton (values : List (List Char)) (value : List Char) :
    ofValues (values ++ [value]) = some (match ofValues values with
      | none => .one value
      | some (.one previous) => .many [previous, value]
      | some (.many previous) => .many (previous ++ [value])) := by
  rcases values with _ | ⟨first, _ | ⟨second, rest⟩⟩ <;> rfl

theorem appendParsedValue_collects {parsed : ParsedPairs} {pairs : TrailerPairs}
    (h : Collects parsed pairs) {name : List Char} (hname : name ≠ []) (value : List Char) :
    ∃ parsed', appendParsedValue parsed name value = .ok parsed' ∧
      Collects parsed' (pairs ++ [(name, value)]) := by
  unfold appendParsedValue
  rw [if_neg hname]
  have hset : ∀ new, ofValues (valuesOf pairs name ++ [value]) = some new →
      Collects (setPair name new parsed) (pairs ++ [(name, value)]) := by
    intro new hnew k
    rw [lookup_setPair, valuesOf_append_singleton]
    split_ifs with hk
    · rw [hk, hnew]
    · exact h k
  have hlookup := h name
  have hnew := ofValues_append_singleton (valuesOf pairs name) value
  rw [← hlookup] at hnew
  rcases hvalue : parsed.lookup name with _ | previous | previous <;> rw [hvalue] at hnew
  · exact ⟨_, rfl, hset _ hnew⟩
  · exact ⟨_, rfl, hset _ hnew⟩
  · exact ⟨_, rfl, hset _ hnew⟩

theorem isTrailerPair_name {pair : List Char × List Char} (h : isTrailerPair pair = true) :
    pair.1 ≠ [] ∧ '=' ∉ pair.1 := by
  simp only [isTrailerPair, isTrailerName, Bool.and_eq_true, Bool.not_eq_true',
    isEmpty_eq_false_iff, all_eq_true, bne_iff_ne] at h
  exact ⟨h.1.1.1, fun hmem => h.1.2 '=' hmem rfl⟩

theorem onceValue_none {value : List Char} (h : value ≠ []) :
    onceValue none value = .ok (some value) := by
  unfold onceValue
  rw [if_neg (by simpa using h)]

theorem parseTrailer_id {trailers : ParsedTrailers} {id : List Char} (hid : id ≠ [])
    (h : trailers.messageId = none) :
    parseTrailer trailers ("Message-Id: ".toList ++ id) =
      .ok { trailers with messageId := some id } := by
  unfold parseTrailer
  rw [if_pos (prefix_append _ _), Text.removePrefix_append, h, onceValue_none hid]
  rfl

theorem not_prefix_of_head {field text : List Char} {c d : Char} (hcd : c ≠ d) :
    ¬ c :: field <+: d :: text := fun h => hcd (cons_prefix_cons.1 h).1

theorem parseTrailer_reply {trailers : ParsedTrailers} {reply : List Char} (hreply : reply ≠ [])
    (h : trailers.inReplyTo = none) :
    parseTrailer trailers ("In-Reply-To: ".toList ++ reply) =
      .ok { trailers with inReplyTo := some reply } := by
  have hid : ¬ "Message-Id: ".toList <+: "In-Reply-To: ".toList ++ reply :=
    not_prefix_of_head (by decide)
  unfold parseTrailer
  rw [if_neg hid, if_pos (prefix_append _ _), Text.removePrefix_append, h,
    onceValue_none hreply]
  rfl

theorem mem_pairTrailer (field : String) (pair : List Char × List Char) :
    '=' ∈ pairTrailer field pair := by
  simp [pairTrailer]

theorem splitOnce_pairTrailer {field : String} {pair : List Char × List Char}
    (h : isTrailerPair pair = true) :
    Text.splitOnce '=' (Text.removePrefix field.toList (pairTrailer field pair)) = pair := by
  rw [pairTrailer, append_assoc, Text.removePrefix_append,
    Text.splitOnce_append (isTrailerPair_name h).2]

theorem parseTrailer_link (trailers : ParsedTrailers) {pair : List Char × List Char}
    (h : isTrailerPair pair = true) :
    parseTrailer trailers (pairTrailer "Link: " pair) = do
      let links ← appendParsedValue trailers.correspondsTo pair.1 pair.2
      return { trailers with correspondsTo := links } := by
  have hid : ¬ "Message-Id: ".toList <+: pairTrailer "Link: " pair :=
    not_prefix_of_head (by decide)
  have hreply : ¬ "In-Reply-To: ".toList <+: pairTrailer "Link: " pair :=
    not_prefix_of_head (by decide)
  have hlink : "Link: ".toList <+: pairTrailer "Link: " pair := by
    rw [pairTrailer, append_assoc]
    exact prefix_append _ _
  unfold parseTrailer
  rw [if_neg hid, if_neg hreply, if_pos ⟨hlink, mem_pairTrailer _ _⟩]
  simp only [splitOnce_pairTrailer h]

theorem parseTrailer_ref (trailers : ParsedTrailers) {pair : List Char × List Char}
    (h : isTrailerPair pair = true) :
    parseTrailer trailers (pairTrailer "Ref: " pair) = do
      let refs ← appendParsedValue trailers.refs pair.1 pair.2
      return { trailers with refs := refs } := by
  have hid : ¬ "Message-Id: ".toList <+: pairTrailer "Ref: " pair :=
    not_prefix_of_head (by decide)
  have hreply : ¬ "In-Reply-To: ".toList <+: pairTrailer "Ref: " pair :=
    not_prefix_of_head (by decide)
  have hlink : ¬ "Link: ".toList <+: pairTrailer "Ref: " pair :=
    not_prefix_of_head (by decide)
  have href : "Ref: ".toList <+: pairTrailer "Ref: " pair := by
    rw [pairTrailer, append_assoc]
    exact prefix_append _ _
  unfold parseTrailer
  rw [if_neg hid, if_neg hreply, if_neg (fun hand => hlink hand.1),
    if_pos ⟨href, mem_pairTrailer _ _⟩]
  simp only [splitOnce_pairTrailer h]

theorem foldlM_pairs (line : List Char × List Char → List Char)
    (get : ParsedTrailers → ParsedPairs) (put : ParsedTrailers → ParsedPairs → ParsedTrailers)
    (hline : ∀ trailers pair, isTrailerPair pair = true → parseTrailer trailers (line pair) = do
      let values ← appendParsedValue (get trailers) pair.1 pair.2
      return put trailers values)
    (hself : ∀ trailers, put trailers (get trailers) = trailers)
    (hget : ∀ trailers values, get (put trailers values) = values)
    (hput : ∀ trailers values values', put (put trailers values) values' = put trailers values') :
    ∀ {pairs before : TrailerPairs} (trailers : ParsedTrailers),
      (∀ pair ∈ pairs, isTrailerPair pair = true) → Collects (get trailers) before →
      ∃ values, (pairs.map line).foldlM parseTrailer trailers = .ok (put trailers values) ∧
        Collects values (before ++ pairs)
  | [], _, trailers, _, hbefore => by
    refine ⟨get trailers, ?_, by simpa using hbefore⟩
    rw [hself]
    rfl
  | pair :: pairs, _, trailers, hpairs, hbefore => by
    obtain ⟨hpair, hpairs⟩ := forall_mem_cons.1 hpairs
    obtain ⟨values, hvalues, hcollects⟩ :=
      appendParsedValue_collects hbefore (isTrailerPair_name hpair).1 pair.2
    have hfirst : parseTrailer trailers (line pair) = .ok (put trailers values) := by
      rw [hline trailers pair hpair, hvalues]
      rfl
    rw [← hget trailers values] at hcollects
    obtain ⟨rest, hrest, hall⟩ := foldlM_pairs line get put hline hself hget hput _ hpairs hcollects
    refine ⟨rest, ?_, by simpa using hall⟩
    rw [map_cons, foldlM_cons, hfirst]
    exact hrest.trans (by rw [hput])

theorem collects_nil : Collects [] [] := fun _ => rfl

theorem parseTrailers_trailers (post : Post) {id : List Char} (hid : id ≠ []) :
    ∃ trailers, parseTrailers (post.trailers id).tail = .ok trailers ∧
      Collects trailers.refs post.refs ∧ Collects trailers.correspondsTo post.correspondsTo ∧
      trailers.messageId = some id ∧ trailers.inReplyTo = post.inReplyTo := by
  obtain ⟨links, hlinks, hlinksCollect⟩ := foldlM_pairs (pairTrailer "Link: ")
    ParsedTrailers.correspondsTo (fun trailers values => { trailers with correspondsTo := values })
    (fun trailers pair h => parseTrailer_link trailers h) (fun _ => rfl) (fun _ _ => rfl)
    (fun _ _ _ => rfl) ⟨[], [], some id, post.inReplyTo⟩ post.correspondsTo_ok collects_nil
  obtain ⟨refs, hrefs, hrefsCollect⟩ := foldlM_pairs (pairTrailer "Ref: ")
    ParsedTrailers.refs (fun trailers values => { trailers with refs := values })
    (fun trailers pair h => parseTrailer_ref trailers h) (fun _ => rfl) (fun _ _ => rfl)
    (fun _ _ _ => rfl) ⟨[], links, some id, post.inReplyTo⟩ post.refs_ok collects_nil
  have hreply : (post.inReplyTo.toList.map ("In-Reply-To: ".toList ++ ·)).foldlM parseTrailer
      ⟨[], [], some id, none⟩ = .ok ⟨[], [], some id, post.inReplyTo⟩ := by
    rcases hr : post.inReplyTo with _ | reply
    · rfl
    · have hne := (post.inReplyTo_ok reply hr).1
      have hparse : parseTrailer ⟨[], [], some id, none⟩ ("In-Reply-To: ".toList ++ reply) =
          .ok ⟨[], [], some id, some reply⟩ := parseTrailer_reply hne rfl
      simp only [Option.toList_some, map_cons, map_nil, foldlM_cons, hparse]
      rfl
  have hfirst : parseTrailer ⟨[], [], none, none⟩ ("Message-Id: ".toList ++ id) =
      .ok ⟨[], [], some id, none⟩ := parseTrailer_id hid rfl
  refine ⟨⟨refs, links, some id, post.inReplyTo⟩, ?_, hrefsCollect, hlinksCollect, rfl, rfl⟩
  have htail : (post.trailers id).tail = ("Message-Id: ".toList ++ id) ::
      (post.inReplyTo.toList.map ("In-Reply-To: ".toList ++ ·)
        ++ post.correspondsTo.map (pairTrailer "Link: ") ++ post.refs.map (pairTrailer "Ref: ")) := by
    simp [Post.trailers]
  rw [parseTrailers, htail, foldlM_cons, hfirst]
  simp only [foldlM_append, bind, Except.bind, hreply, hlinks]
  exact hrefs

theorem lf_notMem_of_isSingleLine {text : List Char} (h : isSingleLine text = true) :
    '\n' ∉ text := by
  intro hmem
  have := all_eq_true.1 h '\n' hmem
  exact absurd this (by decide)

def Post.header (post : Post) : List Char := upper post.kind ++ ": ".toList ++ post.subject

theorem lf_notMem_header (post : Post) : '\n' ∉ post.header := by
  have hkind : '\n' ∉ upper post.kind := fun h => by
    have := (mem_upper post.kind_ok '\n' h).1
    exact absurd this (by decide)
  simp only [Post.header, mem_append, not_or]
  exact ⟨⟨hkind, by decide⟩, lf_notMem_of_isSingleLine post.subject_ok.2⟩

theorem upper_cons {kind : List Char} (h : isKind kind = true) :
    ∃ c rest, upper kind = c :: rest ∧ c ≠ 'l' := by
  rcases kind with _ | ⟨c, rest⟩
  · exact absurd h (by decide)
  · refine ⟨c.toUpper, upper rest, rfl, fun hc => ?_⟩
    have := (mem_upper h c.toUpper (mem_map.2 ⟨c, mem_cons_self, rfl⟩)).2.1
    rw [hc] at this
    exact absurd this (by decide)

theorem not_isGenesisMessage (post : Post) (text : List Char) :
    isGenesisMessage (post.header ++ text) = false := by
  obtain ⟨c, rest, hupper, hc⟩ := upper_cons post.kind_ok
  rw [Post.header, hupper]
  exact decide_eq_false (not_prefix_of_head hc.symm)

theorem message_eq (post : Post) (id : List Char) :
    post.message id = post.header ++ ("\n\n".toList ++ (post.body
      ++ '\n' :: '\n' :: Text.joinLines (post.trailers id))) ++ ['\n'] := by
  simp [Post.message, Post.header]

theorem rdropWhile_message {text : List Char} (tail : List Char) {c : Char} (h : text = tail ++ [c])
    (hc : c ≠ '\n') : (text ++ ['\n']).rdropWhile (· == '\n') = text := by
  rw [rdropWhile_concat_pos _ _ _ (by rfl), h, rdropWhile_concat_neg _ _ _ (by simpa using hc)]

/-- A clean post is read back from its message. -/
theorem parsePostMessage_message {post : Post} (hclean : post.Clean) {id : List Char}
    (hid : id ≠ []) (hidLine : ∀ c ∈ id, Text.isLineBoundary c = false) :
    ∃ trailers, parsePostMessage (post.message id) =
        .ok (some ⟨post.kind, post.subject, post.body, trailers⟩) ∧
      Collects trailers.refs post.refs ∧ Collects trailers.correspondsTo post.correspondsTo ∧
      trailers.messageId = some id ∧ trailers.inReplyTo = post.inReplyTo := by
  obtain ⟨trailers, htrailers, hfields⟩ := parseTrailers_trailers post hid
  have hlines := trailers_isLine hclean hidLine
  have hlf : ∀ line ∈ post.trailers id, line ≠ [] ∧ '\n' ∉ line :=
    fun line hline => (hlines line hline).not_lf
  let joined := Text.joinLines (post.trailers id)
  obtain ⟨text, c, htext, hc⟩ := Text.joinLines_concat (by simp [Post.trailers]) hlf
  -- the trailing line feed is dropped, and nothing else
  have hstrip : (post.message id).rdropWhile (· == '\n') = post.header ++
      ("\n\n".toList ++ (post.body ++ '\n' :: '\n' :: joined)) := by
    rw [message_eq]
    refine rdropWhile_message (post.header ++ ("\n\n".toList ++ (post.body
      ++ '\n' :: '\n' :: text))) ?_ hc
    simp [htext]
  have hpartition : Text.partition "\n\n".toList (post.header ++
      ("\n\n".toList ++ (post.body ++ '\n' :: '\n' :: joined))) =
      some (post.header, post.body ++ '\n' :: '\n' :: joined) := by
    rw [← append_assoc]
    exact Text.partition_append rfl (lf_notMem_header post)
  have hkindLine : ∃ rest, joined = "Kind: ".toList ++ rest := by
    refine ⟨post.kind ++ '\n' :: Text.joinLines (post.trailers id).tail, ?_⟩
    simp only [joined, Post.trailers, cons_append, nil_append, Text.joinLines_cons_cons,
      tail_cons, append_assoc]
  have hsplit : Text.splitLast "\n\nKind: ".toList (post.body ++ '\n' :: '\n' :: joined) =
      some (post.body, '\n' :: '\n' :: joined) := by
    obtain ⟨rest, hrest⟩ := hkindLine
    refine Text.splitLast_append (fun tail htail =>
      Text.not_prefix_of_notBlank (Text.notBlank_joinLines hlf) htail) ?_
    rw [hrest]
    exact ⟨rest, rfl⟩
  have hsplitlines : Text.splitlines joined = post.trailers id := Text.splitlines_joinLines hlines
  have hheader : Text.partition ": ".toList post.header = some (upper post.kind, post.subject) :=
    Text.partition_append rfl fun hmem => (mem_upper post.kind_ok ':' hmem).2.2 rfl
  have hkind : Text.removePrefix "Kind: ".toList ((post.trailers id).headD []) = post.kind :=
    Text.removePrefix_append _ _
  refine ⟨trailers, ?_, hfields⟩
  simp only [parsePostMessage, hstrip, not_isGenesisMessage, hpartition, hsplit, drop_succ_cons,
    drop_zero, hsplitlines, hkind, hheader, post.kind_ok, htrailers, Bool.false_eq_true,
    ↓reduceIte, Bool.not_true, bne_self_eq_false, Bool.or_self, bind, Except.bind]
  rfl

theorem messageId_ne_nil (kind coordinate : List Char) (sequence : ℕ) :
    messageId kind coordinate sequence ≠ [] := by
  simp [messageId]

theorem lookup_item_of_singleItem {pairs : TrailerPairs} {item : List Char}
    (h : singleItem pairs = some item) :
    ofValues (valuesOf pairs "item".toList) = some (.one item) := by
  unfold singleItem at h
  unfold valuesOf
  split at h
  · rename_i pair hpair
    rw [hpair]
    obtain rfl := Option.some.inj h
    rfl
  · exact absurd h nofun

theorem isQaForItem_message {post : Post} (hclean : post.Clean) {item : List Char}
    (h : post.qaItemRef = some item) (sequence : ℕ) :
    ∃ parsed, parsePostMessage (post.message (post.idAt sequence)) = .ok (some parsed) ∧
      isQaForItem item parsed = true := by
  have hid : ∀ c ∈ post.idAt sequence, Text.isLineBoundary c = false := fun c hc =>
    not_isLineBoundary_of_range (messageId_range post.kind_ok post.coordinate sequence c hc)
  obtain ⟨trailers, hparse, hrefs, -⟩ :=
    parsePostMessage_message hclean (messageId_ne_nil _ _ _) hid
  refine ⟨_, hparse, ?_⟩
  unfold Post.qaItemRef at h
  split_ifs at h with hkind
  have hlookup := (hrefs "item".toList).trans (lookup_item_of_singleItem h)
  simp only [isQaForItem, hkind, hlookup, BEq.rfl, Bool.and_self]

end MailingList

end AiOrg
