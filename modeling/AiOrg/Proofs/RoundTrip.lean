import AiOrg.Proofs.MailingList

/-!
# Which posts are read back as they were posted

The parser takes every trailer text from a line of `splitlines`, so no text it returns holds a line
boundary (`parsePostMessage_plain`). A post is therefore read back as it was posted exactly when its
trailer texts hold none either (`roundTrips_iff`).
-/

namespace AiOrg

open List

namespace Text

theorem removePrefix_sublist (front text : List Char) : (removePrefix front text).Sublist text := by
  unfold removePrefix
  split_ifs
  · exact drop_sublist _ _
  · exact List.Sublist.refl _

theorem splitOnce_sublist (mark : Char) (text : List Char) :
    (splitOnce mark text).1.Sublist text ∧ (splitOnce mark text).2.Sublist text :=
  ⟨takeWhile_sublist _, (drop_sublist _ _).trans (dropWhile_sublist _)⟩

end Text

namespace MailingList

open Text (Plain)

def TrailerValue.values : TrailerValue → List (List Char)
  | .one value => [value]
  | .many values => values

/-- Parsed pairs without a line boundary. -/
def PlainPairs (pairs : ParsedPairs) : Prop :=
  ∀ entry ∈ pairs, Plain entry.1 ∧ ∀ value ∈ entry.2.values, Plain value

/-- Parsed trailers without a line boundary. -/
structure ParsedTrailers.PlainTexts (trailers : ParsedTrailers) : Prop where
  refs : PlainPairs trailers.refs
  correspondsTo : PlainPairs trailers.correspondsTo
  inReplyTo : ∀ reply ∈ trailers.inReplyTo, Plain reply

theorem mem_of_lookup {values : ParsedPairs} {name : List Char} {value : TrailerValue}
    (h : values.lookup name = some value) : (name, value) ∈ values := by
  induction values with
  | nil => exact absurd h nofun
  | cons entry values ih =>
    obtain ⟨k, v⟩ := entry
    rw [lookup_cons] at h
    by_cases hk : name = k
    · rw [beq_iff_eq.2 hk] at h
      obtain rfl := Option.some.inj h
      rw [hk]
      exact mem_cons_self
    · rw [beq_eq_false_iff_ne.2 hk] at h
      exact mem_cons_of_mem _ (ih h)

theorem plainPairs_setPair {pairs : ParsedPairs} (h : PlainPairs pairs) {name : List Char}
    (hname : Plain name) {value : TrailerValue} (hvalue : ∀ text ∈ value.values, Plain text) :
    PlainPairs (setPair name value pairs) := by
  induction pairs with
  | nil => simpa [setPair, PlainPairs] using ⟨hname, hvalue⟩
  | cons entry pairs ih =>
    obtain ⟨hentry, hpairs⟩ := forall_mem_cons.1 h
    unfold setPair
    split_ifs
    · exact forall_mem_cons.2 ⟨⟨hentry.1, hvalue⟩, hpairs⟩
    · exact forall_mem_cons.2 ⟨hentry, ih hpairs⟩

theorem plainPairs_appendParsedValue {pairs pairs' : ParsedPairs} (h : PlainPairs pairs)
    {name value : List Char} (hname : Plain name) (hvalue : Plain value)
    (happend : appendParsedValue pairs name value = .ok pairs') : PlainPairs pairs' := by
  unfold appendParsedValue at happend
  split_ifs at happend
  · exact absurd happend nofun
  rcases hlookup : pairs.lookup name with _ | previous | previous <;> rw [hlookup] at happend <;>
    obtain rfl := Except.ok.inj happend
  · exact plainPairs_setPair h hname (by simpa [TrailerValue.values] using hvalue)
  · have hprevious := (h _ (mem_of_lookup hlookup)).2
    refine plainPairs_setPair h hname ?_
    simp only [TrailerValue.values, forall_mem_cons, not_mem_nil, false_implies,
      implies_true, and_true] at hprevious ⊢
    exact ⟨hprevious, hvalue⟩
  · have hprevious := (h _ (mem_of_lookup hlookup)).2
    refine plainPairs_setPair h hname fun text htext => ?_
    rcases mem_append.1 htext with htext | htext
    · exact hprevious text htext
    · rw [mem_singleton.1 htext]
      exact hvalue

theorem bind_eq_ok {ε α β : Type} {x : Except ε α} {f : α → Except ε β} {b : β}
    (h : (x >>= f) = .ok b) : ∃ a, x = .ok a ∧ f a = .ok b := by
  rcases x with e | a
  · exact absurd h nofun
  · exact ⟨a, rfl, h⟩

theorem parseTrailer_plain {trailers trailers' : ParsedTrailers} (h : trailers.PlainTexts)
    {line : List Char} (hline : Plain line) (hparse : parseTrailer trailers line = .ok trailers') :
    trailers'.PlainTexts := by
  have hrest := fun front : String =>
    hline.sublist (Text.removePrefix_sublist front.toList line)
  have hpair := fun front : String => And.imp (hrest front).sublist (hrest front).sublist
    (Text.splitOnce_sublist '=' (Text.removePrefix front.toList line))
  unfold parseTrailer at hparse
  split_ifs at hparse
  · obtain ⟨id, -, hparse⟩ := bind_eq_ok hparse
    obtain rfl := Except.ok.inj hparse
    exact ⟨h.refs, h.correspondsTo, h.inReplyTo⟩
  · obtain ⟨reply, hreply, hparse⟩ := bind_eq_ok hparse
    obtain rfl := Except.ok.inj hparse
    refine ⟨h.refs, h.correspondsTo, fun text htext => ?_⟩
    unfold onceValue at hreply
    split_ifs at hreply
    · exact absurd hreply nofun
    obtain rfl := Except.ok.inj hreply
    obtain rfl := Option.some.inj htext
    exact hrest _
  · obtain ⟨links, hlinks, hparse⟩ := bind_eq_ok hparse
    obtain rfl := Except.ok.inj hparse
    exact ⟨h.refs, plainPairs_appendParsedValue h.correspondsTo (hpair _).1 (hpair _).2 hlinks,
      h.inReplyTo⟩
  · obtain ⟨refs, hrefs, hparse⟩ := bind_eq_ok hparse
    obtain rfl := Except.ok.inj hparse
    exact ⟨plainPairs_appendParsedValue h.refs (hpair _).1 (hpair _).2 hrefs, h.correspondsTo,
      h.inReplyTo⟩
  · exact absurd hparse nofun

theorem foldlM_parseTrailer_plain : ∀ {lines : List (List Char)} {trailers trailers' : ParsedTrailers},
    trailers.PlainTexts → (∀ line ∈ lines, Plain line) →
      lines.foldlM parseTrailer trailers = .ok trailers' → trailers'.PlainTexts
  | [], trailers, _, h, _, hfold => by
    obtain rfl := Except.ok.inj hfold
    exact h
  | line :: lines, trailers, _, h, hlines, hfold => by
    rw [foldlM_cons] at hfold
    obtain ⟨next, hnext, hfold⟩ := bind_eq_ok hfold
    obtain ⟨hline, hlines⟩ := forall_mem_cons.1 hlines
    exact foldlM_parseTrailer_plain (parseTrailer_plain h hline hnext) hlines hfold

/-- No text that is parsed from a message holds a line boundary. -/
theorem parsePostMessage_plain {text : List Char} {parsed : ParsedPost}
    (h : parsePostMessage text = .ok (some parsed)) : parsed.trailers.PlainTexts := by
  unfold parsePostMessage at h
  dsimp only at h
  split_ifs at h
  · exact absurd h nofun
  split at h
  · exact absurd h nofun
  split at h
  · exact absurd h nofun
  split at h
  · exact absurd h nofun
  split_ifs at h
  obtain ⟨trailers, htrailers, h⟩ := bind_eq_ok h
  obtain rfl := Option.some.inj (Except.ok.inj h)
  refine foldlM_parseTrailer_plain ⟨by simp [PlainPairs], by simp [PlainPairs], by simp⟩ (fun line hline => ?_) htrailers
  exact Text.plain_of_mem_splitlines (mem_of_mem_tail hline)

/-- A parsed post says what a post says: each name collects exactly the values it was given. -/
structure Matches (post : Post) (id : List Char) (parsed : ParsedPost) : Prop where
  kind : parsed.kind = post.kind
  subject : parsed.subject = post.subject
  body : parsed.body = post.body
  refs : Collects parsed.trailers.refs post.refs
  correspondsTo : Collects parsed.trailers.correspondsTo post.correspondsTo
  messageId : parsed.trailers.messageId = some id
  inReplyTo : parsed.trailers.inReplyTo = post.inReplyTo

/-- Parsing the message of a post, at any sequence number, gives the post back. -/
def RoundTrips (post : Post) : Prop :=
  ∀ sequence, ∃ parsed, parsePostMessage (post.message (post.idAt sequence)) = .ok (some parsed) ∧
    Matches post (post.idAt sequence) parsed

/-- Appended to a list that can be read, a post leaves it readable and adds its own entry. -/
def ReadsBack (post : Post) : Prop :=
  ∀ (sequence : ℕ) (commit : Commit) (log : List (Commit × List Char)) (entries : List _),
    readPosts log = .ok entries → ∃ parsed,
      readPosts (log ++ [(commit, post.message (post.idAt sequence))]) =
        .ok (entries ++ [(commit, parsed)]) ∧ Matches post (post.idAt sequence) parsed

theorem mapM_append_ok {ε α β : Type} {f : α → Except ε β} {x : α} {y : β} (hx : f x = .ok y) :
    ∀ {xs : List α} {ys : List β}, xs.mapM f = .ok ys → (xs ++ [x]).mapM f = .ok (ys ++ [y]) := by
  intro xs ys hxs
  rw [mapM_append, hxs]
  simp [bind, Except.bind, hx, pure, Except.pure]

theorem RoundTrips.readsBack {post : Post} (h : RoundTrips post) : ReadsBack post := by
  intro sequence commit log entries hlog
  obtain ⟨parsed, hparse, hmatches⟩ := h sequence
  refine ⟨parsed, ?_, hmatches⟩
  unfold readPosts at hlog ⊢
  obtain ⟨read, hread, hentries⟩ := bind_eq_ok hlog
  obtain rfl := Except.ok.inj hentries
  have hone : readMessage (commit, post.message (post.idAt sequence)) =
      .ok (some (commit, parsed)) := by
    unfold readMessage
    rw [hparse]
    rfl
  rw [mapM_append_ok hone hread]
  simp [bind, Except.bind, pure, Except.pure]

theorem Post.Clean.roundTrips {post : Post} (h : post.Clean) : RoundTrips post := by
  intro sequence
  have hid : ∀ c ∈ post.idAt sequence, Text.isLineBoundary c = false := fun c hc =>
    not_isLineBoundary_of_range (messageId_range post.kind_ok post.coordinate sequence c hc)
  obtain ⟨trailers, hparse, hrefs, hlinks, hmessageId, hreply⟩ :=
    parsePostMessage_message h (messageId_ne_nil _ _ _) hid
  exact ⟨_, hparse, rfl, rfl, rfl, hrefs, hlinks, hmessageId, hreply⟩

theorem ofValues_values {values : List (List Char)} {value : TrailerValue}
    (h : ofValues values = some value) : value.values = values := by
  unfold ofValues at h
  split at h
  · exact absurd h nofun
  · obtain rfl := Option.some.inj h
    rfl
  · obtain rfl := Option.some.inj h
    rfl

theorem Collects.plain {parsed : ParsedPairs} {pairs : TrailerPairs} (h : Collects parsed pairs)
    (hparsed : PlainPairs parsed) : ∀ pair ∈ pairs, Plain pair.1 ∧ Plain pair.2 := by
  intro pair hpair
  have hvalue : pair.2 ∈ valuesOf pairs pair.1 :=
    mem_map.2 ⟨pair, mem_filter.2 ⟨hpair, by simp⟩, rfl⟩
  rcases hof : ofValues (valuesOf pairs pair.1) with _ | value
  · unfold ofValues at hof
    split at hof <;> simp_all
  · obtain ⟨hname, hvalues⟩ := hparsed _ (mem_of_lookup ((h pair.1).trans hof))
    rw [ofValues_values hof] at hvalues
    exact ⟨hname, hvalues _ hvalue⟩

theorem Matches.clean {post : Post} {id : List Char} {parsed : ParsedPost}
    (h : Matches post id parsed) (hplain : parsed.trailers.PlainTexts) : post.Clean := by
  intro text htext
  rcases mem_append.1 htext with hreply | hpairs
  · rw [← h.inReplyTo] at hreply
    exact hplain.inReplyTo text (Option.mem_toList.1 hreply)
  obtain ⟨pair, hpair, htext⟩ := mem_flatMap.1 hpairs
  have hpair : Plain pair.1 ∧ Plain pair.2 := by
    rcases mem_append.1 hpair with hlink | href
    · exact h.correspondsTo.plain hplain.correspondsTo pair hlink
    · exact h.refs.plain hplain.refs pair href
  simp only [mem_cons, not_mem_nil, or_false] at htext
  rcases htext with rfl | rfl
  · exact hpair.1
  · exact hpair.2

/-- Exactly the clean posts are read back as they were posted, and leave the list readable. -/
theorem roundTrips_iff (post : Post) : RoundTrips post ∧ ReadsBack post ↔ post.Clean := by
  constructor
  · rintro ⟨hround, -⟩
    obtain ⟨parsed, hparse, hmatches⟩ := hround 0
    exact hmatches.clean (parsePostMessage_plain hparse)
  · intro hclean
    exact ⟨hclean.roundTrips, hclean.roundTrips.readsBack⟩

theorem isSingleLine_formFeed : isSingleLine "x\x0cy".toList = true := by decide

theorem isSingleLine_plain : isSingleLine "plain".toList = true := by decide

/-- A post whose item holds a form feed. -/
def formFeedPost : Post :=
  samplePost "x\x0cy".toList "plain".toList isSingleLine_formFeed isSingleLine_plain

/-- Its message is not parsed at all, and no list with it can be read. -/
theorem formFeedPost_unreadable : ¬ RoundTrips formFeedPost ∧
    readPosts [((), formFeedPost.message (formFeedPost.idAt 1))] =
      .error (.runtime "malformed mailing-list post trailers") := by
  refine ⟨fun h => ?_, by decide +kernel⟩
  obtain ⟨parsed, hparse, -⟩ := h 1
  have hfails : parsePostMessage (formFeedPost.message (formFeedPost.idAt 1)) =
      .error (.runtime "malformed mailing-list post trailers") := by decide +kernel
  rw [hfails] at hparse
  exact absurd hparse nofun

end MailingList

end AiOrg
