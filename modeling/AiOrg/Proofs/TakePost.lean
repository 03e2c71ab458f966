import AiOrg.PatchAuthor.ListContributor
import AiOrg.Proofs.MailingList
import AiOrg.Run.Checks

/-!
# The post of a take

The address of an offer comes from lines of its message, so a take with that address is read back from the list with
exactly the offer's series and node.
-/

namespace AiOrg

open List

namespace MailingList

open Checks

theorem readPosts_cons {ι : Type} (entry : ι × List Char) (log : List (ι × List Char)) :
    readPosts (entry :: log) = do
      let post ← readMessage entry
      let posts ← readPosts log
      return post.toList ++ posts := by
  unfold readPosts
  rw [mapM_cons]
  cases readMessage entry with
  | error e => rfl
  | ok post =>
    cases log.mapM readMessage with
    | error e => rfl
    | ok posts => cases post <;> rfl

theorem readPosts_spec {ι : Type} {log : List (ι × List Char)} {posts : List (ι × ParsedPost)}
    (h : readPosts log = .ok posts) :
    (posts.map Prod.fst).Sublist (log.map Prod.fst) ∧
      (∀ entry ∈ log, ∀ post, parsePostMessage entry.2 = .ok (some post) → (entry.1, post) ∈ posts) ∧
      ∀ post ∈ posts, ∃ entry ∈ log, entry.1 = post.1 ∧ parsePostMessage entry.2 = .ok (some post.2) := by
  induction log generalizing posts with
  | nil =>
    obtain rfl := Except.ok.inj h
    simp
  | cons entry log ih =>
    rw [readPosts_cons] at h
    obtain ⟨post, hpost, h⟩ := bind_eq_ok_iff.1 h
    obtain ⟨rest, hrest, h⟩ := bind_eq_ok_iff.1 h
    obtain rfl := Except.ok.inj h
    obtain ⟨hsub, hall, hfrom⟩ := ih hrest
    obtain ⟨parsed, hparsed, hmap⟩ := map_eq_ok_iff.1 hpost
    have hfrom' : ∀ post ∈ rest, ∃ e ∈ entry :: log, e.1 = post.1 ∧ parsePostMessage e.2 = .ok (some post.2) := by
      intro post hpost
      obtain ⟨e, he, heq⟩ := hfrom post hpost
      exact ⟨e, mem_cons_of_mem _ he, heq⟩
    cases parsed with
    | none =>
      obtain rfl := hmap
      refine ⟨hsub.cons _, ?_, hfrom'⟩
      intro e he post hparse
      rcases mem_cons.1 he with rfl | he
      · rw [hparsed] at hparse
        exact nomatch Except.ok.inj hparse
      · exact hall e he post hparse
    | some parsed =>
      obtain rfl := hmap
      refine ⟨hsub.cons_cons _, ?_, forall_mem_cons.2 ⟨⟨entry, mem_cons_self, rfl, hparsed⟩, hfrom'⟩⟩
      intro e he post hparse
      rcases mem_cons.1 he with rfl | he
      · rw [hparsed] at hparse
        rw [Option.some.inj (Except.ok.inj hparse)]
        exact mem_cons_self
      · exact mem_cons_of_mem _ (hall e he post hparse)

/-- No single value holds a character `splitlines` cuts at. -/
def CleanPairs (pairs : ParsedPairs) : Prop :=
  ∀ name value, pairs.lookup name = some (.one value) → ∀ c ∈ value, Text.isLineBoundary c = false

theorem appendParsedValue_clean {values values' : ParsedPairs} {name value : List Char} (hvalues : CleanPairs values)
    (hvalue : ∀ c ∈ value, Text.isLineBoundary c = false) (h : appendParsedValue values name value = .ok values') :
    CleanPairs values' := by
  have hset : ∀ new, (∀ v, new = .one v → v = value) → CleanPairs (setPair name new values) := by
    intro new hnew k v hlookup
    rw [lookup_setPair] at hlookup
    split_ifs at hlookup
    · rw [hnew v (Option.some.inj hlookup)]
      exact hvalue
    · exact hvalues k v hlookup
  unfold appendParsedValue at h
  split_ifs at h
  · exact nomatch h
  · split at h <;> obtain rfl := Except.ok.inj h
    · exact hset _ fun v hv => (TrailerValue.one.inj hv).symm
    · exact hset _ nofun
    · exact hset _ nofun

theorem parseTrailer_clean {trailers trailers' : ParsedTrailers} {line : List Char} (hclean : CleanPairs trailers.refs)
    (hline : ∀ c ∈ line, Text.isLineBoundary c = false) (h : parseTrailer trailers line = .ok trailers') :
    CleanPairs trailers'.refs := by
  unfold parseTrailer at h
  split_ifs at h
  · obtain ⟨id, -, h⟩ := bind_eq_ok_iff.1 h
    obtain rfl := Except.ok.inj h
    exact hclean
  · obtain ⟨reply, -, h⟩ := bind_eq_ok_iff.1 h
    obtain rfl := Except.ok.inj h
    exact hclean
  · obtain ⟨links, -, h⟩ := bind_eq_ok_iff.1 h
    obtain rfl := Except.ok.inj h
    exact hclean
  · obtain ⟨refs, hrefs, h⟩ := bind_eq_ok_iff.1 h
    obtain rfl := Except.ok.inj h
    refine appendParsedValue_clean hclean (fun c hc => hline c ?_) hrefs
    have hc' := (dropWhile_sublist _).subset (mem_of_mem_drop hc)
    unfold Text.removePrefix at hc'
    split_ifs at hc'
    · exact mem_of_mem_drop hc'
    · exact hc'
  · exact nomatch h

theorem parseTrailers_clean : ∀ {lines : List (List Char)} {trailers trailers' : ParsedTrailers},
    CleanPairs trailers.refs → (∀ line ∈ lines, ∀ c ∈ line, Text.isLineBoundary c = false) →
    lines.foldlM parseTrailer trailers = .ok trailers' → CleanPairs trailers'.refs
  | [], trailers, trailers', hclean, _, h => by
    obtain rfl := Except.ok.inj h
    exact hclean
  | line :: lines, trailers, trailers', hclean, hlines, h => by
    rw [foldlM_cons] at h
    obtain ⟨next, hnext, h⟩ := bind_eq_ok_iff.1 h
    obtain ⟨hline, hlines⟩ := forall_mem_cons.1 hlines
    exact parseTrailers_clean (parseTrailer_clean hclean hline hnext) hlines h

theorem parsePostMessage_clean {text : List Char} {post : ParsedPost} (h : parsePostMessage text = .ok (some post)) :
    CleanPairs post.trailers.refs := by
  unfold parsePostMessage at h
  dsimp only at h
  split_ifs at h
  · exact nomatch h
  · split at h
    · exact nomatch h
    · split at h
      · exact nomatch h
      · split at h
        · exact nomatch h
        · split_ifs at h
          obtain ⟨trailers, htrailers, h⟩ := bind_eq_ok_iff.1 h
          obtain rfl := Option.some.inj (Except.ok.inj h)
          refine parseTrailers_clean (fun name value hnone => by simp at hnone) (fun line hline => ?_) htrailers
          exact Text.plain_of_mem_splitlines (mem_of_mem_tail hline)

theorem validated_ok {py : PyLib} {request : PostRequest} {post : Post} (h : request.validated py = .ok post) :
    post.kind = request.kind.toList ∧ post.subject = request.subject.toList ∧
      normalizeMapping py "refs" request.refs = .ok post.refs ∧
      normalizeMapping py "corresponds_to" request.correspondsTo = .ok post.correspondsTo ∧
      post.inReplyTo = request.inReplyTo.map String.toList := by
  unfold PostRequest.validated at h
  obtain ⟨body, -, h⟩ := bind_eq_ok_iff.1 h
  split_ifs at h
  · split at h
    · exact nomatch h
    · rename_i refs hrefs
      dsimp only at h
      split_ifs at h
      · split at h
        · exact nomatch h
        · rename_i links hlinks
          obtain rfl := Except.ok.inj h
          exact ⟨rfl, rfl, hrefs, hlinks, rfl⟩
      all_goals split at h <;> exact nomatch h

theorem normalizeMapping_texts {py : PyLib} {field : String} {values : List (String × String)} {pairs : TrailerPairs}
    (h : normalizeMapping py field (values.map fun entry => (entry.1, .str entry.2)) = .ok pairs) :
    pairs.Perm (values.map fun entry => (entry.1.toList, entry.2.toList)) := by
  have hentries : ∀ {entries : List (String × Json)} {groups : List TrailerPairs},
      (∀ entry ∈ entries, ∃ text, entry.2 = .str text) → entries.mapM (normalizeEntry py field) = .ok groups →
      groups.flatten = entries.map fun entry => (entry.1.toList, (py.str entry.2).toList) := by
    intro entries
    induction entries with
    | nil =>
      intro groups _ hgroups
      obtain rfl := Except.ok.inj hgroups
      rfl
    | cons entry entries ih =>
      intro groups htexts hgroups
      obtain ⟨⟨text, htext⟩, htexts⟩ := forall_mem_cons.1 htexts
      rw [mapM_cons] at hgroups
      obtain ⟨group, hgroup, hgroups⟩ := bind_eq_ok_iff.1 hgroups
      obtain ⟨rest, hrest, hgroups⟩ := bind_eq_ok_iff.1 hgroups
      obtain rfl := Except.ok.inj hgroups
      have hsingle : group = [(entry.1.toList, (py.str entry.2).toList)] := by
        unfold normalizeEntry at hgroup
        split_ifs at hgroup
        have hraw : rawItems (.str text) = [.str text] := rfl
        rw [htext, hraw, mapM_cons, mapM_nil] at hgroup
        obtain ⟨pair, hpair, hgroup⟩ := bind_eq_ok_iff.1 hgroup
        obtain rfl := Except.ok.inj hgroup
        unfold normalizeValue at hpair
        dsimp only at hpair
        split_ifs at hpair
        obtain rfl := Except.ok.inj hpair
        rw [htext]
      rw [flatten_cons, ih htexts hrest, hsingle, map_cons, singleton_append]
  unfold normalizeMapping at h
  obtain ⟨groups, hgroups, h⟩ := bind_eq_ok_iff.1 h
  obtain rfl := Except.ok.inj h
  rw [hentries ?_ hgroups]
  · refine ((mergeSort_perm _ _).map _).trans ?_
    rw [map_map]
    exact .refl _
  · intro entry hentry
    obtain ⟨value, -, rfl⟩ := mem_map.1 (mem_mergeSort.1 hentry)
    exact ⟨value.2, rfl⟩

theorem valuesOf_perm {pairs pairs' : TrailerPairs} (h : pairs.Perm pairs') (name : List Char) :
    (valuesOf pairs name).Perm (valuesOf pairs' name) := (h.filter _).map _

theorem lookup_of_collects {parsed : ParsedPairs} {pairs pairs' : TrailerPairs} {name value : List Char}
    (hcollects : Collects parsed pairs) (hperm : pairs.Perm pairs') (hvalue : valuesOf pairs' name = [value]) :
    parsed.lookup name = some (.one value) := by
  have hvalues := valuesOf_perm hperm name
  rw [hvalue, perm_singleton] at hvalues
  rw [hcollects name, hvalues]
  rfl

end MailingList

namespace ListContributor

open MailingList Checks

variable {py : PyLib}

theorem isKindChar_of_isSlugChar {c : Char} (h : isSlugChar c = true) : isKindChar c = true := by
  simp only [isSlugChar, Bool.or_eq_true] at h
  rcases h with h | h <;> simp [isKindChar, h]

theorem not_boundary_author_slug (email : List Char) : ∀ c ∈ author_slug email, Text.isLineBoundary c = false := by
  intro c hc
  have hsqueezed := (dropWhile_sublist _).subset (( rdropWhile_prefix _ _).subset hc)
  obtain ⟨d, -, hd⟩ := mem_map.1 (Runs.mem_squeeze hsqueezed)
  have hkind : isKindChar c = true := by
    subst hd
    split_ifs with hsoft
    · decide
    · exact isKindChar_of_isSlugChar (by simpa using hsoft)
  refine not_isLineBoundary_of_range ?_
  have hrange := isKindChar_range hkind
  omega

theorem _offer_address_clean {offer : ParsedPost} {address : Address} (hoffer : CleanPairs offer.trailers.refs)
    (h : _offer_address offer = some address) :
    (∀ c ∈ address.series, Text.isLineBoundary c = false) ∧ ∀ c ∈ address.node, Text.isLineBoundary c = false := by
  unfold _offer_address at h
  split at h
  · rename_i series node hseries hnode
    split_ifs at h
    obtain rfl := Option.some.inj h
    exact ⟨hoffer _ _ hseries, hoffer _ _ hnode⟩
  · exact nomatch h

theorem take_post {family text : List Char} {offer : ParsedPost} {address : Address} {post : Post}
    (hfamily : ∀ c ∈ family, Text.isLineBoundary c = false) (hparse : parsePostMessage text = .ok (some offer))
    (haddress : _offer_address offer = some address) (hpost : (takeRequest family address).validated py = .ok post) :
    post.qaItemRef = none ∧ ∀ take id, AppendedBy post take id → IsTake family take address := by
  obtain ⟨hkind, hsubject, hrefs, hlinks, hreply⟩ := validated_ok hpost
  obtain ⟨hseries, hnode⟩ := _offer_address_clean (parsePostMessage_clean hparse) haddress
  have hkind : post.kind = "take".toList := hkind
  have hsubject : post.subject = address.text := by simpa [takeRequest] using hsubject
  have hperm : post.refs.Perm [("node".toList, address.node), ("series".toList, address.series),
      ("family".toList, family), ("confidence".toList, "unscored".toList)] := by
    have h := @normalizeMapping_texts py "refs" [("node", String.ofList address.node),
      ("series", String.ofList address.series), ("family", String.ofList family), ("confidence", "unscored")] _ hrefs
    simpa using h
  have hnone : post.correspondsTo = [] := by
    have h := @normalizeMapping_texts py "corresponds_to" [] _ hlinks
    simpa using h
  have hreply : post.inReplyTo = none := hreply
  have hclean : post.Clean := by
    intro part hpart c hc
    simp only [Post.trailerTexts, hreply, hnone, Option.toList_none, nil_append, mem_flatMap] at hpart
    obtain ⟨pair, hpair, hpart⟩ := hpart
    have hmem := hperm.subset hpair
    simp only [mem_cons, not_mem_nil, or_false] at hmem hpart
    have hfixed : ∀ text ∈ ["node", "series", "family", "confidence", "unscored"],
        ∀ c ∈ text.toList, Text.isLineBoundary c = false := by simp [Text.isLineBoundary]
    rcases hmem with rfl | rfl | rfl | rfl <;> rcases hpart with rfl | rfl
    · exact hfixed "node" (by simp) c hc
    · exact hnode c hc
    · exact hfixed "series" (by simp) c hc
    · exact hseries c hc
    · exact hfixed "family" (by simp) c hc
    · exact hfamily c hc
    · exact hfixed "confidence" (by simp) c hc
    · exact hfixed "unscored" (by simp) c hc
  refine ⟨by simp [Post.qaItemRef, hkind], ?_⟩
  rintro take id ⟨expected, stamp, rfl, rfl, -⟩
  have hid := messageId_range post.kind_ok post.coordinate expected.history.length
  obtain ⟨trailers, hparsed, hcollects, -⟩ := parsePostMessage_message hclean
    (messageId_ne_nil post.kind post.coordinate expected.history.length)
    fun c hc => not_isLineBoundary_of_range (hid c hc)
  exact ⟨_, hparsed, hkind, hsubject, lookup_of_collects hcollects hperm (by simp [valuesOf]),
    lookup_of_collects hcollects hperm (by simp [valuesOf]), lookup_of_collects hcollects hperm (by simp [valuesOf])⟩

end ListContributor

end AiOrg
