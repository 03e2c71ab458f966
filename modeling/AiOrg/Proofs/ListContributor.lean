import AiOrg.Proofs.TakePost
import AiOrg.Python.Base64

/-!
# No offer is skipped

What a run has read are all the offers between its cursor and a head of the list, oldest first, and it has taken those
before the one it is at (`Plan`). The cursor only moves forward from where the run read it, so the offers it is moved
over are among those the run has taken.
-/

namespace AiOrg

open List

namespace MailingList

theorem Commit.pairwise_history : ∀ c : Commit,
    c.history.Pairwise fun newer older => older.history.length < newer.history.length
  | .root .. => pairwise_singleton _ _
  | .child parent tree message stamp => by
    have hhistory := history_of_parent (c := .child parent tree message stamp) rfl
    rw [hhistory]
    refine pairwise_cons.2 ⟨fun d hd => ?_, pairwise_history parent⟩
    rw [hhistory, length_cons]
    exact Nat.lt_succ_of_le (history_suffix_of_mem hd).length_le

theorem posterStep_not_existing {post : Post} {head head' : Option Commit} {pc pc' : Pc}
    (hitem : post.qaItemRef = none) (hstep : PosterStep post head pc head' pc') (c : Commit) :
    pc' ≠ .returned (.existing c) := by
  have hafterHead : ∀ attempt h, afterHead post attempt h ≠ .returned (.existing c) := by
    intro attempt h
    unfold afterHead
    split_ifs <;> exact nofun
  have hafterEnsure : ∀ h caller, afterEnsure post h caller ≠ .returned (.existing c) := by
    rintro h (_ | attempt)
    · exact nofun
    · exact hafterHead attempt h
  cases hstep with
  | ensureFound caller h => exact hafterEnsure h caller
  | genesisWon caller genesis => exact hafterEnsure genesis caller
  | rereadFound caller h => exact hafterEnsure h caller
  | headFound attempt h => exact hafterHead attempt h
  | scanSome attempt expected h item hsome =>
    rw [hitem] at hsome
    exact nomatch hsome
  | _ => exact nofun

end MailingList

namespace ListContributor

open MailingList Checks

theorem readOffers_spec {after : Option Commit} {head : Commit} {offers : List Offer}
    (h : readOffers after head = .ok offers) :
    offers.Pairwise (fun o p => o.1.history.length < p.1.history.length) ∧
      (∀ c offer, Between after head c → IsOffer c offer → (c, offer) ∈ offers) ∧
      ∀ o ∈ offers, o.1 ∈ head.history ∧ IsOffer o.1 o.2 := by
  obtain ⟨posts, hposts, h⟩ := bind_eq_ok_iff.1 h
  obtain rfl := Except.ok.inj h
  obtain ⟨hsub, hall, hfrom⟩ := readPosts_spec hposts
  have hlog : ∀ entry : Commit × List Char, entry ∈ head.log ↔ entry.1 ∈ head.history ∧ entry.2 = entry.1.message := by
    rintro ⟨c, message⟩
    simp only [Commit.log, mem_map, mem_reverse, Prod.mk.injEq]
    constructor
    · rintro ⟨d, hd, rfl, rfl⟩
      exact ⟨hd, rfl⟩
    · rintro ⟨hc, rfl⟩
      exact ⟨c, hc, rfl, rfl⟩
  refine ⟨?_, ?_, ?_⟩
  · have hpairwise : (head.log.map Prod.fst).Pairwise fun c d => c.history.length < d.history.length := by
      have hfst : head.log.map Prod.fst = head.history.reverse := by
        simp [Commit.log, Function.comp_def]
      rw [hfst, pairwise_reverse]
      exact Commit.pairwise_history head
    have hposts := hpairwise.sublist (hsub.trans (filter_sublist.map Prod.fst))
    exact (pairwise_map.1 hposts).filter _
  · rintro c offer ⟨hc, hafter⟩ ⟨hparse, hkind⟩
    refine mem_filter.2 ⟨hall (c, c.message) (mem_filter.2 ⟨(hlog _).2 ⟨hc, rfl⟩, ?_⟩) offer hparse, ?_⟩
    · cases after with
      | none => rfl
      | some since => simpa using hafter since rfl
    · simpa using hkind
  · intro o ho
    obtain ⟨ho, hkind⟩ := mem_filter.1 ho
    obtain ⟨entry, hentry, hfst, hparse⟩ := hfrom o ho
    obtain ⟨hc, hmessage⟩ := (hlog entry).1 (mem_filter.1 hentry).1
    rw [hmessage, hfst] at hparse
    exact ⟨hfst ▸ hc, hparse, by simpa using hkind⟩

theorem mem_of_between {after : Option Commit} {head : Commit} {done rest : List Offer} {offer : Offer}
    (h : readOffers after head = .ok (done ++ offer :: rest)) {c : Commit} {parsed : ParsedPost}
    (hbetween : Between after offer.1 c) (hoffer : IsOffer c parsed) :
    (c, parsed) ∈ done ∨ (c, parsed) = offer := by
  obtain ⟨hsorted, hall, hfrom⟩ := readOffers_spec h
  have hhead := (hfrom offer (by simp)).1
  have hmem := hall c parsed ⟨(Commit.history_suffix_of_mem hhead).subset hbetween.1, hbetween.2⟩ hoffer
  rcases mem_append.1 hmem with hmem | hmem
  · exact .inl hmem
  · rcases mem_cons.1 hmem with hmem | hmem
    · exact .inr hmem
    · have hlt := (pairwise_cons.1 (pairwise_append.1 hsorted).2.1).1 _ hmem
      exact absurd (Commit.history_suffix_of_mem hbetween.1).length_le (Nat.not_le.2 hlt)

section Runs

variable {py : PyLib} {family : List Char} {ρ : Type*} {run : ρ} {s s' : Shared ρ}

/-- The list and the cursor go on, and nothing that was done is forgotten. -/
structure Extends (s s' : Shared ρ) : Prop where
  head : Grows s.head s'.head
  cursor : Grows s.cursor s'.cursor
  trace : s.trace <:+ s'.trace

theorem Extends.refl (s : Shared ρ) : Extends s s := ⟨Grows.refl _, Grows.refl _, suffix_refl _⟩

/-- A take of the address that a run has posted. -/
def Took (family : List Char) (run : ρ) (s : Shared ρ) (address : Address) : Prop :=
  ∃ take h, s.head = some h ∧ take ∈ h.history ∧ IsTake family take address ∧ Event.took run take address ∈ s.trace

theorem Took.extends {address : Address} (h : Took family run s address) (hext : Extends s s') :
    Took family run s' address := by
  obtain ⟨take, head, hhead, hmem, htake, htook⟩ := h
  obtain ⟨head', hhead', hle⟩ := hext.head head hhead
  exact ⟨take, head', hhead', hle.subset hmem, htake, hext.trace.subset htook⟩

theorem TakenBy.grows {head head' : Option Commit} {trace : List (Event ρ)} {offer : ParsedPost}
    (h : TakenBy family run head trace offer) (hhead : Grows head head') : TakenBy family run head' trace offer := by
  obtain ⟨address, haddress, ⟨take, h, heq, hmem, htake⟩, hannounced⟩ := h
  obtain ⟨h', heq', hle⟩ := hhead h heq
  exact ⟨address, haddress, ⟨take, h', heq', hle.subset hmem, htake⟩, hannounced⟩

theorem TakenBy.extends {offer : ParsedPost} (h : TakenBy family run s.head s.trace offer) (hext : Extends s s') :
    TakenBy family run s'.head s'.trace offer := by
  obtain ⟨address, haddress, ⟨take, htake⟩, hannounced⟩ := h
  exact ⟨address, haddress, Took.extends ⟨take, htake⟩ hext, hext.trace.subset hannounced⟩

/-- The offers that are left of those a run has read, where it has taken the others. -/
def Plan (family : List Char) (run : ρ) (s : Shared ρ) (offers : List Offer) : Prop :=
  ∃ after head done, Grows after s.cursor ∧ Grows (some head) s.head ∧
    readOffers after head = .ok (done ++ offers) ∧ ∀ o ∈ done, TakenBy family run s.head s.trace o.2

theorem Plan.extends {offers : List Offer} (h : Plan family run s offers) (hext : Extends s s') :
    Plan family run s' offers := by
  obtain ⟨after, head, done, hafter, hhead, hread, hdone⟩ := h
  exact ⟨after, head, done, hafter.trans hext.cursor, hhead.trans hext.head, hread,
    fun o ho => (hdone o ho).extends hext⟩

theorem Plan.isOffer {offer : Offer} {rest : List Offer} (h : Plan family run s (offer :: rest)) :
    IsOffer offer.1 offer.2 := by
  obtain ⟨after, head, done, -, -, hread, -⟩ := h
  exact ((readOffers_spec hread).2.2 offer (by simp)).2

theorem Plan.next {offer : Offer} {rest : List Offer} (h : Plan family run s (offer :: rest))
    (htaken : TakenBy family run s.head s.trace offer.2) : Plan family run s rest := by
  obtain ⟨after, head, done, hafter, hhead, hread, hdone⟩ := h
  refine ⟨after, head, done ++ [offer], hafter, hhead, by rw [hread, append_assoc, singleton_append], ?_⟩
  intro o ho
  rcases mem_append.1 ho with ho | ho
  · exact hdone o ho
  · rwa [mem_singleton.1 ho]

def Relies (py : PyLib) (family : List Char) (run : ρ) (s : Shared ρ) : RunPc → Prop
  | .start | .stopped => True
  | .read after | .log after => Grows after s.cursor
  | .next offers => offers ≠ [] → Plan family run s offers
  | .posting offer rest address post pc => Plan family run s (offer :: rest) ∧
    _offer_address offer.2 = some address ∧ (takeRequest family address).validated py = .ok post ∧
    Local post s.head pc ∧ ∀ c, pc ≠ .returned (.existing c)
  | .announcing offer rest address => Plan family run s (offer :: rest) ∧
    _offer_address offer.2 = some address ∧ Took family run s address
  | .advancing offer rest | .swap offer rest _ => Plan family run s (offer :: rest) ∧
    TakenBy family run s.head s.trace offer.2
  | .cas offer rest _ current => (Plan family run s (offer :: rest) ∧ TakenBy family run s.head s.trace offer.2) ∧
    Ahead current offer.1

theorem Relies.extends {pc : RunPc} (h : Relies py family run s pc) (hext : Extends s s') :
    Relies py family run s' pc := by
  cases pc with
  | start | stopped => trivial
  | read after | log after => exact Grows.trans h hext.cursor
  | next offers => exact fun hne => (h hne).extends hext
  | posting offer rest address post pc =>
    exact ⟨h.1.extends hext, h.2.1, h.2.2.1, h.2.2.2.1.grows hext.head, h.2.2.2.2⟩
  | announcing offer rest address => exact ⟨h.1.extends hext, h.2.1, h.2.2.extends hext⟩
  | advancing offer rest => exact ⟨h.1.extends hext, h.2.extends hext⟩
  | swap offer rest attempt => exact ⟨h.1.extends hext, h.2.extends hext⟩
  | cas offer rest attempt current => exact ⟨⟨h.1.1.extends hext, h.1.2.extends hext⟩, h.2⟩

theorem NoneSkipped.extends {cursor : Option Commit} (h : NoneSkipped family cursor s) (hhead : Grows s.head s'.head)
    (hcursor : s'.cursor = s.cursor) (htrace : s'.trace = s.trace ∨ ∃ event, s'.trace = event :: s.trace ∧
      ∀ run before target, event ≠ .moved run before target) : NoneSkipped family cursor s' := by
  have hsuffix : s.trace <:+ s'.trace := by
    rcases htrace with htrace | ⟨event, htrace, -⟩ <;> rw [htrace]
    exact suffix_cons _ _
  constructor
  · intro run before target older hmoved c offer hbetween hoffer
    refine (h.moves run before target older ?_ c offer hbetween hoffer).grows hhead
    rcases htrace with htrace | ⟨event, htrace, hevent⟩ <;> rw [htrace] at hmoved
    · exact hmoved
    · rcases suffix_cons_iff.1 hmoved with heq | hmoved
      · exact absurd (List.cons.inj heq).1.symm (hevent run before target)
      · exact hmoved
  · intro here hhere c hbetween
    obtain ⟨run, before, target, older, hmoved, hspan⟩ := h.passed here (hcursor ▸ hhere) c hbetween
    exact ⟨run, before, target, older, hmoved.trans hsuffix, hspan⟩

theorem NoneSkipped.won {cursor : Option Commit} {offer : Offer} {rest : List Offer}
    (h : NoneSkipped family cursor s) (hplan : Plan family run s (offer :: rest))
    (htaken : TakenBy family run s.head s.trace offer.2) :
    NoneSkipped family cursor
      { s with cursor := some offer.1, trace := .moved run s.cursor offer.1 :: s.trace } := by
  constructor
  · intro run' before target older hmoved c parsed hbetween hoffer
    rcases suffix_cons_iff.1 hmoved with heq | hmoved
    · obtain ⟨hevent, rfl⟩ := List.cons.inj heq
      obtain ⟨rfl, rfl, rfl⟩ := Event.moved.inj hevent
      obtain ⟨after, head, done, hafter, -, hread, hdone⟩ := hplan
      have hfar : Between after offer.1 c := by
        refine ⟨hbetween.1, fun d hd hc => ?_⟩
        obtain ⟨d', hd', hle⟩ := hafter d hd
        exact hbetween.2 d' hd' (hle.subset hc)
      rcases mem_of_between hread hfar hoffer with hmem | rfl
      · exact hdone _ hmem
      · exact htaken
    · exact h.moves run' before target older hmoved c parsed hbetween hoffer
  · intro here hhere c hbetween
    obtain rfl := Option.some.inj hhere
    by_cases hnew : ∀ d, s.cursor = some d → c ∉ d.history
    · exact ⟨run, s.cursor, offer.1, s.trace, suffix_refl _, hbetween.1, hnew⟩
    · push Not at hnew
      obtain ⟨d, hd, hc⟩ := hnew
      obtain ⟨run', before, target, older, hmoved, hspan⟩ := h.passed d hd c ⟨hc, hbetween.2⟩
      exact ⟨run', before, target, older, hmoved.trans (suffix_cons _ _), hspan⟩

theorem runStep_keeps {cursor : Option Commit} {pc pc' : RunPc}
    (hfamily : ∀ c ∈ family, Text.isLineBoundary c = false) (hskipped : NoneSkipped family cursor s)
    (hrelies : Relies py family run s pc) (hstep : RunStep py family run s pc s' pc') :
    NoneSkipped family cursor s' ∧ Relies py family run s' pc' ∧ Extends s s' := by
  cases hstep with
  | cursor hfamily => exact ⟨hskipped, Grows.refl _, .refl _⟩
  | noList after hhead => exact ⟨hskipped, fun h => absurd rfl h, .refl _⟩
  | since after head hhead hafter => exact ⟨hskipped, hrelies, .refl _⟩
  | offers after head offers hhead hread =>
    refine ⟨hskipped, fun _ => ⟨after, head, [], hrelies, ?_, hread, by simp⟩, .refl _⟩
    rw [hhead]
    exact Grows.refl _
  | take offer rest address post haddress hpost =>
    exact ⟨hskipped, ⟨hrelies (cons_ne_nil _ _), haddress, hpost, trivial, nofun⟩, .refl _⟩
  | post offer rest address post pc pc' head hposting =>
    obtain ⟨hplan, haddress, hpost, hlocal, hexisting⟩ := hrelies
    obtain ⟨hlocal', hgrows⟩ := posterStep_local hlocal hposting
    have hext : Extends s { s with head } := ⟨hgrows, Grows.refl _, suffix_refl _⟩
    have hitem := (take_post hfamily hplan.isOffer.1 haddress hpost).1
    exact ⟨hskipped.extends hgrows rfl (.inl rfl), ⟨hplan.extends hext, haddress, hpost, hlocal',
      posterStep_not_existing hitem hposting⟩, hext⟩
  | posted offer rest address post take id =>
    obtain ⟨hplan, haddress, hpost, hlocal, -⟩ := hrelies
    obtain ⟨⟨head, hhead, hmem⟩, happended⟩ := hlocal
    have hext : Extends s { s with trace := .took run take address :: s.trace } :=
      ⟨Grows.refl _, Grows.refl _, suffix_cons _ _⟩
    have htake := (take_post hfamily hplan.isOffer.1 haddress hpost).2 take id happended
    refine ⟨hskipped.extends (Grows.refl _) rfl (.inr ⟨_, rfl, nofun⟩), ⟨hplan.extends hext, haddress, ?_⟩, hext⟩
    exact ⟨take, head, hhead, hmem, htake, mem_cons_self⟩
  | existing offer rest address post take => exact absurd rfl (hrelies.2.2.2.2 take)
  | announced offer rest address =>
    obtain ⟨hplan, haddress, htook⟩ := hrelies
    have hext : Extends s { s with trace := .announced run address :: s.trace } :=
      ⟨Grows.refl _, Grows.refl _, suffix_cons _ _⟩
    refine ⟨hskipped.extends (Grows.refl _) rfl (.inr ⟨_, rfl, nofun⟩), ⟨hplan.extends hext, ?_⟩, hext⟩
    exact ⟨address, haddress, htook.extends hext, mem_cons_self⟩
  | onList offer rest head hhead hmem => exact ⟨hskipped, hrelies, .refl _⟩
  | there offer rest attempt hcursor => exact ⟨hskipped, fun _ => hrelies.1.next hrelies.2, .refl _⟩
  | ahead offer rest attempt hattempt hahead => exact ⟨hskipped, ⟨hrelies, hahead⟩, .refl _⟩
  | won offer rest attempt =>
    obtain ⟨⟨hplan, htaken⟩, hahead⟩ := hrelies
    have hext : Extends s
        { s with cursor := some offer.1, trace := .moved run s.cursor offer.1 :: s.trace } := by
      refine ⟨Grows.refl _, fun c hc => ?_, suffix_cons _ _⟩
      exact ⟨offer.1, rfl, Commit.history_suffix_of_mem (hahead c hc)⟩
    exact ⟨hskipped.won hplan htaken, fun _ => (hplan.next htaken).extends hext, hext⟩
  | lost offer rest attempt current => exact ⟨hskipped, hrelies.1, .refl _⟩
  | stops pc => exact ⟨hskipped, trivial, .refl _⟩

end Runs

/-- In every state that any number of runs of one reader and family reach among any posts, no offer is skipped. -/
theorem none_skipped {py : PyLib} {ρ : Type*} [DecidableEq ρ] (email : List Char) {cursor : Option Commit}
    {s : Processes (Option ρ) (Shared ρ) RunPc} (h : TakingReachable py (author_slug email) cursor s) :
    NoneSkipped (author_slug email) cursor s.shared := by
  refine (Processes.Reachable.both (I := NoneSkipped (author_slug email) cursor)
    (L := fun r shared pc => ∀ run, r = some run → Relies py (author_slug email) run shared pc)
    (G := Extends) ?_ ?_ ?_ h).1
  · rintro s ⟨hcursor, htrace, hloc⟩
    refine ⟨⟨?_, ?_⟩, fun r run _ => ?_⟩
    · intro run before target older hmoved
      rw [htrace, suffix_nil] at hmoved
      exact nomatch hmoved
    · intro here hhere c hbetween
      exact absurd hbetween.1 (hbetween.2 here (hcursor ▸ hhere))
    · rw [hloc]
      trivial
  · intro r shared pc shared' pc' hskipped hrelies hstep
    cases r with
    | none =>
      obtain ⟨⟨c, hparent⟩, rfl⟩ := hstep
      have hgrows : Grows shared.head (some c) := by
        intro head hhead
        rw [hhead] at hparent
        exact ⟨c, rfl, by rw [Commit.history_of_parent hparent]; exact suffix_cons _ _⟩
      exact ⟨hskipped.extends hgrows rfl (.inl rfl), nofun, hgrows, Grows.refl _, suffix_refl _⟩
    | some run =>
      obtain ⟨hskipped', hrelies', hext⟩ :=
        runStep_keeps (not_boundary_author_slug email) hskipped (hrelies run rfl) hstep
      exact ⟨hskipped', fun run' hrun' => Option.some.inj hrun' ▸ hrelies', hext⟩
  · exact fun r shared shared' pc hrelies hext run hrun => (hrelies run hrun).extends hext

def sampleAddress : Address := ⟨"ai-org/patch-series/x".toList, ['.']⟩

def sampleGenesis : Commit := .root emptyTree (genesisMessage [] []) []

/-- A list with one offer. -/
def sampleOffer : Commit := .child sampleGenesis emptyTree
  "OFFER: ai-org/patch-series/x\n\n\n\nKind: offer\nMessage-Id: i\nRef: node=.\nRef: series=ai-org/patch-series/x\n".toList []

def sampleParsed : ParsedPost where
  kind := "offer".toList
  subject := "ai-org/patch-series/x".toList
  body := []
  trailers := ⟨[("node".toList, .one ['.']), ("series".toList, .one "ai-org/patch-series/x".toList)], [], some ['i'], none⟩

theorem readOffers_sample : readOffers none sampleOffer = .ok [(sampleOffer, sampleParsed)] := by decide +kernel

theorem normalizeMapping_lines {py : PyLib} {field : String} {values : Fields}
    (h : ∀ entry ∈ values, isTrailerName entry.1.toList = true ∧
      ∃ text, entry.2 = .str text ∧ isSingleLine text.toList = true) :
    ∃ pairs, normalizeMapping py field values = .ok pairs := by
  have hgroups : ∃ groups, (values.mergeSort fun a b => a.1 ≤ b.1).mapM (normalizeEntry py field) = .ok groups := by
    have hsorted : ∀ entry ∈ values.mergeSort fun a b => a.1 ≤ b.1, ∃ group, normalizeEntry py field entry = .ok group := by
      intro entry hentry
      obtain ⟨hname, text, htext, hline⟩ := h entry (mem_mergeSort.1 hentry)
      have hraw : rawItems (.str text) = [.str text] := rfl
      have hvalue : normalizeValue py field entry.1.toList (.str text) = .ok (entry.1.toList, text.toList) := if_pos hline
      rw [normalizeEntry, if_pos hname, htext, hraw, mapM_cons, hvalue]
      exact ⟨_, rfl⟩
    generalize (values.mergeSort fun a b => a.1 ≤ b.1) = entries at hsorted
    induction entries with
    | nil => exact ⟨[], rfl⟩
    | cons entry entries ih =>
      obtain ⟨⟨group, hgroup⟩, hsorted⟩ := forall_mem_cons.1 hsorted
      obtain ⟨groups, hgroups⟩ := ih hsorted
      exact ⟨group :: groups, by rw [mapM_cons, hgroup, hgroups]; rfl⟩
  obtain ⟨groups, hgroups⟩ := hgroups
  exact ⟨groups.flatten, by rw [normalizeMapping, hgroups]; rfl⟩

theorem exists_take_post {family : List Char} {address : Address} (hne : address.text ≠ [])
    (hlines : ∀ text ∈ [address.text, address.node, address.series, family], isSingleLine text = true) :
    ∃ post, (takeRequest family address).validated asciiLib = .ok post := by
  obtain ⟨htext, hnode, hseries, hfamily⟩ : isSingleLine address.text = true ∧ isSingleLine address.node = true ∧
      isSingleLine address.series = true ∧ isSingleLine family = true := by simpa using hlines
  obtain ⟨refs, hrefs⟩ : ∃ refs, normalizeMapping asciiLib "refs" (takeRequest family address).refs = .ok refs := by
    refine normalizeMapping_lines fun entry hentry => ?_
    simp only [takeRequest, mem_cons, not_mem_nil, or_false] at hentry
    have hnames : ∀ name ∈ ["node", "series", "family", "confidence"], isTrailerName name.toList = true := by
      decide +kernel
    rcases hentry with rfl | rfl | rfl | rfl
    · exact ⟨hnames "node" (by simp), _, rfl, by simpa using hnode⟩
    · exact ⟨hnames "series" (by simp), _, rfl, by simpa using hseries⟩
    · exact ⟨hnames "family" (by simp), _, rfl, by simpa using hfamily⟩
    · exact ⟨hnames "confidence" (by simp), _, rfl, by decide +kernel⟩
  have hlinks : normalizeMapping asciiLib "corresponds_to" [] = .ok [] := by simp [normalizeMapping]; rfl
  cases h : (takeRequest family address).validated asciiLib with
  | ok post => exact ⟨post, rfl⟩
  | error e =>
    exfalso
    have hkind : isKind (takeRequest family address).kind.toList = true :=
      (by decide +kernel : isKind "take".toList = true)
    have hsubject : (takeRequest family address).subject.toList ≠ [] ∧
        isSingleLine (takeRequest family address).subject.toList = true := by simpa [takeRequest] using ⟨hne, htext⟩
    have hreply : ∀ text ∈ (takeRequest family address).inReplyTo.map String.toList,
        text ≠ [] ∧ isSingleLine text = true := by simp [takeRequest]
    unfold PostRequest.validated at h
    have hbody : resolveBodyText (takeRequest family address).body (takeRequest family address).bodyText = .ok "" := rfl
    rw [hbody] at h
    simp only [bind, Except.bind, dif_pos hkind, dif_pos hsubject] at h
    split at h
    · rename_i heq
      rw [hrefs] at heq
      cases heq
    · have hcoordinate : ((takeRequest family address).coordinate.getD (takeRequest family address).subject).toList ≠ [] ∧
          isSingleLine ((takeRequest family address).coordinate.getD (takeRequest family address).subject).toList = true :=
        hsubject
      rw [dif_pos hcoordinate] at h
      split at h
      · rename_i heq
        rw [show (takeRequest family address).correspondsTo = [] from rfl, hlinks] at heq
        cases heq
      · rw [dif_pos hreply] at h
        cases h

def sampleEmail : List Char := "f@example.com".toList

/-- What one run does on its own. -/
def Alone (family : List Char) (x y : Shared Unit × RunPc) : Prop :=
  Relation.ReflTransGen (fun x y => RunStep asciiLib family () x.1 x.2 y.1 y.2) x y

theorem Alone.refl (family : List Char) (x : Shared Unit × RunPc) : Alone family x x := Relation.ReflTransGen.refl

theorem Alone.step {family : List Char} {x : Shared Unit × RunPc} {s s' : Shared Unit} {pc pc' : RunPc}
    (h : Alone family x (s, pc)) (hstep : RunStep asciiLib family () s pc s' pc') : Alone family x (s', pc') :=
  Relation.ReflTransGen.tail h hstep

theorem alone_taken {family : List Char} {head : Commit} {parsed : ParsedPost} {address : Address} {post : Post}
    (hfamily : family ≠ []) (hread : readOffers none head = .ok [(head, parsed)])
    (haddress : _offer_address parsed = some address)
    (hpost : (takeRequest family address).validated asciiLib = .ok post) (hitem : post.qaItemRef = none) :
    ∃ s, s.cursor = some head ∧ Alone family (⟨some head, none, []⟩, .start) (s, .next []) := by
  have hafterHead : ∀ attempt expected, afterHead post attempt expected = .count attempt expected := by
    intro attempt expected
    rw [afterHead, if_neg (by simp [hitem])]
  have hstart : Alone family (⟨some head, none, []⟩, .start) (⟨some head, none, []⟩, .next [(head, parsed)]) :=
    (((Alone.refl family _).step (.cursor _ hfamily)).step
      (.since _ none head rfl (by simp))).step (.offers _ none head _ rfl hread)
  have hcount : Alone family (⟨some head, none, []⟩, .start)
      (⟨some head, none, []⟩, .posting (head, parsed) [] address post (.count 0 head)) := by
    rw [← hafterHead 0 head]
    exact ((hstart.step (.take _ _ _ address post haddress hpost)).step
      (.post _ _ _ _ _ _ _ _ (.ensureFound .entry head))).step
      (.post _ _ _ _ _ _ _ _ (.headFound 0 head (by decide)))
  have hcas := (hcount.step (.post _ _ _ _ _ _ _ _ (.count _ 0 head))).step
    (.post _ _ _ _ _ _ _ _ (.commitTree _ 0 head head.history.length []))
  have htaken := ((hcas.step (.post _ _ _ _ _ _ _ _ (.casWon 0 head _ _))).step
    (.posted _ _ _ _ _ _ _)).step (.announced _ _ _ _)
  have hmem : head ∈ (post.commitOn head head.history.length []).history :=
    mem_cons_of_mem _ head.mem_history_self
  have hmoved := ((htaken.step (.onList _ _ _ _ rfl hmem)).step (.ahead _ _ _ 0 (by decide) (by rintro _ ⟨⟩))).step
    (.won _ _ _ 0)
  exact ⟨_, rfl, hmoved⟩

theorem reachable_taken : ∃ s : Processes (Option Unit) (Shared Unit) RunPc,
    TakingReachable asciiLib (author_slug sampleEmail) none s ∧ s.shared.cursor = some sampleOffer := by
  obtain ⟨post, hpost⟩ := @exists_take_post (author_slug sampleEmail) sampleAddress (by decide +kernel) (by decide +kernel)
  have haddress : _offer_address sampleParsed = some sampleAddress := by decide +kernel
  have hparse : parsePostMessage sampleOffer.message = .ok (some sampleParsed) :=
    ((readOffers_spec readOffers_sample).2.2 _ mem_cons_self).2.1
  have hitem := (take_post (not_boundary_author_slug sampleEmail) hparse haddress hpost).1
  obtain ⟨s, hcursor, hsteps⟩ := alone_taken (by decide +kernel) readOffers_sample haddress hpost hitem
  obtain ⟨s', hrun, hshared, -⟩ := Processes.Run.solo (TakingStep asciiLib (author_slug sampleEmail)) (some ())
    hsteps (s := ⟨⟨some sampleOffer, none, []⟩, fun _ => .start⟩) rfl rfl
  exact ⟨s', ⟨_, ⟨rfl, rfl, fun _ => rfl⟩, hrun⟩, hshared ▸ hcursor⟩

/-- No offer is skipped where one is taken. -/
theorem none_skipped_taken : ∃ s : Processes (Option Unit) (Shared Unit) RunPc,
    s.shared.cursor = some sampleOffer ∧ NoneSkipped (author_slug sampleEmail) none s.shared := by
  obtain ⟨s, hs, hcursor⟩ := reachable_taken
  exact ⟨s, hcursor, none_skipped sampleEmail hs⟩

end ListContributor

end AiOrg
