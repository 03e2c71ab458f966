import AiOrg.Coding.PrefixCode
import AiOrg.Proofs.Message

/-!
# The list under any interleaving

A poster knows a commit of the list from the moment it reads the head, and what its duplicate scan
found is what it found on that commit as long as the commit is the head (`Local`). The steps of the
others only extend the list (`Grows`), so these facts last until the compare-and-swap, which succeeds
only on that very head. From them every appended commit stays, belongs to one poster and has its own
id, and clean `qa` posts are unique (`list_safe`).
-/

namespace AiOrg

open List

namespace MailingList

namespace Commit

theorem history_eq (c : Commit) :
    c.history = c :: match c.parent with | none => [] | some parent => parent.history := by
  cases c <;> rw [history.eq_def] <;> rfl

theorem history_of_parent {c parent : Commit} (h : c.parent = some parent) :
    c.history = c :: parent.history := by
  rw [history_eq, h]

theorem mem_history_self (c : Commit) : c ∈ c.history := by
  rw [history_eq]
  exact mem_cons_self

theorem history_suffix_of_mem {d : Commit} : ∀ {c : Commit}, d ∈ c.history →
    d.history <:+ c.history
  | .root tree message stamp, h => by
    rw [mem_singleton.1 h]
  | .child parent tree message stamp, h => by
    rcases mem_cons.1 h with rfl | h
    · exact suffix_refl _
    · exact (history_suffix_of_mem h).trans (suffix_cons _ _)

theorem mem_history_of_suffix {c d : Commit} (h : d.history <:+ c.history) : d ∈ c.history :=
  h.subset (mem_history_self d)

theorem eq_of_length_eq {c d e : Commit} (hd : d ∈ c.history) (he : e ∈ c.history)
    (h : d.history.length = e.history.length) : d = e := by
  have hsuffix := suffix_of_suffix_length_le (history_suffix_of_mem hd)
    (history_suffix_of_mem he) h.le
  have heq := hsuffix.eq_of_length h
  rw [history_eq, history_eq e] at heq
  exact (List.cons.inj heq).1

theorem notMem_parent_history {c parent : Commit} (h : c.parent = some parent) :
    c ∉ parent.history := by
  intro hmem
  have hle := (history_suffix_of_mem hmem).length_le
  rw [history_of_parent h, length_cons] at hle
  omega

theorem mem_parent_of_length_lt {c d e parent : Commit} (hd : d ∈ c.history) (he : e ∈ c.history)
    (hparent : e.parent = some parent) (h : d.history.length < e.history.length) :
    d ∈ parent.history := by
  have hsuffix := suffix_of_suffix_length_le (history_suffix_of_mem hd)
    (history_suffix_of_mem he) h.le
  have hmem := hsuffix.subset (mem_history_self d)
  rw [history_of_parent hparent, mem_cons] at hmem
  rcases hmem with rfl | hmem
  · exact absurd h (lt_irrefl _)
  · exact hmem

end Commit

theorem append_dot_inj {a b : List Char} {m n : ℕ}
    (h : a ++ '.' :: (toString m).toList = b ++ '.' :: (toString n).toList) : m = n := by
  have hdigits : ∀ k : ℕ, ∀ c ∈ (toString k).toList, (c != '.') = true := fun k c hc => by
    have := isDigit_range (Text.isDigit_of_mem_toString hc)
    rw [bne_iff_ne]
    rintro rfl
    exact absurd this (by decide)
  -- the digits are what stands after the last dot
  have hlast : ∀ (front : List Char) (k : ℕ),
      (front ++ '.' :: (toString k).toList).reverse.takeWhile (· != '.')
        = (toString k).toList.reverse := by
    intro front k
    rw [reverse_append, reverse_cons, append_assoc,
      takeWhile_append_of_pos (fun c hc => hdigits k c (mem_reverse.1 hc))]
    simp
  have hrev := congrArg (fun text => text.reverse.takeWhile (· != '.')) h
  simp only [hlast, reverse_inj] at hrev
  exact Text.toString_toList_inj hrev

theorem messageId_sequence {kind kind' coordinate coordinate' : List Char} {m n : ℕ}
    (h : messageId kind coordinate m = messageId kind' coordinate' n) : m = n := by
  unfold messageId at h
  exact append_dot_inj (append_cancel_right h)

/-- The byte of a code word. -/
def unquoteByte : List Char → UInt8
  | [c] => UInt8.ofNat c.toNat
  | [_, high, low] => UInt8.ofNat (value high * 16 + value low)
  | _ => 0
where value (c : Char) : ℕ := if c.toNat < 58 then c.toNat - 48 else c.toNat - 55

theorem quoteByte_read (byte : UInt8) : unquoteByte (quoteByte byte) = byte ∧
    (quoteByte byte).length = if (quoteByte byte).head? = some '%' then 3 else 1 := by
  have hall : ∀ n : Fin 256, unquoteByte (quoteByte (UInt8.ofNat n)) = UInt8.ofNat n ∧
      (quoteByte (UInt8.ofNat n)).length = if (quoteByte (UInt8.ofNat n)).head? = some '%' then 3 else 1 := by
    decide +kernel
  simpa using hall ⟨byte.toNat, byte.toNat_lt⟩

theorem quoteByte_ne_nil (byte : UInt8) : quoteByte byte ≠ [] := fun hnil => by
  have hread := (quoteByte_read byte).2
  simp [hnil] at hread

theorem prefixFree_quoteByte : Coding.PrefixFree quoteByte := fun a b s t h => by
  obtain ⟨ha, hlength⟩ := quoteByte_read a
  obtain ⟨hb, hlength'⟩ := quoteByte_read b
  have hhead := congrArg head? h
  rw [head?_append_of_ne_nil _ (quoteByte_ne_nil a), head?_append_of_ne_nil _ (quoteByte_ne_nil b)] at hhead
  obtain ⟨hcode, hrest⟩ := append_inj h (by rw [hlength, hlength', hhead])
  exact ⟨by rw [← ha, ← hb, hcode], hrest⟩

theorem quote_injective : Function.Injective quote := fun a b h => by
  have hflat : ∀ text, quote text = (text.flatMap String.utf8EncodeChar).flatMap quoteByte := fun text => by
    simp [quote, flatMap_assoc]
  rw [hflat, hflat] at h
  have hbytes := prefixFree_quoteByte.flatMap_injective quoteByte_ne_nil h
  have htext : a.utf8Encode = b.utf8Encode := by simp only [List.utf8Encode, hbytes]
  rw [← String.toByteArray_ofList, ← String.toByteArray_ofList, String.toByteArray_inj] at htext
  exact String.ofList_injective htext

theorem dot_notMem_of_isKind {kind : List Char} (h : isKind kind = true) : '.' ∉ kind := fun hmem =>
  absurd (isKindChar_of_mem h _ hmem) (by decide)

/-- An id says of which kind a post is, on what, and where it stands. -/
theorem idAt_inj (post other : Post) (m n : ℕ) : post.idAt m = other.idAt n ↔
    post.kind = other.kind ∧ post.coordinate = other.coordinate ∧ m = n := by
  constructor
  · intro h
    unfold Post.idAt at h
    obtain rfl := messageId_sequence h
    unfold messageId at h
    obtain ⟨hkind, hquote⟩ := Coding.append_stop_inj (dot_notMem_of_isKind post.kind_ok) (dot_notMem_of_isKind other.kind_ok)
      (append_cancel_right (append_cancel_right h))
    exact ⟨hkind, quote_injective hquote, rfl⟩
  · rintro ⟨hkind, hcoordinate, rfl⟩
    rw [Post.idAt, Post.idAt, hkind, hcoordinate]

/-- A commit of the list. -/
def Known (head : Option Commit) (c : Commit) : Prop := ∃ h, head = some h ∧ c ∈ h.history

/-- The list is extended or stays. -/
def Grows (head head' : Option Commit) : Prop :=
  ∀ h, head = some h → ∃ h', head' = some h' ∧ h.history <:+ h'.history

theorem Grows.refl (head : Option Commit) : Grows head head := fun h hh => ⟨h, hh, suffix_refl _⟩

theorem Grows.trans {a b c : Option Commit} (hab : Grows a b) (hbc : Grows b c) : Grows a c := by
  intro h hh
  obtain ⟨h', hh', hle⟩ := hab h hh
  obtain ⟨h'', hh'', hle'⟩ := hbc h' hh'
  exact ⟨h'', hh'', hle.trans hle'⟩

theorem Known.grows {head head' : Option Commit} {c : Commit} (h : Known head c)
    (hgrows : Grows head head') : Known head' c := by
  obtain ⟨d, hd, hc⟩ := h
  obtain ⟨d', hd', hle⟩ := hgrows d hd
  exact ⟨d', hd', hle.subset hc⟩

/-- No `qa` post with the item of this post is found on the list that ends in `c`. -/
def Absent (post : Post) (c : Commit) : Prop :=
  ∀ item, post.qaItemRef = some item → qaPostForItem c.log item = .ok none

/-- If `expected` is the head, the duplicate scan has found nothing on it. -/
def Scanned (post : Post) (head : Option Commit) (expected : Commit) : Prop :=
  head = some expected → Absent post expected

theorem Scanned.grows {post : Post} {head head' : Option Commit} {expected : Commit}
    (h : Scanned post head expected) (hknown : Known head expected) (hgrows : Grows head head') :
    Scanned post head' expected := by
  rintro rfl
  obtain ⟨d, hd, hmem⟩ := hknown
  obtain ⟨d', hd', hle⟩ := hgrows d hd
  obtain rfl := Option.some.inj hd'
  have hlength : d.history.length = expected.history.length :=
    le_antisymm hle.length_le (Commit.history_suffix_of_mem hmem).length_le
  have heq := Commit.eq_of_length_eq (Commit.mem_history_self expected)
    (Commit.mem_history_of_suffix hle) hlength.symm
  exact h (hd.trans (congrArg some heq.symm))

def AppendedBy (post : Post) (c : Commit) (id : List Char) : Prop :=
  ∃ expected stamp, c = post.commitOn expected expected.history.length stamp ∧
    id = post.idAt expected.history.length ∧ Absent post expected

def Local (post : Post) (head : Option Commit) : Pc → Prop
  | .casGenesis _ genesis => genesis.parent = none ∧ isGenesisMessage genesis.message = true
  | .scanHead _ expected => Known head expected
  | .scanLog _ expected => Known head expected
  | .count _ expected => Known head expected ∧ Scanned post head expected
  | .commitTree _ expected sequence =>
    Known head expected ∧ Scanned post head expected ∧ sequence = expected.history.length
  | .cas _ expected commit id =>
    Known head expected ∧ Scanned post head expected ∧
      ∃ stamp, commit = post.commitOn expected expected.history.length stamp ∧
        id = post.idAt expected.history.length
  | .returned (.appended commit id) => Known head commit ∧ AppendedBy post commit id
  | _ => True

theorem Local.grows {post : Post} {head head' : Option Commit} {pc : Pc}
    (h : Local post head pc) (hgrows : Grows head head') : Local post head' pc := by
  rcases pc with _ | _ | _ | _ | _ | _ | _ | _ | _ | _ | ⟨_ | _ | _⟩
  case casGenesis => exact h
  case scanHead => exact Known.grows h hgrows
  case scanLog => exact Known.grows h hgrows
  case count => exact ⟨h.1.grows hgrows, h.2.grows h.1 hgrows⟩
  case commitTree => exact ⟨h.1.grows hgrows, h.2.1.grows h.1 hgrows, h.2.2⟩
  case cas => exact ⟨h.1.grows hgrows, h.2.1.grows h.1 hgrows, h.2.2⟩
  case returned.appended => exact ⟨h.1.grows hgrows, h.2⟩
  all_goals trivial

theorem local_afterHead (post : Post) (attempt : ℕ) (head : Commit) :
    Local post (some head) (afterHead post attempt head) := by
  have hknown : Known (some head) head := ⟨head, rfl, head.mem_history_self⟩
  unfold afterHead
  split_ifs with hitem
  · exact hknown
  · refine ⟨hknown, fun _ item hsome => ?_⟩
    rw [hsome] at hitem
    exact absurd rfl hitem

theorem local_afterEnsure (post : Post) (head : Commit) (caller : Caller) :
    Local post (some head) (afterEnsure post head caller) := by
  cases caller with
  | entry => trivial
  | attempt n => exact local_afterHead post n head

theorem commitOn_message_not_genesis (post : Post) (expected : Commit) (sequence : ℕ)
    (stamp : List Char) :
    isGenesisMessage (post.commitOn expected sequence stamp).message = false := by
  show isGenesisMessage (post.message (post.idAt sequence)) = false
  rw [message_eq, append_assoc]
  exact not_isGenesisMessage post _

theorem posterStep_local {post : Post} {head head' : Option Commit} {pc pc' : Pc} (hlocal : Local post head pc)
    (hstep : PosterStep post head pc head' pc') : Local post head' pc' ∧ Grows head head' := by
  cases hstep with
  | ensureFound caller h => exact ⟨local_afterEnsure post h caller, Grows.refl _⟩
  | ensureAbsent caller => exact ⟨trivial, Grows.refl _⟩
  | writeGenesis _ caller seed seedTree stamp =>
    refine ⟨⟨rfl, decide_eq_true ?_⟩, Grows.refl _⟩
    exact ⟨_, rfl⟩
  | genesisWon caller genesis => exact ⟨local_afterEnsure post genesis caller, nofun⟩
  | genesisLost _ caller genesis => exact ⟨trivial, Grows.refl _⟩
  | rereadFound caller h => exact ⟨local_afterEnsure post h caller, Grows.refl _⟩
  | headFound attempt h => exact ⟨local_afterHead post attempt h, Grows.refl _⟩
  | headAbsent attempt => exact ⟨trivial, Grows.refl _⟩
  | scanAbsent attempt expected => exact ⟨⟨hlocal, nofun⟩, Grows.refl _⟩
  | scanHead attempt expected h => exact ⟨hlocal, Grows.refl _⟩
  | scanNone attempt expected h item hitem hnone =>
    refine ⟨⟨hlocal, ?_⟩, Grows.refl _⟩
    rintro ⟨⟩ item' hitem'
    rw [hitem] at hitem'
    obtain rfl := Option.some.inj hitem'
    exact hnone
  | scanSome attempt expected h item hitem entry hsome => exact ⟨trivial, Grows.refl _⟩
  | count _ attempt expected => exact ⟨⟨hlocal.1, hlocal.2, rfl⟩, Grows.refl _⟩
  | commitTree _ attempt expected sequence stamp =>
    obtain ⟨hknown, hscanned, rfl⟩ := hlocal
    exact ⟨⟨hknown, hscanned, stamp, rfl, rfl⟩, Grows.refl _⟩
  | casWon attempt expected commit id =>
    obtain ⟨-, hscanned, stamp, rfl, rfl⟩ := hlocal
    have hhistory := Commit.history_of_parent
      (c := post.commitOn expected expected.history.length stamp) rfl
    refine ⟨⟨⟨_, rfl, Commit.mem_history_self _⟩, expected, stamp, rfl, rfl, hscanned rfl⟩, ?_⟩
    rintro h ⟨⟩
    exact ⟨_, rfl, by rw [hhistory]; exact suffix_cons _ _⟩
  | casLost _ attempt expected commit id => exact ⟨trivial, Grows.refl _⟩
  | fails _ pc h => exact ⟨trivial, Grows.refl _⟩

theorem posterStep_keeps {post : Post} {head head' : Option Commit} {pc pc' : Pc}
    (hchain : ∀ h, head = some h → SingleChain h) (hlocal : Local post head pc)
    (hstep : PosterStep post head pc head' pc') :
    (∀ h, head' = some h → SingleChain h) ∧ Local post head' pc' ∧ Grows head head' := by
  refine ⟨?_, posterStep_local hlocal hstep⟩
  cases hstep with
  | genesisWon caller genesis =>
    rintro h ⟨⟩
    exact .genesis hlocal.1 hlocal.2
  | casWon attempt expected commit id =>
    obtain ⟨-, -, stamp, rfl, rfl⟩ := hlocal
    rintro h ⟨⟩
    exact .post rfl (commitOn_message_not_genesis post _ _ _) (hchain expected rfl)
  | _ => exact hchain

theorem posterStep_cases {post : Post} {head head' : Option Commit} {pc pc' : Pc}
    (hstep : PosterStep post head pc head' pc') :
    (head' = head ∧ ∀ c id, pc' ≠ .returned (.appended c id)) ∨
    (∃ caller genesis, pc = .casGenesis caller genesis ∧ head' = some genesis ∧
      ∀ c id, pc' ≠ .returned (.appended c id)) ∨
    ∃ attempt expected c id, pc = .cas attempt expected c id ∧ head = some expected ∧
      head' = some c ∧ pc' = .returned (.appended c id) := by
  have hafterHead : ∀ attempt h c id, afterHead post attempt h ≠ .returned (.appended c id) := by
    intro attempt h c id
    unfold afterHead
    split_ifs <;> exact nofun
  have hafterEnsure : ∀ h caller c id,
      afterEnsure post h caller ≠ .returned (.appended c id) := by
    rintro h (_ | attempt) c id
    · exact nofun
    · exact hafterHead attempt h c id
  cases hstep with
  | casWon attempt expected commit id =>
    exact Or.inr (Or.inr ⟨attempt, expected, commit, id, rfl, rfl, rfl, rfl⟩)
  | genesisWon caller genesis =>
    exact Or.inr (Or.inl ⟨caller, genesis, rfl, rfl, hafterEnsure genesis caller⟩)
  | ensureFound caller h => exact Or.inl ⟨rfl, hafterEnsure h caller⟩
  | rereadFound caller h => exact Or.inl ⟨rfl, hafterEnsure h caller⟩
  | headFound attempt h => exact Or.inl ⟨rfl, hafterHead attempt h⟩
  | _ => exact Or.inl ⟨rfl, nofun⟩

theorem posterStep_not_returned {post : Post} {head head' : Option Commit} {pc pc' : Pc}
    (hstep : PosterStep post head pc head' pc') (result : PostResult) : pc ≠ .returned result := by
  cases hstep with
  | fails _ pc h => exact h result
  | _ => exact nofun

/-! ### All posters -/

section Posters

variable {π : Type*} [DecidableEq π] {posts : π → Post}

theorem reachable_local {s : Processes π (Option Commit) Pc} (h : ListReachable posts s) :
    (∀ head, s.shared = some head → SingleChain head) ∧
      ∀ p, Local (posts p) s.shared (s.loc p) := by
  refine Processes.Reachable.both (I := fun head => ∀ h, head = some h → SingleChain h)
    (L := fun p head pc => Local (posts p) head pc) (G := Grows) ?_ ?_ ?_ h
  · rintro s ⟨hshared, hloc⟩
    refine ⟨fun head hhead => ?_, fun p => ?_⟩
    · rw [hshared] at hhead
      exact absurd hhead nofun
    · rw [hloc p]
      trivial
  · exact fun p head pc head' pc' hchain hlocal hstep => posterStep_keeps hchain hlocal hstep
  · exact fun p head head' pc hlocal hgrows => hlocal.grows hgrows

theorem run_grows {s s' : Processes π (Option Commit) Pc} (h : ListReachable posts s)
    (hrun : Processes.Run (Posting posts) s s') : Grows s.shared s'.shared := by
  refine Processes.Run.shared Grows.refl (fun _ _ _ => Grows.trans) ?_ h hrun
  rintro s s' hs ⟨p, hstep⟩
  obtain ⟨hchain, hlocal⟩ := reachable_local hs
  exact (posterStep_keeps hchain (hlocal p) hstep).2.2

/-- Every commit with a parent on the list has one poster that appended it. -/
def Owned (s : Processes π (Option Commit) Pc) : Prop :=
  ∀ head commit, s.shared = some head → commit ∈ head.history → commit.parent ≠ none →
    ∃! p, ∃ id, s.loc p = .returned (.appended commit id)

theorem owned_of_reachable {s : Processes π (Option Commit) Pc} (h : ListReachable posts s) :
    Owned s := by
  refine h.invariant (I := Owned) ?_ ?_
  · rintro s ⟨hshared, -⟩ head commit hhead
    rw [hshared] at hhead
    exact absurd hhead nofun
  · rintro s s' hs howned ⟨p, hstep⟩ head commit hhead hmem hparent
    obtain ⟨-, hlocal⟩ := reachable_local hs
    -- the poster of an earlier commit is another one, and keeps it
    have hothers : ∀ {pc' : Pc} {c : Commit}, (∀ id, pc' ≠ .returned (.appended c id)) →
        (∃! q, ∃ id, s.loc q = .returned (.appended c id)) →
        ∃! q, ∃ id, Function.update s.loc p pc' q = .returned (.appended c id) := by
      rintro pc' c hpc' ⟨q, ⟨id, hq⟩, hunique⟩
      have hqp : q ≠ p := by
        rintro rfl
        exact posterStep_not_returned hstep _ hq
      refine ⟨q, ⟨id, by rw [Function.update_of_ne hqp]; exact hq⟩, ?_⟩
      rintro r ⟨id', hr⟩
      by_cases hrp : r = p
      · subst hrp
        rw [Function.update_self] at hr
        exact absurd hr (hpc' id')
      · rw [Function.update_of_ne hrp] at hr
        exact hunique r ⟨id', hr⟩
    rcases posterStep_cases hstep with ⟨hsame, hpc'⟩ | ⟨caller, genesis, hpc, hnew, -⟩ |
      ⟨attempt, expected, c, id, hpc, hold, hnew, hpc'⟩
    · have hhead' : s.shared = some head := hsame.symm.trans hhead
      exact hothers (hpc' commit) (howned head commit hhead' hmem hparent)
    · obtain rfl : genesis = head := Option.eq_some_unique hnew hhead
      have hroot : genesis.parent = none := by
        have hgenesis := hlocal p
        rw [hpc] at hgenesis
        exact hgenesis.1
      rw [Commit.history_eq, hroot, mem_singleton] at hmem
      exact absurd (hmem ▸ hroot) hparent
    · obtain rfl : c = head := Option.eq_some_unique hnew hhead
      have hcas := hlocal p
      rw [hpc] at hcas
      obtain ⟨-, -, stamp, hc, -⟩ := hcas
      have hcparent : c.parent = some expected := by rw [hc]; rfl
      have hfresh : c ∉ expected.history := Commit.notMem_parent_history hcparent
      rw [Commit.history_of_parent hcparent, mem_cons] at hmem
      rcases hmem with rfl | hmem
      · refine ⟨p, ⟨id, (Function.update_self p _ s.loc).trans hpc'⟩, ?_⟩
        rintro q ⟨id', hq⟩
        by_contra hqp
        have hq : s.loc q = .returned (.appended _ id') :=
          (Function.update_of_ne hqp _ s.loc).symm.trans hq
        have hknown := hlocal q
        rw [hq] at hknown
        obtain ⟨d, hd, hmem⟩ := hknown.1
        obtain rfl := Option.eq_some_unique hold hd
        exact hfresh hmem
      · refine hothers (fun id' => ?_) (howned expected commit hold hmem hparent)
        rw [hpc']
        rintro ⟨⟩
        exact hfresh hmem

theorem appended_of_returned {s : Processes π (Option Commit) Pc} (h : ListReachable posts s)
    {p : π} {c : Commit} {id : List Char} (hp : s.loc p = .returned (.appended c id)) :
    Known s.shared c ∧ AppendedBy (posts p) c id := by
  have hlocal := (reachable_local h).2 p
  rw [hp] at hlocal
  exact hlocal

theorem AppendedBy.parent {post : Post} {c : Commit} {id : List Char} (h : AppendedBy post c id) :
    ∃ expected, c.parent = some expected ∧ id = post.idAt expected.history.length ∧
      Absent post expected := by
  obtain ⟨expected, stamp, rfl, hid, habsent⟩ := h
  exact ⟨expected, rfl, hid, habsent⟩

theorem AppendedBy.message {post : Post} {c : Commit} {id : List Char} (h : AppendedBy post c id) :
    ∃ sequence, id = post.idAt sequence ∧ c.message = post.message (post.idAt sequence) := by
  obtain ⟨expected, stamp, rfl, hid, -⟩ := h
  exact ⟨_, hid, rfl⟩

theorem appended_ne {s : Processes π (Option Commit) Pc} (h : ListReachable posts s) {p q : π}
    (hpq : p ≠ q) {c d : Commit} {i j : List Char} (hp : s.loc p = .returned (.appended c i))
    (hq : s.loc q = .returned (.appended d j)) : c ≠ d := by
  rintro rfl
  obtain ⟨⟨head, hhead, hmem⟩, happended⟩ := appended_of_returned h hp
  obtain ⟨expected, hparent, -⟩ := happended.parent
  have hne : c.parent ≠ none := by
    rw [hparent]
    exact nofun
  obtain ⟨r, -, hunique⟩ := owned_of_reachable h head c hhead hmem hne
  exact hpq ((hunique p ⟨i, hp⟩).trans (hunique q ⟨j, hq⟩).symm)

theorem appended_length_ne {s : Processes π (Option Commit) Pc} (h : ListReachable posts s)
    {p q : π} (hpq : p ≠ q) {c d : Commit} {i j : List Char}
    (hp : s.loc p = .returned (.appended c i)) (hq : s.loc q = .returned (.appended d j)) :
    c.history.length ≠ d.history.length := by
  intro hlength
  obtain ⟨head, hhead, hc⟩ := (appended_of_returned h hp).1
  obtain ⟨head', hhead', hd⟩ := (appended_of_returned h hq).1
  obtain rfl := Option.eq_some_unique hhead hhead'
  exact appended_ne h hpq hp hq (Commit.eq_of_length_eq hc hd hlength)

theorem ids_ne {s : Processes π (Option Commit) Pc} (h : ListReachable posts s) {p q : π}
    (hpq : p ≠ q) {c d : Commit} {i j : List Char} (hp : s.loc p = .returned (.appended c i))
    (hq : s.loc q = .returned (.appended d j)) : i ≠ j := by
  rintro rfl
  obtain ⟨e, hc, hi, -⟩ := (appended_of_returned h hp).2.parent
  obtain ⟨f, hd, hj, -⟩ := (appended_of_returned h hq).2.parent
  have hsequence : e.history.length = f.history.length := messageId_sequence (hi.symm.trans hj)
  refine appended_length_ne h hpq hp hq ?_
  rw [Commit.history_of_parent hc, Commit.history_of_parent hd, length_cons, length_cons,
    hsequence]

theorem list_safe_of_reachable {s : Processes π (Option Commit) Pc} (h : ListReachable posts s) :
    ListSafe posts s where
  chain := (reachable_local h).1
  kept := fun p c id hp => by
    obtain ⟨hknown, happended⟩ := appended_of_returned h hp
    obtain ⟨sequence, hid, hmessage⟩ := happended.message
    exact ⟨hknown, by rw [hmessage, hid]⟩
  once := owned_of_reachable h
  forever := fun s' hrun head hhead => run_grows h hrun head hhead
  ids := fun p q c d i j hpq hp hq => ids_ne h hpq hp hq

theorem not_absent {post : Post} {c expected : Commit} {item : List Char} {parsed : ParsedPost}
    (hitem : post.qaItemRef = some item) (hmem : c ∈ expected.history)
    (hparse : parsePostMessage c.message = .ok (some parsed))
    (hqa : isQaForItem item parsed = true) : ¬ Absent post expected := by
  intro habsent
  have hnone := habsent item hitem
  have hlog : (c, c.message) ∈ expected.log :=
    mem_map.2 ⟨c, mem_reverse.2 hmem, rfl⟩
  have hread : readMessage (c, c.message) = .ok (some (c, parsed)) := by
    simp only [readMessage, hparse]
    rfl
  unfold qaPostForItem readPosts at hnone
  rcases hmap : expected.log.mapM readMessage with e | entries
  · simp [hmap, bind, Except.bind] at hnone
  · simp only [hmap, bind, Except.bind, pure, Except.pure, Except.ok.injEq] at hnone
    obtain ⟨entry, hmem', hentry⟩ := Traverse.exists_of_mem_left (Traverse.forall₂_of_mapM_ok hmap) hlog
    obtain rfl := Except.ok.inj (hread.symm.trans hentry)
    have hentry : (c, parsed) ∈ entries.filterMap id := mem_filterMap.2 ⟨_, hmem', rfl⟩
    exact find?_eq_none.1 hnone _ hentry hqa

theorem qa_not_below {s : Processes π (Option Commit) Pc} (h : ListReachable posts s)
    {p q : π} (hclean : (posts p).Clean) {c d : Commit} {i j item : List Char}
    (hp : s.loc p = .returned (.appended c i)) (hq : s.loc q = .returned (.appended d j))
    (hpitem : (posts p).qaItemRef = some item) (hqitem : (posts q).qaItemRef = some item) :
    ¬ c.history.length < d.history.length := by
  intro hlt
  obtain ⟨⟨head, hhead, hc⟩, happended⟩ := appended_of_returned h hp
  obtain ⟨⟨head', hhead', hd⟩, happended'⟩ := appended_of_returned h hq
  obtain rfl := Option.eq_some_unique hhead hhead'
  obtain ⟨expected, hparent, -, habsent⟩ := happended'.parent
  obtain ⟨sequence, -, hmessage⟩ := happended.message
  obtain ⟨parsed, hparse, hqa⟩ := isQaForItem_message hclean hpitem sequence
  rw [← hmessage] at hparse
  exact not_absent hqitem (Commit.mem_parent_of_length_lt hc hd hparent hlt) hparse hqa habsent

/-- In every state that any number of posters reach, the list is safe, and if no `qa` post of an item
has a line boundary in its trailer texts, at most one `qa` post of each item is on it. -/
theorem list_safe (posts : π → Post) {s : Processes π (Option Commit) Pc}
    (h : ListReachable posts s) :
    ListSafe posts s ∧
      ((∀ p, (posts p).qaItemRef.isSome = true → (posts p).Clean) → QaUnique posts s) := by
  refine ⟨list_safe_of_reachable h, fun hclean => ?_⟩
  intro p q c d i j item hp hq hpitem hqitem
  have hpclean := hclean p (by rw [hpitem]; rfl)
  have hqclean := hclean q (by rw [hqitem]; rfl)
  by_contra hpq
  rcases Nat.lt_trichotomy c.history.length d.history.length with hlt | heq | hlt
  · exact qa_not_below h hpclean hp hq hpitem hqitem hlt
  · exact appended_length_ne h hpq hp hq heq
  · exact qa_not_below h hqclean hq hp hqitem hpitem hlt

end Posters

/-- A poster alone, from one control point to another. -/
def Solo (post : Post) : Option Commit × Pc → Option Commit × Pc → Prop :=
  Relation.ReflTransGen fun a b => PosterStep post a.1 a.2 b.1 b.2

theorem Solo.step {post : Post} {a : Option Commit × Pc} {head head' : Option Commit} {pc pc' : Pc}
    (h : Solo post a (head, pc)) (hstep : PosterStep post head pc head' pc') :
    Solo post a (head', pc') := h.tail hstep

theorem Solo.refl (post : Post) (a : Option Commit × Pc) : Solo post a a := Relation.ReflTransGen.refl

theorem solo_append {post : Post} {head : Commit} (habsent : Absent post head) (stamp : List Char) :
    Solo post (some head, .readHead 0)
      (some (post.commitOn head head.history.length stamp),
        .returned (.appended (post.commitOn head head.history.length stamp)
          (post.idAt head.history.length))) := by
  have hfound := (Solo.refl post _).step (.headFound 0 head (by decide))
  have hcount : Solo post (some head, .readHead 0) (some head, .count 0 head) := by
    rcases hitem : post.qaItemRef with _ | item <;> rw [afterHead, hitem] at hfound
    · exact hfound
    · have hscan := hfound.step (.scanHead 0 head head)
      exact hscan.step (.scanNone 0 head head item hitem (habsent item hitem))
  have hcommit := (hcount.step (.count _ 0 head)).step (.commitTree _ 0 head _ stamp)
  exact hcommit.step (.casWon 0 head _ _)

theorem solo_genesis (post : Post) (seed seedTree stamp : List Char) :
    Solo post (none, .ensure .entry)
      (some (.root emptyTree (genesisMessage seed seedTree) stamp), .readHead 0) := by
  have hwrite := (Solo.refl post _).step (.ensureAbsent .entry)
  exact (hwrite.step (.writeGenesis none .entry seed seedTree stamp)).step (.genesisWon .entry _)

theorem solo_ensure (post : Post) (head : Commit) :
    Solo post (some head, .ensure .entry) (some head, .readHead 0) :=
  (Solo.refl post _).step (.ensureFound .entry head)

theorem reachable_two (posts : Bool → Post) (seed seedTree stamp : List Char) {genesis first : Commit}
    (hgenesis : genesis = .root emptyTree (genesisMessage seed seedTree) stamp)
    (hfirst : first = (posts false).commitOn genesis 1 stamp)
    (habsent : Absent (posts false) genesis) (habsent' : Absent (posts true) first) :
    ∃ s, ListReachable posts s ∧
      s.loc false = .returned (.appended first ((posts false).idAt 1)) ∧
      s.loc true = .returned (.appended ((posts true).commitOn first 2 stamp) ((posts true).idAt 2)) := by
  have hlength : genesis.history.length = 1 := by
    rw [hgenesis]
    rfl
  have hlength' : first.history.length = 2 := by
    rw [hfirst, Commit.history_of_parent rfl, length_cons, hlength]
  let start : Processes Bool (Option Commit) Pc := ⟨none, fun _ => .ensure .entry⟩
  have hposted := (solo_genesis (posts false) seed seedTree stamp)
  rw [← hgenesis] at hposted
  have hone := hposted.trans (solo_append habsent stamp)
  have htwo := (solo_ensure (posts true) first).trans (solo_append habsent' stamp)
  rw [hlength, ← hfirst] at hone
  rw [hlength'] at htwo
  obtain ⟨s, hrun, hshared, hloc, hothers⟩ :=
    Processes.Run.solo (Posting posts) false hone (s := start) rfl rfl
  obtain ⟨s', hrun', -, hloc', hothers'⟩ :=
    Processes.Run.solo (Posting posts) true htwo hshared (hothers true (by decide))
  refine ⟨s', ⟨start, ⟨rfl, fun _ => rfl⟩, hrun.trans hrun'⟩, ?_, hloc'⟩
  rw [hothers' false (by decide), hloc]

theorem absent_of_item {post : Post} {c : Commit} {item : List Char}
    (hitem : post.qaItemRef = some item) (h : qaPostForItem c.log item = .ok none) :
    Absent post c := by
  intro item' hitem'
  obtain rfl := Option.eq_some_unique hitem hitem'
  exact h

def samplePost (item note : List Char) (hitem : isSingleLine item = true)
    (hnote : isSingleLine note = true) : Post where
  kind := "qa".toList
  subject := "checked".toList
  body := []
  refs := [("item".toList, item)]
  coordinate := "checked".toList
  correspondsTo := [("note".toList, note)]
  inReplyTo := none
  kind_ok := by decide
  subject_ok := by decide
  refs_ok := by simpa [isTrailerPair, isTrailerName, isSingleLine] using hitem
  coordinate_ok := by decide
  correspondsTo_ok := by simpa [isTrailerPair, isTrailerName, isSingleLine] using hnote
  inReplyTo_ok := nofun

def sampleGenesis : Commit := .root emptyTree (genesisMessage [] []) []

/-- Posts for two items. -/
def plainPosts : Bool → Post
  | false => samplePost "a".toList "plain".toList (by decide) (by decide)
  | true => samplePost "b".toList "plain".toList (by decide) (by decide)

theorem clean_of_all {post : Post} (h : (post.trailerTexts.all fun text =>
    text.all fun c => !Text.isLineBoundary c) = true) : post.Clean := by
  intro text htext c hc
  simpa using all_eq_true.1 (all_eq_true.1 h text htext) c hc

theorem list_safe_plain : ∃ s, ListSafe plainPosts s ∧ QaUnique plainPosts s ∧
    s.loc true = .returned (.appended ((plainPosts true).commitOn
      ((plainPosts false).commitOn sampleGenesis 1 []) 2 []) ((plainPosts true).idAt 2)) := by
  obtain ⟨s, hs, -, htrue⟩ := reachable_two plainPosts [] [] [] rfl rfl
    (@absent_of_item _ _ "a".toList (by decide) (by decide +kernel))
    (@absent_of_item _ _ "b".toList (by decide) (by decide +kernel))
  obtain ⟨hsafe, hunique⟩ := list_safe plainPosts hs
  refine ⟨s, hsafe, hunique fun p _ => clean_of_all ?_, htrue⟩
  revert p
  decide

/-- Two `qa` posts for one item, whose note has a form feed and a trailer line after it. -/
def formFeedPosts : Bool → Post := fun _ =>
  samplePost "a".toList "x\x0cRef: item=b".toList (by decide) (by decide)

theorem formFeed_posts_twice : ∃ s, ListReachable formFeedPosts s ∧ ¬ QaUnique formFeedPosts s := by
  obtain ⟨s, hs, hfalse, htrue⟩ := reachable_two formFeedPosts [] [] [] rfl rfl
    (@absent_of_item _ _ "a".toList (by decide) (by decide +kernel))
    (@absent_of_item _ _ "a".toList (by decide) (by decide +kernel))
  refine ⟨s, hs, fun hunique => ?_⟩
  exact absurd (hunique false true _ _ _ _ "a".toList hfalse htrue (by decide) (by decide))
    (by decide)

end MailingList

end AiOrg
