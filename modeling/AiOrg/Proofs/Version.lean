import AiOrg.Judge.Version
import AiOrg.Python.Mapping
import AiOrg.Run.Checks

/-!
# What a version link says of a node

The node of a body is the first one a depth-first search finds with the `id`, and two nodes with one canonical value
have one `id`. So the walk back follows the node and nothing that stands at its position, and reports the end of its
run; only whether the run began with the node is decided by what stands there.
-/

namespace AiOrg

open List

namespace Judge

theorem findFrom_eq (node_id : String) (stack : List Json) :
    findFrom node_id stack = (stack.flatMap Json.preorder).find? (hasId node_id) := by
  fun_induction findFrom node_id stack with
  | case1 => rfl
  | case2 node stack h => rw [flatMap_cons, preorder_eq, cons_append, find?_cons_of_pos h]
  | case3 node stack h ih =>
    rw [ih, flatMap_cons, preorder_eq node, cons_append, find?_cons_of_neg h, flatMap_append]

theorem find_node_by_id_eq (data : Json) (node_id : String) :
    find_node_by_id data node_id = data.preorder.find? (hasId node_id) := by
  rw [find_node_by_id, findFrom_eq, flatMap_cons, flatMap_nil, append_nil]

theorem find_node_by_id_iff {data node : Json} {node_id : String} (hunique : UniqueIds data) :
    find_node_by_id data node_id = some node ↔ Json.Within node data ∧ hasId node_id node = true := by
  rw [find_node_by_id_eq]
  constructor
  · intro h
    exact ⟨Json.mem_preorder.1 (mem_of_find?_eq_some h), find?_some h⟩
  · rintro ⟨hwithin, hid⟩
    have hmem : node ∈ data.preorder.filter (hasId node_id) := mem_filter.2 ⟨Json.mem_preorder.2 hwithin, hid⟩
    obtain ⟨first, hfirst⟩ := length_eq_one_iff.1
      (Nat.le_antisymm (hunique node_id) (length_pos_of_mem hmem))
    rw [← head?_filter, hfirst]
    rw [hfirst, mem_singleton] at hmem
    rw [hmem]
    rfl

theorem lookup_eq_head?_filter (fields : Fields) (key : String) :
    fields.lookup key = ((fields.filter fun entry => entry.1 = key).head?).map Prod.snd := by
  induction fields with
  | nil => rfl
  | cons entry fields ih =>
    obtain ⟨k, v⟩ := entry
    rw [Fields.lookup_cons_eq, filter_cons]
    by_cases hk : key = k
    · simp [hk]
    · simp [hk, Ne.symm hk, ih]

theorem lookup_mergeSort (fields : Fields) (key : String) :
    (fields.mergeSort fun a b => a.1 ≤ b.1).lookup key = fields.lookup key := by
  have hsub : (fields.filter fun entry => entry.1 = key).Sublist (fields.mergeSort fun a b => a.1 ≤ b.1) := by
    refine sublist_mergeSort (fun a b c hab hbc => ?_) (fun a b => ?_) ?_ filter_sublist
    · simp only [decide_eq_true_eq] at hab hbc ⊢
      exact le_trans hab hbc
    · simpa using le_total a.1 b.1
    · refine pairwise_of_forall_mem_list fun a ha b hb => ?_
      have hkeya : a.1 = key := by simpa using (mem_filter.1 ha).2
      have hkeyb : b.1 = key := by simpa using (mem_filter.1 hb).2
      simp [hkeya, hkeyb]
  have hfilter : (fields.filter fun entry => entry.1 = key) =
      (fields.mergeSort fun a b => a.1 ≤ b.1).filter fun entry => entry.1 = key := by
    refine List.Sublist.eq_of_length ?_ ((mergeSort_perm fields _).filter _).length_eq.symm
    have hfiltered := hsub.filter fun entry => decide (entry.1 = key)
    rwa [filter_filter, show (fun entry : String × Json => decide (entry.1 = key) && decide (entry.1 = key)) =
      fun entry => decide (entry.1 = key) by funext entry; rw [Bool.and_self]] at hfiltered
  rw [lookup_eq_head?_filter, lookup_eq_head?_filter, hfilter]

theorem lookup_canonicalFields (fields : Fields) (key : String) :
    (canonicalFields fields).lookup key = (fields.lookup key).map canonical := by
  induction fields with
  | nil => rfl
  | cons entry fields ih =>
    obtain ⟨k, v⟩ := entry
    rw [canonicalFields, Fields.lookup_cons_eq, Fields.lookup_cons_eq, ih]
    split_ifs <;> rfl

theorem canonical_eq_str {value : Json} {s : String} : canonical value = .str s ↔ value = .str s := by
  cases value <;> simp [canonical]

theorem hasId_canonical (node_id : String) (node : Json) : hasId node_id (canonical node) = hasId node_id node := by
  cases node with
  | obj fields =>
    simp only [canonical, hasId, lookup_mergeSort, lookup_canonicalFields]
    cases fields.lookup "id" with
    | none => rfl
    | some value => simp [canonical_eq_str]
  | _ => rfl

theorem within_of_navigate : ∀ {path : Path} {data node : Json}, navigate data path = some node →
    (∃ s, node = .str s) ∨ Json.Within node data
  | [], data, node, h => by
    obtain rfl := Option.some.inj h
    exact .inr (.refl _)
  | seg :: path, data, node, h => by
    obtain ⟨child, hchild, h⟩ := Option.bind_eq_some_iff.1 h
    rcases within_of_navigate h with hstr | hwithin
    · exact .inl hstr
    · cases data with
      | obj fields =>
        cases seg with
        | key k => exact .inr (.member (Fields.mem_of_lookup hchild) hwithin)
        | index i => cases hchild
      | arr items =>
        cases seg with
        | key k => cases hchild
        | index i => exact .inr (.item (mem_of_getElem? hchild) hwithin)
      | str s =>
        cases seg with
        | key k => cases hchild
        | index i =>
          -- what is in a character is the character again
          obtain ⟨c, -, rfl⟩ := Option.map_eq_some_iff.1 hchild
          cases hwithin
          exact .inl ⟨_, rfl⟩
      | _ => cases seg <;> cases hchild

section Value

variable {target : Target} {data value : Json}

theorem valueIn_eq_iff (hunique : UniqueIds data) (hvalue : hasId target.node_id value = true) :
    valueIn data target = some value ↔
      ∃ node, Json.Within node data ∧ hasId target.node_id node = true ∧ canonical node = value := by
  unfold valueIn
  cases hfind : find_node_by_id data target.node_id with
  | some found =>
    obtain ⟨hwithin, hid⟩ := (find_node_by_id_iff hunique).1 hfind
    simp only [Option.some_inj]
    constructor
    · rintro rfl
      exact ⟨found, hwithin, hid, rfl⟩
    · rintro ⟨node, hnode, hnodeid, rfl⟩
      rw [(find_node_by_id_iff hunique).2 ⟨hnode, hnodeid⟩] at hfind
      rw [Option.some.inj hfind]
  | none =>
    -- the value at the position has no `id`, or it would have been found
    have hnone : ∀ node, Json.Within node data → hasId target.node_id node = true → False := by
      intro node hwithin hid
      rw [(find_node_by_id_iff hunique).2 ⟨hwithin, hid⟩] at hfind
      exact nomatch hfind
    constructor
    · intro h
      obtain ⟨node, hnavigate, hcanonical⟩ : ∃ node, navigate data target.node_path = some node ∧
          canonical node = value := by
        cases hnavigate : navigate data target.node_path with
        | none => rw [hnavigate] at h; exact nomatch h
        | some node =>
          rw [hnavigate] at h
          cases node <;> first
            | exact ⟨_, rfl, Option.some.inj h⟩
            | exact nomatch h
      rw [← hcanonical, hasId_canonical] at hvalue
      rcases within_of_navigate hnavigate with ⟨s, rfl⟩ | hwithin
      · exact nomatch hvalue
      · exact absurd hvalue (by simpa using hnone node hwithin)
    · rintro ⟨node, hwithin, hid, -⟩
      exact (hnone node hwithin hid).elim

theorem isSome_valueIn : (valueIn data target).isSome = true ↔
    (∃ node, Json.Within node data ∧ hasId target.node_id node = true) ∨
      ∃ node, navigate data target.node_path = some node ∧ node ≠ .null := by
  unfold valueIn
  cases hfind : find_node_by_id data target.node_id with
  | some found =>
    rw [find_node_by_id_eq] at hfind
    simp only [Option.isSome_some, true_iff]
    exact .inl ⟨found, Json.mem_preorder.1 (mem_of_find?_eq_some hfind), find?_some hfind⟩
  | none =>
    rw [find_node_by_id_eq, find?_eq_none] at hfind
    rw [or_iff_right]
    · cases hnavigate : navigate data target.node_path with
      | none => simp
      | some node => cases node <;> simp
    · rintro ⟨node, hwithin, hid⟩
      exact hfind node (Json.mem_preorder.2 hwithin) hid

end Value

/-! ### The log -/

theorem stripLines_of_notMem {text : List Char} (h : '\n' ∉ text) : stripLines text = text := by
  have hfront : text.dropWhile (· = '\n') = text := by
    cases text with
    | nil => rfl
    | cons c text => exact dropWhile_cons_of_neg (by simpa using (ne_of_not_mem_cons h).symm)
  rw [stripLines, hfront]
  refine rdropWhile_eq_self_iff.2 fun hne => ?_
  simp only [decide_eq_true_eq]
  exact fun hlast => h (hlast ▸ getLast_mem hne)

theorem stripLines_cons (text : List Char) : stripLines ('\n' :: text) = stripLines text := by
  rw [stripLines, dropWhile_cons_of_pos (by simp), stripLines]

def Commit.body (c : Commit) : List Char :=
  [fieldSep].intercalate [c.sha, c.author_date, c.committer_date, c.subject]

/-- The fields of a commit can be split again. -/
def Commit.Clean (c : Commit) : Prop :=
  c.sha ≠ [] ∧ ∀ field ∈ [c.sha, c.author_date, c.committer_date, c.subject],
    fieldSep ∉ field ∧ recordSep ∉ field ∧ '\n' ∉ field

namespace Commit.Clean

variable {c : Commit}

theorem notMem_body (hc : c.Clean) {mark : Char} (hmark : mark = recordSep ∨ mark = '\n') : mark ∉ c.body := by
  have hfields : ∀ field ∈ [c.sha, c.author_date, c.committer_date, c.subject], mark ∉ field := by
    intro field hfield
    rcases hmark with rfl | rfl
    · exact (hc.2 field hfield).2.1
    · exact (hc.2 field hfield).2.2
  have hsep : mark ≠ fieldSep := by
    rcases hmark with rfl | rfl <;> decide
  simp only [mem_cons, not_mem_nil, or_false, forall_eq_or_imp, forall_eq] at hfields
  simp [Commit.body, List.intercalate, hfields, hsep]

theorem body_ne_nil (hc : c.Clean) : c.body ≠ [] := by
  simp [Commit.body, List.intercalate, hc.1]

theorem parse (hc : c.Clean) {record : List Char} (hrecord : stripLines record = c.body) :
    parseRecord record = some c := by
  have hsplit : c.body.splitOn fieldSep = [c.sha, c.author_date, c.committer_date, c.subject] :=
    splitOn_intercalate fieldSep (fun field hfield => (hc.2 field hfield).1) (cons_ne_nil _ _)
  unfold parseRecord
  rw [hrecord, hsplit]
  exact if_neg hc.body_ne_nil

theorem parse_body (hc : c.Clean) : parseRecord c.body = some c :=
  hc.parse (stripLines_of_notMem (hc.notMem_body (.inr rfl)))

theorem parse_line (hc : c.Clean) : parseRecord ('\n' :: c.body) = some c :=
  hc.parse ((stripLines_cons _).trans (stripLines_of_notMem (hc.notMem_body (.inr rfl))))

end Commit.Clean

theorem filterMap_parseRecord_lines {commits : List Commit} (h : ∀ c ∈ commits, c.Clean) :
    (('\n' :: commits.flatMap Commit.render).splitOn recordSep).filterMap parseRecord = commits := by
  induction commits with
  | nil => decide
  | cons c commits ih =>
    have hc := h c mem_cons_self
    have hline : recordSep ∉ '\n' :: c.body := by
      rw [mem_cons, not_or]
      exact ⟨by decide, hc.notMem_body (.inl rfl)⟩
    have htext : '\n' :: (c :: commits).flatMap Commit.render =
        ('\n' :: c.body) ++ recordSep :: '\n' :: commits.flatMap Commit.render := by
      simp [Commit.render, Commit.body]
    rw [htext, splitOn_append_cons_self_of_not_mem hline, filterMap_cons_some hc.parse_line,
      ih fun d hd => h d (mem_cons_of_mem _ hd)]

theorem filterMap_parseRecord {commits : List Commit} (h : ∀ c ∈ commits, c.Clean) :
    ((commits.flatMap Commit.render).splitOn recordSep).filterMap parseRecord = commits := by
  cases commits with
  | nil => decide
  | cons c commits =>
    have hc := h c mem_cons_self
    have htext : (c :: commits).flatMap Commit.render =
        c.body ++ recordSep :: '\n' :: commits.flatMap Commit.render := by
      simp [Commit.render, Commit.body]
    rw [htext, splitOn_append_cons_self_of_not_mem (hc.notMem_body (.inl rfl)),
      filterMap_cons_some hc.parse_body,
      filterMap_parseRecord_lines fun d hd => h d (mem_cons_of_mem _ hd)]

theorem touching_sublist : ∀ history : List Entry, (touching history).Sublist history
  | [] => .slnil
  | e :: older => by
    rw [touching]
    split_ifs
    · exact (touching_sublist older).cons e
    · exact (touching_sublist older).cons_cons e

def newestBlob (history : List Entry) : Option String := history.head?.bind Entry.blob

theorem newestBlob_touching (history : List Entry) : newestBlob (touching history) = newestBlob history := by
  induction history with
  | nil => rfl
  | cons e older ih =>
    rw [touching]
    split_ifs with h
    · rw [ih]
      exact h.symm
    · rfl

section Walk

variable {py : PyLib} {repo : Repo} {target : Target} {value : Json}

theorem log_for_path_eq (hplain : repo.Plain py) : repo.log_for_path = (touching repo.history).map Entry.commit := by
  rw [Repo.log_for_path, ← flatMap_map]
  refine filterMap_parseRecord fun c hc => ?_
  obtain ⟨e, he, rfl⟩ := mem_map.1 hc
  exact hplain.readable e ((touching_sublist _).subset he)

theorem show_blob_eq {e : Entry} (he : e ∈ repo.history) : repo.show_blob e.commit.sha = e.blob := by
  have hfind : repo.history.find? (fun d => d.commit.sha = e.commit.sha) = some e := by
    cases hfind : repo.history.find? (fun d => d.commit.sha = e.commit.sha) with
    | none => exact absurd (find?_eq_none.1 hfind e he) (by simp)
    | some d =>
      have hsha : d.commit.sha = e.commit.sha := by simpa using find?_some hfind
      rw [inj_on_of_nodup_map repo.distinct (mem_of_find?_eq_some hfind) he hsha]
  rw [Repo.show_blob, hfind]
  rfl

def valueOf (py : PyLib) (target : Target) (blob : Option String) : Option Json :=
  (blob.bind fun text => (loadsPlain py text).toOption).bind fun data => valueIn data target

theorem value_at_commit_eq (hplain : repo.Plain py) {e : Entry} (he : e ∈ repo.history) :
    repo.value_at_commit py target e.commit = .ok (valueOf py target e.blob) := by
  rw [Repo.value_at_commit, show_blob_eq he]
  cases hblob : e.blob with
  | none => rfl
  | some text =>
    rcases hplain.json e he text hblob with ⟨data, hdata⟩ | herror
    · simp [value_of_text, valueOf, hdata, Except.toOption]
    · simp [value_of_text, valueOf, herror, Except.toOption]

section Back

variable {values : Commit → Except JsonError (Option Json)} {found : Entry → Option Json}

theorem walkBack_stop {rest : List Entry} (hvalues : ∀ e ∈ rest, values e.commit = .ok (found e))
    (hstop : ∀ parent, rest.head? = some parent → found parent ≠ some value) (c : Commit) :
    walkBack values value c (rest.map Entry.commit) = .ok (c, rest.head?.map Entry.commit) := by
  cases rest with
  | nil => rfl
  | cons parent rest =>
    rw [map_cons, walkBack, hvalues parent mem_cons_self]
    exact if_neg (hstop parent rfl)

theorem walkBack_run {newer rest : List Entry} {change : Entry}
    (hvalues : ∀ e ∈ newer ++ change :: rest, values e.commit = .ok (found e))
    (hrun : ∀ e ∈ newer ++ [change], found e = some value)
    (hstop : ∀ parent, rest.head? = some parent → found parent ≠ some value) (c : Commit) :
    walkBack values value c ((newer ++ change :: rest).map Entry.commit) =
      .ok (change.commit, rest.head?.map Entry.commit) := by
  induction newer generalizing c with
  | nil =>
    rw [nil_append, map_cons, walkBack, hvalues change mem_cons_self]
    refine (if_pos (hrun change mem_cons_self)).trans ?_
    exact walkBack_stop (fun e he => hvalues e (mem_cons_of_mem _ he)) hstop change.commit
  | cons e newer ih =>
    rw [cons_append, map_cons, walkBack, hvalues e mem_cons_self]
    refine (if_pos (hrun e mem_cons_self)).trans ?_
    exact ih (fun d hd => hvalues d (mem_cons_of_mem _ hd)) (fun d hd => hrun d (mem_cons_of_mem _ hd)) _

end Back

section Runs

variable {p : Entry → Prop}

theorem exists_run (e : Entry) (history : List Entry) (he : p e) :
    ∃ newer change older, e :: history = newer ++ change :: older ∧ (∀ d ∈ newer ++ [change], p d) ∧
      ∀ parent, older.head? = some parent → ¬ p parent := by
  induction history generalizing e with
  | nil => exact ⟨[], e, [], rfl, by simpa using he, nofun⟩
  | cons d history ih =>
    by_cases hd : p d
    · obtain ⟨newer, change, older, hsplit, hrun, hstop⟩ := ih d hd
      refine ⟨e :: newer, change, older, by rw [hsplit, cons_append], ?_, hstop⟩
      intro x hx
      rcases mem_cons.1 hx with rfl | hx
      · exact he
      · exact hrun x hx
    · refine ⟨[], e, d :: history, rfl, by simpa using he, ?_⟩
      rintro parent hparent
      rwa [← Option.some.inj hparent]

theorem takeWhile_run {run rest : List Entry} [DecidablePred p] (hrun : ∀ d ∈ run, p d)
    (hstop : ∀ parent, rest.head? = some parent → ¬ p parent) : (run ++ rest).takeWhile (fun e => p e) = run := by
  rw [takeWhile_append_of_pos (by simpa using hrun)]
  cases rest with
  | nil => simp
  | cons parent rest => simp [hstop parent rfl]

theorem run_unique {newer newer' older older' : List Entry} {change change' : Entry}
    (hsplit : newer ++ change :: older = newer' ++ change' :: older')
    (hrun : ∀ d ∈ newer ++ [change], p d) (hstop : ∀ parent, older.head? = some parent → ¬ p parent)
    (hrun' : ∀ d ∈ newer' ++ [change'], p d) (hstop' : ∀ parent, older'.head? = some parent → ¬ p parent) :
    change = change' ∧ older = older' := by
  classical
  rw [append_cons newer, append_cons newer'] at hsplit
  have hends : newer ++ [change] = newer' ++ [change'] := by
    rw [← takeWhile_run hrun hstop, hsplit, takeWhile_run hrun' hstop']
  rw [hends] at hsplit
  exact ⟨by simpa using (append_inj' hends rfl).2, append_cancel_left hsplit⟩

theorem touching_run {newer older : List Entry} {change : Entry} (hblob : ∀ e d : Entry, e.blob = d.blob → p e → p d)
    (hbody : ∀ e, p e → e.blob ≠ none) (hrun : ∀ d ∈ newer ++ [change], p d)
    (hstop : ∀ parent, older.head? = some parent → ¬ p parent) :
    ∃ newer', touching (newer ++ change :: older) = newer' ++ change :: touching older ∧
      ∀ d ∈ newer' ++ [change], p d := by
  induction newer with
  | nil =>
    have hchange : change.blob ≠ older.head?.bind Entry.blob := by
      have hp := hrun change mem_cons_self
      cases older with
      | nil => exact hbody change hp
      | cons parent older => exact fun heq => hstop parent rfl (hblob change parent heq hp)
    exact ⟨[], by rw [nil_append, touching, if_neg hchange, nil_append], hrun⟩
  | cons e newer ih =>
    obtain ⟨newer', hsplit, hrun'⟩ := ih fun d hd => hrun d (mem_cons_of_mem _ hd)
    rw [cons_append, touching, hsplit]
    split_ifs
    · exact ⟨newer', rfl, hrun'⟩
    · refine ⟨e :: newer', rfl, ?_⟩
      intro x hx
      rcases mem_cons.1 hx with rfl | hx
      · exact hrun x mem_cons_self
      · exact hrun' x hx

end Runs

/-! ### The link -/

def linkOf (py : PyLib) (target : Target) (change : Entry) (older : List Entry) : VersionLink where
  commit := change.commit.sha
  commit_subject := change.commit.subject
  committed_at := change.commit.committer_date
  parent_commit := ((touching older).head?.map fun parent => parent.commit.sha).getD []
  window_start := ((touching older).head?.map fun parent => parent.commit.committer_date).getD []
  window_end := change.commit.committer_date
  change_kind := if (valueOf py target (newestBlob older)).isSome then .changed else .introduced

theorem valueOf_eq_some_iff (hplain : repo.Plain py) (hvalue : hasId target.node_id value = true) {e : Entry}
    (he : e ∈ repo.history) : valueOf py target e.blob = some value ↔ e.Gives py target.node_id value := by
  unfold valueOf Entry.Gives
  rw [Option.bind_eq_some_iff]
  constructor
  · rintro ⟨data, hdata, h⟩
    obtain ⟨node, hwithin, hid, hcanonical⟩ := (valueIn_eq_iff (hplain.unique e he data hdata) hvalue).1 h
    exact ⟨data, node, hdata, hwithin, hid, hcanonical⟩
  · rintro ⟨data, node, hdata, hwithin, hid, hcanonical⟩
    exact ⟨data, hdata, (valueIn_eq_iff (hplain.unique e he data hdata) hvalue).2 ⟨node, hwithin, hid, hcanonical⟩⟩

theorem isSome_valueOf {e : Entry} : (valueOf py target e.blob).isSome = true ↔
    e.Has py target.node_id ∨ e.Occupied py target.node_path := by
  unfold Entry.Has Entry.Gives Entry.Occupied Entry.body valueOf
  cases e.blob.bind fun text => (loadsPlain py text).toOption with
  | none => simp
  | some data =>
    rw [Option.bind_some, isSome_valueIn]
    constructor
    · rintro (⟨node, hwithin, hid⟩ | ⟨node, hnavigate, hne⟩)
      · exact .inl ⟨_, data, node, rfl, hwithin, hid, rfl⟩
      · exact .inr ⟨data, node, rfl, hnavigate, hne⟩
    · rintro (⟨_, data, node, hdata, hwithin, hid, -⟩ | ⟨data, node, hdata, hnavigate, hne⟩) <;>
        obtain rfl := Option.some.inj hdata
      · exact .inl ⟨node, hwithin, hid⟩
      · exact .inr ⟨node, hnavigate, hne⟩

/-- The link of a target is that of the end of its newest run. -/
theorem resolve_version_run (hplain : repo.Plain py) (hvalue : hasId target.node_id value = true)
    {change : Entry} {older : List Entry} (hends : RunEnds py repo.history target.node_id value change older) :
    repo.resolve_version py target = .ok (some (linkOf py target change older)) := by
  obtain ⟨⟨newer, hhistory, hrun⟩, hstop⟩ := hends
  have hgives : ∀ e ∈ repo.history, valueOf py target e.blob = some value ↔ e.Gives py target.node_id value :=
    fun e he => valueOf_eq_some_iff hplain hvalue he
  have hrun' : ∀ d ∈ newer ++ [change], valueOf py target d.blob = some value := by
    intro d hd
    refine (hgives d ?_).2 (hrun d hd)
    rw [hhistory, append_cons]
    exact mem_append_left _ hd
  have hstop' : ∀ parent, older.head? = some parent → valueOf py target parent.blob ≠ some value := by
    intro parent hparent h
    refine hstop parent hparent ((hgives parent ?_).1 h)
    rw [hhistory]
    exact mem_append_right _ (mem_cons_of_mem _ (mem_of_head? hparent))
  obtain ⟨run, hsplit, hrun⟩ := touching_run (p := fun e => valueOf py target e.blob = some value)
    (fun e d hblob h => hblob ▸ h) (fun e h hnone => by rw [hnone] at h; exact nomatch h) hrun' hstop'
  rw [← hhistory] at hsplit
  have hvalues : ∀ e ∈ run ++ change :: touching older,
      repo.value_at_commit py target e.commit = .ok (valueOf py target e.blob) := by
    intro e he
    exact value_at_commit_eq hplain ((touching_sublist _).subset (hsplit ▸ he))
  -- the body before the run is that of the commit before it in the log
  have hparent : (touching older).head?.bind Entry.blob = newestBlob older := newestBlob_touching older
  have hstop : ∀ parent, (touching older).head? = some parent → valueOf py target parent.blob ≠ some value := by
    intro parent hhead h
    rw [hhead, Option.bind_some, newestBlob] at hparent
    cases hold : older.head? with
    | none =>
      rw [hold, Option.bind_none] at hparent
      rw [hparent] at h
      exact nomatch h
    | some e =>
      rw [hold, Option.bind_some] at hparent
      exact hstop' e hold (hparent ▸ h)
  have hlast : ∀ newest rest, run ++ change :: touching older = newest :: rest →
      valueOf py target newest.blob = some value ∧
        walkBack (repo.value_at_commit py target) value newest.commit (rest.map Entry.commit) =
          .ok (change.commit, (touching older).head?.map Entry.commit) := by
    intro newest rest hcons
    cases run with
    | nil =>
      obtain ⟨rfl, rfl⟩ := List.cons.inj hcons
      exact ⟨hrun _ mem_cons_self,
        walkBack_stop (fun e he => hvalues e (mem_cons_of_mem _ he)) hstop _⟩
    | cons e run =>
      obtain ⟨rfl, rfl⟩ := List.cons.inj hcons
      exact ⟨hrun _ mem_cons_self, walkBack_run (fun d hd => hvalues d (mem_cons_of_mem _ hd))
        (fun d hd => hrun d (mem_cons_of_mem _ hd)) hstop _⟩
  obtain ⟨newest, rest, hcons⟩ := exists_cons_of_ne_nil (l := run ++ change :: touching older) (by simp)
  obtain ⟨hnewest, hwalk⟩ := hlast newest rest hcons
  rw [Repo.resolve_version, log_for_path_eq hplain, hsplit, hcons, map_cons]
  rw [hcons] at hvalues
  simp only [hvalues newest mem_cons_self, hnewest, hwalk, bind, Except.bind, pure, Except.pure]
  cases hhead : (touching older).head? with
  | none =>
    rw [hhead, Option.bind_none] at hparent
    simp [linkOf, hhead, ← hparent, valueOf]
  | some parent =>
    rw [hhead, Option.bind_some] at hparent
    have hmem : parent ∈ run ++ change :: touching older :=
      mem_append_right _ (mem_cons_of_mem _ (mem_of_head? hhead))
    simp [linkOf, hhead, ← hparent, hvalues parent (hcons ▸ hmem)]

theorem Target.AtAnchor.exists_run (htarget : target.AtAnchor py repo value) : hasId target.node_id value = true ∧
    ∃ change older, RunEnds py repo.history target.node_id value change older := by
  obtain ⟨newest, older, data, node, hhistory, hdata, hnavigate, hid, rfl⟩ := htarget
  refine ⟨(hasId_canonical _ _).trans hid, ?_⟩
  have hwithin : Json.Within node data := by
    rcases within_of_navigate hnavigate with ⟨s, rfl⟩ | hwithin
    · exact nomatch hid
    · exact hwithin
  obtain ⟨newer, change, rest, hsplit, hrun, hstop⟩ := exists_run
    (p := fun e => e.Gives py target.node_id (canonical node)) newest older ⟨data, node, hdata, hwithin, hid, rfl⟩
  exact ⟨change, rest, ⟨newer, hhistory.trans hsplit, hrun⟩, hstop⟩

theorem introduced_iff (change : Entry) (older : List Entry) :
    (linkOf py target change older).change_kind = .introduced ↔
      ∀ parent, older.head? = some parent → ¬ (parent.Has py target.node_id ∨
        parent.Occupied py target.node_path) := by
  unfold linkOf newestBlob
  cases older.head? with
  | none => simp [valueOf]
  | some parent => simp [← isSome_valueOf]

/-- The link names the end of the newest run, and it is right about the introduction of the node exactly if nothing
stands at the node's position in a parent without the node. -/
theorem provenance_exact_iff (hplain : repo.Plain py) (htarget : target.AtAnchor py repo value) :
    Attributed py repo target value ↔
      ∀ change older, RunEnds py repo.history target.node_id value change older →
        ∀ parent, older.head? = some parent →
          parent.Has py target.node_id ∨ ¬ parent.Occupied py target.node_path := by
  obtain ⟨hvalue, change, older, hends⟩ := htarget.exists_run
  have hunique : ∀ change' older', RunEnds py repo.history target.node_id value change' older' →
      change = change' ∧ older = older' := by
    intro change' older' hends'
    obtain ⟨⟨newer, hsplit, hrun⟩, hstop⟩ := hends
    obtain ⟨⟨newer', hsplit', hrun'⟩, hstop'⟩ := hends'
    exact run_unique (hsplit.symm.trans hsplit') hrun hstop hrun' hstop'
  have hkind : _ ↔ _ := @introduced_iff py target change older
  have hattributed : Attributed py repo target value ↔
      ((linkOf py target change older).change_kind = .introduced ↔
        ∀ parent, older.head? = some parent → ¬ parent.Has py target.node_id) := by
    constructor
    · rintro ⟨change', older', link, hends', hlink, -, h⟩
      obtain ⟨rfl, rfl⟩ := hunique change' older' hends'
      rw [resolve_version_run hplain hvalue hends] at hlink
      obtain rfl := Option.some.inj (Except.ok.inj hlink)
      exact h
    · exact fun h => ⟨change, older, _, hends, resolve_version_run hplain hvalue hends, rfl, h⟩
  rw [hattributed, hkind]
  constructor
  · intro h change' older' hends' parent hparent
    obtain ⟨rfl, rfl⟩ := hunique change' older' hends'
    by_contra hnot
    obtain ⟨hhas, hoccupied⟩ := not_or.1 hnot
    refine h.2 (fun other hother => ?_) parent hparent (.inr (not_not.1 hoccupied))
    rwa [Option.eq_some_unique hother hparent]
  · intro h
    refine forall_congr' fun parent => forall_congr' fun hparent => not_congr ?_
    have hcase := h change older hends parent hparent
    tauto

end Walk

def bodyOf (node_id : String) : Json := .arr [.obj [("id", .str node_id)]]

theorem bodyOf_unique (node_id : String) : UniqueIds (bodyOf node_id) := by
  intro other
  have hpreorder : (bodyOf node_id).preorder = [bodyOf node_id, .obj [("id", .str node_id)], .str node_id] := rfl
  rw [hpreorder, filter_cons_of_neg (by simp [bodyOf, hasId]), filter_cons]
  split_ifs <;> simp [hasId]

def replacing : Entry := ⟨⟨['2'], ['d'], ['d'], ['b']⟩, some "[\x7b\"id\":\"b\"\x7d]"⟩
def replaced : Entry := ⟨⟨['1'], ['d'], ['d'], ['a']⟩, some "[\x7b\"id\":\"a\"\x7d]"⟩

/-- A node is put in the place of another one. -/
def replacedRepo : Repo := ⟨[replacing, replaced], by decide⟩

def replacingTarget : Target := ⟨"b", [.index 0], by decide⟩

theorem sample_bodies :
    replacing.body asciiLib = some (bodyOf "b") ∧ replaced.body asciiLib = some (bodyOf "a") := by
  decide +kernel

theorem replacedRepo_body {e : Entry} (he : e ∈ replacedRepo.history) :
    e.body asciiLib = some (bodyOf "b") ∨ e.body asciiLib = some (bodyOf "a") := by
  rw [replacedRepo, mem_pair] at he
  rcases he with rfl | rfl
  · exact .inl sample_bodies.1
  · exact .inr sample_bodies.2

theorem replacedRepo_plain : replacedRepo.Plain asciiLib where
  readable := by simp [replacedRepo, replacing, replaced, fieldSep, recordSep]
  json := by
    intro e he text htext
    have hbody := replacedRepo_body he
    rw [Entry.body, htext, Option.bind_some] at hbody
    cases hloads : loadsPlain asciiLib text with
    | ok data => exact .inl ⟨data, rfl⟩
    | error e => simp [hloads, Except.toOption] at hbody
  unique := by
    intro e he data hdata
    rcases replacedRepo_body he with hbody | hbody
    · obtain rfl := Option.eq_some_unique hdata hbody
      exact bodyOf_unique "b"
    · obtain rfl := Option.eq_some_unique hdata hbody
      exact bodyOf_unique "a"

theorem replacingTarget_atAnchor :
    replacingTarget.AtAnchor asciiLib replacedRepo (canonical (.obj [("id", .str "b")])) :=
  ⟨replacing, [replaced], bodyOf "b", .obj [("id", .str "b")], rfl, sample_bodies.1, rfl, by decide, rfl⟩

/-- The law at a history that puts a node in the place of another one. -/
theorem provenance_replaced :
    Attributed asciiLib replacedRepo replacingTarget (canonical (.obj [("id", .str "b")])) ↔
      ∀ change older, RunEnds asciiLib replacedRepo.history "b" (canonical (.obj [("id", .str "b")])) change older →
        ∀ parent, older.head? = some parent →
          parent.Has asciiLib "b" ∨ ¬ parent.Occupied asciiLib [.index 0] :=
  provenance_exact_iff replacedRepo_plain replacingTarget_atAnchor

/-- A node put in the place of another one is reported as a change of it. -/
theorem replaced_not_attributed : ∃ (repo : Repo) (target : Target) (value : Json), repo.Plain asciiLib ∧
    target.AtAnchor asciiLib repo value ∧ ¬ Attributed asciiLib repo target value := by
  refine ⟨replacedRepo, replacingTarget, _, replacedRepo_plain, replacingTarget_atAnchor, ?_⟩
  rintro ⟨change, older, link, hends, hlink, -, hkind⟩
  have hvalue := replacingTarget_atAnchor.exists_run.1
  rw [resolve_version_run replacedRepo_plain hvalue hends] at hlink
  obtain rfl := Option.some.inj (Except.ok.inj hlink)
  have hno : ∀ node, Json.Within node (bodyOf "a") → ¬ hasId "b" node = true := by
    intro node hwithin
    have hmem := Json.mem_preorder.2 hwithin
    simp only [bodyOf, Json.preorder, Json.preorderItems, Json.preorderFields, append_nil,
      mem_cons, not_mem_nil, or_false] at hmem
    rcases hmem with rfl | rfl | rfl <;> decide
  have hends' : RunEnds asciiLib replacedRepo.history "b" (canonical (.obj [("id", .str "b")]))
      replacing [replaced] := by
    refine ⟨⟨[], rfl, fun e he => ?_⟩, fun parent hparent => ?_⟩
    · rw [nil_append, mem_singleton] at he
      subst he
      refine ⟨bodyOf "b", .obj [("id", .str "b")], sample_bodies.1, ?_, by decide, rfl⟩
      exact .item mem_cons_self (.refl _)
    · obtain rfl := Option.some.inj hparent
      rintro ⟨data, node, hdata, hwithin, hid, -⟩
      rw [sample_bodies.2] at hdata
      obtain rfl := Option.some.inj hdata
      exact hno node hwithin hid
  obtain ⟨⟨newer, hsplit, hrun⟩, hstop⟩ := hends
  obtain ⟨⟨newer', hsplit', hrun'⟩, hstop'⟩ := hends'
  obtain ⟨-, rfl⟩ := run_unique (hsplit.symm.trans hsplit') hrun hstop hrun' hstop'
  refine (introduced_iff change [replaced]).1 (hkind.2 fun parent hparent => ?_) replaced rfl
    (.inr ⟨_, .obj [("id", .str "a")], sample_bodies.2, rfl, nofun⟩)
  obtain rfl := Option.some.inj hparent
  rintro ⟨_, data, node, hdata, hwithin, hid, -⟩
  rw [sample_bodies.2] at hdata
  obtain rfl := Option.some.inj hdata
  exact hno node hwithin hid

end Judge

end AiOrg
