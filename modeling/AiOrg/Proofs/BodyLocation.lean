import AiOrg.Proofs.BodyIndex

/-!
# Locating a term in a body

Where the index of a text does not raise, it agrees with the parser: it has the scalar leaves of the parsed document in
their order, they stand apart, the text of each is a text of its value, and its path leads to it. The lookup of a term
goes wrong where the term's first place in the text begins in a scalar but does not end in it, or is in no scalar at
all while a number or a literal further on has the term (`index_agrees_iff`).
-/

namespace AiOrg

open List

namespace BodyCodec

open PyStr (plain)
open Checks

variable {text : PyStr} {part : Part}

theorem render_length_pos (value : Spelling .value) : 0 < value.render.length := by
  obtain ⟨c, tail, hrender, -⟩ := render_head value
  rw [hrender, length_cons]
  omega

theorem length_member (before after : Space) (key : List Piece) (colon : Space × Space) (value : Spelling .value)
    (rest : Spelling .members) (i : ℕ) : i + (Spelling.member before key colon value after rest).render.length =
      valueOffset (i + before.text.length) key colon + value.render.length + after.text.length +
        rest.comma.length + rest.render.length := by
  simp only [Spelling.render, length_append, length_cons, valueOffset]
  omega

theorem length_item (before after : Space) (value : Spelling .value) (rest : Spelling .items) (i : ℕ) :
    i + (Spelling.item before value after rest).render.length =
      i + before.text.length + value.render.length + after.text.length + rest.comma.length + rest.render.length := by
  simp only [Spelling.render, length_append]
  omega

theorem le_valueOffset (i : ℕ) (key : List Piece) (colon : Space × Space) : i ≤ valueOffset i key colon := by
  rw [valueOffset]
  omega

structure Apart (start stop : ℕ) (scalars : List ScalarLoc) : Prop where
  within : ∀ scalar ∈ scalars, start ≤ scalar.start ∧ scalar.start < scalar.stop ∧ scalar.stop ≤ stop
  ordered : scalars.Pairwise fun a b => a.stop ≤ b.start

namespace Apart

variable {start stop : ℕ} {scalars : List ScalarLoc}

theorem nil (start stop : ℕ) : Apart start stop [] := ⟨fun _ h => (nomatch h), .nil⟩

theorem single (path : Path) (value : Spelling .value) (v : Value) (i : ℕ) :
    Apart i (i + value.render.length) [⟨path, i, i + value.render.length, v⟩] := by
  have hpos := render_length_pos value
  refine ⟨?_, pairwise_singleton _ _⟩
  intro scalar hscalar
  obtain rfl := mem_singleton.1 hscalar
  exact ⟨le_rfl, by dsimp only; omega, le_rfl⟩

theorem mono {start' stop' : ℕ} (h : Apart start stop scalars) (hstart : start' ≤ start) (hstop : stop ≤ stop') :
    Apart start' stop' scalars := by
  refine ⟨fun scalar hscalar => ?_, h.ordered⟩
  obtain ⟨hfrom, hspan, hto⟩ := h.within scalar hscalar
  exact ⟨hstart.trans hfrom, hspan, hto.trans hstop⟩

theorem append {middle middle' : ℕ} {more : List ScalarLoc} (h : Apart start middle scalars)
    (hmore : Apart middle' stop more) (hstart : start ≤ middle') (hmiddle : middle ≤ middle') (hstop : middle ≤ stop) :
    Apart start stop (scalars ++ more) := by
  refine ⟨?_, pairwise_append.2 ⟨h.ordered, hmore.ordered, ?_⟩⟩
  · intro scalar hscalar
    rcases mem_append.1 hscalar with hscalar | hscalar
    · exact (h.mono le_rfl hstop).within scalar hscalar
    · exact (hmore.mono hstart le_rfl).within scalar hscalar
  · intro a ha b hb
    have := (h.within a ha).2.2
    have := (hmore.within b hb).1
    omega

end Apart

theorem located_apart (spelling : Spelling part) (path : Path) (idx i : ℕ) :
    Apart i (i + spelling.render.length) (spelling.located path idx i) := by
  induction spelling generalizing path idx i with
  | null => exact .single path .null _ i
  | bool b => exact .single path (.bool b) _ i
  | number n => exact .single path (.number n) _ i
  | constant c => exact .single path (.constant c) _ i
  | str pieces => exact .single path (.str pieces) _ i
  | arr items ih =>
    refine (ih path 0 (i + 1)).mono (by omega) ?_
    simp only [Spelling.render, length_cons, length_append]
    omega
  | obj members ih =>
    refine (ih path 0 (i + 1)).mono (by omega) ?_
    simp only [Spelling.render, length_cons, length_append]
    omega
  | noItems space | noMembers space => exact .nil _ _
  | item before value after rest ihvalue ihrest =>
    rw [length_item]
    refine ((ihvalue (path ++ [.index idx]) 0 (i + before.text.length)).mono (Nat.le_add_right _ _) le_rfl).append
      (ihrest path (idx + 1) _) ?_ ?_ ?_ <;> omega
  | member before key colon value after rest ihvalue ihrest =>
    have hoffset := le_valueOffset (i + before.text.length) key colon
    rw [length_member]
    refine ((ihvalue (path ++ [.key (content key)]) 0 (valueOffset (i + before.text.length) key colon)).mono
      (show i ≤ _ by omega) le_rfl).append (ihrest path 0 _) ?_ ?_ ?_ <;> omega

theorem raw_of_drop {front rest : PyStr} {i : ℕ} (path : Path) (v : Value) (h : text.drop i = front ++ rest) :
    ScalarLoc.raw text ⟨path, i, i + front.length, v⟩ = front := by
  rw [ScalarLoc.raw, h, Nat.add_sub_cancel_left, take_left]

theorem located_raw {i : ℕ} {rest : PyStr} (spelling : Spelling part) (path : Path) (idx : ℕ)
    (h : text.drop i = spelling.render ++ rest) {scalar : ScalarLoc} (hscalar : scalar ∈ spelling.located path idx i) :
    ∃ value : Spelling .value, scalar.raw text = value.render ∧
      ∀ room, value.read floatConstant room = .ok scalar.value := by
  induction spelling generalizing path idx i rest with
  | null =>
    obtain rfl := mem_singleton.1 hscalar
    exact ⟨.null, raw_of_drop path _ h, fun _ => rfl⟩
  | bool b =>
    obtain rfl := mem_singleton.1 hscalar
    exact ⟨.bool b, raw_of_drop path _ h, fun _ => rfl⟩
  | number n =>
    obtain rfl := mem_singleton.1 hscalar
    exact ⟨.number n, raw_of_drop path _ h, fun _ => rfl⟩
  | constant c =>
    obtain rfl := mem_singleton.1 hscalar
    exact ⟨.constant c, raw_of_drop path _ h, fun _ => rfl⟩
  | str pieces =>
    obtain rfl := mem_singleton.1 hscalar
    exact ⟨.str pieces, raw_of_drop path _ h, fun _ => rfl⟩
  | arr items ih =>
    have hopen : text.drop i = .scalar '[' :: (items.render ++ .scalar ']' :: rest) := by
      rw [h]
      simp [Spelling.render]
    exact ih path 0 (drop_succ hopen) hscalar
  | obj members ih =>
    have hopen : text.drop i = .scalar '\x7b' :: (members.render ++ .scalar '\x7d' :: rest) := by
      rw [h]
      simp [Spelling.render]
    exact ih path 0 (drop_succ hopen) hscalar
  | noItems space | noMembers space => cases hscalar
  | item before value after more ihvalue ihmore =>
    simp only [Spelling.render, append_assoc] at h
    have hvalue := drop_add h
    have hmore := drop_add (drop_add (drop_add hvalue))
    rcases mem_append.1 hscalar with hscalar | hscalar
    · exact ihvalue _ _ hvalue hscalar
    · exact ihmore _ _ hmore hscalar
  | member before key colon value after more ihvalue ihmore =>
    simp only [Spelling.render, append_assoc, cons_append] at h
    have hvalue := drop_add (drop_succ (drop_add (drop_add (drop_succ (drop_add h)))))
    have hmore := drop_add (drop_add (drop_add hvalue))
    rcases mem_append.1 hscalar with hscalar | hscalar
    · exact ihvalue _ _ hvalue hscalar
    · exact ihmore _ _ hmore hscalar

theorem jsonLoads_raw {value : Spelling .value} {v : Value} (room : ℕ)
    (h : value.read floatConstant room = .ok v) : jsonLoads floatConstant room value.render = .ok v := by
  have hloads := @jsonLoads_render floatConstant ⟨noSpace, value, noSpace⟩ room
  rw [← h, ← hloads]
  simp [Document.render, noSpace]

theorem object_pairs_foldlM {pairs before members : List (PyStr × Value)}
    (h : pairs.foldlM (fun result pair => if pair.1 ∈ result.map Prod.fst then
      Except.error (CodecError.duplicateKey pair.1) else .ok (result ++ [pair])) before = .ok members)
    (hbefore : (before.map Prod.fst).Nodup) : members = before ++ pairs ∧ (members.map Prod.fst).Nodup := by
  induction pairs generalizing before with
  | nil =>
    obtain rfl : before = members := Except.ok.inj h
    exact ⟨(append_nil _).symm, hbefore⟩
  | cons pair pairs ih =>
    rw [foldlM_cons] at h
    obtain ⟨result, hresult, h⟩ := bind_eq_ok_iff.1 h
    split_ifs at hresult with hmem
    obtain rfl := Except.ok.inj hresult
    obtain ⟨rfl, hnodup⟩ := ih h (by
      rw [map_append, map_singleton]
      exact nodup_append_comm.1 (nodup_cons.2 ⟨hmem, hbefore⟩))
    exact ⟨by simp, hnodup⟩

theorem object_pairs_eq_ok {pairs members : List (PyStr × Value)} (h : object_pairs pairs = .ok members) :
    members = pairs ∧ (members.map Prod.fst).Nodup :=
  object_pairs_foldlM h nodup_nil

def ScalarLoc.leaf (scalar : ScalarLoc) : Path × Value := (scalar.path, scalar.value)

def leavesOf : (part : Part) → Path → ℕ → Spelling.Meaning part → List (Path × Value)
  | .value, path, _, v => leaves path v
  | .items, path, idx, vs => itemLeaves path idx vs
  | .members, path, _, pairs => memberLeaves path pairs

def LeadsTo : (part : Part) → Path → ℕ → Spelling.Meaning part → ScalarLoc → Prop
  | .value, path, _, v, scalar => ∃ tail, scalar.path = path ++ tail ∧ navigate v tail = some scalar.value
  | .items, path, idx, vs, scalar => ∃ (k : ℕ) (child : Value) (tail : Path),
      scalar.path = path ++ .index (idx + k) :: tail ∧ vs[k]? = some child ∧ navigate child tail = some scalar.value
  | .members, path, _, pairs, scalar => ∃ key child tail,
      scalar.path = path ++ .key key :: tail ∧ (key, child) ∈ pairs ∧ navigate child tail = some scalar.value

structure Parsed (part : Part) (path : Path) (idx : ℕ) (meaning : Spelling.Meaning part)
    (scalars : List ScalarLoc) : Prop where
  same : scalars.map ScalarLoc.leaf = leavesOf part path idx meaning
  leads : ∀ scalar ∈ scalars, LeadsTo part path idx meaning scalar

theorem Parsed.single (path : Path) (idx : ℕ) {v : Value} (hv : leaves path v = [(path, v)]) (start stop : ℕ) :
    Parsed .value path idx v [⟨path, start, stop, v⟩] := by
  refine ⟨hv.symm, fun scalar hscalar => ?_⟩
  obtain rfl := mem_singleton.1 hscalar
  exact ⟨[], (append_nil _).symm, rfl⟩

theorem located_parsed (spelling : Spelling part) {room : ℕ} {meaning : Spelling.Meaning part}
    (h : spelling.read floatConstant room = .ok meaning) (path : Path) (idx i : ℕ) :
    Parsed part path idx meaning (spelling.located path idx i) := by
  induction spelling generalizing room path idx i with
  | null =>
    obtain rfl := Except.ok.inj h
    exact .single path idx rfl _ _
  | bool b =>
    obtain rfl := Except.ok.inj h
    exact .single path idx rfl _ _
  | number n =>
    obtain rfl := Except.ok.inj h
    exact .single path idx rfl _ _
  | constant c =>
    obtain rfl := Except.ok.inj h
    exact .single path idx rfl _ _
  | str pieces =>
    obtain rfl := Except.ok.inj h
    exact .single path idx rfl _ _
  | arr items ih =>
    cases room with
    | zero => cases h
    | succ room =>
      obtain ⟨vs, hvs, rfl⟩ := map_eq_ok_iff.1 h
      obtain ⟨hsame, hleads⟩ := ih hvs path 0 (i + 1)
      refine ⟨hsame, fun scalar hscalar => ?_⟩
      obtain ⟨k, child, tail, hpath, hchild, hnavigate⟩ := hleads scalar hscalar
      rw [Nat.zero_add] at hpath
      exact ⟨_, hpath, by rw [navigate, item, hchild]; exact hnavigate⟩
  | obj members ih =>
    cases room with
    | zero => cases h
    | succ room =>
      obtain ⟨pairs, hpairs, h⟩ := bind_eq_ok_iff.1 h
      obtain ⟨ms, hms, rfl⟩ := map_eq_ok_iff.1 h
      obtain ⟨rfl, hnodup⟩ := object_pairs_eq_ok hms
      obtain ⟨hsame, hleads⟩ := ih hpairs path 0 (i + 1)
      refine ⟨hsame, fun scalar hscalar => ?_⟩
      obtain ⟨key, child, tail, hpath, hchild, hnavigate⟩ := hleads scalar hscalar
      have hlookup : ms.lookup key = some child := by
        rw [lawful_beq_subsingleton List.instBEq instBEqOfDecidableEq]
        exact lookup_of_mem hnodup hchild
      exact ⟨_, hpath, by rw [navigate, item, hlookup]; exact hnavigate⟩
  | noItems space =>
    obtain rfl := Except.ok.inj h
    exact ⟨rfl, fun _ h => nomatch h⟩
  | noMembers space =>
    obtain rfl := Except.ok.inj h
    exact ⟨rfl, fun _ h => nomatch h⟩
  | item before value after rest ihvalue ihrest =>
    obtain ⟨v, hv, h⟩ := bind_eq_ok_iff.1 h
    obtain ⟨vs, hvs, rfl⟩ := map_eq_ok_iff.1 h
    obtain ⟨hsame, hleads⟩ := ihvalue hv (path ++ [.index idx]) 0 (i + before.text.length)
    obtain ⟨hsame', hleads'⟩ := ihrest hvs path (idx + 1)
      (i + before.text.length + value.render.length + after.text.length + rest.comma.length)
    constructor
    · rw [Spelling.located, map_append, hsame, hsame']
      rfl
    · intro scalar hscalar
      rcases mem_append.1 hscalar with hscalar | hscalar
      · obtain ⟨tail, hpath, hnavigate⟩ := hleads scalar hscalar
        exact ⟨0, v, tail, by rw [hpath]; simp, rfl, hnavigate⟩
      · obtain ⟨k, child, tail, hpath, hchild, hnavigate⟩ := hleads' scalar hscalar
        exact ⟨k + 1, child, tail, by rw [hpath, Nat.add_assoc, Nat.add_comm 1], hchild, hnavigate⟩
  | member before key colon value after rest ihvalue ihrest =>
    obtain ⟨v, hv, h⟩ := bind_eq_ok_iff.1 h
    obtain ⟨pairs, hpairs, rfl⟩ := map_eq_ok_iff.1 h
    obtain ⟨hsame, hleads⟩ := ihvalue hv (path ++ [.key (content key)]) 0
      (valueOffset (i + before.text.length) key colon)
    obtain ⟨hsame', hleads'⟩ := ihrest hpairs path 0
      (valueOffset (i + before.text.length) key colon + value.render.length + after.text.length + rest.comma.length)
    constructor
    · refine (map_append ..).trans ?_
      exact congrArg₂ (· ++ ·) hsame hsame'
    · intro scalar hscalar
      rcases mem_append.1 hscalar with hscalar | hscalar
      · obtain ⟨tail, hpath, hnavigate⟩ := hleads scalar hscalar
        exact ⟨content key, v, tail, by rw [hpath]; simp, mem_cons_self, hnavigate⟩
      · obtain ⟨key', child, tail, hpath, hchild, hnavigate⟩ := hleads' scalar hscalar
        exact ⟨key', child, tail, hpath, mem_cons_of_mem _ hchild, hnavigate⟩

section Find

variable {term : PyStr} {pos : ℕ}

theorem prefix_of_find (h : find term text = some pos) : term <+: text.drop pos := by
  induction text generalizing pos with
  | nil =>
    rw [find] at h
    split_ifs at h with hterm
    rw [hterm]
    exact nil_prefix
  | cons c text ih =>
    rw [find] at h
    split_ifs at h with hprefix
    · obtain rfl := Option.some.inj h
      exact hprefix
    · obtain ⟨pos, hpos, rfl⟩ := Option.map_eq_some_iff.1 h
      exact ih hpos

theorem find_le {k : ℕ} (hk : k ≤ text.length) (hterm : term <+: text.drop k) :
    ∃ pos ≤ k, find term text = some pos := by
  induction text generalizing k with
  | nil =>
    rw [drop_nil, prefix_nil] at hterm
    exact ⟨0, Nat.zero_le k, if_pos hterm⟩
  | cons c text ih =>
    rw [find]
    split_ifs with hprefix
    · exact ⟨0, Nat.zero_le k, rfl⟩
    · cases k with
      | zero => exact absurd hterm hprefix
      | succ k =>
        obtain ⟨pos, hpos, hfind⟩ := ih (Nat.le_of_succ_le_succ hk) hterm
        exact ⟨pos + 1, Nat.succ_le_succ hpos, by rw [hfind]; rfl⟩

theorem infix_raw_iff {scalar : ScalarLoc} (hspan : scalar.start < scalar.stop ∧ scalar.stop ≤ text.length) :
    term <:+: scalar.raw text ↔
      ∃ k, scalar.start ≤ k ∧ k + term.length ≤ scalar.stop ∧ term <+: text.drop k := by
  have hlength : (scalar.raw text).length = scalar.stop - scalar.start := by
    rw [ScalarLoc.raw, length_take, length_drop]
    omega
  have hraw : text.drop scalar.start = scalar.raw text ++ (text.drop scalar.start).drop (scalar.stop - scalar.start) :=
    (take_append_drop _ _).symm
  constructor
  · rintro ⟨front, back, hinfix⟩
    rw [← hinfix, append_assoc, append_assoc] at hraw
    have htotal := congrArg List.length hinfix
    rw [length_append, length_append, hlength] at htotal
    refine ⟨scalar.start + front.length, Nat.le_add_right _ _, by omega, ?_⟩
    rw [drop_add hraw]
    exact prefix_append _ _
  · rintro ⟨k, hfrom, hto, rest, hrest⟩
    refine ⟨(text.drop scalar.start).take (k - scalar.start), rest.take (scalar.stop - k - term.length), ?_⟩
    have hdrop : (text.drop scalar.start).drop (k - scalar.start) = text.drop k := by
      rw [drop_drop, Nat.add_sub_cancel' hfrom]
    have htake : (text.drop k).take (scalar.stop - k) = term ++ rest.take (scalar.stop - k - term.length) := by
      rw [← hrest, take_append, take_of_length_le (by omega)]
    have hsum : scalar.stop - scalar.start = k - scalar.start + (scalar.stop - k) := by omega
    rw [append_assoc, ← htake, ← hdrop, ScalarLoc.raw, hsum, take_add]

end Find

/-! ### The index and the lookup -/

/-- What stands in the text has the term, or what it decodes to. -/
def ScalarLoc.Has (text term : PyStr) (scalar : ScalarLoc) : Prop :=
  term <:+: scalar.raw text ∨ scalar.decodes term = true

/-- The index of a text agrees with the document that the parser makes of it. -/
structure Agrees (scan_room : ℕ) (text : PyStr) (v : Value) (scalars : List ScalarLoc) : Prop where
  same : scalars.map ScalarLoc.leaf = leaves [] v
  ordered : scalars.Pairwise fun a b => a.stop ≤ b.start
  spans : ∀ scalar ∈ scalars, scalar.start < scalar.stop ∧ scalar.stop ≤ text.length
  parsed : ∀ scalar ∈ scalars, jsonLoads floatConstant scan_room (scalar.raw text) = .ok scalar.value
  navigated : ∀ scalar ∈ scalars, navigate v scalar.path = some scalar.value

structure Finds (text term : PyStr) (scalars : List ScalarLoc) (located : Option ScalarLoc) : Prop where
  found : (∃ scalar ∈ scalars, scalar.Has text term) → located.isSome = true
  has : ∀ scalar, located = some scalar → scalar.Has text term

def IndexAgrees (interpreter : Interpreter) (index_room : ℕ) (text term : PyStr) (v : Value) : Prop :=
  ∃ scalars located, index_scalars index_room text = some scalars ∧
    locate_term index_room text term = some located ∧ Agrees interpreter.scan_room text v scalars ∧
    Finds text term scalars located

/-- The first place of the term in the text. If it begins in a scalar it ends there too, or the scalar's decoded text
has the term; if it begins in none, then a decoded string has the term or no scalar's own text does. -/
structure Document.Fits (document : Document) (term : PyStr) : Prop where
  inside : ∀ {pos scalar}, find term document.render = some pos → around document.located pos = some scalar →
    pos + term.length ≤ scalar.stop ∨ scalar.decodes term = true
  outside : ∀ {pos}, find term document.render = some pos → around document.located pos = none →
    (∃ scalar ∈ document.located, scalar.decodes term = true) ∨
      ∀ scalar ∈ document.located, ¬ term <:+: scalar.raw document.render

theorem document_spans (document : Document) {scalar : ScalarLoc} (h : scalar ∈ document.located) :
    scalar.start < scalar.stop ∧ scalar.stop ≤ document.render.length := by
  obtain ⟨-, hspan, hstop⟩ := (located_apart document.value [] 0 document.before.text.length).within scalar h
  refine ⟨hspan, hstop.trans ?_⟩
  simp only [Document.render, length_append]
  omega

theorem document_agrees (document : Document) {room : ℕ} {v : Value}
    (h : document.value.read floatConstant room = .ok v) : Agrees room document.render v document.located := by
  have hparsed := located_parsed document.value h [] 0 document.before.text.length
  have hstart : document.render.drop document.before.text.length = document.value.render ++ document.after.text :=
    drop_left
  refine ⟨hparsed.same, (located_apart _ _ _ _).ordered, fun scalar hscalar => document_spans document hscalar, ?_, ?_⟩
  · intro scalar hscalar
    obtain ⟨value, hraw, hread⟩ := located_raw document.value [] 0 hstart hscalar
    rw [hraw]
    exact jsonLoads_raw room (hread room)
  · intro scalar hscalar
    obtain ⟨tail, hpath, hnavigate⟩ := hparsed.leads scalar hscalar
    rwa [hpath]

theorem around_some {scalars : List ScalarLoc} {pos : ℕ} {scalar : ScalarLoc} (h : around scalars pos = some scalar) :
    scalar ∈ scalars ∧ scalar.start ≤ pos ∧ pos < scalar.stop :=
  ⟨mem_of_find?_eq_some h, by simpa using find?_some h⟩

section Locate

variable {document : Document} {term : PyStr} {pos : ℕ}

theorem infix_around_iff {scalar : ScalarLoc} (hfind : find term document.render = some pos)
    (haround : around document.located pos = some scalar) :
    term <:+: scalar.raw document.render ↔ pos + term.length ≤ scalar.stop := by
  obtain ⟨hmem, hfrom, -⟩ := around_some haround
  have hspan := document_spans document hmem
  rw [infix_raw_iff hspan]
  constructor
  · rintro ⟨k, -, hto, hprefix⟩
    obtain ⟨first, hle, hfirst⟩ := find_le (by omega) hprefix
    obtain rfl := Option.eq_some_unique hfirst hfind
    omega
  · exact fun hto => ⟨pos, hfrom, hto, prefix_of_find hfind⟩

theorem not_infix_of_find {scalar : ScalarLoc} (hfind : find term document.render = none)
    (hscalar : scalar ∈ document.located) : ¬ term <:+: scalar.raw document.render := by
  have hspan := document_spans document hscalar
  rw [infix_raw_iff hspan]
  rintro ⟨k, -, hto, hprefix⟩
  obtain ⟨first, -, hfirst⟩ := find_le (by omega) hprefix
  cases hfirst.symm.trans hfind

theorem locate_inside {scalar : ScalarLoc} (hfind : find term document.render = some pos)
    (haround : around document.located pos = some scalar) :
    locate document.render term document.located = some scalar := by
  rw [locate, hfind, Option.bind_some, haround, Option.some_or]

theorem locate_decoded (h : (find term document.render).bind (around document.located) = none) :
    locate document.render term document.located = document.located.find? fun scalar => scalar.decodes term := by
  rw [locate, h, Option.none_or]

theorem finds_decoded_iff (h : (find term document.render).bind (around document.located) = none) :
    Finds document.render term document.located (locate document.render term document.located) ↔
      ((∃ scalar ∈ document.located, scalar.Has document.render term) →
        ∃ scalar ∈ document.located, scalar.decodes term = true) := by
  rw [locate_decoded h]
  constructor
  · intro hfinds hhas
    exact find?_isSome.1 (hfinds.found hhas)
  · exact fun hdecodes => ⟨fun hhas => find?_isSome.2 (hdecodes hhas), fun scalar hscalar =>
      .inr (find?_some hscalar)⟩

theorem finds_iff : Finds document.render term document.located (locate document.render term document.located) ↔
    document.Fits term := by
  cases hfind : find term document.render with
  | none =>
    rw [finds_decoded_iff (by rw [hfind]; rfl)]
    refine iff_of_true ?_ ⟨fun h => absurd (hfind.symm.trans h) (by simp), fun h =>
      absurd (hfind.symm.trans h) (by simp)⟩
    rintro ⟨scalar, hscalar, hraw | hdecodes⟩
    · exact absurd hraw (not_infix_of_find hfind hscalar)
    · exact ⟨scalar, hscalar, hdecodes⟩
  | some pos =>
    cases haround : around document.located pos with
    | some scalar =>
      rw [locate_inside hfind haround]
      constructor
      · intro hfinds
        refine ⟨fun hpos hscalar => ?_, fun hpos hscalar => ?_⟩
        · obtain rfl := Option.eq_some_unique hfind hpos
          obtain rfl := Option.eq_some_unique haround hscalar
          exact (hfinds.has scalar rfl).imp (infix_around_iff hfind haround).1 id
        · obtain rfl := Option.eq_some_unique hfind hpos
          cases haround.symm.trans hscalar
      · intro hfits
        refine ⟨fun _ => rfl, fun scalar' hscalar => ?_⟩
        obtain rfl := Option.some.inj hscalar
        exact (hfits.inside hfind haround).imp (infix_around_iff hfind haround).2 id
    | none =>
      rw [finds_decoded_iff (by rw [hfind]; exact haround)]
      constructor
      · intro hfinds
        refine ⟨fun hpos hscalar => ?_, fun hpos hscalar => or_iff_not_imp_right.2 fun hraw => ?_⟩
        · obtain rfl := Option.eq_some_unique hfind hpos
          cases haround.symm.trans hscalar
        · push Not at hraw
          obtain ⟨scalar, hmem, hinfix⟩ := hraw
          exact hfinds ⟨scalar, hmem, .inl hinfix⟩
      · rintro hfits ⟨scalar, hmem, hhas⟩
        rcases hfits.outside hfind haround with hdecoded | hraw
        · exact hdecoded
        · exact ⟨scalar, hmem, hhas.resolve_left (hraw scalar hmem)⟩

end Locate

/-- For every text that `json.loads` accepts without a repeated name, and every term: the index and the lookup do what
they are for exactly where the text has no constant of Python's own and no more containers in one another than the
calls of the index can go into, and the first place of the term fits. -/
theorem index_agrees_iff (interpreter : Interpreter) (index_room : ℕ) (text term : PyStr) (v : Value)
    (h : jsonLoads floatConstant interpreter.scan_room text = .ok v) :
    IndexAgrees interpreter index_room text term v ↔
      ∃ document : Document, document.render = text ∧ document.value.indexed index_room = true ∧
        document.Fits term := by
  constructor
  · rintro ⟨scalars, located, hindex, hlocate, -, hfinds⟩
    obtain ⟨document, rfl, -⟩ := jsonLoads_eq_ok_iff.1 h
    rw [index_document] at hindex
    split_ifs at hindex with hindexed
    obtain rfl := Option.some.inj hindex
    rw [locate_term, index_document, if_pos hindexed] at hlocate
    obtain rfl := Option.some.inj hlocate
    exact ⟨document, rfl, hindexed, finds_iff.1 hfinds⟩
  · rintro ⟨document, rfl, hindexed, hfits⟩
    have hindex : index_scalars index_room document.render = some document.located := by
      rw [index_document, if_pos hindexed]
    have hread : document.value.read floatConstant interpreter.scan_room = .ok v := by
      rw [← jsonLoads_render, h]
    exact ⟨document.located, _, hindex, by rw [locate_term, hindex]; rfl, document_agrees document hread,
      finds_iff.2 hfits⟩

def one : ExactJSONNumber :=
  ⟨plain ['1'], ⟨[], plain ['1'], [], [], .inl rfl, .inr ⟨_, [], rfl, by decide, by decide, by simp⟩, .inl rfl,
    .inl rfl⟩, rfl⟩

/-- The text of an object that has a member of this name, which is one character, with the number `1`. -/
def numbered (c : CodePoint) (raw : isRaw c = true) : Document :=
  ⟨noSpace, .obj (.member noSpace [.raw c raw] (noSpace, noSpace) (.number one) noSpace (.noMembers noSpace)), noSpace⟩

/-- In `\x7b"a":1\x7d` the number is found. -/
theorem index_agrees_number :
    IndexAgrees ⟨1, 1⟩ 1 (numbered (.scalar 'a') (by decide)).render (plain ['1'])
      (.obj [(plain ['a'], .number one)]) := by
  refine (index_agrees_iff ⟨1, 1⟩ 1 _ (plain ['1']) _ ((jsonLoads_render _ 1).trans rfl)).2
    ⟨numbered (.scalar 'a') (by decide), rfl, rfl, ⟨fun hfind haround => .inl ?_, fun hfind haround => ?_⟩⟩
  · obtain rfl := Option.some.inj hfind
    obtain rfl := Option.some.inj haround
    decide
  · obtain rfl := Option.some.inj hfind
    cases haround

/-- In `\x7b"1":1\x7d` the first place of `1` is in the name of the member, and the number is not found. -/
theorem key_hides_number :
    jsonLoads floatConstant 1 (numbered (.scalar '1') (by decide)).render =
        .ok (.obj [(plain ['1'], .number one)]) ∧
      ∀ index_room, ¬ IndexAgrees ⟨1, 1⟩ index_room (numbered (.scalar '1') (by decide)).render (plain ['1'])
        (.obj [(plain ['1'], .number one)]) := by
  refine ⟨(jsonLoads_render _ 1).trans rfl, ?_⟩
  rintro index_room ⟨scalars, located, hindex, hlocate, -, hfinds⟩
  rw [index_document] at hindex
  split_ifs at hindex with hindexed
  obtain rfl := Option.some.inj hindex
  rw [locate_term, index_document, if_pos hindexed] at hlocate
  obtain rfl := Option.some.inj hlocate
  have hfound := hfinds.found ⟨_, mem_singleton_self _, .inl (infix_refl _)⟩
  cases hfound

end BodyCodec

end AiOrg
