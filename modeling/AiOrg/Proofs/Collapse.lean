import AiOrg.Proofs.Flatten
import AiOrg.Proofs.Framing

/-!
# Carriers with the same section

A section determines the rows of its record (`sectionText_inj`), which determine the carrier but for
one thing: whether what stands at a path is an array or an object with indices as names. Carriers that
differ in it have the same section though they are not the same value (`encodeSection_injective_iff`).
-/

namespace AiOrg

open List

namespace FlatReview

open StrictJson (Node Parse Source SameValue Denotes)

section Values

variable {a b x y node child : Node} {token : String} {path : List String}

theorem valueAt_child (h : node.Distinct) (hchild : (token, child) ∈ children node) :
    valueAt node (token :: path) = valueAt child path := by
  rw [valueAt, (lookup_children h).2 hchild]
  rfl

theorem child_unique (h : node.Distinct) (hx : (token, x) ∈ children node)
    (hy : (token, y) ∈ children node) : x = y :=
  Option.some.inj (((lookup_children h).2 hx).symm.trans ((lookup_children h).2 hy))

theorem Alike.symm (h : Alike a b) : Alike b a := fun path leaf hleaf => (h path leaf hleaf).symm

theorem Alike.of_child (h : Alike a b) (ha : a.Distinct) (hb : b.Distinct)
    (hx : (token, x) ∈ children a) (hy : (token, y) ∈ children b) : Alike x y := by
  intro path leaf hleaf
  rw [← valueAt_child ha hx, ← valueAt_child hb hy]
  exact h _ leaf hleaf

theorem Alike.exists_child (h : Alike a b) (ha : a.Distinct) (hb : b.Distinct)
    (hx : (token, x) ∈ children a) : ∃ y, (token, y) ∈ children b := by
  obtain ⟨path, leaf, hleaf, hvalue⟩ := exists_leaf (distinct_of_child ha hx)
  have hother := (h (token :: path) leaf hleaf).1 ((valueAt_child ha hx).trans hvalue)
  obtain ⟨y, hy, -⟩ := (valueAt_cons hb).1 hother
  exact ⟨y, hy⟩

theorem Alike.eq_of_isLeaf (h : Alike a b) (hleaf : IsLeaf a) : b = a :=
  Option.some.inj ((h [] a hleaf).1 rfl)

theorem Mixed.of_child (h : Mixed x y) (ha : a.Distinct) (hb : b.Distinct)
    (hx : (token, x) ∈ children a) (hy : (token, y) ∈ children b) : Mixed a b := by
  obtain ⟨path, elements, members, h⟩ := h
  refine ⟨token :: path, elements, members, ?_⟩
  rwa [valueAt_child ha hx, valueAt_child hb hy]

theorem sameValue_leaf (hleaf : IsLeaf a)
    (hnumbers : ∀ path text, valueAt a path = some (.number text) → ∃ q, Denotes text q) :
    SameValue a a := by
  cases a with
  | null => exact .null
  | bool value => exact .bool
  | number text =>
    obtain ⟨q, hq⟩ := hnumbers [] text rfl
    exact .number hq hq
  | string text => exact .string
  | array elements =>
    obtain rfl := isLeaf_array.1 hleaf
    exact .array rfl (by simp)
  | object members =>
    obtain rfl := isLeaf_object.1 hleaf
    exact .object (fun _ => .null) rfl (by simp) (by simp)

theorem mem_children_getElem {elements : List Node} {i : ℕ} (h : elements[i]? = some child) :
    (toString i, child) ∈ children (.array elements) := mem_children_array.2 ⟨i, h, rfl⟩

theorem getElem_of_mem_children {elements : List Node} {i : ℕ}
    (h : (toString i, child) ∈ children (.array elements)) : elements[i]? = some child := by
  obtain ⟨j, hj, heq⟩ := mem_children_array.1 h
  rwa [Nat.repr_inj.1 heq] at hj

theorem sameValue_of_alike (ha : a.Distinct) (hb : b.Distinct) (halike : Alike a b)
    (hmixed : ¬ Mixed a b)
    (hnumbers : ∀ path text, valueAt a path = some (.number text) → ∃ q, Denotes text q) :
    SameValue a b := by
  induction hdepth : a.depth using Nat.strong_induction_on generalizing a b with
  | _ depth ih =>
    by_cases hleaf : IsLeaf a
    · rw [halike.eq_of_isLeaf hleaf]
      exact sameValue_leaf hleaf hnumbers
    have hleaf' : ¬ IsLeaf b := fun hb => hleaf (halike.symm.eq_of_isLeaf hb ▸ hb)
    -- what stands under one name in both is the same
    have hchild : ∀ {token x y}, (token, x) ∈ children a → (token, y) ∈ children b →
        SameValue x y := fun hx hy =>
      ih _ (hdepth ▸ depth_lt_of_child hx) (distinct_of_child ha hx) (distinct_of_child hb hy)
        (halike.of_child ha hb hx hy) (fun h => hmixed (h.of_child ha hb hx hy))
        (fun path text h => hnumbers _ text ((valueAt_child ha hx).trans h)) rfl
    cases a with
    | array as =>
      cases b with
      | array bs =>
        have hlength : as.length = bs.length := by
          refine eq_of_forall_lt_iff fun i => ⟨fun hi => ?_, fun hi => ?_⟩
          · obtain ⟨y, hy⟩ := halike.exists_child ha hb
              (mem_children_getElem (getElem?_eq_getElem hi))
            exact (List.getElem?_eq_some_iff.1 (getElem_of_mem_children hy)).1
          · obtain ⟨x, hx⟩ := halike.symm.exists_child hb ha
              (mem_children_getElem (getElem?_eq_getElem hi))
            exact (List.getElem?_eq_some_iff.1 (getElem_of_mem_children hx)).1
        refine .array hlength fun elements helements => ?_
        obtain ⟨i, hi⟩ := mem_iff_getElem?.1 helements
        obtain ⟨hx, hy⟩ := getElem?_zip_eq_some.1 hi
        exact hchild (mem_children_getElem hx) (mem_children_getElem hy)
      | object bs => exact absurd ⟨[], as, bs, .inl ⟨rfl, rfl⟩⟩ hmixed
      | _ => exact absurd rfl hleaf'
    | object as =>
      cases b with
      | object bs =>
        have hnames : (as.map (·.1)).Perm (bs.map (·.1)) := by
          refine (perm_ext_iff_of_nodup ha.nodup hb.nodup).2 fun token => ?_
          simp only [mem_map, Prod.exists, exists_and_right, exists_eq_right]
          exact ⟨fun ⟨x, hx⟩ => halike.exists_child ha hb hx,
            fun ⟨y, hy⟩ => halike.symm.exists_child hb ha hy⟩
        have hpair : ∀ member ∈ as, (member.1, (bs.lookup member.1).getD .null) ∈ bs := by
          intro member hmember
          obtain ⟨y, hy⟩ := @halike.exists_child _ _ member.2 member.1 ha hb hmember
          have hlookup : bs.lookup member.1 = some y := lookup_of_mem hb.nodup hy
          rw [hlookup]
          exact hy
        refine .object (fun member => (bs.lookup member.1).getD .null) ?_ hpair
          fun member hmember => @hchild member.1 _ _ hmember (hpair member hmember)
        simpa using hnames.length_eq
      | array bs => exact absurd ⟨[], bs, as, .inr ⟨rfl, rfl⟩⟩ hmixed
      | _ => exact absurd rfl hleaf'
    | _ => exact absurd rfl hleaf

theorem sameValue_valueAt (h : SameValue a b) (ha : a.Distinct) (hb : b.Distinct)
    (hx : valueAt a path = some x) (hy : valueAt b path = some y) : SameValue x y := by
  induction path generalizing a b with
  | nil =>
    cases hx
    cases hy
    exact h
  | cons token path ih =>
    obtain ⟨x', hx', hx⟩ := (valueAt_cons ha).1 hx
    obtain ⟨y', hy', hy⟩ := (valueAt_cons hb).1 hy
    refine ih ?_ (distinct_of_child ha hx') (distinct_of_child hb hy') hx hy
    cases h with
    | array hlength helements =>
      obtain ⟨i, hi, rfl⟩ := mem_children_array.1 hx'
      have hj := getElem_of_mem_children hy'
      exact helements (x', y') (mem_of_getElem? (getElem?_zip_eq_some.2 ⟨hi, hj⟩))
    | object pair hlength hpair hmembers =>
      rw [child_unique hb hy' (hpair _ hx')]
      exact hmembers _ hx'
    | _ => cases hx'

theorem not_mixed_of_sameValue (h : SameValue a b) (ha : a.Distinct) (hb : b.Distinct) :
    ¬ Mixed a b := by
  rintro ⟨path, elements, members, ⟨hx, hy⟩ | ⟨hx, hy⟩⟩
  · cases sameValue_valueAt h ha hb hx hy
  · cases sameValue_valueAt h ha hb hx hy

end Values

/-! ### Texts -/

section Texts

variable {p q : Row} {ps qs : List Row} {s t : List Char}

/-- The row of a leaf, whose number is one for Go. -/
def GoodRow (row : Row) : Prop := IsLeaf row.leaf ∧ validRow row

theorem marshalLeaf_head {row : Row} (h : GoodRow row) : ∃ c rest, marshalLeaf row.leaf = c :: rest ∧
    (GoJson.IsNumberChar c ↔ ∃ text, row.leaf = .number text) := by
  have hnot : ∀ c ∈ ['n', 't', 'f', '\x22', '[', '\x7b'], ¬ GoJson.IsNumberChar c := by
    simp [GoJson.IsNumberChar]
  obtain ⟨pointer, leaf⟩ := row
  cases leaf with
  | null => exact ⟨_, _, rfl, iff_of_false (hnot _ (by simp)) (by simp)⟩
  | bool value =>
    cases value
    · exact ⟨_, _, rfl, iff_of_false (hnot _ (by simp)) (by simp)⟩
    · exact ⟨_, _, rfl, iff_of_false (hnot _ (by simp)) (by simp)⟩
  | number text =>
    rcases htext : text.toList with _ | ⟨c, rest⟩
    · exact absurd htext (GoJson.ne_nil_of_isValidNumber h.2)
    · refine ⟨c, rest, htext, iff_of_true ?_ ⟨text, rfl⟩⟩
      exact GoJson.isNumberChar_of_isValidNumber h.2 c (by simp [htext])
  | string text => exact ⟨_, _, rfl, iff_of_false (hnot _ (by simp)) (by simp)⟩
  | array elements => exact ⟨_, _, rfl, iff_of_false (hnot _ (by simp)) (by simp)⟩
  | object members => exact ⟨_, _, rfl, iff_of_false (hnot _ (by simp)) (by simp)⟩

theorem brace_not_mem_number {text : String} (h : GoJson.isValidNumber text.toList) :
    '\x7d' ∉ text.toList := fun hmem => by
  have := GoJson.isNumberChar_of_isValidNumber h _ hmem
  simp [GoJson.IsNumberChar] at this

/-- A value is read off the front, up to the end of its row. -/
theorem marshalLeaf_inj (hp : GoodRow p) (hq : GoodRow q)
    (h : marshalLeaf p.leaf ++ '\x7d' :: s = marshalLeaf q.leaf ++ '\x7d' :: t) :
    p.leaf = q.leaf ∧ s = t := by
  obtain ⟨c, rest, hc, hnumber⟩ := marshalLeaf_head hp
  obtain ⟨d, rest', hd, hnumber'⟩ := marshalLeaf_head hq
  have hsame : (∃ text, p.leaf = .number text) ↔ ∃ text, q.leaf = .number text := by
    rw [hc, hd] at h
    rw [← hnumber, ← hnumber', (List.cons.inj h).1]
  clear hc hd hnumber hnumber'
  obtain ⟨pointer, leaf⟩ := p
  obtain ⟨pointer', leaf'⟩ := q
  dsimp only at h hsame ⊢
  by_cases hnumber : ∃ text, leaf = .number text
  · obtain ⟨text', rfl⟩ := hsame.1 hnumber
    obtain ⟨text, rfl⟩ := hnumber
    obtain ⟨htext, hst⟩ := Coding.append_stop_inj (brace_not_mem_number hp.2)
      (brace_not_mem_number hq.2) h
    rw [String.toList_inj.1 htext]
    exact ⟨rfl, hst⟩
  · have hnumber' : ¬ ∃ text, leaf' = .number text := fun hother => hnumber (hsame.2 hother)
    have harray : ∀ elements, IsLeaf (.array elements) → elements = [] := fun _ => isLeaf_array.1
    have hobject : ∀ members, IsLeaf (.object members) → members = [] := fun _ => isLeaf_object.1
    cases leaf with
    | number text => exact absurd ⟨text, rfl⟩ hnumber
    | string text =>
      cases leaf' with
      | string text' =>
        obtain ⟨htext, hst⟩ := GoJson.quote_prefixFree _ _ _ _ h
        rw [String.toList_inj.1 htext]
        exact ⟨rfl, (List.cons.inj hst).2⟩
      | number text' => exact absurd ⟨text', rfl⟩ hnumber'
      | bool value => cases value <;> simp [marshalLeaf, GoJson.quote] at h
      | _ => simp [marshalLeaf, GoJson.quote] at h
    | bool value =>
      cases leaf' with
      | bool value' => cases value <;> cases value' <;> simp_all [marshalLeaf]
      | number text' => exact absurd ⟨text', rfl⟩ hnumber'
      | _ => cases value <;> simp [marshalLeaf, GoJson.quote] at h
    | null =>
      cases leaf' with
      | null => simpa [marshalLeaf] using h
      | number text' => exact absurd ⟨text', rfl⟩ hnumber'
      | bool value => cases value <;> simp [marshalLeaf] at h
      | _ => simp [marshalLeaf, GoJson.quote] at h
    | array elements =>
      cases leaf' with
      | array elements' =>
        obtain rfl := harray _ hp.1
        obtain rfl := harray _ hq.1
        simpa [marshalLeaf] using h
      | number text' => exact absurd ⟨text', rfl⟩ hnumber'
      | bool value => cases value <;> simp [marshalLeaf] at h
      | _ => simp [marshalLeaf, GoJson.quote] at h
    | object members =>
      cases leaf' with
      | object members' =>
        obtain rfl := hobject _ hp.1
        obtain rfl := hobject _ hq.1
        simpa [marshalLeaf] using h
      | number text' => exact absurd ⟨text', rfl⟩ hnumber'
      | bool value => cases value <;> simp [marshalLeaf] at h
      | _ => simp [marshalLeaf, GoJson.quote] at h

theorem rowText_inj (hp : GoodRow p) (hq : GoodRow q) (h : rowText p ++ s = rowText q ++ t) :
    p = q ∧ s = t := by
  simp only [rowText, append_assoc, cons_append, nil_append] at h
  obtain ⟨hpointer, hrest⟩ := GoJson.quote_prefixFree _ _ _ _ (append_cancel_left h)
  obtain ⟨hleaf, hst⟩ := marshalLeaf_inj hp hq (append_cancel_left hrest)
  obtain ⟨pointer, leaf⟩ := p
  obtain ⟨pointer', leaf'⟩ := q
  exact ⟨by rw [Row.mk.injEq]; exact ⟨String.toList_inj.1 hpointer, hleaf⟩, hst⟩

theorem rowText_eq_cons (row : Row) : ∃ rest, rowText row = '\x7b' :: rest := by
  have hopening : rowOpening = '\x7b' :: "\"pointer\":".toList := by
    unfold rowOpening
    simp
  refine ⟨"\"pointer\":".toList ++ GoJson.quote row.pointer.toList ++ rowMiddle ++
    marshalLeaf row.leaf ++ ['\x7d'], ?_⟩
  rw [rowText, hopening]
  rfl

theorem rowsText_cons_cons (p q : Row) (rows : List Row) :
    rowsText (p :: q :: rows) = rowText p ++ ',' :: rowsText (q :: rows) := rfl

theorem rowsText_inj (hps : ∀ row ∈ ps, GoodRow row) (hqs : ∀ row ∈ qs, GoodRow row)
    (h : rowsText ps ++ s = rowsText qs ++ t) : ps = qs ∧ s = t := by
  induction ps generalizing qs with
  | nil =>
    cases qs with
    | nil => exact ⟨rfl, (List.cons.inj h).2⟩
    | cons q qs =>
      obtain ⟨rest, hrest⟩ := rowText_eq_cons q
      cases qs <;> simp [rowsText, hrest] at h
  | cons p ps ih =>
    cases qs with
    | nil =>
      obtain ⟨rest, hrest⟩ := rowText_eq_cons p
      cases ps <;> simp [rowsText, hrest] at h
    | cons q qs =>
      have hp := hps p mem_cons_self
      have hq := hqs q mem_cons_self
      cases ps with
      | nil =>
        cases qs with
        | nil =>
          simp only [rowsText, append_assoc] at h
          obtain ⟨rfl, hst⟩ := rowText_inj hp hq h
          exact ⟨rfl, (List.cons.inj hst).2⟩
        | cons q' qs =>
          simp only [rowsText, append_assoc] at h
          obtain ⟨-, hst⟩ := rowText_inj hp hq h
          simp at hst
      | cons p' ps =>
        cases qs with
        | nil =>
          simp only [rowsText, append_assoc] at h
          obtain ⟨-, hst⟩ := rowText_inj hp hq h
          simp at hst
        | cons q' qs =>
          rw [rowsText_cons_cons, rowsText_cons_cons, append_assoc, append_assoc] at h
          obtain ⟨rfl, hst⟩ := rowText_inj hp hq h
          obtain ⟨hrows, hst⟩ := ih (fun row hrow => hps row (mem_cons_of_mem _ hrow))
            (fun row hrow => hqs row (mem_cons_of_mem _ hrow)) (List.cons.inj hst).2
          rw [hrows]
          exact ⟨rfl, hst⟩

/-- A section determines the rows in it. -/
theorem sectionText_inj {id : List Char} (hps : ∀ row ∈ ps, GoodRow row)
    (hqs : ∀ row ∈ qs, GoodRow row) (h : sectionText ps id = sectionText qs id) : ps = qs := by
  simp only [sectionText, append_assoc] at h
  exact (rowsText_inj hps hqs (append_cancel_left h)).1

end Texts

section Sections

variable {source : Source} {record other : Record} {text text' : List UInt8} {a b : Node}

theorem goodRow_of_mem (ha : a.Distinct) (hvalid : ∀ row ∈ sortedRows a, validRow row) :
    ∀ row ∈ sortedRows a, GoodRow row := by
  intro row hrow
  obtain ⟨path, leaf, hleaf, -, rfl⟩ := (mem_sortedRows ha).1 hrow
  exact ⟨hleaf, hvalid _ hrow⟩

theorem denotes_of_valid (ha : a.Distinct) (hvalid : ∀ row ∈ sortedRows a, validRow row)
    {path : List String} {number : String} (h : valueAt a path = some (.number number)) :
    ∃ q, Denotes number q :=
  GoJson.denotes_of_isValidNumber
    (hvalid _ ((mem_sortedRows ha).2 ⟨path, .number number, rfl, h, rfl⟩))

theorem section_eq_iff (hid : record.stableID = other.stableID)
    (h : encodeSection source record = .ok text) (h' : encodeSection source other = .ok text')
    (ha : Parse source record.carrier = .ok a) (hb : Parse source other.carrier = .ok b) :
    text = text' ↔ Alike a b := by
  obtain ⟨root, id, hroot, -, hidText, hvalid, rfl⟩ := encodeSection_eq_ok.1 h
  obtain ⟨root', id', hroot', -, hidText', hvalid', rfl⟩ := encodeSection_eq_ok.1 h'
  obtain rfl := Except.ok.inj (ha.symm.trans hroot)
  obtain rfl := Except.ok.inj (hb.symm.trans hroot')
  rw [hid, hidText', Option.some.injEq] at hidText
  obtain rfl := hidText
  have hda := StrictJson.parse_distinct ha
  have hdb := StrictJson.parse_distinct hb
  rw [← sortedRows_eq_iff hda hdb]
  constructor
  · intro heq
    have hbytes := (List.cons.inj (append_cancel_right heq)).2
    exact sectionText_inj (goodRow_of_mem hda hvalid) (goodRow_of_mem hdb hvalid')
      (GoJson.utf8Bytes_injective hbytes)
  · intro hrows
    rw [hrows]

/-- Carriers with one section are the same value, unless at some path one has an array where the other
has an object with the same leaves. -/
theorem encodeSection_injective_iff (hid : record.stableID = other.stableID)
    (h : encodeSection source record = .ok text) (h' : encodeSection source other = .ok text')
    (ha : Parse source record.carrier = .ok a) (hb : Parse source other.carrier = .ok b) :
    (text = text' → SameValue a b) ↔ ¬ (Alike a b ∧ Mixed a b) := by
  have hda := StrictJson.parse_distinct ha
  have hdb := StrictJson.parse_distinct hb
  obtain ⟨root, -, hroot, -, -, hvalid, -⟩ := encodeSection_eq_ok.1 h
  obtain rfl := Except.ok.inj (ha.symm.trans hroot)
  rw [section_eq_iff hid h h' ha hb]
  constructor
  · rintro hsame ⟨halike, hmixed⟩
    exact not_mixed_of_sameValue (hsame halike) hda hdb hmixed
  · intro hnot halike
    exact sameValue_of_alike hda hdb halike (fun hmixed => hnot ⟨halike, hmixed⟩)
      fun path number => denotes_of_valid hda hvalid

theorem sample_sections : encodeSection indexSource ⟨[0x61], arrayBytes⟩ =
      encodeSection indexSource ⟨[0x61], indexBytes⟩ ∧
    (encodeSection indexSource ⟨[0x61], arrayBytes⟩).toBool = true ∧
    Parse indexSource arrayBytes = .ok (.array [.number "1"]) ∧
    Parse indexSource indexBytes = .ok (.object [("0", .number "1")]) := by
  decide +kernel

/-- `[1]` and `\x7b"0":1\x7d` have one section. -/
theorem encodeSection_collapses : ∃ text a b,
    encodeSection indexSource ⟨[0x61], arrayBytes⟩ = .ok text ∧
    encodeSection indexSource ⟨[0x61], indexBytes⟩ = .ok text ∧
    Parse indexSource arrayBytes = .ok a ∧ Parse indexSource indexBytes = .ok b ∧
    ¬ SameValue a b := by
  obtain ⟨hsame, hok, ha, hb⟩ := sample_sections
  rcases htext : encodeSection indexSource ⟨[0x61], arrayBytes⟩ with e | text
  · rw [htext] at hok
    cases hok
  · exact ⟨text, _, _, rfl, hsame ▸ htext, ha, hb, fun h => by cases h⟩

theorem encodeSection_injective_iff_same : ∃ text,
    encodeSection indexSource ⟨[0x61], arrayBytes⟩ = .ok text ∧
    ((text = text → SameValue (.array [.number "1"]) (.array [.number "1"])) ↔
      ¬ (Alike (.array [.number "1"]) (.array [.number "1"]) ∧
        Mixed (.array [.number "1"]) (.array [.number "1"]))) := by
  obtain ⟨-, hok, ha, -⟩ := sample_sections
  rcases htext : encodeSection indexSource ⟨[0x61], arrayBytes⟩ with e | text
  · rw [htext] at hok
    cases hok
  · exact ⟨text, rfl, @encodeSection_injective_iff _ ⟨[0x61], arrayBytes⟩ ⟨[0x61], arrayBytes⟩ _ _ _ _
      rfl htext htext ha ha⟩

end Sections

end FlatReview

end AiOrg
