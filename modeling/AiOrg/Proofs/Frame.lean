import AiOrg.Proofs.Repair

/-!
# What a repair leaves alone

A merge with the names of the malformed slots keeps what was satisfied and what the skeleton does not
have: a mapping or a list may only get more entries (`merge_frame`). A second merge of the fragment
changes nothing (`mergeEntries_idem`). Names are texts, so where a malformed slot shares its name with
something else nothing is said.
-/

namespace AiOrg

open List

namespace Gadgets

/-- A value, or a mapping or list with more entries behind its own. -/
def Extends : Json → Json → Prop
  | .obj fields, new => ∃ more, new = .obj (fields ++ more)
  | .arr items, new => ∃ more, new = .arr (items ++ more)
  | old, new => new = old

section Again

variable {overwritable : List String} {k field : String}

theorem mergeItems_fixed {items target : List Json}
    (h : ∀ item ∈ items, ∃ found, indexKeyedItems target field (idText field item) = some found ∧
      (overwritesId overwritable k field (idText field item) = true → found = item)) :
    (items.foldl (mergeItem overwritable k field) ⟨target, [], []⟩).value = target := by
  refine List.foldlRecOn (motive := fun m : Merging (List Json) => m.value = target) items _ rfl
    fun m hm item hitem => ?_
  obtain ⟨found, hfound, hsame⟩ := h item hitem
  unfold indexKeyedItems at hfound
  rw [find?_eq_findIdx?] at hfound
  obtain ⟨place, hplace, hget⟩ := Option.bind_eq_some_iff.1 hfound
  unfold mergeItem
  rw [hm, hplace]
  dsimp only
  split_ifs with hmem
  · obtain rfl := hsame (decide_eq_true hmem)
    obtain ⟨hlt, hget⟩ := List.getElem?_eq_some_iff.1 hget
    rw [← hget]
    exact set_getElem_self hlt
  · exact hm

theorem mergeNames_fixed {names target : Fields}
    (h : ∀ entry ∈ names, ∃ found, target.lookup entry.1 = some found ∧
      ((Address.name k entry.1).text ∈ overwritable → found = entry.2)) :
    (names.foldl (mergeName overwritable k) ⟨target, [], []⟩).value = target := by
  refine List.foldlRecOn (motive := fun m : Merging Fields => m.value = target) names _ rfl
    fun m hm entry hentry => ?_
  obtain ⟨found, hfound, hsame⟩ := h entry hentry
  unfold mergeName
  rw [hm, hfound]
  dsimp only
  split_ifs with hmem
  · obtain rfl := hsame hmem
    exact Fields.set_of_lookup hfound
  · exact hm

theorem find?_hasId_self {items : List Json} (hkeyed : KeyedBy field items) {item : Json}
    (hitem : item ∈ items) : indexKeyedItems items field (idText field item) = some item := by
  rcases hfind : indexKeyedItems items field (idText field item) with _ | other
  · exact absurd (hkeyed.own item hitem) (find?_eq_none.1 hfind item hitem)
  · have hother := idText_of_hasId (find?_some hfind)
    exact congrArg some (inj_on_of_nodup_map hkeyed.ids (mem_of_find?_eq_some hfind)
      hitem hother)

theorem mergeValue_idem {present : Option Json} {fragment : Json}
    (hfragment : fragment.distinct = true) :
    (mergeValue overwritable k (some (mergeValue overwritable k present fragment).value)
      fragment).value = (mergeValue overwritable k present fragment).value := by
  rcases items_or_names_or_plain fragment with ⟨items, field, rfl, hkey⟩ | ⟨names, rfl⟩ | hplain
  · have hkeyed := keyedBy_of_keyedListIdField hkey
    have hagain : ∀ target, (mergeValue overwritable k (some (.arr (overlay
        (overwritesId overwritable k field) field target items))) (.arr items)).value =
          .arr (overlay (overwritesId overwritable k field) field target items) := fun target => by
      rw [mergeValue_items hkey, ← mergeItems_value hkeyed]
      refine congrArg Json.arr (mergeItems_fixed fun item hitem => ?_)
      have hself := find?_hasId_self hkeyed hitem
      rw [indexKeyedItems_overlay hkeyed, hself]
      rcases indexKeyedItems target field (idText field item) with _ | old
      · exact ⟨item, rfl, fun _ => rfl⟩
      · exact ⟨_, rfl, fun hset => by rw [if_pos hset, Option.getD_some]⟩
    rcases present with _ | value
    · rw [mergeValue_none hfragment]
      have hself := hagain []
      rwa [overlay_nil] at hself
    by_cases hvalue : ∃ target, value = .arr target
    · obtain ⟨target, rfl⟩ := hvalue
      rw [mergeValue_items hkey, hagain]
    · have hskip : (mergeValue overwritable k (some value) (.arr items)).value = value :=
        mergeValue_items_skip hkey fun target h => hvalue ⟨target, h⟩
      rw [hskip, hskip]
  · have hnames := Mapping.nodup ⟨names, hfragment⟩
    have hagain : ∀ target, (mergeValue overwritable k (some (.obj (names.foldl
        (mergeName overwritable k) ⟨target, [], []⟩).value)) (.obj names)).value =
          .obj (names.foldl (mergeName overwritable k) ⟨target, [], []⟩).value := fun target => by
      rw [mergeValue_names]
      refine congrArg Json.obj (mergeNames_fixed fun entry hentry => ?_)
      rw [lookup_mergeNames hnames, Fields.lookup_of_mem hnames hentry]
      refine ⟨_, rfl, fun hmem => ?_⟩
      unfold nameValue
      rcases target.lookup entry.1 with _ | old
      · rfl
      · exact if_pos hmem
    rcases present with _ | value
    · rw [mergeValue_none hfragment]
      have hself := hagain []
      rwa [mergeNames_nil hnames] at hself
    by_cases hvalue : ∃ target, value = .obj target
    · obtain ⟨target, rfl⟩ := hvalue
      rw [mergeValue_names, hagain]
    · have hskip : (mergeValue overwritable k (some value) (.obj names)).value = value :=
        mergeValue_names_skip fun target h => hvalue ⟨target, h⟩
      rw [hskip, hskip]
  · rw [mergeValue_plain hplain]
    split_ifs with hmem
    · rcases present with _ | value
      · exact (mergeValue_none hfragment).symm
      · rw [mergeValue_plain hplain, if_pos hmem]
    · rfl

/-- A second merge of the same fragment changes nothing. -/
theorem mergeEntries_idem (produced : Fields) (fragment : Mapping) :
    (mergeEntries overwritable (mergeEntries overwritable produced fragment.fields).value
      fragment.fields).value = (mergeEntries overwritable produced fragment.fields).value := by
  have hlookup (key : String) : (mergeEntries overwritable produced fragment.fields).value.lookup
      key = _ := lookup_mergeEntries fragment.nodup produced key
  refine List.foldlRecOn (motive := fun m : Merging Fields =>
    m.value = (mergeEntries overwritable produced fragment.fields).value) fragment.fields _ rfl
    fun m hm entry hentry => ?_
  have hentry' := hlookup entry.1
  rw [Fields.lookup_of_mem fragment.nodup hentry] at hentry'
  rw [mergeEntry, hm, hentry', mergeValue_idem (fragment.distinct_of_mem hentry)]
  exact Fields.set_of_lookup hentry'

end Again

/-! ### Merging without overwriting -/

section Kept

variable {overwritable : List String} {k field : String}

theorem Extends.refl (value : Json) : Extends value value := by
  cases value with
  | obj fields => exact ⟨[], by rw [append_nil]⟩
  | arr items => exact ⟨[], by rw [append_nil]⟩
  | _ => rfl

theorem standing_kept {overwrites : String → Bool} {target items : List Json} {index : ℕ}
    (h : ∀ id, target.findIdx? (hasId field id) = some index → overwrites id = false) :
    (standing overwrites field target items)[index]? = target[index]? := by
  have hnone : (items.find? fun item => overwrites (idText field item) &&
      target.findIdx? (hasId field (idText field item)) == some index) = none := by
    rw [find?_eq_none]
    intro item _ hplaced
    simp only [Bool.and_eq_true, beq_iff_eq] at hplaced
    rw [h _ hplaced.2] at hplaced
    cases hplaced.1
  rw [getElem?_standing, hnone]
  rcases target[index]? with _ | old <;> rfl

theorem isSome_of_findIdx? {target : List Json} {id : String} {index : ℕ}
    (h : target.findIdx? (hasId field id) = some index) :
    (indexKeyedItems target field id).isSome = true := by
  obtain ⟨hlt, -, -⟩ := findIdx?_eq_some_iff_getElem.1 h
  unfold indexKeyedItems
  rw [find?_eq_findIdx?, h, Option.bind_some, getElem?_eq_getElem hlt]
  rfl

theorem standing_eq_self {overwrites : String → Bool} {target items : List Json}
    (h : ∀ id, (indexKeyedItems target field id).isSome = true → overwrites id = false) :
    standing overwrites field target items = target :=
  ext_getElem? fun _ => standing_kept fun id hid => h id (isSome_of_findIdx? hid)

theorem mergeNames_append {names target : Fields} (hnames : (names.map Prod.fst).Nodup)
    (h : ∀ entry ∈ names, (target.lookup entry.1).isSome = true →
      (Address.name k entry.1).text ∉ overwritable) :
    ∃ more, (names.foldl (mergeName overwritable k) ⟨target, [], []⟩).value = target ++ more := by
  induction names using reverseRecOn with
  | nil => exact ⟨[], (append_nil target).symm⟩
  | append_singleton names entry ih =>
    have hnodup := hnames
    rw [map_append, nodup_append] at hnodup
    obtain ⟨more, hmore⟩ := ih hnodup.1 fun other hother => h other (mem_append_left _ hother)
    have hentry : names.lookup entry.1 = none :=
      Fields.lookup_eq_none_iff.2 fun hmem => hnodup.2.2 _ hmem _ (by simp) rfl
    have hlookup : (names.foldl (mergeName overwritable k) ⟨target, [], []⟩).value.lookup
        entry.1 = _ := lookup_mergeNames hnodup.1 target entry.1
    rw [hentry] at hlookup
    rw [foldl_append, foldl_cons, foldl_nil, mergeName]
    rw [hlookup]
    rcases hold : target.lookup entry.1 with _ | old
    · rw [hold] at hlookup
      refine ⟨more ++ [entry], ?_⟩
      dsimp only [Merging.apply]
      rw [Fields.set_of_absent hlookup, hmore, append_assoc]
    · rw [hold] at hlookup
      dsimp only
      rw [if_neg (h entry (by simp) (by rw [hold]; rfl))]
      exact ⟨more, hmore⟩

theorem mergeValue_extends {old fragment : Json} (hfragment : fragment.distinct = true)
    (h : ∀ address : Address, address.key = k → (address.within old).isSome = true →
      address.text ∉ overwritable) :
    Extends old (mergeValue overwritable k (some old) fragment).value := by
  rcases items_or_names_or_plain fragment with ⟨items, field, rfl, hkey⟩ | ⟨names, rfl⟩ | hplain
  · by_cases hold : ∃ target, old = .arr target
    · obtain ⟨target, rfl⟩ := hold
      refine ⟨added field target items, ?_⟩
      rw [mergeValue_items hkey, overlay, standing_eq_self fun id hid => ?_]
      exact decide_eq_false (h (.item k field id) rfl hid)
    · rw [mergeValue_items_skip hkey fun target heq => hold ⟨target, heq⟩]
      exact Extends.refl old
  · by_cases hold : ∃ target, old = .obj target
    · obtain ⟨target, rfl⟩ := hold
      obtain ⟨more, hmore⟩ := mergeNames_append (Mapping.nodup ⟨names, hfragment⟩)
        fun entry _ hentry => h (.name k entry.1) rfl hentry
      exact ⟨more, by rw [mergeValue_names, hmore]⟩
    · rw [mergeValue_names_skip fun target heq => hold ⟨target, heq⟩]
      exact Extends.refl old
  · have hk : k ∉ overwritable := h (.whole k) rfl rfl
    rw [mergeValue_plain hplain, if_neg hk]
    exact Extends.refl old

variable {produced : Fields} {fragment : Mapping}

theorem name_kept {n : String} {value : Json} (hk : k ∉ overwritable)
    (hn : (Address.name k n).text ∉ overwritable)
    (hvalue : (Address.name k n).value produced = some value) :
    (Address.name k n).value (mergeEntries overwritable produced fragment.fields).value =
      some value := by
  rw [Address.value_eq] at hvalue ⊢
  obtain ⟨old, hold, hvalue⟩ := Option.bind_eq_some_iff.1 hvalue
  simp only [Address.key] at hold ⊢
  rw [lookup_mergeEntries fragment.nodup, hold]
  rcases hnew : fragment.fields.lookup k with _ | new
  · exact hvalue
  obtain ⟨target, rfl⟩ : ∃ target, old = .obj target := by
    cases old with
    | obj target => exact ⟨target, rfl⟩
    | _ => cases hvalue
  rcases items_or_names_or_plain new with ⟨items, field, rfl, hkey⟩ | ⟨names, rfl⟩ | hplain
  · rw [Option.bind_some, mergeValue_items_skip hkey (by simp)]
    exact hvalue
  · have hdistinct := fragment.distinct_of_mem (Fields.mem_of_lookup hnew)
    rw [Option.bind_some, mergeValue_names, Address.within,
      lookup_mergeNames (Mapping.nodup ⟨names, hdistinct⟩)]
    have hlookup : target.lookup n = some value := hvalue
    rw [hlookup]
    rcases names.lookup n with _ | other
    · rfl
    · exact congrArg some (if_neg hn)
  · rw [Option.bind_some, mergeValue_plain hplain, if_neg hk]
    exact hvalue

theorem items_kept {items : List Json} (hk : k ∉ overwritable)
    (hitems : produced.lookup k = some (.arr items)) :
    ∃ items', (mergeEntries overwritable produced fragment.fields).value.lookup k =
      some (.arr items') ∧ (items' = items ∨ ∃ field news, KeyedBy field news ∧
        items' = overlay (overwritesId overwritable k field) field items news) := by
  rw [lookup_mergeEntries fragment.nodup, hitems]
  rcases fragment.fields.lookup k with _ | new
  · exact ⟨items, rfl, .inl rfl⟩
  rcases items_or_names_or_plain new with ⟨news, field, rfl, hkey⟩ | ⟨names, rfl⟩ | hplain
  · dsimp only
    rw [mergeValue_items hkey]
    exact ⟨_, rfl, .inr ⟨field, news, keyedBy_of_keyedListIdField hkey, rfl⟩⟩
  · dsimp only
    rw [mergeValue_names_skip (by simp)]
    exact ⟨items, rfl, .inl rfl⟩
  · dsimp only
    rw [mergeValue_plain hplain, if_neg hk]
    exact ⟨items, rfl, .inl rfl⟩

theorem index_kept {items : List Json} {index : ℕ} {item : Json} (hk : k ∉ overwritable)
    (hitems : produced.lookup k = some (.arr items)) (hitem : items[index]? = some item)
    (hfree : ∀ field id, items.findIdx? (hasId field id) = some index →
      (Address.item k field id).text ∉ overwritable) :
    ∃ items', (mergeEntries overwritable produced fragment.fields).value.lookup k =
      some (.arr items') ∧ items'[index]? = some item := by
  obtain ⟨items', hitems', rfl | ⟨field, news, -, rfl⟩⟩ :
      ∃ items', (mergeEntries overwritable produced fragment.fields).value.lookup k = _ ∧ _ :=
    items_kept hk hitems
  · exact ⟨_, hitems', hitem⟩
  · refine ⟨_, hitems', ?_⟩
    have hstanding : (standing (overwritesId overwritable k field) field items news)[index]? =
        items[index]? := standing_kept fun id hid => decide_eq_false (hfree field id hid)
    have hlt : index < (standing (overwritesId overwritable k field) field items news).length := by
      have hlt := (List.getElem?_eq_some_iff.1 hitem).1
      simpa [standing] using hlt
    rw [overlay, getElem?_append_left hlt]
    exact hstanding.trans hitem

end Kept

section Slots

variable {key : String} {value : Json} {slot slot' : Slot} {skeleton : Fields}

theorem entrySlots_cases (key : String) (value : Json) :
    (∃ field items, value = .arr items ∧ KeyedBy field items ∧ entrySlots key value =
        items.map fun item => (.item key field (idText field item), item)) ∨
      (∃ fields, value = .obj fields ∧ entrySlots key value =
        fields.map fun entry => (.name key entry.1, entry.2)) ∨
      entrySlots key value = [(.whole key, value)] := by
  rcases items_or_names_or_plain value with ⟨items, field, rfl, hkey⟩ | ⟨fields, rfl⟩ | hplain
  · refine .inl ⟨field, items, rfl, keyedBy_of_keyedListIdField hkey, ?_⟩
    simp [entrySlots, hkey]
  · exact .inr (.inl ⟨fields, rfl, rfl⟩)
  · refine .inr (.inr ?_)
    unfold entrySlots
    rw [hplain.unkeyed]
    cases value with
    | obj fields => exact absurd rfl (hplain.notMapping fields)
    | _ => rfl

theorem key_of_mem_entrySlots (h : slot ∈ entrySlots key value) : slot.1.key = key := by
  rcases entrySlots_cases key value with ⟨field, items, -, -, heq⟩ | ⟨fields, -, heq⟩ | heq
  · rw [heq] at h
    obtain ⟨item, -, rfl⟩ := mem_map.1 h
    rfl
  · rw [heq] at h
    obtain ⟨entry, -, rfl⟩ := mem_map.1 h
    rfl
  · rw [heq] at h
    obtain rfl := mem_singleton.1 h
    rfl

theorem addresses_nodup (hvalue : value.distinct = true) :
    ((entrySlots key value).map Prod.fst).Nodup := by
  rcases entrySlots_cases key value with ⟨field, items, -, hkeyed, heq⟩ | ⟨fields, rfl, heq⟩ | heq
  · have hids := hkeyed.ids.map fun id id' (h : Address.item key field id = .item key field id') =>
      (Address.item.inj h).2.2
    rw [map_map] at hids
    rw [heq, map_map]
    exact hids
  · have hnames := (Mapping.nodup ⟨fields, hvalue⟩).map
      fun n n' (h : Address.name key n = .name key n') => (Address.name.inj h).2
    rw [map_map] at hnames
    rw [heq, map_map]
    exact hnames
  · rw [heq]
    exact nodup_singleton _

theorem same_entry (hskeleton : (skeleton.map Prod.fst).Nodup) (h : slot ∈ slots skeleton)
    (h' : slot' ∈ slots skeleton) (hkey : slot.1.key = slot'.1.key) :
    ∃ entry ∈ skeleton, slot ∈ entrySlots entry.1 entry.2 ∧ slot' ∈ entrySlots entry.1 entry.2 := by
  obtain ⟨entry, hentry, hslot⟩ := mem_flatMap.1 h
  obtain ⟨entry', hentry', hslot'⟩ := mem_flatMap.1 h'
  rw [key_of_mem_entrySlots hslot, key_of_mem_entrySlots hslot'] at hkey
  obtain rfl := inj_on_of_nodup_map hskeleton hentry hentry' hkey
  exact ⟨entry, hentry, hslot, hslot'⟩

theorem slot_unique (hskeleton : Json.distinct (.obj skeleton) = true) (h : slot ∈ slots skeleton)
    (h' : slot' ∈ slots skeleton) (haddress : slot.1 = slot'.1) : slot = slot' := by
  obtain ⟨entry, hentry, hslot, hslot'⟩ := same_entry (Mapping.nodup ⟨skeleton, hskeleton⟩) h h'
    (by rw [haddress])
  have hvalue := Mapping.distinct_of_mem ⟨skeleton, hskeleton⟩ hentry
  exact inj_on_of_nodup_map (addresses_nodup hvalue) hslot hslot' haddress

theorem whole_alone (hskeleton : (skeleton.map Prod.fst).Nodup)
    (h : (.whole key, value) ∈ slots skeleton) (h' : slot ∈ slots skeleton)
    (hkey : slot.1.key = key) : slot = (.whole key, value) := by
  obtain ⟨entry, -, hslot, hslot'⟩ := same_entry hskeleton h' h hkey
  rcases entrySlots_cases entry.1 entry.2 with ⟨field, items, -, -, heq⟩ | ⟨fields, -, heq⟩ | heq
  · rw [heq] at hslot'
    simp at hslot'
  · rw [heq] at hslot'
    simp at hslot'
  · rw [heq, mem_singleton] at hslot hslot'
    exact hslot.trans hslot'.symm

theorem field_unique (hskeleton : (skeleton.map Prod.fst).Nodup) {field field' id id' : String}
    {item item' : Json} (h : (.item key field id, item) ∈ slots skeleton)
    (h' : (.item key field' id', item') ∈ slots skeleton) : field = field' := by
  obtain ⟨entry, -, hslot, hslot'⟩ := same_entry hskeleton h h' rfl
  rcases entrySlots_cases entry.1 entry.2 with ⟨f, items, -, -, heq⟩ | ⟨fields, -, heq⟩ | heq
  · rw [heq] at hslot hslot'
    obtain ⟨_, -, hitem⟩ := mem_map.1 hslot
    obtain ⟨_, -, hitem'⟩ := mem_map.1 hslot'
    simp only [Prod.mk.injEq, Address.item.injEq] at hitem hitem'
    exact hitem.1.2.1.symm.trans hitem'.1.2.1
  · rw [heq] at hslot
    simp at hslot
  · rw [heq] at hslot
    simp at hslot

end Slots

/-! ### The frame of a repair -/

section Frame

variable (py : PyLib) (produced skeleton merged : Fields)

/-- Under a key, what has the name of a malformed slot is that slot. -/
def NamesOwn (key : String) : Prop :=
  ∀ address : Address, address.key = key → (address.value produced).isSome = true →
    address.text ∈ malformedNames py produced skeleton →
      ∃ slot ∈ slots skeleton, slot.1 = address ∧ isMalformed py produced slot = true

structure Frame : Prop where
  /-- A satisfied name or item has its value. -/
  part : ∀ slot ∈ slots skeleton, isSatisfied py produced slot = true →
    NamesOwn py produced skeleton slot.1.key → (∀ key, slot.1 ≠ .whole key) →
      slot.1.value merged = slot.1.value produced
  /-- A satisfied whole value is extended at most. -/
  whole : ∀ slot ∈ slots skeleton, isSatisfied py produced slot = true →
    ∀ key, slot.1 = .whole key → NamesOwn py produced skeleton key →
      ∃ old new, produced.lookup key = some old ∧ merged.lookup key = some new ∧ Extends old new
  /-- A value whose key is not in the skeleton is extended at most. -/
  key : ∀ key old, produced.lookup key = some old → key ∉ skeleton.map Prod.fst →
    NamesOwn py produced skeleton key → ∃ new, merged.lookup key = some new ∧ Extends old new
  /-- A name that the skeleton does not have has its value. -/
  name : ∀ key n value, (Address.name key n).value produced = some value →
    NamesOwn py produced skeleton key → .whole key ∉ (slots skeleton).map Prod.fst →
      .name key n ∉ (slots skeleton).map Prod.fst → (Address.name key n).value merged = some value
  /-- An item that is not the first one with an id of the skeleton has its place. -/
  index : ∀ key items (index : ℕ) item, produced.lookup key = some (.arr items) →
    NamesOwn py produced skeleton key → .whole key ∉ (slots skeleton).map Prod.fst →
      items[index]? = some item →
        (∀ field id, .item key field id ∈ (slots skeleton).map Prod.fst →
          items.findIdx? (hasId field id) ≠ some index) →
        ∃ items', merged.lookup key = some (.arr items') ∧ items'[index]? = some item

variable {py produced skeleton}

theorem NamesOwn.free {key : String} (h : NamesOwn py produced skeleton key) {address : Address}
    (hkey : address.key = key) (hvalue : (address.value produced).isSome = true)
    (hslots : ∀ slot ∈ slots skeleton, slot.1 = address → isMalformed py produced slot = false) :
    address.text ∉ malformedNames py produced skeleton := fun hmem => by
  obtain ⟨slot, hslot, haddress, hmalformed⟩ := h address hkey hvalue hmem
  rw [hslots slot hslot haddress] at hmalformed
  cases hmalformed

theorem NamesOwn.key_free {key : String} (h : NamesOwn py produced skeleton key) {old : Json}
    (hold : produced.lookup key = some old)
    (hwhole : ∀ slot ∈ slots skeleton, slot.1 ≠ .whole key) :
    key ∉ malformedNames py produced skeleton := by
  have hvalue : ((Address.whole key).value produced).isSome = true := by
    rw [Address.value, hold]
    rfl
  have hfree : (Address.whole key).text ∉ malformedNames py produced skeleton :=
    h.free rfl hvalue fun slot hslot haddress => absurd haddress (hwhole slot hslot)
  exact hfree

theorem not_isMalformed {slot : Slot} (h : isSatisfied py produced slot = true) :
    isMalformed py produced slot = false := by
  simp [isMalformed, h]

theorem exists_value {slot : Slot} (h : isSatisfied py produced slot = true) :
    ∃ value, slot.1.value produced = some value := by
  unfold isSatisfied at h
  rcases hvalue : slot.1.value produced with _ | value
  · rw [hvalue] at h
    cases h
  · exact ⟨value, rfl⟩

theorem exists_lookup {address : Address} {value : Json}
    (h : address.value produced = some value) : ∃ old, produced.lookup address.key = some old ∧
      address.within old = some value := by
  rw [Address.value_eq] at h
  exact Option.bind_eq_some_iff.1 h

theorem part_kept (hskeleton : Json.distinct (.obj skeleton) = true) (fragment : Mapping)
    {slot : Slot} (hslot : slot ∈ slots skeleton) (hsat : isSatisfied py produced slot = true)
    (hown : NamesOwn py produced skeleton slot.1.key) (hpart : ∀ key, slot.1 ≠ .whole key) :
    slot.1.value (mergeEntries (malformedNames py produced skeleton) produced
      fragment.fields).value = slot.1.value produced := by
  have hnodup := Mapping.nodup ⟨skeleton, hskeleton⟩
  obtain ⟨value, hvalue⟩ := exists_value hsat
  obtain ⟨old, hold, hwithin⟩ := exists_lookup hvalue
  have hk : slot.1.key ∉ malformedNames py produced skeleton :=
    hown.key_free hold fun slot' hslot' hwhole => by
      obtain ⟨address, value'⟩ := slot'
      obtain rfl : address = .whole slot.1.key := hwhole
      rw [whole_alone hnodup hslot' hslot rfl] at hpart
      exact hpart _ rfl
  have htext : slot.1.text ∉ malformedNames py produced skeleton :=
    hown.free rfl (by rw [hvalue]; rfl) fun slot' hslot' haddress => by
      rw [slot_unique hskeleton hslot' hslot haddress]
      exact not_isMalformed hsat
  rw [hvalue]
  obtain ⟨address, shape⟩ := slot
  cases address with
  | whole key => exact absurd rfl (hpart key)
  | name key n => exact name_kept hk htext hvalue
  | item key field id =>
    obtain ⟨items, rfl⟩ : ∃ items, old = .arr items := by
      cases old with
      | arr items => exact ⟨items, rfl⟩
      | _ => cases hwithin
    have hitems : produced.lookup key = some (.arr items) := hold
    obtain ⟨items', hitems', hcases⟩ : ∃ items', (mergeEntries (malformedNames py produced skeleton)
        produced fragment.fields).value.lookup key = _ ∧ _ := items_kept hk hitems
    have hfind : indexKeyedItems items field id = some value := hwithin
    rw [Address.value_eq]
    refine Option.bind_eq_some_iff.2 ⟨_, hitems', ?_⟩
    rw [Address.within]
    rcases hcases with rfl | ⟨other, news, hkeyed, rfl⟩
    · exact hfind
    by_cases hother : other = field
    · subst hother
      rw [indexKeyedItems_overlay hkeyed, hfind]
      exact congrArg some (if_neg (by simpa [overwritesId] using htext))
    · -- no item under this key is addressed by the other field
      have hstanding : standing (overwritesId (malformedNames py produced skeleton) key other) other
          items news = items := standing_eq_self fun id' hid' => by
        refine decide_eq_false (hown.free rfl ?_ fun slot' hslot' haddress => ?_)
        · rw [Address.value_eq, Address.key, hitems]
          exact hid'
        · obtain ⟨address, shape'⟩ := slot'
          obtain rfl : address = .item key other id' := haddress
          exact absurd (field_unique hnodup hslot' hslot) hother
      rw [overlay, hstanding, indexKeyedItems, find?_append]
      unfold indexKeyedItems at hfind
      rw [hfind, Option.some_or]

theorem value_extended (fragment : Mapping) {key : String} {old : Json}
    (hold : produced.lookup key = some old) (hown : NamesOwn py produced skeleton key)
    (hslots : ∀ slot ∈ slots skeleton, slot.1.key = key → isMalformed py produced slot = false) :
    ∃ new, (mergeEntries (malformedNames py produced skeleton) produced
      fragment.fields).value.lookup key = some new ∧ Extends old new := by
  rw [lookup_mergeEntries fragment.nodup, hold]
  rcases hnew : fragment.fields.lookup key with _ | new
  · exact ⟨old, rfl, Extends.refl old⟩
  have hdistinct := fragment.distinct_of_mem (Fields.mem_of_lookup hnew)
  refine ⟨_, rfl, mergeValue_extends hdistinct fun address hkey hwithin => ?_⟩
  refine hown.free hkey ?_ fun slot hslot haddress => hslots slot hslot (by rw [haddress, hkey])
  rw [Address.value_eq, hkey, hold]
  exact hwithin

theorem mem_keys_of_mem_slots {slot : Slot} (h : slot ∈ slots skeleton) :
    slot.1.key ∈ skeleton.map Prod.fst := by
  obtain ⟨entry, hentry, hslot⟩ := mem_flatMap.1 h
  rw [key_of_mem_entrySlots hslot]
  exact mem_map.2 ⟨entry, hentry, rfl⟩

theorem frame_mergeEntries (hskeleton : Json.distinct (.obj skeleton) = true)
    (fragment : Mapping) : Frame py produced skeleton
      (mergeEntries (malformedNames py produced skeleton) produced fragment.fields).value where
  part slot hslot hsat hown hpart := part_kept hskeleton fragment hslot hsat hown hpart
  whole slot hslot hsat key haddress hown := by
    obtain ⟨value, hvalue⟩ := exists_value hsat
    obtain ⟨old, hold, -⟩ := exists_lookup hvalue
    rw [haddress] at hold
    obtain ⟨new, hnew, hextends⟩ := value_extended fragment hold hown fun slot' hslot' hkey => by
      obtain ⟨address, shape⟩ := slot
      obtain rfl : address = .whole key := haddress
      rw [whole_alone (Mapping.nodup ⟨skeleton, hskeleton⟩) hslot hslot' hkey]
      exact not_isMalformed hsat
    exact ⟨old, new, hold, hnew, hextends⟩
  key key old hold houtside hown :=
    value_extended fragment hold hown fun slot hslot hkey =>
      absurd (hkey ▸ mem_keys_of_mem_slots hslot) houtside
  name key n value hvalue hown hwhole hname := by
    obtain ⟨old, hold, -⟩ := exists_lookup hvalue
    refine name_kept (hown.key_free hold fun slot hslot haddress => ?_)
      (hown.free rfl (by rw [hvalue]; rfl) fun slot hslot haddress => ?_) hvalue
    · exact hwhole (mem_map.2 ⟨slot, hslot, haddress⟩)
    · exact absurd (mem_map.2 ⟨slot, hslot, haddress⟩) hname
  index key items index item hitems hown hwhole hitem hfirst := by
    refine index_kept (hown.key_free hitems fun slot hslot haddress => ?_) hitems hitem
      fun field id hplace => hown.free rfl ?_ fun slot hslot haddress => ?_
    · exact hwhole (mem_map.2 ⟨slot, hslot, haddress⟩)
    · rw [Address.value_eq, Address.key, hitems]
      exact isSome_of_findIdx? hplace
    · exact absurd hplace (hfirst field id (mem_map.2 ⟨slot, hslot, haddress⟩))

end Frame

/-- A skeleton `repair_delta` takes: a mapping, bare or in the result of a gadget. -/
structure Skeleton where
  value : Json
  distinct : value.distinct = true
  fields : Fields
  unwraps : unwrap "skeleton" value = .obj fields

theorem distinct_unwrap (payload : String) {value : Json} (h : value.distinct = true) :
    (unwrap payload value).distinct = true := by
  cases value with
  | obj m =>
    unfold unwrap
    dsimp only
    split_ifs with hok
    · obtain ⟨inner, hinner⟩ := Option.isSome_iff_exists.1 hok.2
      rw [Fields.get, hinner]
      exact Mapping.distinct_of_mem ⟨m, h⟩ (Fields.mem_of_lookup hinner)
    · exact h
  | _ => exact h

/-- A repair keeps what is satisfied and what is outside of the skeleton, but for more entries in a
mapping or list and for what has the name of a malformed slot, and repeating its merge changes
nothing. -/
theorem repair_frame (py : PyLib) (report produced fragment : Mapping) (skeleton : Skeleton) :
    ∃ d merged again,
      repairDelta py (.obj report.fields) (.obj produced.fields) skeleton.value = .ok d ∧
        mergeFragment (.obj produced.fields) (.obj fragment.fields) d.toJson = .ok merged ∧
          Frame py produced.fields skeleton.fields merged.value ∧
            mergeFragment (.obj merged.value) (.obj fragment.fields) d.toJson = .ok again ∧
              again.value = merged.value := by
  have hskeleton := distinct_unwrap "skeleton" skeleton.distinct
  rw [skeleton.unwraps] at hskeleton
  exact ⟨_, _, _, repairDelta_eq skeleton.unwraps, mergeFragment_delta ..,
    frame_mergeEntries hskeleton fragment, mergeFragment_delta .., mergeEntries_idem ..⟩

/-- A satisfied mapping gets a name from the fragment, and a satisfied value is overwritten because a
malformed name of a mapping reads like its key. -/
theorem satisfied_slot_changed :
    (∃ d merged, repairDelta asciiLib (.obj []) (.obj [("a", .obj [("x", .int 1)])])
        (.obj [("a", .null)]) = .ok d ∧
      mergeFragment (.obj [("a", .obj [("x", .int 1)])]) (.obj [("a", .obj [("y", .int 2)])])
        d.toJson = .ok merged ∧
      (.whole "a", .null) ∈ slots [("a", .null)] ∧
      isSatisfied asciiLib [("a", .obj [("x", .int 1)])] (.whole "a", .null) = true ∧
      merged.value.lookup "a" ≠ some (.obj [("x", .int 1)])) ∧
    ∃ d merged, repairDelta asciiLib (.obj []) (.obj [("a", .obj [("b", .null)]), ("a.b", .int 1)])
        (.obj [("a", .obj [("b", .null)]), ("a.b", .null)]) = .ok d ∧
      mergeFragment (.obj [("a", .obj [("b", .null)]), ("a.b", .int 1)]) (.obj [("a.b", .int 2)])
        d.toJson = .ok merged ∧
      (.whole "a.b", .null) ∈ slots [("a", .obj [("b", .null)]), ("a.b", .null)] ∧
      isSatisfied asciiLib [("a", .obj [("b", .null)]), ("a.b", .int 1)] (.whole "a.b", .null) =
        true ∧
      merged.value.lookup "a.b" ≠ some (.int 1) := by
  refine ⟨⟨_, _, rfl, rfl, ?_⟩, ⟨_, _, rfl, rfl, ?_⟩⟩
  · decide +kernel
  · decide +kernel

end Gadgets

end AiOrg
