import AiOrg.Gadgets.Repair
import AiOrg.Python.Mapping

/-!
# What a merge makes of one key

The loops of `merge_fragment` in closed form: a keyed list is laid over the list that was there
(`mergeItems_value`), a mapping gives every name its own value (`lookup_mergeNames`), and the value
of a key depends on what was there and on the fragment's value alone (`lookup_mergeEntries`).
-/

namespace AiOrg

open List

namespace Gadgets

theorem find?_eq_findIdx? {α : Type} (p : α → Bool) (l : List α) :
    l.find? p = (l.findIdx? p).bind (l[·]?) := by
  induction l with
  | nil => rfl
  | cons a l ih =>
    rw [find?_cons, findIdx?_cons]
    by_cases ha : p a = true
    · simp [ha]
    · simp only [Bool.not_eq_true] at ha
      rw [ha, ih]
      rcases l.findIdx? p with _ | j
      · rfl
      · simp

theorem findIdx?_eq_of_map {α : Type} {p : α → Bool} {l l' : List α} (h : l.map p = l'.map p) :
    l.findIdx? p = l'.findIdx? p := by
  have hid : ∀ l : List α, l.findIdx? p = (l.map p).findIdx? id := fun l => by
    rw [findIdx?_map]
    rfl
  rw [hid, hid, h]

theorem idText_of_hasId {field id : String} {item : Json} (h : hasId field id item = true) :
    idText field item = id := by
  unfold hasId at h
  split at h
  · rename_i m
    rw [beq_iff_eq] at h
    simp only [idText, h]
  · exact absurd h nofun

structure KeyedBy (field : String) (items : List Json) : Prop where
  ids : (items.map (idText field)).Nodup
  own : ∀ item ∈ items, hasId field (idText field item) item = true

theorem allMappings_eq : ∀ {items : List Json} {maps : List Fields},
    allMappings items = some maps → items = maps.map .obj
  | [], maps, h => by
    obtain rfl := Option.some.inj h
    rfl
  | .obj item :: items, maps, h => by
    obtain ⟨rest, hrest, rfl⟩ := Option.map_eq_some_iff.1 h
    rw [map_cons, allMappings_eq hrest]

theorem idOf_eq {field id : String} {item : Fields} (h : idOf field item = some id) :
    Fields.get item field = .str id := by
  unfold idOf at h
  split at h
  · rename_i s hs
    split_ifs at h
    obtain rfl := Option.some.inj h
    exact hs
  · exact absurd h nofun

theorem map_idText_eq {field : String} : ∀ {maps : List Fields} {ids : List String},
    maps.mapM (idOf field) = some ids → (maps.map Json.obj).map (idText field) = ids ∧
      ∀ item ∈ maps.map Json.obj, hasId field (idText field item) item = true
  | [], ids, h => by
    obtain rfl := Option.some.inj h
    exact ⟨rfl, nofun⟩
  | m :: maps, ids, h => by
    rw [mapM_cons] at h
    obtain ⟨id, hid, h⟩ := Option.bind_eq_some_iff.1 h
    obtain ⟨rest, hrest, h⟩ := Option.bind_eq_some_iff.1 h
    obtain rfl := Option.some.inj h
    obtain ⟨hids, hown⟩ := map_idText_eq hrest
    have hm := idOf_eq hid
    refine ⟨by simp only [map_cons, hids, idText, hm], forall_mem_cons.2 ⟨?_, hown⟩⟩
    simp [hasId, idText, hm]

theorem keyedBy_of_keyedListIdField {items : List Json} {field : String}
    (h : keyedListIdField (.arr items) = some field) : KeyedBy field items := by
  unfold keyedListIdField at h
  dsimp only at h
  split at h
  · rename_i first rest hmaps
    have hfield := find?_some h
    unfold isIdField at hfield
    split at hfield
    · rename_i ids hids
      obtain ⟨hmap, hown⟩ := map_idText_eq hids
      rw [allMappings_eq hmaps]
      refine ⟨?_, hown⟩
      rw [hmap]
      exact of_decide_eq_true hfield
    · exact absurd hfield nofun
  · exact absurd h nofun

theorem items_of_keyedListIdField {value : Json} {field : String}
    (h : keyedListIdField value = some field) : ∃ items, value = .arr items ∧ items ≠ [] := by
  unfold keyedListIdField at h
  split at h
  · rename_i items
    refine ⟨items, rfl, ?_⟩
    rintro rfl
    exact absurd h nofun
  · exact absurd h nofun

theorem KeyedBy.snoc {field : String} {items : List Json} {item : Json}
    (h : KeyedBy field (items ++ [item])) :
    KeyedBy field items ∧ hasId field (idText field item) item = true ∧
      ∀ other ∈ items, idText field other ≠ idText field item := by
  have hids := h.ids
  rw [map_append, nodup_append] at hids
  refine ⟨⟨hids.1, fun other hother => h.own other (mem_append_left _ hother)⟩,
    h.own item (by simp), fun other hother heq => ?_⟩
  exact hids.2.2 _ (mem_map.2 ⟨other, hother, rfl⟩) _ (by simp) heq

/-! ### Keyed lists -/

/-- The items that were there, with each item that may overwrite in the place of the first one with
its id. -/
def standing (overwrites : String → Bool) (field : String) (target items : List Json) : List Json :=
  target.mapIdx fun index old =>
    (items.find? fun item => overwrites (idText field item) &&
      target.findIdx? (hasId field (idText field item)) == some index).getD old

/-- The items with new ids. -/
def added (field : String) (target items : List Json) : List Json :=
  items.filter fun item => (target.findIdx? (hasId field (idText field item))).isNone

def overlay (overwrites : String → Bool) (field : String) (target items : List Json) : List Json :=
  standing overwrites field target items ++ added field target items

section Overlay

variable {overwrites : String → Bool} {field : String} {target items : List Json}

theorem hasId_overlay_place (hkeyed : KeyedBy field items) (id : String) (index : ℕ)
    (hindex : index < target.length) :
    hasId field id ((items.find? fun item => overwrites (idText field item) &&
      target.findIdx? (hasId field (idText field item)) == some index).getD target[index]) =
      hasId field id target[index] := by
  rcases hfind : items.find? fun item => overwrites (idText field item) &&
    target.findIdx? (hasId field (idText field item)) == some index with _ | item
  · rfl
  rw [Option.getD_some]
  have hitem := find?_some hfind
  simp only [Bool.and_eq_true, beq_iff_eq] at hitem
  obtain ⟨_, hold, -⟩ := findIdx?_eq_some_iff_getElem.1 hitem.2
  have hown := hkeyed.own item (mem_of_find?_eq_some hfind)
  rw [Bool.eq_iff_iff]
  constructor
  · intro h
    rw [← idText_of_hasId h]
    exact hold
  · intro h
    rw [← idText_of_hasId h, idText_of_hasId hold]
    exact hown

theorem getElem?_standing (index : ℕ) : (standing overwrites field target items)[index]? =
    target[index]?.map fun old => (items.find? fun item => overwrites (idText field item) &&
      target.findIdx? (hasId field (idText field item)) == some index).getD old :=
  getElem?_mapIdx

theorem findIdx?_standing (hkeyed : KeyedBy field items) (id : String) :
    (standing overwrites field target items).findIdx? (hasId field id) =
      target.findIdx? (hasId field id) := by
  unfold standing
  refine findIdx?_eq_of_map (ext_getElem (by simp) fun index h₁ h₂ => ?_)
  rw [getElem_map, getElem_map, getElem_mapIdx]
  exact hasId_overlay_place hkeyed id index _

theorem overlay_snoc_new {item : Json}
    (h : target.findIdx? (hasId field (idText field item)) = none) :
    overlay overwrites field target (items ++ [item]) =
      overlay overwrites field target items ++ [item] := by
  unfold overlay standing added
  rw [filter_append, filter_cons_of_pos (by simp [h]), filter_nil,
    ← append_assoc]
  congr 2
  refine ext_getElem (by simp) fun index h₁ h₂ => ?_
  rw [getElem_mapIdx, getElem_mapIdx, find?_append]
  simp [h]

theorem overlay_snoc_skip {item : Json} {place : ℕ}
    (h : target.findIdx? (hasId field (idText field item)) = some place)
    (hskip : overwrites (idText field item) = false) :
    overlay overwrites field target (items ++ [item]) = overlay overwrites field target items := by
  unfold overlay standing added
  rw [filter_append, filter_cons_of_neg (by simp [h]), filter_nil, append_nil]
  congr 1
  refine ext_getElem (by simp) fun index h₁ h₂ => ?_
  rw [getElem_mapIdx, getElem_mapIdx, find?_append]
  simp [hskip]

theorem overlay_snoc_set {item : Json} {place : ℕ} (hkeyed : KeyedBy field (items ++ [item]))
    (h : target.findIdx? (hasId field (idText field item)) = some place)
    (hset : overwrites (idText field item) = true) :
    overlay overwrites field target (items ++ [item]) =
      (overlay overwrites field target items).set place item := by
  obtain ⟨-, -, hdistinct⟩ := hkeyed.snoc
  obtain ⟨hplace, hold, -⟩ := findIdx?_eq_some_iff_getElem.1 h
  -- no earlier item of the fragment goes to the same place
  have hfree : (items.find? fun other => overwrites (idText field other) &&
      target.findIdx? (hasId field (idText field other)) == some place) = none := by
    rw [find?_eq_none]
    intro other hother hplaced
    simp only [Bool.and_eq_true, beq_iff_eq] at hplaced
    obtain ⟨_, hold', -⟩ := findIdx?_eq_some_iff_getElem.1 hplaced.2
    exact hdistinct other hother ((idText_of_hasId hold').symm.trans (idText_of_hasId hold))
  unfold overlay standing added
  rw [filter_append, filter_cons_of_neg (by simp [h]), filter_nil, append_nil,
    set_append_left _ _ (by simpa using hplace)]
  congr 1
  refine ext_getElem (by simp) fun index h₁ h₂ => ?_
  rw [getElem_set, getElem_mapIdx, getElem_mapIdx, find?_append]
  by_cases hindex : place = index
  · subst hindex
    simp [hfree, hset, h]
  · simp [h, hindex]

theorem indexKeyedItems_added {id : String} (h : target.findIdx? (hasId field id) = none) :
    indexKeyedItems (added field target items) field id = indexKeyedItems items field id := by
  unfold indexKeyedItems added
  rw [find?_filter]
  refine find?_congr fun item _ => ?_
  by_cases hid : hasId field id item = true
  · rw [idText_of_hasId hid, h]
    simp [hid]
  · simp [hid]

theorem find?_taking (hkeyed : KeyedBy field items) {id : String} {place : ℕ}
    (h : target.findIdx? (hasId field id) = some place) :
    (items.find? fun item => overwrites (idText field item) &&
        target.findIdx? (hasId field (idText field item)) == some place) =
      if overwrites id then items.find? (hasId field id) else none := by
  obtain ⟨_, hold, -⟩ := findIdx?_eq_some_iff_getElem.1 h
  have hsame : ∀ item ∈ items, (overwrites (idText field item) &&
      target.findIdx? (hasId field (idText field item)) == some place) =
        (overwrites id && hasId field id item) := fun item hitem => by
    by_cases hid : idText field item = id
    · have hown := hkeyed.own item hitem
      rw [hid] at hown
      rw [hid, hown, h]
      simp
    · have hno : hasId field id item = false := Bool.eq_false_iff.2 fun h => hid (idText_of_hasId h)
      have hother : target.findIdx? (hasId field (idText field item)) ≠ some place := fun h' => by
        obtain ⟨_, hold', -⟩ := findIdx?_eq_some_iff_getElem.1 h'
        exact hid ((idText_of_hasId hold').symm.trans (idText_of_hasId hold))
      simp [hno, hother]
  rw [find?_congr hsame]
  by_cases hset : overwrites id = true
  · simp [hset]
  · simp [hset]

theorem indexKeyedItems_standing (hkeyed : KeyedBy field items) (id : String) :
    indexKeyedItems (standing overwrites field target items) field id =
      (indexKeyedItems target field id).map fun old =>
        if overwrites id then (indexKeyedItems items field id).getD old else old := by
  unfold indexKeyedItems
  rw [find?_eq_findIdx?, findIdx?_standing hkeyed, find?_eq_findIdx? (l := target)]
  rcases hplace : target.findIdx? (hasId field id) with _ | place
  · rfl
  · obtain ⟨hlt, -, -⟩ := findIdx?_eq_some_iff_getElem.1 hplace
    have htaking : (items.find? fun item => overwrites (idText field item) && _) = _ :=
      find?_taking hkeyed hplace
    rw [Option.bind_some, Option.bind_some, standing, getElem?_mapIdx,
      getElem?_eq_getElem hlt, Option.map_some, Option.map_some, htaking]
    by_cases hset : overwrites id = true
    · simp [hset]
    · simp [hset]

theorem indexKeyedItems_overlay (hkeyed : KeyedBy field items) (id : String) :
    indexKeyedItems (overlay overwrites field target items) field id =
      match indexKeyedItems target field id with
      | none => indexKeyedItems items field id
      | some old =>
        some (if overwrites id then (indexKeyedItems items field id).getD old else old) := by
  have hfind : indexKeyedItems (overlay overwrites field target items) field id =
      (indexKeyedItems (standing overwrites field target items) field id).or
        (indexKeyedItems (added field target items) field id) := find?_append
  rw [hfind, indexKeyedItems_standing hkeyed]
  rcases hold : indexKeyedItems target field id with _ | old
  · rw [Option.map_none, Option.none_or]
    refine indexKeyedItems_added ?_
    rw [findIdx?_eq_none_iff]
    intro item hitem
    rw [Bool.eq_false_iff]
    exact find?_eq_none.1 hold item hitem
  · rfl

end Overlay

variable {overwritable : List String} {key : String}

def overwritesId (overwritable : List String) (key field id : String) : Bool :=
  decide ((Address.item key field id).text ∈ overwritable)

/-- A loop over keyed items lays them over the list. -/
theorem mergeItems_value {field : String} {items : List Json} (hkeyed : KeyedBy field items)
    (target : List Json) :
    (items.foldl (mergeItem overwritable key field) ⟨target, [], []⟩).value =
      overlay (overwritesId overwritable key field) field target items := by
  induction items using reverseRecOn with
  | nil =>
    unfold overlay standing added
    have hmap : target.mapIdx (fun _ old => old) = target := ext_getElem (by simp) (by simp)
    simp [hmap]
  | append_singleton items item ih =>
    obtain ⟨hitems, hown, hdistinct⟩ := hkeyed.snoc
    rw [foldl_append, foldl_cons, foldl_nil, mergeItem]
    -- the new item meets the same places as in the list that was there
    have hnew : (added field target items).findIdx? (hasId field (idText field item)) = none := by
      rw [findIdx?_eq_none_iff]
      intro other hother
      rw [Bool.eq_false_iff]
      exact fun h => hdistinct other (mem_of_mem_filter hother) (idText_of_hasId h)
    have hindex : (overlay (overwritesId overwritable key field) field target items).findIdx?
        (hasId field (idText field item)) =
          target.findIdx? (hasId field (idText field item)) := by
      rw [overlay, findIdx?_append, hnew, Option.map_none, Option.or_none,
        findIdx?_standing hitems]
    rw [ih hitems, hindex]
    rcases hplace : target.findIdx? (hasId field (idText field item)) with _ | place
    · exact (overlay_snoc_new hplace).symm
    · split_ifs with hmem
      · exact (overlay_snoc_set hkeyed hplace (decide_eq_true hmem)).symm
      · exact (ih hitems).trans (overlay_snoc_skip hplace (decide_eq_false hmem)).symm

def nameValue (overwritable : List String) (key n : String) (present : Option Json)
    (fragment : Json) : Json :=
  match present with
  | none => fragment
  | some value => if (Address.name key n).text ∈ overwritable then fragment else value

theorem lookup_mergeName (m : Merging Fields) (entry : String × Json) (k : String) :
    (mergeName overwritable key m entry).value.lookup k =
      if k = entry.1 then some (nameValue overwritable key k (m.value.lookup k) entry.2)
      else m.value.lookup k := by
  obtain ⟨name, value⟩ := entry
  unfold mergeName nameValue
  by_cases hk : k = name
  · subst hk
    rcases hpresent : m.value.lookup k with _ | old
    · simp [Merging.apply, Fields.lookup_set]
    · by_cases hmem : (Address.name key k).text ∈ overwritable
      · simp [hmem, Merging.apply, Fields.lookup_set]
      · simp [hmem, Merging.skip, hpresent]
  · rcases m.value.lookup name with _ | old
    · simp [Merging.apply, Fields.lookup_set, hk]
    · by_cases hmem : (Address.name key name).text ∈ overwritable
      · simp [hmem, Merging.apply, Fields.lookup_set, hk]
      · simp [hmem, Merging.skip, hk]

theorem lookup_mergeNames {names : Fields} (hnames : (names.map Prod.fst).Nodup) (target : Fields)
    (k : String) :
    (names.foldl (mergeName overwritable key) ⟨target, [], []⟩).value.lookup k =
      match names.lookup k with
      | none => target.lookup k
      | some v => some (nameValue overwritable key k (target.lookup k) v) :=
  Fields.lookup_foldl Merging.value lookup_mergeName hnames _ k

/-- Every key of the fragment gets the merge of what was there and the fragment's value. -/
theorem lookup_mergeEntries {fragment : Fields} (hfragment : (fragment.map Prod.fst).Nodup)
    (produced : Fields) (k : String) :
    (mergeEntries overwritable produced fragment).value.lookup k =
      match fragment.lookup k with
      | none => produced.lookup k
      | some v => some (mergeValue overwritable k (produced.lookup k) v).value := by
  refine Fields.lookup_foldl Merging.value
    (f := fun k present v => (mergeValue overwritable k present v).value) (fun m entry j => ?_)
    hfragment _ k
  rw [mergeEntry, Fields.lookup_set]
  by_cases hj : j = entry.1
  · subst hj
    simp
  · simp [hj]

section Value

variable {k field : String} {value : Json}

theorem mergeValue_items {items : List Json} (h : keyedListIdField (.arr items) = some field)
    (target : List Json) :
    (mergeValue overwritable k (some (.arr target)) (.arr items)).value =
      .arr (overlay (overwritesId overwritable k field) field target items) := by
  unfold mergeValue
  rw [h]
  exact congrArg Json.arr (mergeItems_value (keyedBy_of_keyedListIdField h) target)

theorem mergeValue_items_skip {items : List Json} (h : keyedListIdField (.arr items) = some field)
    (hvalue : ∀ target, value ≠ .arr target) :
    (mergeValue overwritable k (some value) (.arr items)).value = value := by
  unfold mergeValue
  rw [h]
  cases value with
  | arr target => exact absurd rfl (hvalue target)
  | _ => rfl

theorem mergeValue_names (target names : Fields) :
    (mergeValue overwritable k (some (.obj target)) (.obj names)).value =
      .obj (names.foldl (mergeName overwritable k) ⟨target, [], []⟩).value :=
  rfl

theorem mergeValue_names_skip {names : Fields} (hvalue : ∀ target, value ≠ .obj target) :
    (mergeValue overwritable k (some value) (.obj names)).value = value := by
  cases value with
  | obj target => exact absurd rfl (hvalue target)
  | _ => rfl

structure IsPlain (value : Json) : Prop where
  unkeyed : keyedListIdField value = none
  notMapping : ∀ names, value ≠ .obj names

theorem mergeValue_plain {fragment : Json} (h : IsPlain fragment) :
    (mergeValue overwritable k (some value) fragment).value =
      if k ∈ overwritable then fragment else value := by
  unfold mergeValue
  rw [h.unkeyed]
  cases fragment with
  | obj names => exact absurd rfl (h.notMapping names)
  | _ => split_ifs <;> rfl

theorem items_or_names_or_plain (value : Json) :
    (∃ items field, value = .arr items ∧ keyedListIdField (.arr items) = some field) ∨
      (∃ names, value = .obj names) ∨ IsPlain value := by
  rcases hkey : keyedListIdField value with _ | field
  · cases value with
    | obj names => exact .inr (.inl ⟨names, rfl⟩)
    | _ => exact .inr (.inr ⟨hkey, nofun⟩)
  · obtain ⟨items, rfl, -⟩ := items_of_keyedListIdField hkey
    exact .inl ⟨items, field, rfl, hkey⟩

theorem overlay_nil {overwrites : String → Bool} {items : List Json} :
    overlay overwrites field [] items = items := by
  simp [overlay, standing, added]

theorem mergeNames_nil {names : Fields} (hnames : (names.map Prod.fst).Nodup) :
    (names.foldl (mergeName overwritable k) ⟨[], [], []⟩).value = names := by
  induction names using reverseRecOn with
  | nil => rfl
  | append_singleton names entry ih =>
    rw [map_append, nodup_append] at hnames
    have habsent : names.lookup entry.1 = none :=
      Fields.lookup_eq_none_iff.2 fun hmem => hnames.2.2 _ hmem _ (by simp) rfl
    rw [foldl_append, foldl_cons, foldl_nil, mergeName]
    rw [ih hnames.1, habsent]
    exact Fields.set_of_absent habsent

theorem mergeValue_none {fragment : Json} (hfragment : fragment.distinct = true) :
    (mergeValue overwritable k none fragment).value = fragment := by
  rcases items_or_names_or_plain fragment with ⟨items, field, rfl, hkey⟩ | ⟨names, rfl⟩ | hplain
  · have hempty : (mergeValue overwritable k none (.arr items)).value =
        (mergeValue overwritable k (some (.arr [])) (.arr items)).value := by
      unfold mergeValue
      rw [hkey]
      rfl
    rw [hempty, mergeValue_items hkey, overlay_nil]
  · exact congrArg Json.obj (mergeNames_nil (Mapping.nodup ⟨names, hfragment⟩))
  · unfold mergeValue
    rw [hplain.unkeyed]
    cases fragment with
    | obj names => exact absurd rfl (hplain.notMapping names)
    | _ => rfl

end Value

end Gadgets

end AiOrg
