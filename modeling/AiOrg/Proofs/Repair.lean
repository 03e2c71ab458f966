import AiOrg.Proofs.Merge
import AiOrg.Python.Base64

/-!
# When one repair is enough

A fragment with a satisfying value for every slot that is not satisfied repairs the output in one
step exactly where the merge puts these values into place (`repair_converges_iff`). It passes over a
mapping or list of the fragment whose place in the output holds something else, although `repair_delta`
reports the slots there as missing.
-/

namespace AiOrg

namespace Gadgets

variable (py : PyLib)

def malformedNames (produced skeleton : Fields) : List String :=
  ((slots skeleton).filter (isMalformed py produced)).map (·.1.text)

/-- A value that satisfies every open slot. -/
def Supplies (produced skeleton fragment : Fields) : Prop :=
  ∀ slot ∈ slots skeleton, isSatisfied py produced slot = false → isSatisfied py fragment slot = true

/-- The delta after the merge has no slots. -/
def Converges (report produced fragment : Fields) (skeleton : Json) : Prop :=
  ∃ d merged d', repairDelta py (.obj report) (.obj produced) skeleton = .ok d ∧
    mergeFragment (.obj produced) (.obj fragment) d.toJson = .ok merged ∧
    repairDelta py (.obj report) (.obj merged.value) skeleton = .ok d' ∧
    d'.missingSlots = [] ∧ d'.malformedSlots = []

def Address.within : Address → Json → Option Json
  | .item _ field id, .arr items => indexKeyedItems items field id
  | .name _ n, .obj fields => fields.lookup n
  | .whole _, value => some value
  | _, _ => none

def satisfiedIn (slot : Slot) (value : Json) : Bool :=
  (slot.1.within value).any (slotSatisfied py slot.2)

section Lands

variable (names : List String)

/-- A whole value that was satisfied stays satisfied, and the merge does not go into one that was
not. -/
def WholeLands (key : String) (skeleton present fragment : Json) : Prop :=
  (IsPlain fragment → key ∈ names → slotSatisfied py skeleton present = true →
      slotSatisfied py skeleton fragment = true) ∧
    (¬ IsPlain fragment → slotSatisfied py skeleton present = true)

/-- A mapping meets a mapping, and a name that was satisfied stays satisfied. -/
def NameLands (key n : String) (skeleton present : Json) : Json → Prop
  | .obj names' => ∃ target, present = .obj target ∧
    ∀ old ∈ target.lookup n, ∀ new ∈ names'.lookup n, slotSatisfied py skeleton old = true →
      (Address.name key n).text ∈ names → slotSatisfied py skeleton new = true
  | fragment => IsPlain fragment → key ∉ names

/-- A keyed list meets a list. Where it is keyed by the field of the slot, an item that was satisfied
stays satisfied. Where it is keyed by another field, the first item with the id of the slot, among
those in the places of the old ones and then those with new ids, is satisfied. -/
def ItemLands (key field id : String) (skeleton present fragment : Json) : Prop :=
  (∀ items other, fragment = .arr items → keyedListIdField fragment = some other →
    ∃ target, present = .arr target ∧
      if other = field then
        ∀ old ∈ indexKeyedItems target field id, ∀ new ∈ indexKeyedItems items field id,
          slotSatisfied py skeleton old = true → (Address.item key field id).text ∈ names →
            slotSatisfied py skeleton new = true
      else ∃ item ∈ (indexKeyedItems (standing (overwritesId names key other) other target items)
          field id).or (indexKeyedItems (added other target items) field id),
        slotSatisfied py skeleton item = true) ∧
  (IsPlain fragment →
    satisfiedIn py (.item key field id, skeleton) (if key ∈ names then fragment else present) = true)

/-- Where both the output and the fragment have the key of a slot, the merge keeps the slot satisfied
or makes it so. -/
def Lands (produced fragment : Fields) (slot : Slot) : Prop :=
  ∀ present ∈ produced.lookup slot.1.key, ∀ new ∈ fragment.lookup slot.1.key,
    match slot with
    | (.whole key, skeleton) => WholeLands py names key skeleton present new
    | (.name key n, skeleton) => NameLands py names key n skeleton present new
    | (.item key field id, skeleton) => ItemLands py names key field id skeleton present new

end Lands

/-! ### One slot -/

section Slot

variable {py} {names : List String} {key : String} {skeleton present fragment : Json}

theorem Address.value_eq (m : Fields) (address : Address) :
    address.value m = (m.lookup address.key).bind address.within := by
  cases address <;> simp only [Address.value, Address.key] <;>
    rcases m.lookup _ with _ | value <;> try rfl
  all_goals cases value <;> rfl

theorem isSatisfied_eq (m : Fields) (slot : Slot) :
    isSatisfied py m slot = (m.lookup slot.1.key).any (satisfiedIn py slot) := by
  obtain ⟨address, skeleton⟩ := slot
  unfold isSatisfied satisfiedIn
  cases address <;> simp only [Address.value, Address.key] <;>
    rcases m.lookup _ with _ | value <;> try rfl
  · cases value <;> try rfl
    simp only [Address.within, Option.any_some]
    rcases indexKeyedItems _ _ _ with _ | value <;> rfl
  · cases value <;> try rfl
    simp only [Address.within, Option.any_some]
    rcases List.lookup _ _ with _ | value <;> rfl

theorem slotSatisfied_arr (h : IsPlain skeleton) (target target' : List Json) :
    slotSatisfied py skeleton (.arr target) = slotSatisfied py skeleton (.arr target') := by
  cases skeleton with
  | null => rfl
  | obj names => exact absurd rfl (h.notMapping names)
  | arr items => simp [slotSatisfied, h.unkeyed]
  | _ => simp [slotSatisfied, eqScalar, asInt]

theorem slotSatisfied_obj (h : IsPlain skeleton) (target target' : Fields) :
    slotSatisfied py skeleton (.obj target) = slotSatisfied py skeleton (.obj target') := by
  cases skeleton with
  | null => rfl
  | obj names => exact absurd rfl (h.notMapping names)
  | arr items => simp [slotSatisfied]
  | _ => simp [slotSatisfied, eqScalar, asInt]

theorem not_isPlain_of_keyed {items : List Json} {field : String}
    (h : keyedListIdField (.arr items) = some field) : ¬ IsPlain (.arr items) := fun hplain => by
  rw [hplain.unkeyed] at h
  cases h

theorem slotSatisfied_merge_iff (hskeleton : IsPlain skeleton)
    (hsupplied : slotSatisfied py skeleton present = false →
      slotSatisfied py skeleton fragment = true)
    (hmalformed : slotSatisfied py skeleton present = false → key ∈ names) :
    slotSatisfied py skeleton (mergeValue names key (some present) fragment).value = true ↔
      WholeLands py names key skeleton present fragment := by
  unfold WholeLands
  rcases items_or_names_or_plain fragment with
    ⟨items, field, rfl, hkey⟩ | ⟨added, rfl⟩ | hplain
  · have hnot := not_isPlain_of_keyed hkey
    have hsame : slotSatisfied py skeleton
        (mergeValue names key (some present) (.arr items)).value =
          slotSatisfied py skeleton present := by
      cases present with
      | arr target =>
        rw [mergeValue_items hkey]
        exact slotSatisfied_arr hskeleton _ _
      | _ => rw [mergeValue_items_skip hkey (by simp)]
    rw [hsame]
    exact ⟨fun h => ⟨fun hplain => absurd hplain hnot, fun _ => h⟩, fun h => h.2 hnot⟩
  · have hnot : ¬ IsPlain (.obj added) := fun hplain => hplain.notMapping added rfl
    have hsame : slotSatisfied py skeleton
        (mergeValue names key (some present) (.obj added)).value =
          slotSatisfied py skeleton present := by
      cases present with
      | obj target =>
        rw [mergeValue_names]
        exact slotSatisfied_obj hskeleton _ _
      | _ => rw [mergeValue_names_skip (by simp)]
    rw [hsame]
    exact ⟨fun h => ⟨fun hplain => absurd hplain hnot, fun _ => h⟩, fun h => h.2 hnot⟩
  · rw [mergeValue_plain hplain]
    rcases hsat : slotSatisfied py skeleton present with _ | _
    · simp [hmalformed hsat, hsupplied hsat, hplain]
    · by_cases hmem : key ∈ names
      · simp [hmem, hplain]
      · simp [hmem, hsat, hplain]

theorem name_merge_iff {n : String} (hdistinct : fragment.distinct = true)
    (hsupplied : satisfiedIn py (.name key n, skeleton) present = false →
      satisfiedIn py (.name key n, skeleton) fragment = true)
    (hmalformed : ∀ old, (Address.name key n).within present = some old →
      slotSatisfied py skeleton old = false → (Address.name key n).text ∈ names) :
    satisfiedIn py (.name key n, skeleton) (mergeValue names key (some present) fragment).value =
      true ↔ NameLands py names key n skeleton present fragment := by
  -- only a mapping has names
  have hnames : ∀ value, satisfiedIn py (.name key n, skeleton) value = true →
      ∃ target, value = .obj target := fun value hvalue => by
    cases value with
    | obj target => exact ⟨target, rfl⟩
    | _ => exact absurd hvalue (by simp [satisfiedIn, Address.within])
  have hkept (hfragment : ∀ target, fragment ≠ .obj target) :
      satisfiedIn py (.name key n, skeleton) present = true := by
    by_contra hunsat
    obtain ⟨target, htarget⟩ := hnames fragment (hsupplied (Bool.eq_false_iff.2 hunsat))
    exact hfragment target htarget
  rcases items_or_names_or_plain fragment with
    ⟨items, field, rfl, hkey⟩ | ⟨added, rfl⟩ | hplain
  · have hpresent := hkept nofun
    obtain ⟨target, rfl⟩ := hnames present hpresent
    rw [mergeValue_items_skip hkey (by simp)]
    exact iff_of_true hpresent fun hplain => absurd hplain (not_isPlain_of_keyed hkey)
  · cases present with
    | obj target =>
      have hlands : NameLands py names key n skeleton (.obj target) (.obj added) ↔
          ∀ old ∈ target.lookup n, ∀ new ∈ added.lookup n, slotSatisfied py skeleton old = true →
            (Address.name key n).text ∈ names → slotSatisfied py skeleton new = true :=
        ⟨fun ⟨_, heq, h⟩ => by cases heq; exact h, fun h => ⟨target, rfl, h⟩⟩
      have hlookup : (added.foldl (mergeName names key) ⟨target, [], []⟩).value.lookup n = _ :=
        lookup_mergeNames (Mapping.nodup ⟨added, hdistinct⟩) target n
      simp only [satisfiedIn, Address.within] at hsupplied hmalformed
      rw [hlands, mergeValue_names, satisfiedIn, Address.within, hlookup]
      rcases hold : target.lookup n with _ | old <;> rcases hnew : added.lookup n with _ | new <;>
        simp only [hold, hnew, Option.any_none, Option.any_some, reduceCtorEq, imp_false,
          Bool.not_eq_false, Option.mem_def, Option.some.injEq, forall_eq', false_implies,
          implies_true, iff_true, forall_const] at hsupplied hmalformed ⊢
      · exact absurd trivial hsupplied
      · exact hsupplied
      · exact hsupplied
      · unfold nameValue
        dsimp only
        rcases hsat : slotSatisfied py skeleton old with _ | _
        · simp [hmalformed hsat, hsupplied hsat]
        · by_cases hmem : (Address.name key n).text ∈ names
          · simp [hmem]
          · simp [hmem, hsat]
    | _ =>
      rw [mergeValue_names_skip (by simp)]
      exact iff_of_false (by simp [satisfiedIn, Address.within]) (by simp [NameLands])
  · rw [mergeValue_plain hplain]
    have hlands : NameLands py names key n skeleton present fragment ↔ key ∉ names := by
      cases fragment with
      | obj added => exact absurd rfl (hplain.notMapping added)
      | _ => exact ⟨fun h => h hplain, fun h _ => h⟩
    rw [hlands]
    by_cases hmem : key ∈ names
    · rw [if_pos hmem]
      refine iff_of_false (fun h => ?_) (not_not.2 hmem)
      obtain ⟨target, rfl⟩ := hnames fragment h
      exact hplain.notMapping target rfl
    · rw [if_neg hmem]
      exact iff_of_true (hkept hplain.notMapping) hmem

theorem item_merge_iff {field id : String}
    (hsupplied : satisfiedIn py (.item key field id, skeleton) present = false →
      satisfiedIn py (.item key field id, skeleton) fragment = true)
    (hmalformed : ∀ old, (Address.item key field id).within present = some old →
      slotSatisfied py skeleton old = false → (Address.item key field id).text ∈ names) :
    satisfiedIn py (.item key field id, skeleton)
        (mergeValue names key (some present) fragment).value = true ↔
      ItemLands py names key field id skeleton present fragment := by
  -- only a list has items
  have hitems : ∀ value, satisfiedIn py (.item key field id, skeleton) value = true →
      ∃ target, value = .arr target := fun value hvalue => by
    cases value with
    | arr target => exact ⟨target, rfl⟩
    | _ => exact absurd hvalue (by simp [satisfiedIn, Address.within])
  rcases items_or_names_or_plain fragment with
    ⟨items, other, rfl, hkey⟩ | ⟨added, rfl⟩ | hplain
  · have hkeyed := keyedBy_of_keyedListIdField hkey
    have hplain := not_isPlain_of_keyed hkey
    cases present with
    | arr target =>
      have hlands : ItemLands py names key field id skeleton (.arr target) (.arr items) ↔
          if other = field then
            ∀ old ∈ indexKeyedItems target field id, ∀ new ∈ indexKeyedItems items field id,
              slotSatisfied py skeleton old = true → (Address.item key field id).text ∈ names →
                slotSatisfied py skeleton new = true
          else ∃ item ∈ (indexKeyedItems (standing (overwritesId names key other) other target
              items) field id).or (indexKeyedItems (added other target items) field id),
            slotSatisfied py skeleton item = true := by
        constructor
        · intro h
          obtain ⟨_, heq, h⟩ := h.1 items other rfl hkey
          cases heq
          exact h
        · intro h
          refine ⟨fun items' other' heq hkey' => ?_, fun h' => absurd h' hplain⟩
          cases heq
          obtain rfl := Option.eq_some_unique hkey hkey'
          exact ⟨target, rfl, h⟩
      rw [hlands, mergeValue_items hkey, satisfiedIn, Address.within]
      by_cases hother : other = field
      · subst hother
        rw [if_pos rfl, indexKeyedItems_overlay hkeyed]
        simp only [satisfiedIn, Address.within] at hsupplied hmalformed
        rcases hold : indexKeyedItems target other id with _ | old <;>
          rcases hnew : indexKeyedItems items other id with _ | new <;>
          simp only [hold, hnew, Option.any_none, Option.any_some, reduceCtorEq, imp_false,
            Bool.not_eq_false, Option.mem_def, Option.some.injEq, forall_eq', false_implies,
            implies_true, iff_true, forall_const, Option.getD_none, Option.getD_some, ite_self]
            at hsupplied hmalformed ⊢
        · exact absurd trivial hsupplied
        · exact hsupplied
        · exact hsupplied
        · rcases hsat : slotSatisfied py skeleton old with _ | _
          · simp [overwritesId, hmalformed hsat, hsupplied hsat]
          · by_cases hmem : (Address.item key other id).text ∈ names
            · simp [overwritesId, hmem]
            · simp [overwritesId, hmem, hsat]
      · rw [if_neg hother]
        have hfind : indexKeyedItems (overlay (overwritesId names key other) other target items)
            field id = (indexKeyedItems (standing (overwritesId names key other) other target
              items) field id).or (indexKeyedItems (added other target items) field id) :=
          List.find?_append
        rw [hfind, Option.any_eq_true]
        rfl
    | _ =>
      rw [mergeValue_items_skip hkey (by simp)]
      refine iff_of_false (by simp [satisfiedIn, Address.within]) fun h => ?_
      obtain ⟨_, heq, -⟩ := h.1 items other rfl hkey
      cases heq
  · have hpresent : satisfiedIn py (.item key field id, skeleton) present = true := by
      by_contra hunsat
      obtain ⟨_, heq⟩ := hitems _ (hsupplied (Bool.eq_false_iff.2 hunsat))
      cases heq
    obtain ⟨target, rfl⟩ := hitems present hpresent
    rw [mergeValue_names_skip (by simp)]
    exact iff_of_true hpresent
      ⟨fun _ _ heq => by (cases heq), fun h => absurd rfl (h.notMapping added)⟩
  · rw [mergeValue_plain hplain]
    constructor
    · intro h
      refine ⟨fun items other heq hkey => ?_, fun _ => h⟩
      rw [hplain.unkeyed] at hkey
      cases hkey
    · exact fun h => h.2 hplain

end Slot

section Converges

variable {py}

theorem isPlain_of_mem_entrySlots {key key' : String} {value value' : Json}
    (h : (Address.whole key', value') ∈ entrySlots key value) : IsPlain value' := by
  unfold entrySlots at h
  split at h
  · simp at h
  · simp at h
  · rename_i hmapping hkeyed
    simp only [List.mem_singleton, Prod.mk.injEq] at h
    obtain ⟨-, rfl⟩ := h
    refine ⟨?_, fun names heq => ?_⟩
    · by_contra hkey
      obtain ⟨field, hkey⟩ := Option.ne_none_iff_exists'.1 hkey
      obtain ⟨items, rfl, -⟩ := items_of_keyedListIdField hkey
      exact hkeyed field items hkey rfl
    · subst heq
      exact hmapping names rfl

theorem mem_malformedNames {produced skeleton : Fields} {slot : Slot} {value : Json}
    (hslot : slot ∈ slots skeleton) (hvalue : slot.1.value produced = some value)
    (hunsat : slotSatisfied py slot.2 value = false) :
    slot.1.text ∈ malformedNames py produced skeleton := by
  refine List.mem_map.2 ⟨slot, List.mem_filter.2 ⟨hslot, ?_⟩, rfl⟩
  simp [isMalformed, isMissing, isSatisfied, hvalue, hunsat]

theorem isSatisfied_merged_iff {produced skeleton : Fields} {fragment : Mapping} {slot : Slot}
    (hsupplies : Supplies py produced skeleton fragment.fields) (hslot : slot ∈ slots skeleton) :
    isSatisfied py (mergeEntries (malformedNames py produced skeleton) produced
        fragment.fields).value slot = true ↔
      Lands py (malformedNames py produced skeleton) produced fragment.fields slot := by
  have hsupplied := hsupplies slot hslot
  rw [isSatisfied_eq, isSatisfied_eq] at hsupplied
  rw [isSatisfied_eq, lookup_mergeEntries fragment.nodup]
  unfold Lands
  rcases hnew : fragment.fields.lookup slot.1.key with _ | new
  · refine iff_of_true ?_ nofun
    rw [hnew] at hsupplied
    by_contra hunsat
    cases hsupplied (Bool.eq_false_iff.2 hunsat)
  have hdistinct := fragment.distinct_of_mem (Fields.mem_of_lookup hnew)
  rcases hpresent : produced.lookup slot.1.key with _ | present
  · refine iff_of_true ?_ nofun
    rw [hpresent, hnew] at hsupplied
    dsimp only
    rw [mergeValue_none hdistinct]
    exact hsupplied rfl
  rw [hnew, hpresent, Option.any_some, Option.any_some] at hsupplied
  have hmalformed : ∀ old, slot.1.within present = some old →
      slotSatisfied py slot.2 old = false →
        slot.1.text ∈ malformedNames py produced skeleton := fun old hold =>
    mem_malformedNames hslot (by rw [Address.value_eq, hpresent]; exact hold)
  simp only [Option.mem_def, Option.some.injEq, forall_eq', Option.any_some]
  obtain ⟨address, value⟩ := slot
  cases address with
  | whole key =>
    obtain ⟨entry, -, hentry⟩ := List.mem_flatMap.1 hslot
    exact slotSatisfied_merge_iff (isPlain_of_mem_entrySlots hentry) hsupplied
      (hmalformed present rfl)
  | name key n => exact name_merge_iff hdistinct hsupplied hmalformed
  | item key field id => exact item_merge_iff hsupplied hmalformed

theorem allStrings_map (names : List String) : allStrings (names.map .str) = some names := by
  induction names with
  | nil => rfl
  | cons name names ih => simp [allStrings, ih]

theorem overwritableOf_toJson (d : Delta) : overwritableOf d.toJson = .ok d.overwritableSlots := by
  have hlisted : Fields.getD [("validator_id", .str d.validatorId),
      ("errors", .arr (d.errors.map .str)), ("missing_slots", .arr (d.missingSlots.map .str)),
      ("malformed_slots", .arr (d.malformedSlots.map .str)),
      ("overwritable_slots", .arr (d.overwritableSlots.map .str)),
      ("fragment_request", .obj d.fragmentRequest)] "overwritable_slots" (.arr []) =
        .arr (d.overwritableSlots.map .str) := rfl
  simp only [overwritableOf, Delta.toJson, unwrap]
  rw [if_neg (by simp [Fields.get, Fields.lookup_cons_eq])]
  simp only [hlisted, allStrings_map]

theorem delta_closed_iff (report produced skeleton : Fields) :
    (delta py report produced skeleton).missingSlots = [] ∧
      (delta py report produced skeleton).malformedSlots = [] ↔
        ∀ slot ∈ slots skeleton, isSatisfied py produced slot = true := by
  simp only [delta, List.map_eq_nil_iff, List.filter_eq_nil_iff, isMalformed, Bool.and_eq_true,
    Bool.not_eq_true']
  constructor
  · rintro ⟨hmissing, hmalformed⟩ slot hslot
    by_contra hunsat
    exact hmalformed slot hslot
      ⟨Bool.eq_false_iff.2 (hmissing slot hslot), Bool.eq_false_iff.2 hunsat⟩
  · intro h
    refine ⟨fun slot hslot hmissing => ?_, fun slot hslot hunsat => ?_⟩
    · have hsat := h slot hslot
      simp only [isMissing, Option.isNone_iff_eq_none] at hmissing
      simp [isSatisfied, hmissing] at hsat
    · rw [h slot hslot] at hunsat
      cases hunsat.2

theorem repairDelta_eq {report produced skeleton : Fields} {wrapped : Json}
    (hskeleton : unwrap "skeleton" wrapped = .obj skeleton) :
    repairDelta py (.obj report) (.obj produced) wrapped =
      .ok (delta py report produced skeleton) := by
  simp [repairDelta, hskeleton]

theorem mergeFragment_delta (report produced skeleton : Fields) (target fragment : Fields) :
    mergeFragment (.obj target) (.obj fragment) (delta py report produced skeleton).toJson =
      .ok (mergeEntries (malformedNames py produced skeleton) target fragment) := by
  simp only [mergeFragment, overwritableOf_toJson]
  rfl

theorem converges_iff {report produced skeleton : Fields} {fragment : Mapping} {wrapped : Json}
    (hskeleton : unwrap "skeleton" wrapped = .obj skeleton)
    (hsupplies : Supplies py produced skeleton fragment.fields) :
    Converges py report produced fragment.fields wrapped ↔ ∀ slot ∈ slots skeleton,
      Lands py (malformedNames py produced skeleton) produced fragment.fields slot := by
  have hlands : (∀ slot ∈ slots skeleton, isSatisfied py (mergeEntries
      (malformedNames py produced skeleton) produced fragment.fields).value slot = true) ↔
        ∀ slot ∈ slots skeleton,
          Lands py (malformedNames py produced skeleton) produced fragment.fields slot :=
    forall₂_congr fun slot hslot => isSatisfied_merged_iff hsupplies hslot
  rw [← hlands, ← delta_closed_iff report]
  constructor
  · rintro ⟨d, merged, d', hd, hm, hd', h⟩
    obtain rfl := Except.ok.inj ((repairDelta_eq hskeleton).symm.trans hd)
    obtain rfl := Except.ok.inj ((mergeFragment_delta ..).symm.trans hm)
    obtain rfl := Except.ok.inj ((repairDelta_eq hskeleton).symm.trans hd')
    exact h
  · exact fun h => ⟨_, _, _, repairDelta_eq hskeleton, mergeFragment_delta .., repairDelta_eq
      hskeleton, h⟩

/-- A fragment that supplies every open slot repairs the output in one step if and only if the merge
lands in every slot. -/
theorem repair_converges_iff (py : PyLib) (report produced fragment : Mapping) (skeleton : Json) :
    (∀ fields, unwrap "skeleton" skeleton = .obj fields →
      Supplies py produced.fields fields fragment.fields →
        Converges py report.fields produced.fields fragment.fields skeleton) ↔
      ∀ fields, unwrap "skeleton" skeleton = .obj fields →
        Supplies py produced.fields fields fragment.fields → ∀ slot ∈ slots fields,
          Lands py (malformedNames py produced.fields fields) produced.fields fragment.fields slot :=
  forall₃_congr fun _ hskeleton hsupplies => converges_iff hskeleton hsupplies

/-- An output with a null where the skeleton has a mapping. -/
theorem nullMapping_not_converges :
    Supplies asciiLib [("a", .null)] [("a", .obj [("x", .null)])] [("a", .obj [("x", .int 1)])] ∧
      ¬ Converges asciiLib [] [("a", .null)] [("a", .obj [("x", .int 1)])]
        (.obj [("a", .obj [("x", .null)])]) := by
  refine ⟨by unfold Supplies; decide +kernel, fun h => ?_⟩
  obtain ⟨d, merged, d', hd, hm, hd', hmissing, -⟩ := h
  obtain rfl := Except.ok.inj hd
  obtain rfl := Except.ok.inj hm
  obtain rfl := Except.ok.inj hd'
  revert hmissing
  decide +kernel

end Converges

end Gadgets

end AiOrg
