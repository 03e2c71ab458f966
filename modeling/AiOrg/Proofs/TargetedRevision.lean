import AiOrg.Approach.TargetedRevision
import AiOrg.Order.KeyedMerge
import AiOrg.Python.Mapping

/-!
# A targeted revision changes its targets only

What the parser accepts addresses targets (`addresses_of_parse`), and the merge of items is a keyed merge whose keys
are the ids (`foldl_mergeFragment`), while the merge of constraints leaves at each position what the last fragment for
it says (`getElem?_written`). So `targeted_merge_exact_iff` says when a merge is exact: no successor goes to the end
with an id that stays in use, and each target that is declared replaced has one successor that survives the later
fragments; at a position of the constraints the id must be the one of the position.

`successor_takes_id` is a successor with the id of an item that is not a target. The parser accepts it, and the merged
component has two items of that id.
-/

namespace AiOrg

open List

namespace Approach

open Checks

section Exact

variable (py : PyLib) (step : Step) (targets : List String)

def constraintId (kind : ConstraintKind) (index : ℕ) : String := kind.idFront ++ toString (index + 1)

def declaredBy : Json → Option String
  | .obj item => declared item
  | _ => none

/-- Each position keeps its constraint, unless it is a target that a fragment revises. -/
def ExactConstraints (fragments : List ConstraintFragment) (before after : ConstraintKind → List Json) : Prop :=
  ∀ kind, (after kind).length = (before kind).length ∧ ∀ index x y, (before kind)[index]? = some x →
    (after kind)[index]? = some y → y = x ∨ constraintId kind index ∈ targets ∧
      ∃ fragment ∈ fragments, fragment.kind = kind ∧ constraintIndex fragment.id = some (index : ℤ) ∧
        y = .obj fragment.item

/-- There is a merged component, which has each item that is not a target as it was and in its place among the others,
each target as it was, or revised in its place, or with one successor, and no id twice. -/
def ExactMerge (committed : Fields) (fragments : Fragments) : Prop :=
  ∃ merged, _merge_step_fragments py step committed fragments = some merged ∧ match fragments with
    | .constraints fragments => ∃ before after, constraintLists committed = some before ∧
        constraintLists merged = some after ∧ ExactConstraints targets fragments before after
    | .items fragments => ∃ collection_key before after, collectionKey step = some collection_key ∧
        itemsUnder committed collection_key = some before ∧ itemsUnder merged collection_key = some after ∧
        KeyedMerge.Exact (_committed_item_id py step) declaredBy targets (fragments.map .obj) before after

/-- The committed component has items with different ids; those of constraints are their positions. -/
def DistinctIds (committed : Fields) : Prop :=
  match step with
  | .constraints => (constraintLists committed).isSome
  | step => ∃ collection_key items, collectionKey step = some collection_key ∧
      itemsUnder committed collection_key = some items ∧ (items.map (_committed_item_id py step)).Nodup

def writes (kind : ConstraintKind) (index : ℕ) (fragment : ConstraintFragment) : Bool :=
  fragment.kind = kind ∧ constraintIndex fragment.id = some (index : ℤ)

def lastWrite (fragments : List ConstraintFragment) (kind : ConstraintKind) (index : ℕ) : Option ConstraintFragment :=
  (fragments.filter (writes kind index)).getLast?

def MergesExactly (committed : Fields) : Fragments → Prop
  | .constraints fragments => (∀ fragment ∈ fragments, (constraintIndex fragment.id).isSome) ∧
      ∀ before, constraintLists committed = some before → ∀ kind index x, (before kind)[index]? = some x →
        ∀ fragment, lastWrite fragments kind index = some fragment →
          constraintId kind index ∈ targets ∨ .obj fragment.item = x
  | .items fragments => ∀ collection_key items, collectionKey step = some collection_key →
      itemsUnder committed collection_key = some items →
        (∀ id, ¬ KeyedMerge.ClashAt (_committed_item_id py step) declaredBy (fragments.map .obj) items id) ∧
        ∀ x ∈ items, KeyedMerge.Replaced declaredBy (fragments.map .obj) (_committed_item_id py step x) →
          ∃! y, KeyedMerge.Survives (_committed_item_id py step) declaredBy (fragments.map .obj) y ∧
            declaredBy y = some (_committed_item_id py step x)

end Exact

/-! ### What is accepted -/

section Accepted

variable {py : PyLib} {step : Step} {targets : List String}

/-- The id under which a fragment is merged is the one that the merged item has. -/
def Keyed (py : PyLib) (step : Step) (fragment : Fields) : Prop :=
  fragmentId py step fragment = _committed_item_id py step (.obj fragment)

/-- A fragment addresses a target: the one that it declares replaced, or the one whose id it keeps. -/
def Addresses (py : PyLib) (step : Step) (targets : List String) (fragment : Fields) : Prop :=
  (declared fragment).getD (_committed_item_id py step (.obj fragment)) ∈ targets

theorem get_declaration (replaces replacement_reason : String) {key : String}
    (hkey : key ∉ REVISION_DECLARATION_FIELDS) : Fields.get (declaration replaces replacement_reason) key = .null := by
  simp only [REVISION_DECLARATION_FIELDS, mem_cons, not_mem_nil, or_false, not_or] at hkey
  rw [declaration]
  split_ifs
  · rfl
  · simp [Fields.get, lookup_cons, beq_eq_false_iff_ne.2 hkey.1, beq_eq_false_iff_ne.2 hkey.2]

variable (py) in
theorem keyed_of_id {fragment : Fields} {id : String} (hstep : step ≠ .prior_art) (h : fragment.get "id" = .str id) :
    Keyed py step fragment ∧ _committed_item_id py step (.obj fragment) = id := by
  have hid : _committed_item_id py step (.obj fragment) = id := by
    rw [_committed_item_id]
    simp only [h, if_neg hstep]
    split_ifs with hempty
    · exact hempty.symm
    · rfl
  refine ⟨?_, hid⟩
  rw [Keyed, hid, fragmentId, if_neg hstep, h, PyLib.strOr_str]

variable (py) in
theorem keyed_of_no_id {fragment : Fields} (h : fragment.get "id" = .null) :
    Keyed py .prior_art fragment ∧ _committed_item_id py .prior_art (.obj fragment) = patternId py fragment := by
  have hid : _committed_item_id py .prior_art (.obj fragment) = patternId py fragment := by
    rw [_committed_item_id]
    simp [h]
  refine ⟨?_, hid⟩
  rw [Keyed, hid, fragmentId, if_pos rfl]

theorem addresses_of_addressed {what : String} {lint_errors : List String} {item fragment : Fields}
    (h : addressed py step targets what lint_errors item = .ok fragment)
    (hid : step ≠ .prior_art → ∀ id, item.get "id" = .str id → _committed_item_id py step (.obj item) = id)
    (hname : step = .prior_art → _committed_item_id py step (.obj item) = patternId py item) :
    fragment = item ∧ Addresses py step targets fragment := by
  simp only [addressed, bind_eq_ok_iff, require_eq_ok_iff, exists_const, pure, Except.pure, Except.ok.injEq] at h
  obtain ⟨-, htarget, rfl⟩ := h
  refine ⟨rfl, ?_⟩
  obtain ⟨target, htarget⟩ := Option.isSome_iff_exists.1 htarget
  rw [_fragment_target] at htarget
  rw [Addresses]
  cases hdeclared : declared item with
  | some replaced =>
    simp only [hdeclared] at htarget
    split_ifs at htarget with hmem
    exact hmem
  | none =>
    simp only [hdeclared] at htarget
    rw [Option.getD_none]
    split_ifs at htarget with hstep hmem
    · rwa [hname hstep]
    · obtain ⟨text, htext, htarget⟩ := Option.bind_eq_some_iff.1 htarget
      split_ifs at htarget with hmem
      cases hvalue : item.get "id" with
      | str id =>
        rw [hvalue] at htext
        obtain rfl := Option.some.inj htext
        rwa [hid hstep _ hvalue]
      | _ =>
        rw [hvalue] at htext
        cases htext

theorem get_id_candidate {item : Json} {expected_kind : Option String} {candidate : Fields}
    (h : _parse_candidate_approach item expected_kind = .ok candidate) : ∃ id, candidate.get "id" = .str id := by
  simp only [_parse_candidate_approach, bind_eq_ok_iff, require_eq_ok_iff, exists_const, pure, Except.pure,
    Except.ok.injEq] at h
  obtain ⟨_, -, -, _, -, _, -, id, -, _, -, _, -, _, -, -, -, _, -, _, -, _, -, _, -, rfl⟩ := h
  exact ⟨id, rfl⟩

theorem get_id_risk {item : Json} {risk : Fields} (h : surfacedRisk item = .ok risk) : ∃ id, risk.get "id" = .str id := by
  simp only [surfacedRisk, bind_eq_ok_iff, require_eq_ok_iff, exists_const, pure, Except.pure, Except.ok.injEq] at h
  obtain ⟨_, -, -, id, -, _, -, _, -, _, -, _, -, _, -, _, -, -, rfl⟩ := h
  exact ⟨id, rfl⟩

theorem get_id_pattern {item : Json} {pattern : Fields} (h : _parse_prior_art_pattern item = .ok pattern) :
    pattern.get "id" = .null := by
  simp only [_parse_prior_art_pattern, bind_eq_ok_iff, require_eq_ok_iff, exists_const, pure, Except.pure,
    Except.ok.injEq] at h
  obtain ⟨_, -, -, replaces, -, reason, -, _, -, _, -, _, -, _, -, _, -, _, -, rfl⟩ := h
  have hnone : Fields.get (declaration replaces reason) "id" = .null := get_declaration replaces reason (by decide)
  rw [Fields.get] at hnone ⊢
  rw [lookup_append]
  simpa [lookup_cons] using hnone

/-- What the parser accepts for a step with items addresses targets. -/
theorem addresses_of_parse {parsed : Fields} {user_facing : Bool} {fragments : List Fields}
    (h : stepFragments py step targets user_facing parsed = .ok (.items fragments)) :
    (collectionKey step).isSome = true ∧ ∀ fragment ∈ fragments, Keyed py step fragment ∧ Addresses py step targets fragment := by
  have htext {step : Step} (hstep : step ≠ .prior_art) {what : String} {lint_errors : List String}
      {item fragment : Fields} (hid : ∃ id, item.get "id" = .str id)
      (haddressed : addressed py step targets what lint_errors item = .ok fragment) :
      Keyed py step fragment ∧ Addresses py step targets fragment := by
    obtain ⟨id, hid⟩ := hid
    obtain ⟨hkeyed, hcommitted⟩ := keyed_of_id py hstep hid
    obtain ⟨rfl, haddresses⟩ := addresses_of_addressed haddressed
      (fun _ id' hid' => hcommitted.trans (Json.str.inj (hid.symm.trans hid'))) (fun h => absurd h hstep)
    exact ⟨hkeyed, haddresses⟩
  cases step with
  | candidates =>
    simp only [stepFragments, bind_eq_ok_iff, pure, Except.pure, Except.ok.injEq, Fragments.items.injEq] at h
    obtain ⟨items, -, fragments, hfragments, rfl⟩ := h
    refine ⟨rfl, fun fragment hfragment => ?_⟩
    obtain ⟨item, -, hitem⟩ := Traverse.exists_of_mem_right (Traverse.forall₂_of_mapM_ok hfragments) hfragment
    rw [candidateFragment, bind_eq_ok_iff] at hitem
    obtain ⟨candidate, hcandidate, haddressed⟩ := hitem
    exact htext (show Step.candidates ≠ .prior_art by decide) (get_id_candidate hcandidate) haddressed
  | prior_art =>
    simp only [stepFragments, bind_eq_ok_iff, pure, Except.pure, Except.ok.injEq, Fragments.items.injEq] at h
    obtain ⟨items, -, fragments, hfragments, rfl⟩ := h
    refine ⟨rfl, fun fragment hfragment => ?_⟩
    obtain ⟨item, -, hitem⟩ := Traverse.exists_of_mem_right (Traverse.forall₂_of_mapM_ok hfragments) hfragment
    rw [patternFragment, bind_eq_ok_iff] at hitem
    obtain ⟨pattern, hpattern, haddressed⟩ := hitem
    obtain ⟨hkeyed, hcommitted⟩ := keyed_of_no_id py (get_id_pattern hpattern)
    obtain ⟨rfl, haddresses⟩ := addresses_of_addressed haddressed (fun h => absurd rfl h) (fun _ => hcommitted)
    exact ⟨hkeyed, haddresses⟩
  | risks =>
    simp only [stepFragments, bind_eq_ok_iff, pure, Except.pure, Except.ok.injEq, Fragments.items.injEq] at h
    obtain ⟨risks, hrisks, fragments, hfragments, rfl⟩ := h
    refine ⟨rfl, fun fragment hfragment => ?_⟩
    obtain ⟨risk, hrisk, haddressed⟩ :=
      Traverse.exists_of_mem_right (Traverse.forall₂_of_mapM_ok hfragments) hfragment
    rw [_parse_surface_risks, bind_eq_ok_iff] at hrisks
    obtain ⟨-, -, hrisks⟩ := hrisks
    split at hrisks
    · obtain ⟨item, -, hitem⟩ := Traverse.exists_of_mem_right (Traverse.forall₂_of_mapM_ok hrisks) hrisk
      exact htext (show Step.risks ≠ .prior_art by decide) (get_id_risk hitem) haddressed
    · cases hrisks
  | constraints =>
    simp only [stepFragments, bind_eq_ok_iff, pure, Except.pure, Except.ok.injEq, reduceCtorEq, and_false,
      exists_const] at h
  | _ => cases h

end Accepted

section Items

variable {py : PyLib} {step : Step}

theorem putInPlace_eq {fragment : Fields} (h : Keyed py step fragment) (items : List Json) :
    putInPlace py step (fragmentId py step fragment) fragment items =
      KeyedMerge.overwrite (_committed_item_id py step) (.obj fragment) items := by
  induction items with
  | nil => rfl
  | cons item items ih => rw [putInPlace, KeyedMerge.overwrite, ih, h]

theorem mergeFragment_eq {fragment : Fields} (h : Keyed py step fragment) (items : List Json) :
    mergeFragment py step items fragment =
      KeyedMerge.apply (_committed_item_id py step) declaredBy items (.obj fragment) := by
  rw [mergeFragment, KeyedMerge.apply, putInPlace_eq h, show declaredBy (.obj fragment) = declared fragment from rfl]
  cases declared fragment <;> rfl

/-- The merge of items is the keyed merge by their ids. -/
theorem foldl_mergeFragment {fragments : List Fields} (h : ∀ fragment ∈ fragments, Keyed py step fragment)
    (items : List Json) : fragments.foldl (mergeFragment py step) items =
      KeyedMerge.merge (_committed_item_id py step) declaredBy (fragments.map .obj) items := by
  induction fragments generalizing items with
  | nil => rfl
  | cons fragment fragments ih =>
    obtain ⟨hfragment, hfragments⟩ := forall_mem_cons.1 h
    rw [foldl_cons, mergeFragment_eq hfragment, ih hfragments]
    rfl

theorem itemsUnder_set (committed : Fields) (key : String) (items : List Json) :
    itemsUnder ((committed.filter fun entry => entry.1 ≠ key) ++ [(key, .arr items)]) key = some items := by
  have hnone : (committed.filter fun entry => entry.1 ≠ key).lookup key = none :=
    Fields.lookup_eq_none_iff.2 (by simp)
  rw [itemsUnder, lookup_append, hnone]
  simp [Json.iter]

end Items

section Constraints

variable {lists merged : ConstraintKind → List Json} {fragments : List ConstraintFragment}

theorem mergeConstraint_eq (fragment : ConstraintFragment) (lists : ConstraintKind → List Json) (index : ℤ)
    (h : constraintIndex fragment.id = some index) :
    ∃ after, mergeConstraint lists fragment = some after ∧ (∀ kind, (after kind).length = (lists kind).length) ∧
      ∀ kind (i : ℕ), (after kind)[i]? =
        (lists kind)[i]?.map fun item => if writes kind i fragment then .obj fragment.item else item := by
  refine ⟨_, by rw [mergeConstraint, h]; rfl, ?_, ?_⟩
  · intro kind
    split_ifs
    · by_cases hkind : kind = fragment.kind
      · subst hkind
        simp
      · rw [Function.update_of_ne hkind]
    · rfl
  · intro kind i
    by_cases hkind : kind = fragment.kind
    · subst hkind
      by_cases hi : index = (i : ℤ)
      · subst hi
        have hwrites : writes fragment.kind i fragment = true := by simp [writes, h]
        by_cases hlt : i < (lists fragment.kind).length
        · rw [if_pos ⟨Int.natCast_nonneg i, by omega⟩, Function.update_self]
          simp [hwrites, hlt]
        · rw [if_neg (by omega)]
          simp [hlt]
      · have hwrites : writes fragment.kind i fragment = false := by simp [writes, h, hi]
        by_cases hrange : 0 ≤ index ∧ index < (lists fragment.kind).length
        · have hne : index.toNat ≠ i := by omega
          rw [if_pos hrange, Function.update_self, getElem?_set_ne hne]
          simp [hwrites]
        · rw [if_neg hrange]
          simp [hwrites]
    · have hwrites : writes kind i fragment = false := by simp [writes, Ne.symm hkind]
      have hsame : (if 0 ≤ index ∧ index < (lists fragment.kind).length then
          Function.update lists fragment.kind ((lists fragment.kind).set index.toNat (.obj fragment.item))
          else lists) kind = lists kind := by
        split_ifs
        · exact Function.update_of_ne hkind _ _
        · rfl
      simp [hwrites, hsame]

theorem lastWrite_append {kind : ConstraintKind} {index : ℕ} (fragment : ConstraintFragment) :
    lastWrite (fragments ++ [fragment]) kind index =
      if writes kind index fragment then some fragment else lastWrite fragments kind index := by
  rw [lastWrite, lastWrite, filter_append]
  by_cases h : writes kind index fragment = true <;> simp [h]

variable (lists) in
theorem foldlM_mergeConstraint (h : ∀ fragment ∈ fragments, (constraintIndex fragment.id).isSome) :
    ∃ merged, fragments.foldlM mergeConstraint lists = some merged ∧
      (∀ kind, (merged kind).length = (lists kind).length) ∧
      ∀ kind i, (merged kind)[i]? = (lists kind)[i]?.map fun item =>
        ((lastWrite fragments kind i).map fun fragment => Json.obj fragment.item).getD item := by
  induction fragments using reverseRecOn with
  | nil => exact ⟨lists, rfl, fun _ => rfl, fun kind i => by simp [lastWrite]⟩
  | append_singleton fragments fragment ih =>
    obtain ⟨hfragments, hfragment⟩ := forall_mem_append.1 h
    obtain ⟨index, hindex⟩ := Option.isSome_iff_exists.1 (hfragment fragment mem_cons_self)
    obtain ⟨before, hbefore, hlength, hget⟩ := ih hfragments
    obtain ⟨after, hafter, hlength', hget'⟩ := mergeConstraint_eq fragment before index hindex
    refine ⟨after, ?_, fun kind => (hlength' kind).trans (hlength kind), fun kind i => ?_⟩
    · rw [foldlM_append, hbefore]
      exact (Option.bind_some _ _).trans (by rw [foldlM_cons, hafter]; rfl)
    · rw [hget', hget, Option.map_map, lastWrite_append]
      congr 1
      funext item
      by_cases hwrites : writes kind i fragment = true <;> simp [hwrites]

theorem isSome_of_foldlM {merged : ConstraintKind → List Json}
    (h : fragments.foldlM mergeConstraint lists = some merged) :
    ∀ fragment ∈ fragments, (constraintIndex fragment.id).isSome := by
  induction fragments generalizing lists with
  | nil => exact fun _ h => absurd h not_mem_nil
  | cons fragment fragments ih =>
    rw [foldlM_cons] at h
    obtain ⟨after, hafter, h⟩ := Option.bind_eq_some_iff.1 h
    refine forall_mem_cons.2 ⟨?_, ih h⟩
    rw [mergeConstraint] at hafter
    obtain ⟨index, hindex, -⟩ := Option.bind_eq_some_iff.1 hafter
    rw [hindex, Option.isSome_some]

theorem constraintLists_set (committed : Fields) (merged : ConstraintKind → List Json) :
    constraintLists ((committed.filter fun entry => entry.1 ∉ ["hard_constraints", "soft_preferences"]) ++
      [("hard_constraints", .arr (merged .hard)), ("soft_preferences", .arr (merged .soft))]) = some merged := by
  have hnone (kind : ConstraintKind) :
      (committed.filter fun entry => entry.1 ∉ ["hard_constraints", "soft_preferences"]).lookup kind.field = none :=
    Fields.lookup_eq_none_iff.2 (by cases kind <;> simp [ConstraintKind.field])
  have hitems (kind : ConstraintKind) :
      itemsUnder ((committed.filter fun entry => entry.1 ∉ ["hard_constraints", "soft_preferences"]) ++
        [("hard_constraints", .arr (merged .hard)), ("soft_preferences", .arr (merged .soft))]) kind.field =
          some (merged kind) := by
    rw [itemsUnder, lookup_append, hnone]
    cases kind <;> simp [Json.iter, ConstraintKind.field, lookup_cons]
  rw [constraintLists, hitems, hitems]
  refine congrArg some (funext fun kind => ?_)
  cases kind <;> rfl

end Constraints

section Main

variable {py : PyLib} {step : Step} {parsed : Json} {plan : TargetedPlan} {user_facing : Bool} {output : TargetedOutput}
  {committed : Fields} {targets : List String}

theorem exact_constraints_iff {fragments : List ConstraintFragment} {before : ConstraintKind → List Json}
    (hbefore : constraintLists committed = some before) :
    ExactMerge py step targets committed (.constraints fragments) ↔
      MergesExactly py step targets committed (.constraints fragments) := by
  rw [ExactMerge, MergesExactly]
  simp only [_merge_step_fragments, hbefore, Option.some.injEq, forall_eq']
  constructor
  · rintro ⟨merged, hmerged, before', after, hsome, hafter, hexact⟩
    obtain rfl := hsome
    obtain ⟨lists, hlists, hmerged⟩ := Option.bind_eq_some_iff.1 ((Option.bind_some _ _).symm.trans hmerged)
    have hids := isSome_of_foldlM hlists
    refine ⟨hids, fun kind index x hx fragment hfragment => ?_⟩
    obtain ⟨merged', hmerged', -, hget⟩ := foldlM_mergeConstraint before hids
    obtain rfl := Option.eq_some_unique hmerged' hlists
    obtain rfl := Option.some.inj hmerged
    obtain rfl := Option.some.inj ((constraintLists_set committed merged').symm.trans hafter)
    have hy : (merged' kind)[index]? = some (.obj fragment.item) := by
      rw [hget, hx, hfragment]
      rfl
    rcases (hexact kind).2 index x _ hx hy with heq | ⟨htarget, -⟩
    · exact .inr heq
    · exact .inl htarget
  · rintro ⟨hids, htargets⟩
    obtain ⟨merged, hmerged, hlength, hget⟩ := foldlM_mergeConstraint before hids
    refine ⟨_, (Option.bind_some _ _).trans (by rw [hmerged]; rfl), before, merged, rfl,
      constraintLists_set committed merged, fun kind => ⟨hlength kind, fun index x y hx hy => ?_⟩⟩
    rw [hget, hx, Option.map_some, Option.some.injEq] at hy
    cases hlast : lastWrite fragments kind index with
    | none =>
      rw [hlast] at hy
      exact .inl hy.symm
    | some fragment =>
      rw [hlast] at hy
      rcases htargets kind index x hx fragment hlast with htarget | heq
      · have hwrites := mem_filter.1 (mem_of_getLast? hlast)
        simp only [writes, decide_eq_true_eq] at hwrites
        exact .inr ⟨htarget, fragment, hwrites.1, hwrites.2.1, hwrites.2.2, hy.symm⟩
      · exact .inl (hy.symm.trans heq)

theorem exact_items_iff {fragments : List Fields} {collection_key : String} {items : List Json}
    (hkey : collectionKey step = some collection_key) (hitems : itemsUnder committed collection_key = some items)
    (hdistinct : (items.map (_committed_item_id py step)).Nodup)
    (hfragments : ∀ fragment ∈ fragments, Keyed py step fragment ∧ Addresses py step targets fragment) :
    ExactMerge py step targets committed (.items fragments) ↔
      MergesExactly py step targets committed (.items fragments) := by
  have hmerge : _merge_step_fragments py step committed (.items fragments) =
      some ((committed.filter fun entry => entry.1 ≠ collection_key) ++ [(collection_key,
        .arr (KeyedMerge.merge (_committed_item_id py step) declaredBy (fragments.map .obj) items))]) := by
    rw [← foldl_mergeFragment fun fragment hfragment => (hfragments fragment hfragment).1]
    rw [_merge_step_fragments, hkey, Option.bind_eq_bind, Option.bind_some, hitems]
    rfl
  have haddress : ∀ edit ∈ fragments.map Json.obj,
      (declaredBy edit).getD (_committed_item_id py step edit) ∈ targets := by
    intro edit hedit
    obtain ⟨fragment, hfragment, rfl⟩ := mem_map.1 hedit
    exact (hfragments fragment hfragment).2
  have hexact := KeyedMerge.exact_merge_iff hdistinct haddress
  constructor
  · rintro ⟨merged, hmerged, key, before, after, hkey', hbefore, hafter, h⟩ key' items' hkey'' hitems'
    obtain rfl := Option.eq_some_unique hmerge hmerged
    obtain rfl := Option.eq_some_unique hkey hkey'
    obtain rfl := Option.eq_some_unique hkey hkey''
    obtain rfl := Option.eq_some_unique hitems hbefore
    obtain rfl := Option.eq_some_unique hitems hitems'
    obtain rfl := Option.some.inj ((itemsUnder_set committed _ _).symm.trans hafter)
    exact hexact.1 h
  · intro h
    exact ⟨_, hmerge, collection_key, items, _, hkey, hitems, itemsUnder_set committed _ _,
      hexact.2 (h collection_key items hkey hitems)⟩

theorem fragments_of_parse (h : _parse_targeted_fragments py step parsed plan user_facing = .ok output) :
    ∃ rest, stepFragments py step plan.target_ids user_facing rest = .ok output.fragments := by
  simp only [_parse_targeted_fragments, bind_eq_ok_iff, require_eq_ok_iff, exists_const, pure, Except.pure,
    Except.ok.injEq] at h
  obtain ⟨fields, -, _, -, _, -, _, -, -, fragments, hfragments, rfl⟩ := h
  exact ⟨_, hfragments⟩

theorem step_of_constraints {rest : Fields} {fragments : List ConstraintFragment}
    (h : stepFragments py step targets user_facing rest = .ok (.constraints fragments)) : step = .constraints := by
  cases step with
  | constraints => rfl
  | candidates | prior_art | risks =>
    simp only [stepFragments, bind_eq_ok_iff, pure, Except.pure, Except.ok.injEq, reduceCtorEq, and_false,
      exists_const] at h
  | _ => cases h

/-- A merge of what the parser accepts into a component with different ids is exact if and only if the fragments meet
the condition. -/
theorem targeted_merge_exact_iff (hparse : _parse_targeted_fragments py step parsed plan user_facing = .ok output)
    (hdistinct : DistinctIds py step committed) :
    ExactMerge py step plan.target_ids committed output.fragments ↔
      MergesExactly py step plan.target_ids committed output.fragments := by
  obtain ⟨rest, hrest⟩ := fragments_of_parse hparse
  cases hfragments : output.fragments with
  | constraints fragments =>
    rw [hfragments] at hrest
    obtain rfl := step_of_constraints hrest
    obtain ⟨before, hbefore⟩ := Option.isSome_iff_exists.1 hdistinct
    exact exact_constraints_iff hbefore
  | items fragments =>
    rw [hfragments] at hrest
    obtain ⟨hstep, haddresses⟩ := addresses_of_parse hrest
    cases step with
    | prior_art | candidates | risks =>
      obtain ⟨collection_key, items, hkey, hitems, hnodup⟩ := hdistinct
      exact exact_items_iff hkey hitems hnodup haddresses
    | _ => cases hstep

end Main

def sampleRisk (id : String) : Fields :=
  [("id", .str id), ("risk", .str "late"), ("mitigation", .str "start early"), ("attaches_to", .str "decision"),
    ("target_id", .str "decision:main")]

/-- A risk that replaces the first one. -/
def successorRisk (id : String) : Fields :=
  sampleRisk id ++ [("replaces", .str "risk:a"), ("replacement_reason", .str "sharper")]

def sampleRisks : Fields := [("risks", .arr [.obj (sampleRisk "risk:a"), .obj (sampleRisk "risk:b")])]

/-- The first risk is the target of the revision. -/
def sampleTargets : TargetedPlan := ⟨["risk:a"], [], []⟩

def sampleRevision (id : String) : Json := .obj [("risks", .arr [.obj (successorRisk id)])]

def sampleOutput (id : String) : TargetedOutput := ⟨.items [successorRisk id], [], [], []⟩

theorem distinctIds_sampleRisks : DistinctIds asciiLib .risks sampleRisks :=
  ⟨"risks", _, rfl, rfl, by decide +kernel⟩

theorem targeted_merge_exact_successor :
    ExactMerge asciiLib .risks ["risk:a"] sampleRisks (sampleOutput "risk:c").fragments ↔
      MergesExactly asciiLib .risks ["risk:a"] sampleRisks (sampleOutput "risk:c").fragments :=
  have hparse : _parse_targeted_fragments asciiLib .risks (sampleRevision "risk:c") sampleTargets true =
      .ok (sampleOutput "risk:c") := by rfl
  targeted_merge_exact_iff hparse distinctIds_sampleRisks

/-- A successor of the first risk may take the id of the second one, which is then there twice. -/
theorem successor_takes_id :
    _parse_targeted_fragments asciiLib .risks (sampleRevision "risk:b") sampleTargets true = .ok (sampleOutput "risk:b") ∧
      DistinctIds asciiLib .risks sampleRisks ∧
        ¬ ExactMerge asciiLib .risks sampleTargets.target_ids sampleRisks (sampleOutput "risk:b").fragments := by
  refine ⟨by rfl, distinctIds_sampleRisks, ?_⟩
  rintro ⟨merged, hmerged, key, before, after, hkey, -, hafter, hexact⟩
  have hmerge : _merge_step_fragments asciiLib .risks sampleRisks (.items [successorRisk "risk:b"]) =
      some [("risks", .arr [.obj (sampleRisk "risk:b"), .obj (successorRisk "risk:b")])] := by decide +kernel
  obtain rfl := Option.eq_some_unique hmerge hmerged
  obtain rfl : "risks" = key := Option.some.inj hkey
  obtain rfl : [.obj (sampleRisk "risk:b"), .obj (successorRisk "risk:b")] = after := Option.some.inj hafter
  exact absurd hexact.distinct (by decide +kernel)

end Approach

end AiOrg
