import AiOrg.Proofs.Continuity
import AiOrg.Python.Mapping

/-!
# References of the root

The remap sets dead ends of the root's links to their only successor. A walk for nodes and declarations sees the same
before and after it (`walk_remap`), so the remapped tree has the nodes and the replacements of the revised one. Hence what
was set is a node now, nothing is set a second time, and the gate finds nothing new (`remap_sound`).
-/

namespace AiOrg

open List

namespace Reform

/-- An end of a link that was no node, and whose only successor stands there now. -/
def EndMoved (py : PyLib) (previous : Json) (revised remapped link moved : Fields) (endpoint : String) : Prop :=
  (endpoint = "from" ∨ endpoint = "to") ∧ ∃ target successor, link.get endpoint = .str target ∧
    ¬ IsNode target (.obj revised) ∧ successors (_revision_replacements py previous (.obj revised)) target = [successor] ∧
    moved.get endpoint = .str successor ∧ IsNode successor (.obj remapped)

/-- A link and what became of it: the same keys, and the same values but for ends that moved. -/
inductive LinkMoved (py : PyLib) (previous : Json) (revised remapped : Fields) : Json → Json → Prop
  | link {link moved : Fields} (keys : moved.map Prod.fst = link.map Prod.fst)
      (ends : ∀ key, moved.lookup key = link.lookup key ∨ EndMoved py previous revised remapped link moved key) :
      LinkMoved py previous revised remapped (.obj link) (.obj moved)
  | other {value : Json} (h : ∀ link, value ≠ .obj link) : LinkMoved py previous revised remapped value value

/-- A tree and what became of it. -/
structure Remapped (py : PyLib) (previous : Json) (revised remapped : Fields) : Prop where
  frame : ∀ key, key ≠ "cross_links" → remapped.lookup key = revised.lookup key
  links : ∀ links, revised.get "cross_links" = .arr links → ∃ moved, remapped.get "cross_links" = .arr moved ∧
    Forall₂ (LinkMoved py previous revised remapped) links moved
  other : (∀ links, revised.get "cross_links" ≠ .arr links) → remapped = revised
  violations : ∀ objections, ∀ violation ∈ _revision_continuity_violations py previous (.obj remapped) objections,
    violation ∈ _revision_continuity_violations py previous (.obj revised) objections
  again : _remap_root_reference_ids py previous remapped = remapped

section Successors

variable {py : PyLib} {previous revised : Json}

theorem successor_of_nodeReplacements {value : Json} {replacement : Replacement}
    (h : replacement ∈ nodeReplacements py value) : nodeId value = some replacement.successorNodeId := by
  rw [nodeReplacements.eq_def] at h
  split at h
  · rename_i fields id hid
    rw [hid]
    rcases mem_append.1 h with h | h
    · split at h
      · split_ifs at h
        · cases h
        · rw [mem_singleton.1 h]
      · cases h
    · split at h
      · obtain ⟨item, -, hitem⟩ := mem_filterMap.1 h
        rw [reconciledReplacement.eq_def] at hitem
        split at hitem
        · split at hitem
          · split_ifs at hitem
            rw [← Option.some.inj hitem]
          · cases hitem
        · cases hitem
      · cases h
  · cases h

theorem isNode_of_declared {replacement : Replacement} (h : replacement ∈ _tree_replacement_declarations py revised) :
    IsNode replacement.successorNodeId revised := by
  rw [_tree_replacement_declarations, mem_insertionSort] at h
  obtain ⟨value, hvalue, hmem⟩ := mem_flatMap.1 h
  exact ⟨value, Json.mem_preorder.1 hvalue, successor_of_nodeReplacements hmem⟩

theorem mem_after_of_implied {before after : List String} {declared : List Replacement} {replacement : Replacement}
    (h : replacement ∈ _implied_replacement_declarations before after declared) :
    replacement.successorNodeId ∈ after := by
  rw [_implied_replacement_declarations] at h
  rcases mem_append.1 h with h | h
  · obtain ⟨declaration, -, heq⟩ := mem_filterMap.1 h
    simp only at heq
    split_ifs at heq with hmem
    rw [← Option.some.inj heq]
    exact hmem.2
  · obtain ⟨front, -, h⟩ := mem_flatMap.1 h
    simp only at h
    split at h
    · rename_i old new _ hnew
      rw [mem_singleton.1 h]
      have hmem : new ∈ sorted (after.filter fun id => startsWith id [front] && id ∉ before) := by
        rw [hnew]
        exact mem_singleton.2 rfl
      exact mem_of_mem_filter (mem_sorted.1 hmem)
    · cases h

theorem isNode_of_successor {id successor : String}
    (h : successors (_revision_replacements py previous revised) id = [successor]) : IsNode successor revised := by
  have hmem : successor ∈ successors (_revision_replacements py previous revised) id := by
    rw [h]
    exact mem_singleton.2 rfl
  rw [successors] at hmem
  obtain ⟨replacement, hreplacement, rfl⟩ := mem_map.1 hmem
  have hreplacement := mem_of_mem_filter hreplacement
  rw [_revision_replacements] at hreplacement
  rcases mem_append.1 hreplacement with h | h
  · exact isNode_of_declared h
  · exact mem_nodeIds.1 (mem_after_of_implied h)

end Successors

section Ends

variable {known : List String} {replacements : List Replacement} {link : Fields} {endpoint : String}

theorem textAt_set_of_ne {key other : String} (value : Json) (h : other ≠ key) :
    textAt (link.set key value) other = textAt link other := by
  rw [textAt, textAt, Fields.get_set_of_ne _ _ h]

theorem lookup_of_get_ne_null {value : Json} (h : link.get endpoint = value) (hne : value ≠ .null) :
    link.lookup endpoint = some value := by
  rw [Fields.get] at h
  cases hlookup : link.lookup endpoint with
  | none =>
    rw [hlookup] at h
    exact absurd h.symm hne
  | some other =>
    rw [hlookup, Option.getD_some] at h
    rw [h]

theorem get_of_textAt {text : String} (h : textAt link endpoint = some text) : link.get endpoint = .str text := by
  rw [textAt] at h
  split at h
  · rename_i heq
    split_ifs at h
    rw [heq, Option.some.inj h]
  · cases h

theorem textAt_of_get {text : String} (h : link.get endpoint = .str text) :
    textAt link endpoint = if text = "" then none else some text := by
  rw [textAt, h]

def movedTo (known : List String) (replacements : List Replacement) (link : Fields) (endpoint : String) : Option String :=
  (textAt link endpoint).bind fun target =>
    if target ∉ known ∧ startsWith target syntheticCrossLinkPrefixes = false then
      match successors replacements target with
      | [successor] => some successor
      | _ => none
    else none

theorem remapEndpoint_eq : remapEndpoint known replacements link endpoint =
    ((movedTo known replacements link endpoint).map fun successor => link.set endpoint (.str successor)).getD link := by
  rw [remapEndpoint, movedTo]
  cases textAt link endpoint with
  | none => rfl
  | some target =>
    simp only [Option.bind_some]
    split_ifs
    · rcases successors replacements target with _ | ⟨successor, _ | _⟩ <;> rfl
    · rfl

theorem movedTo_eq_some {successor : String} (h : movedTo known replacements link endpoint = some successor) :
    ∃ target, link.get endpoint = .str target ∧ target ∉ known ∧ successors replacements target = [successor] := by
  rw [movedTo, Option.bind_eq_some_iff] at h
  obtain ⟨target, htext, h⟩ := h
  split_ifs at h with hdead
  split at h
  · rename_i heq
    rw [Option.some.inj h] at heq
    exact ⟨target, get_of_textAt htext, hdead.1, heq⟩
  · cases h

theorem movedTo_of_mem {target : String} (h : link.get endpoint = .str target) (hmem : target ∈ known) :
    movedTo known replacements link endpoint = none := by
  rw [movedTo, textAt_of_get h]
  by_cases hempty : target = ""
  · rw [if_pos hempty]
    rfl
  · rw [if_neg hempty, Option.bind_some, if_neg (by simp [hmem])]

def remapLink (known : List String) (replacements : List Replacement) (link : Fields) : Fields :=
  remapEndpoint known replacements (remapEndpoint known replacements link "from") "to"

theorem lookup_remapEndpoint (key : String) : (remapEndpoint known replacements link endpoint).lookup key =
    if key = endpoint then ((movedTo known replacements link endpoint).map Json.str).or (link.lookup endpoint)
    else link.lookup key := by
  rw [remapEndpoint_eq]
  cases movedTo known replacements link endpoint with
  | none =>
    split_ifs with h
    · rw [h]
      rfl
    · rfl
  | some successor =>
    rw [Option.map_some, Option.getD_some, Fields.lookup_set]
    rfl

theorem movedTo_remapEndpoint_of_ne {other : String} (h : endpoint ≠ other) :
    movedTo known replacements (remapEndpoint known replacements link other) endpoint =
      movedTo known replacements link endpoint := by
  rw [movedTo, movedTo, textAt, textAt, Fields.get, Fields.get, lookup_remapEndpoint, if_neg h]

theorem keys_remapEndpoint : (remapEndpoint known replacements link endpoint).map Prod.fst = link.map Prod.fst := by
  rw [remapEndpoint_eq]
  cases hmoved : movedTo known replacements link endpoint with
  | none => rfl
  | some successor =>
    obtain ⟨target, htarget, -⟩ := movedTo_eq_some hmoved
    exact Fields.keys_set_of_mem (mem_map.2 ⟨_, Fields.mem_of_lookup (lookup_of_get_ne_null htarget (by simp)), rfl⟩)

theorem lookup_remapLink (key : String) : (remapLink known replacements link).lookup key =
    if key = "from" ∨ key = "to" then ((movedTo known replacements link key).map Json.str).or (link.lookup key)
    else link.lookup key := by
  rw [remapLink, lookup_remapEndpoint]
  by_cases hto : key = "to"
  · rw [if_pos hto, if_pos (.inr hto), movedTo_remapEndpoint_of_ne (by decide), lookup_remapEndpoint,
      if_neg (by decide), hto]
  · rw [if_neg hto, lookup_remapEndpoint]
    by_cases hfrom : key = "from"
    · rw [if_pos hfrom, if_pos (.inl hfrom), hfrom]
    · rw [if_neg hfrom, if_neg (not_or.2 ⟨hfrom, hto⟩)]

theorem movedTo_remapLink (hknown : ∀ target successor, successors replacements target = [successor] → successor ∈ known)
    (hend : endpoint = "from" ∨ endpoint = "to") :
    movedTo known replacements (remapLink known replacements link) endpoint = none := by
  have hlookup := @lookup_remapLink known replacements link endpoint
  rw [if_pos hend] at hlookup
  cases hmoved : movedTo known replacements link endpoint with
  | none =>
    rw [hmoved, Option.map_none, Option.none_or] at hlookup
    rw [movedTo, textAt, Fields.get, hlookup]
    exact hmoved
  | some successor =>
    rw [hmoved] at hlookup
    obtain ⟨target, -, -, hsingle⟩ := movedTo_eq_some hmoved
    refine movedTo_of_mem ?_ (hknown target successor hsingle)
    rw [Fields.get, hlookup]
    rfl

theorem remapEndpoint_of_movedTo (h : movedTo known replacements link endpoint = none) :
    remapEndpoint known replacements link endpoint = link := by
  rw [remapEndpoint_eq, h]
  rfl

theorem remapLink_remapLink
    (hknown : ∀ target successor, successors replacements target = [successor] → successor ∈ known) :
    remapLink known replacements (remapLink known replacements link) = remapLink known replacements link := by
  rw [remapLink, remapEndpoint_of_movedTo (movedTo_remapLink hknown (.inl rfl)),
    remapEndpoint_of_movedTo (movedTo_remapLink hknown (.inr rfl))]

end Ends

section Walks

variable {py : PyLib}

/-- Two values that a walk for nodes and declarations does not tell apart. -/
structure SameNode (py : PyLib) (a b : Json) : Prop where
  id : nodeId a = nodeId b
  declared : nodeReplacements py a = nodeReplacements py b

def nodeKeys : List String := ["id", "replaces", "replacement_reason", "reconciled_replaces"]

theorem sameNode_refl (value : Json) : SameNode py value value := ⟨rfl, rfl⟩

theorem sameNode_set {fields : Fields} {key : String} (value : Json) (h : key ∉ nodeKeys) :
    SameNode py (.obj fields) (.obj (fields.set key value)) := by
  have hget : ∀ other ∈ nodeKeys, (fields.set key value).get other = fields.get other := fun other hother =>
    Fields.get_set_of_ne _ _ (ne_of_mem_of_not_mem hother h)
  have hid : nodeId (.obj (fields.set key value)) = nodeId (.obj fields) := by
    rw [nodeId, nodeId, textAt_set_of_ne value (ne_of_mem_of_not_mem (by decide) h)]
  refine ⟨hid.symm, ?_⟩
  rw [nodeReplacements.eq_def, nodeReplacements.eq_def, hid]
  cases nodeId (.obj fields) with
  | none => rfl
  | some id =>
    simp only [hget "replaces" (by decide), hget "replacement_reason" (by decide),
      hget "reconciled_replaces" (by decide)]

theorem forall₂_sameNode_refl (values : List Json) : Forall₂ (SameNode py) values values :=
  forall₂_same.2 fun value _ => sameNode_refl value

theorem walk_set {fields : Fields} {key : String} {old new : Json} (hlookup : fields.lookup key = some old)
    (h : Forall₂ (SameNode py) old.preorder new.preorder) :
    Forall₂ (SameNode py) (Json.preorderFields fields) (Json.preorderFields (fields.set key new)) := by
  induction fields with
  | nil => cases hlookup
  | cons entry fields ih =>
    obtain ⟨k, value⟩ := entry
    rw [Fields.lookup_cons_eq] at hlookup
    rw [Fields.set]
    by_cases hk : key = k
    · rw [if_pos hk, Option.some.injEq] at hlookup
      rw [if_pos hk.symm, Json.preorderFields, Json.preorderFields, hlookup]
      exact rel_append h (forall₂_sameNode_refl _)
    · rw [if_neg hk] at hlookup
      rw [if_neg (Ne.symm hk), Json.preorderFields, Json.preorderFields]
      exact rel_append (forall₂_sameNode_refl _) (ih hlookup)

theorem forall₂_sameNode_trans {xs ys zs : List Json} (h : Forall₂ (SameNode py) xs ys)
    (h' : Forall₂ (SameNode py) ys zs) : Forall₂ (SameNode py) xs zs := by
  induction h generalizing zs with
  | nil => exact h'
  | cons hxy _ ih =>
    obtain ⟨z, zs, hyz, hrest, rfl⟩ := forall₂_cons_left_iff.1 h'
    exact .cons ⟨hxy.id.trans hyz.id, hxy.declared.trans hyz.declared⟩ (ih hrest)

theorem walk_remapEndpoint {known : List String} {replacements : List Replacement} {link : Fields} {endpoint : String}
    (hend : endpoint ∉ nodeKeys) : Forall₂ (SameNode py) (Json.obj link).preorder
      (Json.obj (remapEndpoint known replacements link endpoint)).preorder := by
  rw [remapEndpoint_eq]
  cases hmoved : movedTo known replacements link endpoint with
  | none => exact forall₂_sameNode_refl _
  | some successor =>
    obtain ⟨target, htarget, -⟩ := movedTo_eq_some hmoved
    rw [Option.map_some, Option.getD_some, Json.preorder, Json.preorder]
    refine .cons (sameNode_set _ hend) (walk_set (lookup_of_get_ne_null htarget (by simp)) ?_)
    exact .cons ⟨rfl, rfl⟩ .nil

def remapItem (known : List String) (replacements : List Replacement) : Json → Json
  | .obj link => .obj (remapLink known replacements link)
  | item => item

theorem walk_remapItem {known : List String} {replacements : List Replacement} (item : Json) :
    Forall₂ (SameNode py) item.preorder (remapItem known replacements item).preorder := by
  cases item with
  | obj link =>
    exact forall₂_sameNode_trans (walk_remapEndpoint (by decide)) (walk_remapEndpoint (by decide))
  | _ => exact forall₂_sameNode_refl _

theorem walk_items {known : List String} {replacements : List Replacement} (links : List Json) :
    Forall₂ (SameNode py) (Json.arr links).preorder
      (Json.arr (links.map (remapItem known replacements))).preorder := by
  rw [Json.preorder, Json.preorder, Json.preorderItems_eq, Json.preorderItems_eq]
  refine .cons ⟨rfl, rfl⟩ ?_
  induction links with
  | nil => exact .nil
  | cons link links ih => exact rel_append (walk_remapItem link) ih

theorem map_eq_of_sameNode {α : Type} {f : Json → α} {xs ys : List Json} (h : Forall₂ (SameNode py) xs ys)
    (hf : ∀ a b, SameNode py a b → f a = f b) : xs.map f = ys.map f := by
  induction h with
  | nil => rfl
  | cons hxy _ ih => rw [map_cons, map_cons, hf _ _ hxy, ih]

variable {before after : Json}

theorem nodeIds_of_walk (h : Forall₂ (SameNode py) before.preorder after.preorder) :
    nodeIds after = nodeIds before := by
  have hmap := map_eq_of_sameNode h fun a b hab => hab.id
  have hids : ∀ values : List Json, values.filterMap nodeId = (values.map nodeId).filterMap id := fun values => by
    rw [filterMap_map]
    rfl
  rw [nodeIds, nodeIds, hids, hids, hmap]

theorem replacements_of_walk (previous : Json) (h : Forall₂ (SameNode py) before.preorder after.preorder) :
    _revision_replacements py previous after = _revision_replacements py previous before := by
  have hmap := map_eq_of_sameNode h fun a b hab => hab.declared
  rw [_revision_replacements, _revision_replacements, _tree_replacement_declarations, _tree_replacement_declarations,
    flatMap_def, flatMap_def, hmap, nodeIds_of_walk h]

end Walks

section Remap

variable (py : PyLib) (previous : Json) (revised : Fields)

def remappedLinks (links : List Json) : List Json :=
  links.map (remapItem (nodeIds (.obj revised)) (_revision_replacements py previous (.obj revised)))

variable {py previous revised} {links : List Json}

theorem remap_eq (hlinks : revised.get "cross_links" = .arr links) : _remap_root_reference_ids py previous revised =
    revised.set "cross_links" (.arr (remappedLinks py previous revised links)) := by
  have hitems : remappedLinks py previous revised links = links.map (fun link =>
      match link with
      | .obj link => .obj (remapEndpoint (nodeIds (.obj revised)) (_revision_replacements py previous (.obj revised))
          (remapEndpoint (nodeIds (.obj revised)) (_revision_replacements py previous (.obj revised)) link "from") "to")
      | link => link) := by
    refine map_congr_left fun link _ => ?_
    cases link <;> rfl
  rw [_remap_root_reference_ids, hlinks]
  simp only
  split_ifs with hsame
  · rw [show remappedLinks py previous revised links = links from hitems.trans hsame]
    exact (Fields.set_of_lookup (lookup_of_get_ne_null hlinks (by simp))).symm
  · exact congrArg (fun moved => revised.set "cross_links" (.arr moved)) hitems.symm

theorem remap_of_no_list (h : ∀ links, revised.get "cross_links" ≠ .arr links) :
    _remap_root_reference_ids py previous revised = revised := by
  rw [_remap_root_reference_ids]
  split
  · exact absurd ‹_› (h _)
  · rfl

/-- A walk for nodes and declarations sees the same before and after the remap. -/
theorem walk_remap (hlinks : revised.get "cross_links" = .arr links) :
    Forall₂ (SameNode py) (Json.obj revised).preorder
      (Json.obj (revised.set "cross_links" (.arr (remappedLinks py previous revised links)))).preorder := by
  rw [Json.preorder, Json.preorder]
  exact .cons (sameNode_set _ (by decide)) (walk_set (lookup_of_get_ne_null hlinks (by simp)) (walk_items links))

theorem remappedLinks_again (hlinks : revised.get "cross_links" = .arr links) :
    remappedLinks py previous (revised.set "cross_links" (.arr (remappedLinks py previous revised links)))
      (remappedLinks py previous revised links) = remappedLinks py previous revised links := by
  have hwalk := @walk_remap py previous revised links hlinks
  rw [remappedLinks, nodeIds_of_walk hwalk, replacements_of_walk previous hwalk, remappedLinks, map_map]
  refine map_congr_left fun link _ => ?_
  cases link with
  | obj link =>
    exact congrArg Json.obj (remapLink_remapLink fun target successor hsingle =>
      mem_nodeIds.2 (isNode_of_successor hsingle))
  | _ => rfl

theorem isNode_iff_of_walk {before after : Json} (h : Forall₂ (SameNode py) before.preorder after.preorder)
    (id : String) : IsNode id after ↔ IsNode id before := by
  rw [← mem_nodeIds, ← mem_nodeIds, nodeIds_of_walk h]

theorem linkMoved_remapItem {remapped : Fields} (hnodes : ∀ id, IsNode id (.obj remapped) ↔ IsNode id (.obj revised))
    (link : Json) : LinkMoved py previous revised remapped link
      (remapItem (nodeIds (.obj revised)) (_revision_replacements py previous (.obj revised)) link) := by
  cases link with
  | obj link =>
    refine .link (keys_remapEndpoint.trans keys_remapEndpoint) fun key => ?_
    rw [lookup_remapLink]
    split_ifs with hend
    · cases hmoved : movedTo (nodeIds (.obj revised)) (_revision_replacements py previous (.obj revised)) link key with
      | none => exact .inl rfl
      | some successor =>
        obtain ⟨target, htarget, hdead, hsingle⟩ := movedTo_eq_some hmoved
        refine .inr ⟨hend, target, successor, htarget, mt mem_nodeIds.2 hdead, hsingle, ?_,
          (hnodes successor).2 (isNode_of_successor hsingle)⟩
        rw [Fields.get, lookup_remapLink, if_pos hend, hmoved]
        rfl
    · exact .inl rfl
  | _ => exact .other fun link h => by cases h

theorem mem_linkReferences_remapItem {known : List String} {replacements : List Replacement} {current : String}
    (hknown : ∀ target successor, successors replacements target = [successor] → successor ∈ known)
    {link : Json} {reference : Reference}
    (h : reference ∈ linkReferences current (remapItem known replacements link)) :
    reference ∈ linkReferences current link ∨ reference.reference ∈ known := by
  cases link with
  | obj link =>
    rw [remapItem, linkReferences, mem_filterMap] at h
    obtain ⟨endpoint, hend, h⟩ := h
    have hends : endpoint = "from" ∨ endpoint = "to" := by simpa using hend
    cases hmoved : movedTo known replacements link endpoint with
    | none =>
      have htext : textAt (remapLink known replacements link) endpoint = textAt link endpoint := by
        rw [textAt, textAt, Fields.get, Fields.get, lookup_remapLink, if_pos hends, hmoved, Option.map_none,
          Option.none_or]
      rw [htext] at h
      exact .inl (mem_filterMap.2 ⟨endpoint, hend, h⟩)
    | some successor =>
      obtain ⟨target, -, -, hsingle⟩ := movedTo_eq_some hmoved
      have hget : (remapLink known replacements link).get endpoint = .str successor := by
        rw [Fields.get, lookup_remapLink, if_pos hends, hmoved]
        rfl
      rw [textAt_of_get hget] at h
      refine .inr ?_
      by_cases hempty : successor = ""
      · rw [if_pos hempty] at h
        cases h
      · rw [if_neg hempty] at h
        simp only at h
        split_ifs at h
        all_goals
          rw [← Option.some.inj h]
          exact hknown target successor hsingle
  | _ => exact .inl h

theorem referencesInFields_set (holder : String) (fields : Fields) (value : Json) :
    referencesInFields holder (fields.set "cross_links" value) = referencesInFields holder fields := by
  induction fields with
  | nil => simp [Fields.set, referencesInFields]
  | cons entry fields ih =>
    obtain ⟨key, old⟩ := entry
    rw [Fields.set]
    split_ifs with hkey
    · rw [referencesInFields, referencesInFields, if_pos hkey, if_pos hkey]
    · rw [referencesInFields, referencesInFields, ih]

theorem mem_references_remap (hlinks : revised.get "cross_links" = .arr links) {reference : Reference}
    (h : reference ∈ _id_typed_tree_references
      (.obj (revised.set "cross_links" (.arr (remappedLinks py previous revised links))))) :
    reference ∈ _id_typed_tree_references (.obj revised) ∨ reference.reference ∈ nodeIds (.obj revised) := by
  have hknown : ∀ target successor, successors (_revision_replacements py previous (.obj revised)) target = [successor] →
      successor ∈ nodeIds (.obj revised) := fun target successor hsingle =>
    mem_nodeIds.2 (isNode_of_successor hsingle)
  have hfields : ∀ field ∈ idTypedReferenceFields,
      textAt (revised.set "cross_links" (.arr (remappedLinks py previous revised links))) field = textAt revised field :=
    fun field hfield => textAt_set_of_ne _ (ne_of_mem_of_not_mem hfield (by decide))
  rw [_id_typed_tree_references, referencesIn, textAt_set_of_ne _ (by decide), referencesInFields_set,
    ownReferences, Fields.get_set_self] at h
  rw [_id_typed_tree_references, referencesIn, ownReferences, hlinks]
  simp only [mem_append] at h ⊢
  rcases h with (h | h) | h
  · refine .inl (.inl (.inl ?_))
    obtain ⟨field, hfield, h⟩ := mem_filterMap.1 h
    rw [hfields field hfield] at h
    exact mem_filterMap.2 ⟨field, hfield, h⟩
  · obtain ⟨item, hitem, h⟩ := mem_flatMap.1 h
    obtain ⟨link, hlink, rfl⟩ := mem_map.1 hitem
    rcases mem_linkReferences_remapItem hknown h with h | h
    · exact .inl (.inl (.inr (mem_flatMap.2 ⟨link, hlink, h⟩)))
    · exact .inr h
  · exact .inl (.inr h)

theorem violations_remap (hlinks : revised.get "cross_links" = .arr links) (objections : List Fields)
    {violation : String} (h : violation ∈ _revision_continuity_violations py previous
      (.obj (revised.set "cross_links" (.arr (remappedLinks py previous revised links)))) objections) :
    violation ∈ _revision_continuity_violations py previous (.obj revised) objections := by
  have hwalk := @walk_remap py previous revised links hlinks
  rw [_revision_continuity_violations, nodeIds_of_walk hwalk, replacements_of_walk previous hwalk] at h
  rw [_revision_continuity_violations]
  refine mem_dedupe.2 ?_
  rcases mem_append.1 (mem_dedupe.1 h) with h | h
  · refine mem_append_left _ ?_
    obtain ⟨reference, hreference, rfl⟩ := mem_map.1 h
    obtain ⟨hmem, hdangling⟩ := mem_filter.1 hreference
    refine mem_map_of_mem (mem_filter.2 ⟨(mem_references_remap hlinks hmem).resolve_right ?_, hdangling⟩)
    intro hnode
    rw [resolves, decide_eq_true hnode] at hdangling
    cases hdangling
  · exact mem_append_right _ h

/-- **The remap is sound and stable**: links stay in their places, an end moves from no node to its only successor, which
is a node, the gate finds nothing that it did not find before, and a second remap changes nothing. -/
theorem remap_sound (py : PyLib) (previous : Json) (revised : Fields) :
    Remapped py previous revised (_remap_root_reference_ids py previous revised) := by
  by_cases hlist : ∃ links, revised.get "cross_links" = .arr links
  · obtain ⟨links, hlinks⟩ := hlist
    have hwalk := @walk_remap py previous revised links hlinks
    have hagain : _remap_root_reference_ids py previous
        (revised.set "cross_links" (.arr (remappedLinks py previous revised links))) =
          revised.set "cross_links" (.arr (remappedLinks py previous revised links)) := by
      rw [remap_eq (Fields.get_set_self _ _ _), remappedLinks_again hlinks]
      exact Fields.set_of_lookup (by rw [Fields.lookup_set, if_pos rfl])
    rw [remap_eq hlinks]
    exact {
      frame := fun key hkey => by rw [Fields.lookup_set, if_neg hkey]
      links := fun other hother => by
        obtain rfl : links = other := by
          rw [hlinks] at hother
          exact Json.arr.inj hother
        refine ⟨_, Fields.get_set_self _ _ _, ?_⟩
        rw [remappedLinks, forall₂_map_right_iff, forall₂_same]
        exact fun link _ => linkMoved_remapItem (isNode_iff_of_walk hwalk) link
      other := fun hnone => absurd hlinks (hnone links)
      violations := fun objections violation => violations_remap hlinks objections
      again := hagain }
  · have hnone : ∀ links, revised.get "cross_links" ≠ .arr links := fun links h => hlist ⟨links, h⟩
    have hsame := @remap_of_no_list py previous revised hnone
    rw [hsame]
    exact ⟨fun _ _ => rfl, fun links h => absurd h (hnone links), fun _ => rfl, fun _ _ h => h, hsame⟩

end Remap

end Reform

end AiOrg
