import AiOrg.Python.Base64
import AiOrg.Review.Objection

/-!
# Merged reviews

Of the objections that are the same by anchors and claim, the one raised first is left in the end,
however the merging is split over shards, axes and rounds (`mem_final`). So a round is as strong as what
was raised just when the first objection of each kind is (`final_as_strong_iff`).
-/

namespace AiOrg

namespace Review

open Selection (firstWith firsts)

variable {py : PyLib} {σ : Type}

structure Axis (σ : Type) where
  key : String
  reviewOne : Option σ → AxisReview
  shards : List σ

def Axis.raised (axis : Axis σ) : List Objection :=
  if axis.shards.isEmpty then (axis.reviewOne none).objections
  else (axis.shards.map fun shard => axis.reviewOne (some shard)).flatMap (·.objections)

def Axis.review (py : PyLib) (axis : Axis σ) : AxisReview :=
  _review_dimension_sharded py axis.key axis.reviewOne axis.shards

/-- The objections of the axes, as they go into the consolidation. -/
def rawObjections (py : PyLib) (axes : List (Axis σ)) : List Objection :=
  (axes.map (Axis.review py)).flatMap (·.objections)

/-- The consolidator failed, or came back without objections. -/
def Reply.Empty : Reply → Prop
  | .parsed consolidation => consolidation.deduplicatedObjections = []
  | _ => True

section Merge

variable {axes : List (Axis σ)} {reply : Reply} {o : Objection}

def raisedFirst (py : PyLib) (axes : List (Axis σ)) (k : List String × List Char) :
    Option Objection :=
  firstWith (mergeKey py) k (axes.flatMap Axis.raised)

theorem firstWith_dedupe (k : List String × List Char) (objections : List Objection) :
    firstWith (mergeKey py) k (_dedupe_objections py objections) =
      firstWith (mergeKey py) k objections :=
  Selection.firstWith_firsts List.not_mem_nil objections

theorem firstWith_review (k : List String × List Char) (axis : Axis σ) :
    firstWith (mergeKey py) k (axis.review py).objections =
      firstWith (mergeKey py) k axis.raised := by
  unfold Axis.review Axis.raised _review_dimension_sharded
  split_ifs
  · rfl
  · exact firstWith_dedupe k _

theorem firstWith_raw (k : List String × List Char) :
    firstWith (mergeKey py) k (rawObjections py axes) = raisedFirst py axes k := by
  rw [rawObjections, List.flatMap_map]
  exact Selection.firstWith_flatMap fun axis _ => firstWith_review k axis

/-- Without objections of the consolidator, the ones of the round are those raised first. -/
theorem mem_final (hreply : reply.Empty) :
    o ∈ finalObjections py (_aufheben_consolidate py reply (rawObjections py axes))
        (rawObjections py axes) ↔
      raisedFirst py axes (mergeKey py o) = some o := by
  have hkept : firstWith (mergeKey py) (mergeKey py o)
      (if (_aufheben_consolidate py reply (rawObjections py axes)).deduplicatedObjections.isEmpty then
        rawObjections py axes
      else (_aufheben_consolidate py reply (rawObjections py axes)).deduplicatedObjections) =
      raisedFirst py axes (mergeKey py o) := by
    rw [← firstWith_raw]
    cases reply with
    | parsed consolidation =>
      have hempty : consolidation.deduplicatedObjections = [] := hreply
      rw [_aufheben_consolidate, hempty, if_pos List.isEmpty_nil]
    | failed | invalid =>
      split_ifs
      · rfl
      · exact firstWith_dedupe _ _
  rw [finalObjections, _dedupe_objections, Selection.mem_firsts, hkept]

theorem derive_verdict_ne_ok {consolidation : Consolidation} {objections : List Objection}
    (ho : o ∈ objections) (hopen : o.openBlocking) :
    _derive_verdict consolidation objections ≠ .directionOk := by
  have hany : objections.any (·.openBlocking) := List.any_eq_true.2 ⟨o, ho, hopen⟩
  unfold _derive_verdict
  split_ifs <;> simp_all

/-- What was raised first of each kind is as strong as the others of its kind. -/
def FirstStrongest (py : PyLib) (rank : Objection → ℕ) (axes : List (Axis σ)) : Prop :=
  ∀ o ∈ axes.flatMap Axis.raised, ∀ first, raisedFirst py axes (mergeKey py o) = some first →
    (o.openBlocking → first.openBlocking) ∧ rank o ≤ rank first

/-- A round is as strong as what was raised: of the kind of each blocker a blocker is left, so that the
verdict is not direction-ok, and of each kind one of the highest rank. -/
structure KeepsStrength (py : PyLib) (rank : Objection → ℕ) (raised : List Objection)
    (consolidation : Consolidation) (final : List Objection) : Prop where
  blocking : ∀ o ∈ raised, o.openBlocking →
    ∃ kept ∈ final, mergeKey py kept = mergeKey py o ∧ kept.openBlocking
  verdict : (∃ o ∈ raised, o.openBlocking) → _derive_verdict consolidation final ≠ .directionOk
  strongest : ∀ o ∈ raised, ∃ kept ∈ final, mergeKey py kept = mergeKey py o ∧ rank o ≤ rank kept

/-- Merging keeps the strength just when the first of each kind is as strong as the others. -/
theorem final_as_strong_iff (py : PyLib) (rank : Objection → ℕ) (axes : List (Axis σ)) (reply : Reply)
    (hreply : reply.Empty) :
    KeepsStrength py rank (axes.flatMap Axis.raised)
      (_aufheben_consolidate py reply (rawObjections py axes))
      (finalObjections py (_aufheben_consolidate py reply (rawObjections py axes))
        (rawObjections py axes)) ↔ FirstStrongest py rank axes := by
  have hmem := fun o => @mem_final py _ axes _ o hreply
  constructor
  · intro h o ho first hfirst
    -- what is kept of a kind is what was raised first
    have hunique : ∀ kept, raisedFirst py axes (mergeKey py kept) = some kept →
        mergeKey py kept = mergeKey py o → kept = first := fun kept hkept hkey => by
      rw [hkey, hfirst] at hkept
      exact (Option.some.inj hkept).symm
    constructor
    · intro hopen
      obtain ⟨kept, hkept, hkey, hblocking⟩ := h.blocking o ho hopen
      exact hunique kept ((hmem kept).1 hkept) hkey ▸ hblocking
    · obtain ⟨kept, hkept, hkey, hrank⟩ := h.strongest o ho
      exact hunique kept ((hmem kept).1 hkept) hkey ▸ hrank
  · intro h
    have hfirst : ∀ o ∈ axes.flatMap Axis.raised, ∃ first,
        raisedFirst py axes (mergeKey py first) = some first ∧ mergeKey py first = mergeKey py o ∧
          (o.openBlocking → first.openBlocking) ∧ rank o ≤ rank first := fun o ho => by
      obtain ⟨first, hfirst⟩ := @Selection.exists_firstWith _ _ _ (mergeKey py) _ _ ho
      have hkey : mergeKey py first = mergeKey py o := (Selection.firstWith_mem hfirst).2
      obtain ⟨hopen, hrank⟩ := h o ho first hfirst
      exact ⟨first, by rw [hkey]; exact hfirst, hkey, hopen, hrank⟩
    refine ⟨fun o ho hblocking => ?_, fun ⟨o, ho, hblocking⟩ => ?_, fun o ho => ?_⟩
    · obtain ⟨first, hraised, hkey, hopen, -⟩ := hfirst o ho
      exact ⟨first, (hmem first).2 hraised, hkey, hopen hblocking⟩
    · obtain ⟨first, hraised, -, hopen, -⟩ := hfirst o ho
      exact derive_verdict_ne_ok ((hmem first).2 hraised) (hopen hblocking)
    · obtain ⟨first, hraised, hkey, -, hrank⟩ := hfirst o ho
      exact ⟨first, (hmem first).2 hraised, hkey, hrank⟩

end Merge

section Example

def sampleObjection (id : String) (type : ObjectionType) : Objection where
  objectionId := id
  anchorNodeIds := ["problem"]
  axis := "need"
  type := type
  claim := "no rollback"
  evidence := [⟨"tree_node", "problem", []⟩]
  impact := "data loss"
  requestedAuthorAction := .reviseSubtree
  resolutionAuthority := .author
  status := .opened
  reviewerConfidence := "high"
  reviewedScope := "problem"

/-- Two axes that raise the same objection, the first as a suggestion. -/
def sampleAxes : List (Axis Unit) :=
  [⟨"need", fun _ => ⟨"need", .directionReviewedBy,
      [sampleObjection "n1" .nonblockingSuggestion], 1, []⟩, []⟩,
    ⟨"compat", fun _ => ⟨"compat", .objectionsPending, [sampleObjection "c1" .blocking], 1, []⟩, []⟩]

/-- The consolidation of `sampleAxes`, where the consolidator fails. -/
def sampleConsolidation : Consolidation :=
  _aufheben_consolidate asciiLib (.failed "timeout") (rawObjections asciiLib sampleAxes)

/-- A blocker is raised, none is left and the verdict is direction-ok. -/
theorem blocker_lost :
    (∃ o ∈ sampleAxes.flatMap Axis.raised, o.openBlocking) ∧
    (∀ kept ∈ finalObjections asciiLib sampleConsolidation (rawObjections asciiLib sampleAxes),
      ¬ kept.openBlocking) ∧
    _derive_verdict sampleConsolidation
      (finalObjections asciiLib sampleConsolidation (rawObjections asciiLib sampleAxes)) =
        .directionOk := by
  refine ⟨⟨sampleObjection "c1" .blocking, by decide, by decide⟩, ?_, ?_⟩
  · decide +kernel
  · decide +kernel

theorem final_as_strong_iff_lost :
    KeepsStrength asciiLib (fun _ => 0) (sampleAxes.flatMap Axis.raised) sampleConsolidation
      (finalObjections asciiLib sampleConsolidation (rawObjections asciiLib sampleAxes)) ↔
    FirstStrongest asciiLib (fun _ => 0) sampleAxes :=
  final_as_strong_iff asciiLib (fun _ => 0) sampleAxes (.failed "timeout") trivial

end Example

end Review

end AiOrg
